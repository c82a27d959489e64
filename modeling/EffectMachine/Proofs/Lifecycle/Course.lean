import EffectMachine.Proofs.Lifecycle.Finalization

/-!
# The course of a managed operation

When the outcome of a managed operation is delivered to its manager, the whole lifecycle takes its course: the
attempt, the report of its error, and the finalization with the error that was reported, even if that report
failed.

`Runs.course_of_managed` is the main statement.  It says what is done, in which order and by which hooks, what each
stage is told, and what the operation ends with.
-/

namespace EffectMachine

open Manager in
/-- Once a process is at rest, a managed operation whose lifecycle was begun and whose outcome was delivered, if it
was run at all, has taken its whole course: it was attempted, the listeners were told of the error if there was
one, and all of them were finalized with that error at the very end.  It ends with a value exactly when the operation
gave that value and no hook on the way failed; otherwise it ends with the failure of the last stage that failed. -/
theorem Runs.course_of_managed {machine : Machine} {first : Host} {trace : Trace} {system : System} {task : TaskId}
    {number : Nat} {manager : Manager} {operation : Effect} {context : Context} {name : Option String}
    {tag : Option HandlerTag} (runs : Runs machine first trace system) (hrest : system.AtRest task)
    (hpushed : .pushed ⟨name, manager.execute operation context⟩ tag ∈ life (deeds trace task) number)
    (hbegun : resumptions (life (deeds trace task) number) ≠ [])
    (hdelivered : .performed (.next operation false) ∈ life (deeds trace task) number →
      answers (life (deeds trace task) number) ≠ []) :
    ∃ begun attempt reporting finalizing attempted reported result,
      strides (life (deeds trace task) number) =
        .resumed begun :: attempt ++ reporting ++ finalizing ++ [.completed result] ∧
      manager.Attempt operation context attempt attempted ∧
      manager.Reporting attempted reporting reported ∧
      manager.Closing attempted.failure? reported finalizing result ∧
      ∀ value, result = .ok value ↔ answers (life (deeds trace task) number) = [.ok value] ∧
        ∀ listener ∈ manager.listeners, (listener.prepare context).failure? = none ∧
          (listener.preComplete value).failure? = none ∧ (listener.complete value).failure? = none ∧
          (listener.finalize none).failure? = none := by
  -- what comes no further than the operation has received no outcome
  have hanswered {begun : Outcome} {earlier more : List Act} (halone : Alone earlier) (hmore : resumptions more = [])
      (hstrides : strides (life (deeds trace task) number) =
        .resumed begun :: earlier ++ .performed (.next operation false) :: more) : False := by
    have hperformed : .performed (.next operation false) ∈ strides (life (deeds trace task) number) := by
      simp [hstrides]
    refine hdelivered (mem_strides.1 hperformed).1 ?_
    rw [answers, ← resumptions_strides, hstrides, resumptions_append]
    have hearlier : resumptions (.resumed begun :: earlier) = [begun] :=
      congrArg (_ :: ·) (resumptions_of_alone halone)
    have hlater : resumptions (.performed (.next operation false) :: more) = [] := hmore
    rw [hearlier, hlater]
    rfl
  have hstopped := runs.stopped hrest hpushed
  generalize hstrides : strides (life (deeds trace task) number) = strode at hstopped
  cases hstopped with
  | unbegun =>
      rw [← resumptions_strides, hstrides] at hbegun
      exact absurd rfl hbegun
  | givenUp begun effect hstops =>
      -- it is given up while it waits for the operation
      rcases stops_execute hstops with
        ⟨attempt, reporting, rest, attempted, reported, hpath, -, -, -, hstops⟩ | ⟨earlier, resume, hpath, -, hprepared⟩
      · obtain ⟨finalizing, result, rfl, -⟩ := stops_finish hstops
        rw [← List.append_assoc, ← List.append_assoc] at hpath
        cases (List.append_inj' hpath rfl).2
      · obtain ⟨rfl, hperformed⟩ := List.append_inj' hpath rfl
        cases hperformed
        exact (hanswered hprepared.1 rfl hstrides).elim
  | byItself begun hstops =>
      rcases stops_execute hstops with
        ⟨attempt, reporting, rest, attempted, reported, rfl, -, hattempt, hreporting, hstops⟩ |
        ⟨earlier, resume, rfl, -, hprepared⟩
      · obtain ⟨finalizing, result, rfl, hclosing⟩ := stops_finish hstops
        refine ⟨begun, attempt, reporting, finalizing, attempted, reported, result, by simp, hattempt, hreporting, hclosing,
          fun value => ?_⟩
        -- the operation is all that the computation is resumed after
        have hresumed : resumptions (life (deeds trace task) number) = begun :: resumptions attempt := by
          have hlater : resumptions (reporting ++ (finalizing ++ [.completed result])) = [] := by
            rw [resumptions_append, resumptions_append, resumptions_of_alone hreporting.alone,
              resumptions_of_alone hclosing.alone]
            rfl
          rw [← resumptions_strides, hstrides, ← List.cons_append, resumptions_append, hlater, List.append_nil]
          rfl
        rw [hclosing.eq_ok_iff hreporting, hattempt.eq_ok_iff, answers, hresumed, List.tail_cons, and_assoc]
        refine and_congr_right fun _ => ?_
        rw [← forall₂_and]
        exact forall₂_congr fun _ _ => by simp only [and_assoc]
      · exact (hanswered hprepared.1 rfl hstrides).elim

/-- A plain run of the watchful manager is begun, and its outcome is delivered. -/
theorem Manager.course_of_plain :
    ∃ begun attempt reporting finalizing attempted reported result,
      strides (life (deeds plain.1 ⟨0⟩) 1) =
        .resumed begun :: attempt ++ reporting ++ finalizing ++ [.completed result] ∧
      watchful.Attempt (.start (.bare (.ready (.int 1)))) (.blank 0) attempt attempted ∧
      watchful.Reporting attempted reporting reported ∧
      watchful.Closing attempted.failure? reported finalizing result ∧
      ∀ value, result = .ok value ↔ answers (life (deeds plain.1 ⟨0⟩) 1) = [.ok value] ∧
        ∀ listener ∈ watchful.listeners, (listener.prepare (.blank 0)).failure? = none ∧
          (listener.preComplete value).failure? = none ∧ (listener.complete value).failure? = none ∧
          (listener.finalize none).failure? = none := by
  have hruns : Runs watching _ plain.1 plain.2 := Runs.submitted watching (.blank 0) _ 41
  have hrest : plain.2.AtRest ⟨0⟩ := .of_isNone (by decide +kernel)
  have hresumed : (resumptions (life (deeds plain.1 ⟨0⟩) 1)).length = 2 := by decide +kernel
  refine hruns.course_of_managed hrest (mem_life_submitting _ 40 rfl) (fun hnone => ?_) fun _ hnone => ?_
  · rw [hnone] at hresumed
    cases hresumed
  · rw [← List.length_eq_zero_iff, answers, List.length_tail, hresumed] at hnone
    cases hnone

end EffectMachine
