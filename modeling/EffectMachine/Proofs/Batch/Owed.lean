import EffectMachine.Proofs.Batch.Delivery
import EffectMachine.Proofs.Protocol.Resumption

/-!
# Calls that are owed an answer

A flush owes an answer to the calls that it has collected.  As long as it waits for the function, nobody else gives them
one: their slots are pending.

* `Batch.unresumed_of_flush` says that a flush waits at one point only, where the function has not returned to it.
* `Batch.Setting.pending_of_answerable` says that the slots are pending that a waiting computation is answerable for.
-/

namespace EffectMachine

namespace Follows

variable {acts : List Act} {resume : Outcome → Body}

/-! ## How a computation comes to wait -/

theorem waits_of_fresh {body : Body} (follows : Follows (.fresh body) acts (.suspended resume)) :
    ∃ begun rest, acts = .resumed begun :: rest ∧ Follows (.running body) rest (.suspended resume) := by
  cases follows with
  | begin rest => exact ⟨_, _, rfl, rest⟩
  | giveUp _ rest =>
      cases rest with
      | giveUp hgoing _ => exact absurd rfl hgoing

theorem waits_of_act {action : Action} {further : action.Reply → Body}
    (follows : Follows (.running (.act action further)) acts (.suspended resume)) :
    ∃ reply rest, acts = .acted action reply :: rest ∧ Follows (.running (further reply)) rest (.suspended resume) := by
  cases follows with
  | act rest => exact ⟨_, _, rfl, rest⟩
  | giveUp _ rest =>
      cases rest with
      | giveUp hgoing _ => exact absurd rfl hgoing

theorem waits_of_perform {effect : Effect} {further : Outcome → Body}
    (follows : Follows (.running (.perform effect further)) acts (.suspended resume)) :
    acts = [.performed effect] ∨ ∃ answer rest, acts = .performed effect :: .resumed answer :: rest ∧
      Follows (.running (further answer)) rest (.suspended resume) := by
  cases follows with
  | perform rest =>
      cases rest with
      | done => exact .inl rfl
      | resume rest => exact .inr ⟨_, _, rfl, rest⟩
      | giveUp _ rest =>
          cases rest with
          | giveUp hgoing _ => exact absurd rfl hgoing
  | giveUp _ rest =>
      cases rest with
      | giveUp hgoing _ => exact absurd rfl hgoing

theorem not_waits_of_done {outcome : Outcome} : ¬ Follows (.running (.done outcome)) acts (.suspended resume) := by
  intro follows
  cases follows with
  | complete rest | giveUp _ rest =>
      cases rest with
      | giveUp hgoing _ => exact absurd rfl hgoing

/-- A computation that waits has not ended. -/
theorem not_ends_of_waits {first last : Progress} (follows : Follows first acts last) (hwaits : last = .suspended resume)
    {act : Act} (hmem : act ∈ acts) (hstride : act.isStride = true) : act.ends = false := by
  induction follows with
  | done => cases hmem
  | complete rest | giveUp _ rest | vacate rest =>
      subst hwaits
      cases rest with
      | giveUp hgoing _ => exact absurd rfl hgoing
  | _ =>
      rename_i ih
      rcases List.mem_cons.1 hmem with rfl | hrest
      · rfl
      · exact ih hwaits hrest

end Follows

namespace Batch

variable {acts : List Act} {resume : Outcome → Body} {group : BatchGroup} {function : Function}

/-- Nobody is waited for while calls are answered. -/
theorem not_waits_answerEach (answers : List (Slot × Outcome)) :
    ¬ Follows (.running (answerEach (.ok .null) answers)) acts (.suspended resume) := by
  induction answers generalizing acts with
  | nil => exact Follows.not_waits_of_done
  | cons answer answers ih =>
      intro follows
      obtain ⟨reply, rest, -, hrest⟩ := follows.waits_of_act
      exact ih hrest

/-- A flush that has its turn waits for the function only. -/
theorem waits_of_flushNow (follows : Follows (.running (flushNow group function)) acts (.suspended resume)) :
    resumptions acts = [] := by
  obtain ⟨calls, collected, rfl, hcollected⟩ := follows.waits_of_act
  obtain ⟨_, asked, rfl, hasked⟩ := hcollected.waits_of_act
  rcases hasked.waits_of_perform with rfl | ⟨returned, rest, rfl, hreturned⟩
  · rfl
  · -- when the function has returned, nothing is left to wait for
    refine absurd hreturned fun hreplies => ?_
    dsimp only at hreplies
    split at hreplies
    · exact not_waits_answerEach _ hreplies
    · obtain ⟨_, more, -, hmore⟩ := hreplies.waits_of_act
      exact not_waits_answerEach _ hmore

/-- A flush that waits has begun, and was not resumed since. -/
theorem unresumed_of_flush {window : Nat}
    (follows : Follows (.fresh (flush group function window).body) acts (.suspended resume)) :
    ∃ begun rest, acts = .resumed begun :: rest ∧ resumptions rest = [] := by
  obtain ⟨begun, later, rfl, hbegun⟩ := follows.waits_of_fresh
  refine ⟨begun, later, rfl, ?_⟩
  unfold flush Computation.named at hbegun
  split at hbegun
  · obtain ⟨_, rest, rfl, hnow⟩ := hbegun.waits_of_act
    have hunresumed : resumptions rest = [] := waits_of_flushNow hnow
    exact hunresumed
  · obtain ⟨timer, rest, rfl, harmed⟩ := hbegun.waits_of_act
    cases timer with
    | none =>
        have hunresumed : resumptions rest = [] := waits_of_flushNow harmed
        exact hunresumed
    | some timer =>
        obtain ⟨_, more, rfl, hnow⟩ := harmed.waits_of_act
        have hunresumed : resumptions more = [] := waits_of_flushNow hnow
        exact hunresumed

/-- The function has not returned to a flush that waits. -/
theorem not_returned_of_waits {window : Nat} {calls : List Enrolled} {returned : Outcome} {other : BatchGroup}
    (follows : Follows (.fresh (flush group function window).body) (strides acts) (.suspended resume)) :
    ¬ Returned acts other function calls returned := by
  rintro ⟨before, after, hstrides⟩
  obtain ⟨begun, rest, hbegun, hunresumed⟩ := unresumed_of_flush follows
  rw [hstrides] at hbegun
  cases before with
  | nil => cases (List.cons.inj hbegun).1
  | cons head before =>
      obtain ⟨-, rfl⟩ := List.cons.inj hbegun
      simp [resumptions, List.filterMap_append, Act.resumption?] at hunresumed

/-- A flush waits on top of its stack, and has collected a call. -/
structure Owed (trace : Trace) (task : TaskId) (number : Nat) (group : BatchGroup) (function : Function)
    (calls : List Enrolled) (call : Enrolled) (resume : Outcome → Body) : Prop where
  collected : .acted (.collect group) calls ∈ life (deeds trace task) number
  call : call ∈ calls
  kept : .dropped ∉ life (deeds trace task) number
  waits : ∃ window, Follows (.fresh (flush group function window).body) (strides (life (deeds trace task) number))
    (.suspended resume)

namespace Setting

variable {machine : Machine} {underlying : Nat → Function} {first : Host} {trace : Trace} {system : System}
variable {task : TaskId} {stack : Stack} {number : Nat} {calls : List Enrolled} {call : Enrolled} {slot : Slot}

variable (setting : Setting machine underlying) (fresh : Fresh underlying first) (runs : Runs machine first trace system)
include setting fresh runs

/-- A computation that waits and is answerable for a slot is a flush that has collected the call. -/
theorem owed_of_answerable (hdriven : system.driven? task = some stack) (hwaits : stack.top.progress = .suspended resume)
    (hslot : slot ∈ stack.top.answerable) :
    ∃ number group calls call, (call : Enrolled).slot = slot ∧
      Owed trace task number group (underlying group.definition) calls call resume := by
  have hdrives : Drives (system.driven? task) stack := by rw [hdriven]; rfl
  obtain ⟨watched, rooted⟩ := runs.holds answerables_invariant task hdrives
  obtain ⟨group, calls, call, hcollected, hcall, hsame⟩ := watched.exists_collected rooted hslot
  obtain ⟨stages, obeys, stands⟩ := runs.stands task hdrives
  cases stages with
  | nil =>
      have hbelow : stack.below = [] := by simpa using stands.length_eq
      rw [Run.frames, hbelow] at rooted
      rw [rooted.2] at hslot
      cases hslot
  | cons stage stages =>
      obtain ⟨number, rest, hlive, -⟩ := obeys.live_eq
      have hhead : (Roll.after (deeds trace task)).live.head? = some number := by simp [hlive]
      rw [hlive, List.headD_cons] at hcollected
      obtain ⟨window, tag, hpushed⟩ := setting.flush_of_collect fresh runs hcollected
      obtain ⟨later, progress, hlife, plays, ⟨-, other, hother, rfl⟩ | ⟨hbelow, -⟩⟩ := runs.on_top_or_waits hpushed
      · cases hdriven.symm.trans hother
        have hceasing : Ceasing (deeds trace task) number stage := obeys.kept_top ceasing hhead
        refine ⟨number, group, calls, call, hsame, hcollected, hcall, hceasing.dropped, window, ?_⟩
        rw [hlife, ← hwaits]
        exact plays.follows
      · exact absurd hhead hbelow

/-- Nobody answers a call that a waiting flush has collected. -/
theorem not_answers_of_owed (owed : Owed trace task number group (underlying group.definition) calls call resume)
    (outcome : Outcome) : ¬ Answers trace call.slot outcome := by
  intro hanswers
  obtain ⟨running, place, other, more, returned, hreturned, hshare⟩ := setting.share_of_answers fresh runs hanswers
  obtain ⟨twin, htwin, hsame⟩ : ∃ twin ∈ more, twin.slot = call.slot := by
    have hmem := List.mem_map_of_mem (f := Prod.fst) hshare
    rw [map_fst_shares] at hmem
    simpa using hmem
  obtain ⟨rfl, rfl, rfl, rfl⟩ := collector_once (setting.books fresh runs).recorded owed.collected hreturned.collected
    owed.call htwin hsame.symm
  obtain ⟨window, follows⟩ := owed.waits
  exact not_returned_of_waits follows hreturned

/-- Nobody closes the slot of a call that a waiting flush has collected. -/
theorem not_closes_of_owed (owed : Owed trace task number group (underlying group.definition) calls call resume) :
    ¬ Closes trace call.slot := by
  rintro ⟨before, other, act, after, htrace, hcloses, -⟩
  have recorded := (setting.books fresh runs).recorded
  cases hcloses with
  | abandon elsewhere habandoned hsame =>
      obtain ⟨earlier, later, hcollect, -⟩ := exists_of_life owed.collected
      have hcalls : calls = booked group earlier := recorded earlier task _ later hcollect
      obtain ⟨-, -, hentry⟩ := recorded.removed_once hcollect htrace (by simp [Act.removes]) (by simp [Act.removes])
        (hcalls ▸ owed.call) habandoned hsame.symm
      cases hentry
  | ends hends hactor hagain htwin hsame =>
      have hlater := mem_life_append (deeds ((other, act) :: after) other) hagain
      rw [← deeds_append, ← htrace] at hlater
      obtain ⟨rfl, rfl, -, -⟩ := collector_once recorded owed.collected hlater owed.call htwin hsame.symm
      have hown : act ∈ life (deeds trace task) number := mem_life_of_split htrace hactor
      cases hstride : act.isStride with
      | true =>
          obtain ⟨window, follows⟩ := owed.waits
          have hgoing := follows.not_ends_of_waits rfl (mem_strides.2 ⟨hown, hstride⟩) hstride
          rw [hgoing] at hends
          cases hends
      | false =>
          have hdropped : act = .dropped := by cases act <;> simp_all [Act.ends, Act.isStride]
          exact owed.kept (hdropped ▸ hown)

/-- A call is not answered as long as the computation that is answerable for it waits. -/
theorem pending_of_answerable (hdriven : system.driven? task = some stack) (hwaits : stack.top.progress = .suspended resume)
    (hslot : slot ∈ stack.top.answerable) : system.host.batches.slots[slot.index]? = some .pending := by
  have accounts := setting.accounts fresh runs
  obtain ⟨number, group, calls, call, rfl, owed⟩ := setting.owed_of_answerable fresh runs hdriven hwaits hslot
  have hborn : call.slot.index < enrolments trace :=
    born_of_collected accounts.books.recorded (mem_deeds_iff.1 (mem_of_mem_life owed.collected)) owed.call
  rw [← accounts.books.slots] at hborn
  have hstate := List.getElem?_eq_getElem hborn
  have haccounted := accounts.slots call.slot _ hstate
  generalize system.host.batches.slots[call.slot.index] = state at hstate haccounted
  cases state with
  | pending => exact hstate
  | answered outcome => exact absurd haccounted (setting.not_answers_of_owed fresh runs owed outcome)
  | closed => exact absurd haccounted (setting.not_closes_of_owed fresh runs owed)

end Setting
end Batch
end EffectMachine
