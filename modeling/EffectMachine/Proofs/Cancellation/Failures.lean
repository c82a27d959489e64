import EffectMachine.Proofs.Cancellation.Safety

/-!
# Failures of cleanup

What a canceled stack reports of the failures in its cleanup.  A failure is kept by the frame it belongs to, and
handed down when that frame leaves; but a frame below that has not ended is given up later, with no error, and
one that has failed itself keeps its own error.

* `Secured` says that an error will be handed down to the end, `Breaks` that an act fails in such a way that its
  error is secured from then on.  Both are about the stages of a stack.
* `Leads.ends` follows a canceled stack until its last frame leaves.
* `reportsCleanup_of_settled` is the main statement: a failure is reported if and only if all frames below had
  ended well when it happened.
-/

namespace EffectMachine

/-! ## How a stack comes to its end -/

section Ends

variable {machine : Machine} {context : Context} {signal : Option TaskId} {effect : Effect}
variable {acts first more : List Act} {run : Run}

/-- A stack that is down to its sentinel does nothing while it is busy. -/
theorem Obeys.eq_nil_of_busy {final : List Stage} (obeys : Obeys (acts ++ more) final)
    (hbottom : (Roll.after acts).live.length = 1) (allows : Mode.busy.Allows more) : more = [] := by
  cases more with
  | nil => rfl
  | cons act more =>
      obtain ⟨stages, after, hfirst, hprotocol⟩ := obeys.split rfl
      obtain ⟨later, hnext, -⟩ := allows
      rw [hfirst.length_live] at hbottom
      obtain rfl : stages = [] := List.eq_nil_of_length_eq_zero (by omega)
      cases hprotocol <;> cases hnext

namespace History

/-- Once the last frame above the sentinel has left, nothing more is done. -/
theorem eq_nil_of_left (history : History machine context signal effect acts run)
    (hacts : acts = first ++ .left :: more) (hbottom : (Roll.after (first ++ [.left])).live.length = 1) :
    more = [] := by
  have hwithin : ∀ {mode : Mode} (within : List Act) {acts more : List Act} {run : Run},
      History machine context signal effect acts run → acts = first ++ .left :: more →
      mode.Allows (within ++ .left :: more) → more = [] := by
    intro mode within acts more run history hacts allows
    obtain ⟨stages, obeys, -⟩ := history.stands
    obtain ⟨middle, later, hnext, hrest⟩ := allows.right
    obtain rfl : Mode.busy = later := Option.some.inj hnext
    rw [hacts, List.append_cons] at obeys
    exact obeys.eq_nil_of_busy hbottom hrest
  have hhistory := history
  induction history generalizing more with
  | begun host => exact hwithin first hhistory hacts (hacts ▸ machine.allows_handleActs effect _)
  | @stepped acts run history habove host ih =>
      obtain ⟨stages, -, stands⟩ := history.stands
      have allows := machine.allows_stepActs { run with host } fun _ => stands.kept_of_running
      rcases List.append_eq_append_iff.1 hacts with ⟨within, rfl, hstep⟩ | ⟨earlier, hearlier, hrest⟩
      · exact hwithin within hhistory hacts (hstep ▸ allows)
      · cases earlier with
        | nil =>
            rw [List.nil_append] at hrest
            exact hwithin [] hhistory hacts (hrest ▸ allows)
        | cons head earlier =>
            -- No step follows on a stack that is down to its sentinel.
            obtain ⟨rfl, rfl⟩ := List.cons.inj hrest
            have hnone := ih hearlier history
            rw [hnone] at hearlier
            have hlength := history.tracks.length
            rw [hearlier, hbottom] at hlength
            exact absurd (List.eq_nil_of_length_eq_zero (by omega)) habove

/-- A stack takes note of its cancellation only while there are frames above its sentinel. -/
theorem above_of_noticed (history : History machine context signal effect acts run)
    (hacts : acts = first ++ .noticed :: more) : 1 < (Roll.after first).live.length := by
  induction history generalizing more with
  | begun host =>
      have hmem : .noticed ∈ machine.handleActs effect { stack := { context, signal }, host } := hacts ▸ by simp
      cases machine.handles_handleActs _ _ _ hmem
  | @stepped acts run history habove host ih =>
      have hheight : 1 < (Roll.after acts).live.length := by
        rw [history.tracks.length]
        exact Nat.succ_lt_succ (List.length_pos_iff.2 habove)
      rcases List.append_eq_append_iff.1 hacts with ⟨within, rfl, hstep⟩ | ⟨earlier, hearlier, hrest⟩
      · rcases Machine.noticed_stepActs hstep with rfl | ⟨performed, rfl⟩
        · simpa using hheight
        · simpa [Roll.apply] using hheight
      · cases earlier with
        | nil => simpa [hearlier] using hheight
        | cons head earlier =>
            obtain ⟨rfl, rfl⟩ := List.cons.inj hrest
            exact ih hearlier

/-- A stack that is down to its sentinel has the result of the last frame that left. -/
theorem result_of_left (history : History machine context signal effect acts run) (hacts : acts = first ++ [.left])
    (hbelow : run.stack.below = []) {outcome : Outcome} (obeys : Obeys first [.ended outcome]) :
    run.stack.top.result = outcome := by
  obtain ⟨before, after, moment, hdoes, hsame⟩ := history.exists_last hacts
  obtain ⟨stages, hearlier, stands⟩ := moment.stands
  cases hdoes with
  | leave parent rest hparent hfinished hdefers =>
      obtain rfl : rest = [] := by rw [← hsame] at hbelow; exact hbelow
      have halike := obeys.alike hearlier
      rw [Run.frames, hparent] at stands
      cases halike with
      | cons hhead hnil =>
          cases hnil
          cases hhead
          cases stands with
          | above hagrees hwaits hrest =>
              cases hrest with
              | sentinel hroot htag =>
                  rw [← hsame]
                  simp [Frame.absorb, Frame.isFinished, hroot, hagrees.result _ rfl]

end History
end Ends

/-! ## Errors that will be reported -/

/-- A frame has ended with a value. -/
def Stage.EndedWell (stage : Stage) : Prop :=
  ∃ value, stage = .ended (.ok value)

/-- A frame has ended with this error, and all frames below it have ended well. -/
inductive Secured (error : Error) : List Stage → Prop
  | here {below : List Stage} (hwell : ∀ stage ∈ below, stage.EndedWell) :
      Secured error (.ended (.error error) :: below)
  | under (top : Stage) {below : List Stage} (secured : Secured error below) : Secured error (top :: below)

/-- An act fails with this error in the cleanup of a frame: a deferred effect of the top frame is refused, or the
computation of the top frame, which services a deferred effect, ends with the error.  All frames that have
to hand the error on have ended, and ended well. -/
inductive Breaks (error : Error) : List Stage → Act → Prop
  | refused {value : Value} {below : List Stage} (hwell : ∀ stage ∈ below, stage.EndedWell) :
      Breaks error (.ended (.ok value) :: below) (.failed error)
  | completed {top : Stage} {below : List Stage} (hwell : ∀ stage ∈ below, stage.EndedWell) :
      Breaks error (top :: below) (.completed (.error error))

section Steps

variable {error : Error} {act : Act} {stages others after : List Stage}

theorem Stage.EndedWell.alike {stage other : Stage} (hwell : stage.EndedWell) (halike : stage.Alike other) :
    other.EndedWell := by
  obtain ⟨value, rfl⟩ := hwell
  cases halike
  exact ⟨value, rfl⟩

theorem forall_endedWell_alike (halike : List.Forall₂ Stage.Alike stages others)
    (hwell : ∀ stage ∈ stages, stage.EndedWell) : ∀ stage ∈ others, stage.EndedWell := by
  induction halike with
  | nil => exact hwell
  | cons hhead _ ih =>
      obtain ⟨htop, hbelow⟩ := List.forall_mem_cons.1 hwell
      exact List.forall_mem_cons.2 ⟨htop.alike hhead, ih hbelow⟩

theorem Secured.alike (secured : Secured error stages) (halike : List.Forall₂ Stage.Alike stages others) :
    Secured error others := by
  induction secured generalizing others with
  | here hwell =>
      cases halike with
      | cons hhead hbelow =>
          cases hhead
          exact .here (forall_endedWell_alike hbelow hwell)
  | under top _ ih =>
      cases halike with
      | cons _ hbelow => exact .under _ (ih hbelow)

theorem Breaks.alike (breaks : Breaks error stages act) (halike : List.Forall₂ Stage.Alike stages others) :
    Breaks error others act := by
  cases breaks with
  | refused hwell =>
      cases halike with
      | cons hhead hbelow =>
          cases hhead
          exact .refused (forall_endedWell_alike hbelow hwell)
  | completed hwell =>
      cases halike with
      | cons _ hbelow => exact .completed (forall_endedWell_alike hbelow hwell)

/-- Taking note of a cancellation secures nothing, and nothing is lost by it. -/
theorem secured_marked_iff : Secured error (stages.map Stage.marked) ↔ Secured error stages := by
  have hwell : ∀ {below : List Stage}, (∀ stage ∈ below.map Stage.marked, stage.EndedWell) ↔
      ∀ stage ∈ below, stage.EndedWell := by
    intro below
    rw [List.forall_mem_map]
    refine forall₂_congr fun stage _ => ?_
    cases stage <;> simp [Stage.EndedWell, Stage.marked]
  induction stages with
  | nil => exact Iff.rfl
  | cons top below ih =>
      constructor
      · intro secured
        generalize hstages : (top :: below).map Stage.marked = marked at secured
        cases secured with
        | here hbelow =>
            obtain ⟨htop, rfl⟩ := List.cons.inj hstages
            cases top <;> cases htop
            exact .here (hwell.1 hbelow)
        | under marked hbelow =>
            obtain ⟨-, rfl⟩ := List.cons.inj hstages
            exact .under top (ih.1 hbelow)
      · intro secured
        cases secured with
        | here hbelow => exact .here (hwell.2 hbelow)
        | under top hbelow => exact .under _ (ih.2 hbelow)

/-- A frame has ended with an error after it was told something only if it had before, or if it was told of the
error and had ended well. -/
theorem Stage.told_eq_error {stage : Stage} {outcome : Outcome} (htold : stage.told outcome = .ended (.error error)) :
    stage = .ended (.error error) ∨ stage.EndedWell ∧ outcome = .error error := by
  cases stage with
  | fresh | running | asking | answered own | doomed begun => cases htold
  | ended own =>
      cases own with
      | error own => exact .inl htold
      | ok value =>
          cases outcome with
          | ok other => cases htold
          | error other =>
              cases htold
              exact .inr ⟨⟨value, rfl⟩, rfl⟩

/-- An error that is secured stays so until the last frame leaves, as long as no error is recovered and no frame is
discarded that has ended. -/
theorem Protocol.secured (hprotocol : Protocol stages act after) (secured : Secured error stages)
    (hcaught : ∀ taken, act ≠ .caught taken)
    (hdropped : act = .dropped → ∀ top ∈ stages.head?, ¬ top.Rests) :
    Secured error after ∨ act = .left ∧ stages = [.ended (.error error)] := by
  cases hprotocol with
  | push hwaits computation tag => exact .inl (.under _ secured)
  | drop hwaits rest =>
      cases secured with
      | here hwell => exact absurd trivial (hdropped rfl _ rfl)
      | under top hbelow => exact .inl hbelow
  | @leave stages hwaits outcome =>
      cases secured with
      | here hwell =>
          cases stages with
          | nil => exact .inr ⟨rfl, rfl⟩
          | cons second rest =>
              obtain ⟨⟨value, rfl⟩, hrest⟩ := List.forall_mem_cons.1 hwell
              exact .inl (.here hrest)
      | under top hbelow =>
          cases hbelow with
          | here hwell => exact .inl (.here hwell)
          | under second hrest => exact .inl (.under _ hrest)
  | «catch» hwaits taken => exact absurd rfl (hcaught taken)
  | notice hidle => exact .inl (secured_marked_iff.2 secured)
  | top hdoes rest =>
      cases secured with
      | here hwell =>
          cases hdoes with
          | defer | start | answer | fail | fork => exact .inl (.here hwell)
      | under top hbelow => exact .inl (.under _ hbelow)
  | baseDefer | baseAnswer | baseFail | baseFork => cases secured

/-- An error comes to be secured only by a failure, as long as no error is recovered. -/
theorem Protocol.secured_or_breaks (hprotocol : Protocol stages act after) (secured : Secured error after)
    (hcaught : ∀ taken, act ≠ .caught taken) : Secured error stages ∨ Breaks error stages act := by
  cases hprotocol with
  | push hwaits computation tag =>
      cases secured with
      | under top hbelow => exact .inl hbelow
  | drop hwaits rest => exact .inl (.under _ secured)
  | @leave stages hwaits outcome =>
      cases stages with
      | nil => cases secured
      | cons second rest =>
          rw [List.modifyHead_cons] at secured
          generalize htold : second.told outcome = told at secured
          cases secured with
          | under told hbelow => exact .inl (.under _ (.under _ hbelow))
          | here hwell =>
              rcases Stage.told_eq_error htold with rfl | ⟨hsecond, rfl⟩
              · exact .inl (.under _ (.here hwell))
              · exact .inl (.here (List.forall_mem_cons.2 ⟨hsecond, hwell⟩))
  | «catch» hwaits taken => exact absurd rfl (hcaught taken)
  | notice hidle => exact .inl (secured_marked_iff.1 secured)
  | @top top later act hdoes rest =>
      cases secured with
      | under later hbelow => exact .inl (.under _ hbelow)
      | here hwell =>
          generalize hlater : Stage.ended (.error error) = later at hdoes
          cases hdoes with
          | defer | start => exact .inl (hlater ▸ .here hwell)
          | answer hwaits value | fork hwaits effect task =>
              rcases Stage.told_eq_error hlater.symm with rfl | ⟨-, herror⟩
              · exact .inl (.here hwell)
              · cases herror
          | fail hwaits other =>
              rcases Stage.told_eq_error hlater.symm with rfl | ⟨⟨value, rfl⟩, herror⟩
              · exact .inl (.here hwell)
              · cases herror
                exact .inr (.refused hwell)
          | complete outcome =>
              cases hlater
              exact .inr (.completed hwell)
          | begin | resume | resumeWith | act | wait | perform | giveUp => cases hlater
  | baseDefer | baseAnswer | baseFail | baseFork => cases secured

/-- A failure secures its error. -/
theorem Protocol.secured_of_breaks (hprotocol : Protocol stages act after) (breaks : Breaks error stages act) :
    Secured error after := by
  cases breaks with
  | refused hwell | completed hwell =>
      cases hprotocol with
      | top hdoes rest =>
          cases hdoes
          exact .here hwell

end Steps

/-! ## From the note of the cancellation to the end -/

/-- The lowest frame is one whose computation is not to go on. -/
inductive Grounded : List Stage → Prop
  | bottom {stage : Stage} (hrests : stage.Rests) : Grounded [stage]
  | above (top : Stage) {below : List Stage} (grounded : Grounded below) : Grounded (top :: below)

/-- After some acts, only frames whose computation goes on are discarded by further acts. -/
def DiscardsOnlyOngoing (base acts : List Act) : Prop :=
  ∀ before after top stages, acts = before ++ .dropped :: after → Obeys (base ++ before) (top :: stages) →
    ¬ top.Rests

/-- After some acts, a further act fails with an error in the cleanup of a frame, and all frames that have to hand
the error on have ended well. -/
def CleanupFails (base acts : List Act) (error : Error) : Prop :=
  ∃ before act after stages, acts = before ++ act :: after ∧ Obeys (base ++ before) stages ∧
    Breaks error stages act

/-- After some acts, a frame has ended with this error, and all frames below it have ended well. -/
def SecuredAfter (acts : List Act) (error : Error) : Prop :=
  ∃ stages, Obeys acts stages ∧ Secured error stages

section Ending

variable {base acts : List Act} {act : Act} {stages after final : List Stage} {error : Error}

/-- The lowest frame of a canceled stack stays until it leaves. -/
theorem Protocol.grounded (hprotocol : Protocol stages act after) (grounded : Grounded stages)
    (hcaught : ∀ taken, act ≠ .caught taken) (hdropped : act = .dropped → ∀ top ∈ stages.head?, ¬ top.Rests) :
    Grounded after ∨ act = .left ∧ ∃ outcome, stages = [.ended outcome] := by
  cases hprotocol with
  | push hwaits computation tag => exact .inl (.above _ grounded)
  | drop hwaits rest =>
      cases grounded with
      | bottom hrests => exact absurd hrests (hdropped rfl _ rfl)
      | above top hbelow => exact .inl hbelow
  | leave hwaits outcome =>
      cases grounded with
      | bottom hrests => exact .inr ⟨rfl, outcome, rfl⟩
      | above top hbelow =>
          cases hbelow with
          | bottom hrests => exact .inl (.bottom (Stage.rests_told outcome hrests))
          | above second hrest => exact .inl (.above _ hrest)
  | «catch» hwaits taken => exact absurd rfl (hcaught taken)
  | notice hidle =>
      refine .inl ?_
      clear hidle hcaught hdropped
      induction grounded with
      | bottom hrests => exact .bottom (Stage.rests_marked _)
      | above top _ ih => exact .above _ ih
  | top hdoes rest =>
      cases grounded with
      | bottom hrests => exact .inl (.bottom (hdoes.rests hrests))
      | above top hbelow => exact .inl (.above _ hbelow)
  | baseDefer | baseAnswer | baseFail | baseFork => cases grounded

/-- Cleanup fails at the first act or later. -/
theorem cleanupFails_cons (obeys : Obeys base stages) :
    CleanupFails base (act :: acts) error ↔ Breaks error stages act ∨ CleanupFails (base ++ [act]) acts error := by
  constructor
  · rintro ⟨before, failing, rest, others, hacts, hothers, breaks⟩
    cases before with
    | nil =>
        obtain ⟨rfl, rfl⟩ := List.cons.inj hacts
        rw [List.append_nil] at hothers
        exact .inl (breaks.alike (hothers.alike obeys))
    | cons head before =>
        obtain ⟨rfl, rfl⟩ := List.cons.inj hacts
        rw [List.append_cons] at hothers
        exact .inr ⟨before, failing, rest, others, rfl, hothers, breaks⟩
  · rintro (breaks | ⟨before, failing, rest, others, rfl, hothers, breaks⟩)
    · exact ⟨[], act, acts, stages, rfl, by rwa [List.append_nil], breaks⟩
    · rw [← List.append_cons] at hothers
      exact ⟨act :: before, failing, rest, others, rfl, hothers, breaks⟩

/-- On its way to the end, a canceled stack comes to one frame, which has ended with the error that was secured by
then or else by a failure on the way. -/
theorem Leads.ends (leads : Leads stages acts final) (hfinal : final = []) (obeys : Obeys base stages)
    (grounded : Grounded stages) (hcaught : ∀ taken, .caught taken ∉ acts)
    (hongoing : DiscardsOnlyOngoing base acts) :
    ∃ first rest outcome, acts = first ++ .left :: rest ∧ Obeys (base ++ first) [.ended outcome] ∧
      ∀ error, outcome = .error error ↔ Secured error stages ∨ CleanupFails base first error := by
  induction leads generalizing base with
  | done stages =>
      subst hfinal
      cases grounded
  | @act stages middle final act acts hprotocol rest ih =>
      have hothers : ∀ taken, act ≠ .caught taken := fun taken hact => hcaught taken (hact ▸ List.mem_cons_self)
      have hdropped : act = .dropped → ∀ top ∈ stages.head?, ¬ top.Rests := by
        rintro rfl top hhead
        obtain ⟨below, rfl⟩ := List.head?_eq_some_iff.1 hhead
        exact hongoing [] acts top below rfl (by rwa [List.append_nil])
      by_cases hlast : act = .left ∧ ∃ outcome, stages = [.ended outcome]
      · obtain ⟨rfl, outcome, rfl⟩ := hlast
        refine ⟨[], acts, outcome, rfl, by rwa [List.append_nil], fun error => ?_⟩
        constructor
        · rintro rfl
          exact .inl (.here (by simp))
        · rintro (secured | ⟨before, failing, after, others, hnone, -⟩)
          · cases secured with
            | here hwell => rfl
            | under top hbelow => cases hbelow
          · simp at hnone
      · have hgrounded := (hprotocol.grounded grounded hothers hdropped).resolve_right hlast
        obtain ⟨first, others, outcome, rfl, hend, hiff⟩ := ih hfinal (.act obeys hprotocol) hgrounded
          (fun taken hmem => hcaught taken (List.mem_cons_of_mem _ hmem))
          fun before after top below hacts hbefore =>
            hongoing (act :: before) after top below (by rw [hacts]; rfl) (by rwa [List.append_cons])
        refine ⟨act :: first, others, outcome, rfl, by rwa [List.append_cons], fun error => ?_⟩
        rw [hiff error, cleanupFails_cons obeys, ← or_assoc]
        refine or_congr_left ⟨fun secured => hprotocol.secured_or_breaks secured hothers, ?_⟩
        rintro (secured | breaks)
        · refine (hprotocol.secured secured hothers hdropped).resolve_right ?_
          rintro ⟨hleft, hstages⟩
          exact hlast ⟨hleft, _, hstages⟩
        · exact hprotocol.secured_of_breaks breaks

/-- A frame that leaves does not fail by that. -/
theorem cleanupFails_concat_left : CleanupFails base (acts ++ [.left]) error ↔ CleanupFails base acts error := by
  constructor
  · rintro ⟨before, failing, rest, others, hacts, hothers, breaks⟩
    cases rest using List.reverseRecOn with
    | nil =>
        have hlast := (List.append_inj' hacts rfl).2
        rw [← List.singleton_inj.1 hlast] at breaks
        cases breaks
    | append_singleton rest last =>
        rw [← List.cons_append, ← List.append_assoc] at hacts
        exact ⟨before, failing, rest, others, (List.append_inj' hacts rfl).1, hothers, breaks⟩
  · rintro ⟨before, failing, rest, others, rfl, hothers, breaks⟩
    exact ⟨before, failing, rest ++ [.left], others, by simp, hothers, breaks⟩

/-- A stack that has just taken note of its cancellation has a lowest frame, which is not to go on. -/
theorem Obeys.grounded_of_noticed (obeys : Obeys (acts ++ [.noticed]) stages)
    (habove : 1 < (Roll.after acts).live.length) : Grounded stages := by
  obtain ⟨before, hbefore, leads⟩ := obeys.leads rfl
  rw [hbefore.length_live] at habove
  cases leads with
  | act hprotocol rest =>
      cases rest
      cases hprotocol with
      | top hdoes => cases hdoes
      | notice hidle =>
          clear hbefore hidle obeys
          induction before with
          | nil => simp at habove
          | cons top below ih =>
              cases below with
              | nil => exact .bottom top.rests_marked
              | cons second rest => exact .above _ (ih (by simp))

end Ending

/-- What a canceled stack ends with is the error that was secured when it took note of its cancellation, or else by a
failure of its cleanup. -/
theorem History.result_of_canceled {machine : Machine} {context : Context} {signal : Option TaskId} {effect : Effect}
    {acts seen later : List Act} {run : Run} (history : History machine context signal effect acts run)
    (hbelow : run.stack.below = []) (hacts : acts = (seen ++ [.noticed]) ++ later)
    (hcaught : ∀ taken, .caught taken ∉ later) (hongoing : DiscardsOnlyOngoing (seen ++ [.noticed]) later)
    (error : Error) :
    run.stack.top.result = .error error ↔
      SecuredAfter (seen ++ [.noticed]) error ∨ CleanupFails (seen ++ [.noticed]) later error := by
  obtain ⟨final, obeys, stands⟩ := history.stands
  have hfinal : final = [] := by
    have hlength := stands.length_eq
    rw [Run.frames, hbelow] at hlength
    exact List.eq_nil_of_length_eq_zero (by simpa using hlength.symm)
  obtain ⟨stages, hnoted, leads⟩ := obeys.leads hacts
  have habove : 1 < (Roll.after seen).live.length :=
    history.above_of_noticed (hacts.trans (List.append_assoc seen [.noticed] later))
  have grounded : Grounded stages := hnoted.grounded_of_noticed habove
  obtain ⟨first, rest, outcome, hlater, hend, hiff⟩ := leads.ends hfinal hnoted grounded hcaught hongoing
  have hleft : acts = (seen ++ [.noticed] ++ first) ++ .left :: rest := by
    rw [hacts, hlater]
    simp
  have hbottom : (Roll.after ((seen ++ [.noticed] ++ first) ++ [.left])).live.length = 1 := by
    rw [Roll.after_concat]
    show (Roll.after _).live.tail.length = 1
    rw [List.length_tail, hend.length_live]
    rfl
  obtain rfl := history.eq_nil_of_left hleft hbottom
  rw [history.result_of_left hleft hbelow hend, hiff error, hlater, cleanupFails_concat_left]
  refine or_congr_left ⟨fun secured => ⟨stages, hnoted, secured⟩, ?_⟩
  rintro ⟨others, hothers, secured⟩
  exact secured.alike (hothers.alike hnoted)

/-! ## The main statement -/

namespace Stack

variable {stack : Stack} {error : Error}

/-- A canceled stack reports the error it ends with, unless that is the mark of a cancellation. -/
theorem outcome_eq_aggregate_iff (hcanceled : stack.canceled = true) :
    stack.outcome = .error (.aggregate .cancelled [error]) ↔
      error.isCancellation = false ∧ stack.top.result = .error error := by
  unfold outcome
  rw [if_pos hcanceled]
  cases stack.top.result with
  | ok value => simp
  | error own =>
      by_cases hown : own.isCancellation = true
      · simp only [hown, if_true]
        constructor
        · exact fun hreported => nomatch hreported
        · rintro ⟨hother, hsame⟩
          cases hsame
          rw [hown] at hother
          cases hother
      · simp only [hown, Bool.false_eq_true, if_false, Error.withErrors, List.isEmpty_cons]
        constructor
        · rintro ⟨⟩
          exact ⟨by simpa using hown, rfl⟩
        · rintro ⟨-, ⟨⟩⟩
          rfl

/-- A canceled stack that ends with no error, or with the mark of a cancellation, reports nothing. -/
theorem outcome_eq_cancelled (hcanceled : stack.canceled = true)
    (hnone : ∀ error, error.isCancellation = false → stack.top.result ≠ .error error) :
    stack.outcome = .error .cancelled := by
  unfold outcome
  rw [if_pos hcanceled]
  split
  · rename_i error hresult
    split
    · rfl
    · rename_i hown
      exact absurd hresult (hnone error (by simpa using hown))
  · rfl

end Stack

/-- What a canceled task reports of its cleanup, having done some acts since it took note of its cancellation. -/
structure ReportsCleanup (noted later : List Act) (outcome : Outcome) : Prop where
  /-- A failure is reported if and only if all frames that had to hand it on had ended well by then. -/
  reported : ∀ error, outcome = .error (.aggregate .cancelled [error]) ↔
    error.isCancellation = false ∧ (SecuredAfter noted error ∨ CleanupFails noted later error)
  /-- All other failures are lost. -/
  silent : (∀ error, error.isCancellation = false → ¬ SecuredAfter noted error ∧ ¬ CleanupFails noted later error) →
    outcome = .error .cancelled
  /-- A call that cancels the task, made before it has settled, answers with what is reported. -/
  answered : ∀ error answer, outcome = .error (.aggregate .cancelled [error]) →
    Concurrent.CancelAnswer outcome answer → answer = some error

/-- A failure in the cleanup of a canceled task is reported if and only if, at the time of the failure, all frames
below have ended, and ended well; as long as no error is recovered from then on, and no frame is discarded
that is not going on. -/
theorem reportsCleanup_of_settled {machine : Machine} {first : Host} {trace more : Trace} {system later : System}
    {context : Context} {task : TaskId} {effect : Effect} {seen after : List Act} {outcome : Outcome}
    (runs : Runs machine first trace system) (hforked : system.activity? task = some (.forked context effect))
    (proceeds : Proceeds machine system more later) (houtcome : later.host.outcome? task = some outcome)
    (hnoticed : deeds more task = (seen ++ [.noticed]) ++ after) (hcaught : ∀ taken, .caught taken ∉ after)
    (hongoing : DiscardsOnlyOngoing (seen ++ [.noticed]) after) :
    ReportsCleanup (seen ++ [.noticed]) after outcome := by
  obtain ⟨run, history, hbelow, rfl⟩ := proceeds.settled runs.sound hforked houtcome
  have hcanceled : run.stack.canceled = true := history.moment.canceled_iff.2 (by simp [hnoticed])
  have hresult := history.result_of_canceled hbelow hnoticed hcaught hongoing
  constructor
  case reported =>
    intro error
    rw [Stack.outcome_eq_aggregate_iff hcanceled, hresult error]
  case silent =>
    intro hnone
    refine Stack.outcome_eq_cancelled hcanceled fun error hown herror => ?_
    exact ((hresult error).1 herror).elim (hnone error hown).1 (hnone error hown).2
  case answered =>
    intro error answer hreported hanswer
    rw [hreported] at hanswer
    cases hanswer with
    | clean _ hclean => cases hclean
    | cleanup _ hattached =>
        cases hattached
        rfl
    | own hown => cases hown

namespace FailingCleanup

def boom : Error :=
  .failed ⟨0, .message "boom"⟩

/-- A body that takes some time, with a cleanup that fails. -/
def main : Effect :=
  .bare ⟨some "main",
    .andThen (.defer (.bare (.failing boom))) fun _ => .sleep 10 (.andThen OvertakenCleanup.pause .ok)⟩

/-- The task, and a client that cancels it. -/
def host : Host :=
  let (task, host) := ({} : Host).spawn (.forked (.blank 0) main)
  (host.spawn (.client (.evaluate (.blank 0) (Concurrent.cancelOne task .fail (.ok .null))))).2

/-- What they do until the task has settled. -/
def outcome : Trace × System :=
  ({ host } : System).execute Machine.bare 21

/-- What the task did before it took note of its cancellation, and since. -/
def seen : List Act :=
  (deeds outcome.1 ⟨0⟩).take 9

def after : List Act :=
  (deeds outcome.1 ⟨0⟩).drop 10

end FailingCleanup

open FailingCleanup in
/-- A cleanup that fails on the only frame of a task is reported. -/
theorem reportsCleanup_of_failing :
    ∃ reported, outcome.2.host.outcome? ⟨0⟩ = some reported ∧ ReportsCleanup (seen ++ [.noticed]) after reported ∧
      (Concurrent.cancelFailure reported).any boom.same = true := by
  have hnew : ∀ process ∈ host.processes, process.activity.stack? = none := by
    intro process hmem
    rcases List.mem_cons.1 hmem with rfl | hsecond
    · rfl
    · rw [List.mem_singleton.1 hsecond]
      rfl
  have hnoticed : deeds outcome.1 ⟨0⟩ = (seen ++ [.noticed]) ++ after := by
    have hcheck : (deeds outcome.1 ⟨0⟩)[9]?.any Act.notices = true := by decide +kernel
    obtain ⟨act, hact, hsame⟩ := (Option.any_eq_true _ _).1 hcheck
    obtain ⟨hlength, rfl⟩ := List.getElem?_eq_some_iff.1 hact
    have hdrop := List.drop_eq_getElem_cons hlength
    rw [Act.notices_iff.1 hsame] at hdrop
    rw [List.append_assoc, seen, after, List.singleton_append, ← hdrop, List.take_append_drop]
  have hneither : after.any (fun act => act.catches || act.drops) = false := by decide +kernel
  have hongoing : DiscardsOnlyOngoing (seen ++ [.noticed]) after := by
    have hkept : .dropped ∉ after := Act.not_mem_of_any hneither rfl
    rintro before rest top stages hafter -
    exact absurd (hafter ▸ by simp) hkept
  have hfailure : ((outcome.2.host.outcome? ⟨0⟩).any fun reported =>
      (Concurrent.cancelFailure reported).any boom.same) = true := by
    decide +kernel
  obtain ⟨reported, houtcome, hsame⟩ := (Option.any_eq_true _ _).1 hfailure
  exact ⟨reported, houtcome, reportsCleanup_of_settled (.start hnew) rfl (Proceeds.start.execute 21) houtcome hnoticed
    (fun _ => Act.not_mem_of_any hneither rfl) hongoing, hsame⟩

end EffectMachine
