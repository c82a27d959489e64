import EffectMachine.Proofs.Acts.Strides
import EffectMachine.Proofs.Cancellation.Cleanup
import EffectMachine.Proofs.Protocol.Conformance
import EffectMachine.Proofs.Protocol.Posts

/-!
# What every stack is like

At every moment of every history a stack is in order, whatever the plugins, the effects, the host and the
cancellations do: the sentinel is at its bottom, every other frame has a computation until it has finished,
and all frames below the top one wait.

A computation is resumed only while it is alive, and with what its last effect came to.  `Tells` says that
an act tells a frame an outcome and `Hears` that a frame is told at most one by some acts; `asking` and
`ceasing` are the two properties of frames that are followed.  The main statement is `inOrder_of_moment`.
-/

namespace EffectMachine

/-! ## Computations that have ceased -/

/-- The computation of a frame has come to an end, or is not to go on. -/
inductive Ceased (acts : List Act) (number : Nat) : Prop
  | completed (outcome : Outcome) (hcompleted : .completed outcome ∈ life acts number)
  | givenUp (hgivenUp : .givenUp ∈ life acts number)
  | dropped (hdropped : .dropped ∈ life acts number)
  | overtaken (hovertaken : Overtaken acts number)

/-- A computation is not to go on. -/
def Stage.Rests : Stage → Prop
  | .doomed _ | .ended _ => True
  | .fresh | .running | .asking | .answered _ => False

/-- Numbers on the stack were given out. -/
theorem Roll.lt_next (acts : List Act) : ∀ number ∈ (after acts).live, number < (after acts).next := by
  induction acts using List.reverseRecOn with
  | nil => simp
  | append_singleton acts act ih =>
      rw [after_concat]
      cases act with
      | pushed computation tag =>
          intro number hnumber
          rcases List.mem_cons.1 hnumber with rfl | hlive
          · exact Nat.lt_succ_self _
          · exact Nat.lt_succ_of_lt (ih number hlive)
      | dropped | left => exact fun number hnumber => ih number (List.mem_of_mem_tail hnumber)
      | _ => exact ih

/-- A frame that was overtaken was pushed before. -/
theorem Overtaken.lt_next {acts : List Act} {number : Nat} (hovertaken : Overtaken acts number) :
    number < (Roll.after acts).next := by
  obtain ⟨before, after, rfl, hlive⟩ := hovertaken
  exact Nat.lt_of_lt_of_le (Roll.lt_next before number hlive) (Roll.next_after_le_append _ _)

/-- Only taking note of a cancellation overtakes frames. -/
theorem Overtaken.of_concat {acts : List Act} {act : Act} {number : Nat} (hother : act ≠ .noticed)
    (hovertaken : Overtaken (acts ++ [act]) number) : Overtaken acts number := by
  obtain ⟨before, after, hacts, hlive⟩ := hovertaken
  cases after using List.reverseRecOn with
  | nil =>
      have hsame := (List.append_inj' hacts rfl).2
      exact absurd (List.singleton_inj.1 hsame) hother
  | append_singleton after last =>
      have hsplit : acts ++ [act] = (before ++ .noticed :: after) ++ [last] := by simpa using hacts
      exact ⟨before, after, (List.append_inj' hsplit rfl).1, hlive⟩

namespace Stage

variable {stage after : Stage} {act : Act}

theorem rests_told (outcome : Outcome) (hrests : stage.Rests) : (stage.told outcome).Rests := by
  cases stage with
  | doomed begun => trivial
  | ended own => cases own <;> cases outcome <;> trivial
  | fresh | running | asking | answered own => cases hrests

theorem rests_took (error : Error) (hrests : stage.Rests) : (stage.took error).Rests := by
  cases stage with
  | doomed begun | ended own => trivial
  | fresh | running | asking | answered own => cases hrests

theorem rests_marked (stage : Stage) : stage.marked.Rests := by
  cases stage <;> trivial

/-- A frame that has ended stays so, whatever it is told. -/
theorem ended_told (own outcome : Outcome) : ∃ later, (Stage.ended own).told outcome = .ended later := by
  cases own <;> cases outcome <;> exact ⟨_, rfl⟩

/-- A frame that has ended stays so, whatever it does. -/
theorem Does.ended {own : Outcome} (hdoes : (Stage.ended own).Does act after) : ∃ later, after = .ended later := by
  cases hdoes with
  | defer | start => exact ⟨_, rfl⟩
  | answer | fail | fork => exact ended_told own _

/-- A computation that is not to go on does not. -/
theorem Does.rests (hdoes : stage.Does act after) (hrests : stage.Rests) : after.Rests := by
  cases hdoes with
  | defer => exact hrests
  | answer hwaits | fail hwaits | fork hwaits => exact rests_told _ hrests
  | start | giveUp => trivial
  | begin | resume | resumeWith | act | wait | perform | complete => cases hrests

end Stage

/-- What is known of the end of a frame on the stack. -/
structure Ceasing (acts : List Act) (number : Nat) (stage : Stage) : Prop where
  dropped : .dropped ∉ life acts number
  completed : ∀ outcome, .completed outcome ∈ life acts number → ∃ own, stage = .ended own
  givenUp : .givenUp ∈ life acts number → ∃ own, stage = .ended own
  overtaken : Overtaken acts number → stage.Rests

namespace Ceasing

variable {acts : List Act} {act : Act} {number : Nat} {stage after : Stage}

/-- A computation that has ceased rests. -/
theorem rests (ceasing : Ceasing acts number stage) (hceased : Ceased acts number) : stage.Rests := by
  cases hceased with
  | completed outcome hcompleted =>
      obtain ⟨own, rfl⟩ := ceasing.completed outcome hcompleted
      trivial
  | givenUp hgivenUp =>
      obtain ⟨own, rfl⟩ := ceasing.givenUp hgivenUp
      trivial
  | dropped hdropped => exact absurd hdropped ceasing.dropped
  | overtaken hovertaken => exact ceasing.overtaken hovertaken

/-- Nothing new is known after an act by which the computation of the frame does not cease. -/
theorem later (kept : Ceasing acts number stage)
    (hown : (Roll.after acts).actor act = number →
      act ≠ .dropped ∧ (∀ outcome, act ≠ .completed outcome) ∧ act ≠ .givenUp)
    (hended : ∀ own, stage = .ended own → ∃ own, after = .ended own)
    (hrests : Overtaken (acts ++ [act]) number → after.Rests) : Ceasing (acts ++ [act]) number after := by
  have hlife : ∀ other ∈ life (acts ++ [act]) number, other ∈ life acts number ∨
      other = act ∧ (Roll.after acts).actor act = number := by
    intro other hmem
    rw [life_concat] at hmem
    split at hmem
    · rcases List.mem_append.1 hmem with hearlier | hlast
      · exact .inl hearlier
      · exact .inr ⟨List.mem_singleton.1 hlast, ‹_›⟩
    · exact .inl (by simpa using hmem)
  refine ⟨fun hmem => ?_, fun outcome hmem => ?_, fun hmem => ?_, hrests⟩
  · rcases hlife _ hmem with hearlier | ⟨hact, hactor⟩
    · exact kept.dropped hearlier
    · exact (hown hactor).1 hact.symm
  · rcases hlife _ hmem with hearlier | ⟨hact, hactor⟩
    · obtain ⟨own, hstage⟩ := kept.completed outcome hearlier
      exact hended own hstage
    · exact absurd hact.symm ((hown hactor).2.1 outcome)
  · rcases hlife _ hmem with hearlier | ⟨hact, hactor⟩
    · obtain ⟨own, hstage⟩ := kept.givenUp hearlier
      exact hended own hstage
    · exact absurd hact.symm (hown hactor).2.2

/-- A computation that ends has not been discarded. -/
theorem ending (kept : Ceasing acts number stage) (hdropped : act ≠ .dropped) (outcome : Outcome) :
    Ceasing (acts ++ [act]) number (.ended outcome) := by
  refine ⟨fun hmem => ?_, fun _ _ => ⟨_, rfl⟩, fun _ => ⟨_, rfl⟩, fun _ => trivial⟩
  rw [life_concat] at hmem
  rcases List.mem_append.1 hmem with hearlier | hlast
  · exact kept.dropped hearlier
  · split at hlast
    · exact hdropped (List.mem_singleton.1 hlast).symm
    · cases hlast

end Ceasing

/-- Follows how the computations of frames cease. -/
def ceasing : StageWatch where
  kept := Ceasing
  fresh := by
    intro acts number computation tag hnext hunborn
    have hlife : life (acts ++ [.pushed computation tag]) number = [.pushed computation tag] :=
      life_pushed hunborn hnext
    refine ⟨?_, ?_, ?_, fun hovertaken => ?_⟩
    · simp [hlife]
    · simp [hlife]
    · simp [hlife]
    · have hless := (hovertaken.of_concat (by simp)).lt_next
      omega
  own := by
    intro acts act number stage after hhead hdoes kept
    have hended : ∀ own, stage = .ended own → ∃ own, after = .ended own := by
      rintro own rfl
      exact hdoes.ended
    cases hdoes with
    | complete outcome => exact kept.ending (by simp) outcome
    | giveUp begun => exact kept.ending (by simp) _
    | defer | start => exact kept.later (by simp) hended fun h => kept.overtaken (h.of_concat (by simp))
    | answer | fail | fork =>
        exact kept.later (by simp) hended fun h => Stage.rests_told _ (kept.overtaken (h.of_concat (by simp)))
    | begin | resume | resumeWith | act | wait | perform =>
        exact kept.later (by simp) hended fun h => nomatch kept.overtaken (h.of_concat (by simp))
  take := by
    intro acts number stage error hhead hwaits kept
    refine kept.later (by simp) ?_ fun h => Stage.rests_took error (kept.overtaken (h.of_concat (by simp)))
    rintro own rfl
    exact ⟨_, rfl⟩
  rob := fun _ kept => kept.ending (by simp) _
  receive := by
    intro acts number stage outcome stages hbeneath obeys hwaits kept
    refine kept.later (by simp) ?_ fun h => Stage.rests_told outcome (kept.overtaken (h.of_concat (by simp)))
    rintro own rfl
    exact Stage.ended_told own outcome
  mark := by
    intro acts number stage hlive hidle kept
    refine kept.later (by simp) ?_ fun _ => stage.rests_marked
    rintro own rfl
    exact ⟨own, rfl⟩
  stay := by
    intro acts act number stage hlive hother hnotice hbeneath kept
    exact kept.later (fun hactor => absurd hactor hother) (fun own hown => ⟨own, hown⟩)
      fun h => kept.overtaken (h.of_concat hnotice)

/-! ## What an effect came to -/

/-- After these acts, an act tells a frame an outcome. -/
inductive Tells (acts : List Act) (number : Nat) : Act → Outcome → Prop
  | answered (hhead : (Roll.after acts).live.head? = some number) (value : Value) :
      Tells acts number (.answered value) (.ok value)
  | failed (hhead : (Roll.after acts).live.head? = some number) (error : Error) :
      Tells acts number (.failed error) (.error error)
  | caught (hhead : (Roll.after acts).live.head? = some number) (error : Error) :
      Tells acts number (.caught error) (.ok (.error error))
  | forked (hhead : (Roll.after acts).live.head? = some number) (effect : Effect) (task : TaskId) :
      Tells acts number (.forked effect) (.ok (.task task))
  | left {outcome : Outcome} {stages : List Stage} (hbeneath : Beneath acts number)
      (obeys : Obeys acts (.ended outcome :: stages)) : Tells acts number .left outcome

/-- While its computation does nothing, a frame is told one outcome by some further acts, or none. -/
inductive Hears (acts : List Act) (number : Nat) : List Act → Option Outcome → Prop
  | start : Hears acts number [] none
  | other {more : List Act} {told : Option Outcome} {act : Act} (hears : Hears acts number more told)
      (hidle : act.isStride = true → (Roll.after (acts ++ more)).actor act ≠ number)
      (hsilent : ∀ outcome, ¬ Tells (acts ++ more) number act outcome) :
      Hears acts number (more ++ [act]) told
  | told {more : List Act} {act : Act} {outcome : Outcome} (hears : Hears acts number more none)
      (htells : Tells (acts ++ more) number act outcome) : Hears acts number (more ++ [act]) (some outcome)

/-- The computation of a frame has performed an effect, and was told this since. -/
def Asked (acts : List Act) (number : Nat) (told : Option Outcome) : Prop :=
  ∃ before effect more, acts = before ++ .performed effect :: more ∧
    (Roll.after before).live.head? = some number ∧ Hears (before ++ [.performed effect]) number more told

namespace Asked

variable {acts : List Act} {act : Act} {number : Nat} {told : Option Outcome}

/-- An act that is no matter of the frame leaves it as it is. -/
theorem other (asked : Asked acts number told)
    (hidle : act.isStride = true → (Roll.after acts).actor act ≠ number)
    (hsilent : ∀ outcome, ¬ Tells acts number act outcome) : Asked (acts ++ [act]) number told := by
  obtain ⟨before, effect, more, rfl, hhead, hears⟩ := asked
  refine ⟨before, effect, more ++ [act], by simp, hhead, .other hears ?_ ?_⟩
  · simpa using hidle
  · simpa using hsilent

/-- A frame is told what its effect came to. -/
theorem tell {outcome : Outcome} (asked : Asked acts number none) (htells : Tells acts number act outcome) :
    Asked (acts ++ [act]) number (some outcome) := by
  obtain ⟨before, effect, more, rfl, hhead, hears⟩ := asked
  exact ⟨before, effect, more ++ [act], by simp, hhead, .told hears (by simpa using htells)⟩

end Asked

/-- What is known of the computation of a frame that may be resumed. -/
def Asking (acts : List Act) (number : Nat) : Stage → Prop
  | .fresh => ∀ outcome, .resumed outcome ∉ life acts number
  | .asking => Asked acts number none
  | .answered outcome => Asked acts number (some outcome)
  | .running | .doomed _ | .ended _ => True

/-- A frame that waits is told what its effect came to. -/
theorem Asking.tell {acts : List Act} {act : Act} {number : Nat} {stage : Stage} {outcome : Outcome}
    (kept : Asking acts number stage) (hwaits : stage.Waits) (htells : Tells acts number act outcome) :
    Asking (acts ++ [act]) number (stage.told outcome) := by
  cases stage with
  | fresh | running | answered own => cases hwaits
  | asking => exact Asked.tell kept htells
  | doomed begun => trivial
  | ended own => cases own <;> cases outcome <;> trivial

/-- Only the top frame and the one below it are told something. -/
theorem Tells.top_or_beneath {acts : List Act} {act : Act} {number : Nat} {outcome : Outcome}
    (htells : Tells acts number act outcome) :
    (Roll.after acts).actor act = number ∨ act = .left ∧ Beneath acts number := by
  cases htells with
  | left hbeneath obeys => exact .inr ⟨rfl, hbeneath⟩
  | answered hhead | failed hhead | caught hhead | forked hhead =>
      obtain ⟨rest, hlive⟩ := List.head?_eq_some_iff.1 hhead
      exact .inl (by simp [Roll.actor, hlive])

/-- Follows what the effects of computations come to. -/
def asking : StageWatch where
  kept := Asking
  fresh := by
    intro acts number computation tag hnext hunborn outcome
    have hlife : life (acts ++ [.pushed computation tag]) number = [.pushed computation tag] :=
      life_pushed hunborn hnext
    simp [hlife]
  own := by
    intro acts act number stage after hhead hdoes kept
    cases hdoes with
    | defer hwaits effect =>
        cases stage with
        | fresh | running | answered outcome => cases hwaits
        | asking => exact Asked.other kept (by simp [Act.isStride]) (fun _ htells => nomatch htells)
        | doomed begun | ended outcome => trivial
    | start | begin | resume | resumeWith | act | wait | complete | giveUp => trivial
    | perform effect => exact ⟨acts, effect, [], rfl, hhead, .start⟩
    | answer hwaits value => exact kept.tell hwaits (.answered hhead value)
    | fail hwaits error => exact kept.tell hwaits (.failed hhead error)
    | fork hwaits effect task => exact kept.tell hwaits (.forked hhead effect task)
  take := by
    intro acts number stage error hhead hwaits kept
    cases stage with
    | fresh | running | answered outcome => cases hwaits
    | asking => exact Asked.tell kept (.caught hhead error)
    | doomed begun | ended outcome => trivial
  rob := fun _ _ => trivial
  receive := fun hbeneath obeys hwaits kept => kept.tell hwaits (.left hbeneath obeys)
  mark := by
    intro acts number stage hlive hidle kept
    cases stage <;> trivial
  stay := by
    intro acts act number stage hlive hother hnotice hbeneath kept
    have hsilent : ∀ outcome, ¬ Tells acts number act outcome := fun outcome htells =>
      htells.top_or_beneath.elim hother fun h => (hbeneath h.2).1 h.1
    cases stage with
    | fresh =>
        intro outcome
        rw [life_of_other hother]
        exact kept outcome
    | asking | answered outcome => exact Asked.other kept (fun _ => hother) hsilent
    | running | doomed begun | ended outcome => trivial

/-! ## The main statement -/

namespace Obeys

variable {acts more : List Act} {act : Act} {stages : List Stage}

/-- No frame finishes without a computation. -/
theorem not_mem_vacated (obeys : Obeys acts stages) : .vacated ∉ acts := by
  intro hmem
  obtain ⟨first, more, hacts⟩ := List.append_of_mem hmem
  obtain ⟨before, after, -, hprotocol⟩ := obeys.split hacts
  cases hprotocol with
  | top hdoes => cases hdoes

end Obeys

/-- Whether a frame holds a computation. -/
def Frame.HasComputation (frame : Frame) : Prop :=
  match frame.progress with
  | .fresh _ | .suspended _ | .running _ => True
  | .root | .finished => False

/-- A computation is resumed with this outcome: it begins, or goes on with what its last effect came to.  An
effect that was told nothing came to no value. -/
inductive Resumes (acts : List Act) (number : Nat) : Outcome → Prop
  | first (hfirst : ∀ outcome, .resumed outcome ∉ life acts number) : Resumes acts number (.ok .null)
  | again {told : Option Outcome} (asked : Asked acts number told) :
      Resumes acts number (told.getD (.ok .null))

/-- A stack is in order, and so is all that it did. -/
structure InOrder (acts : List Act) (run : Run) : Prop where
  /-- The sentinel is at the bottom; every other frame holds a computation until it has finished. -/
  sentinel : ∃ above bottom, run.frames = above ++ [bottom] ∧
    bottom.progress = .root ∧ bottom.tag = none ∧ bottom.isFinished = false ∧
    ∀ frame ∈ above, frame.HasComputation ↔ frame.isFinished = false
  /-- The sentinel is the only frame that was not pushed, and it was never taken off. -/
  numbered : (Roll.after acts).live.length = run.frames.length ∧ (Roll.after acts).live.getLast? = some 0
  /-- Frames below the top one have finished, or are suspended on an effect. -/
  waiting : ∀ frame ∈ run.stack.below.dropLast,
    frame.isFinished = true ∨ ∃ resume, frame.progress = .suspended resume
  /-- No frame finishes without a computation. -/
  occupied : .vacated ∉ acts
  /-- A computation is resumed only while it goes on, and with the one outcome of its last effect. -/
  resumed : ∀ before outcome after, acts = before ++ .resumed outcome :: after →
    ∃ number, 0 < number ∧ (Roll.after before).live.head? = some number ∧ ¬ Ceased before number ∧
      Resumes before number outcome

/-- A frame that is at a stage holds a computation until it has finished. -/
theorem Stage.Agrees.hasComputation_iff {stage : Stage} {frame : Frame} (hagrees : stage.Agrees frame) :
    frame.HasComputation ↔ frame.isFinished = false := by
  obtain ⟨hat, -, -⟩ := hagrees
  unfold Frame.HasComputation Frame.isFinished
  generalize frame.progress = progress at hat
  cases hat <;> simp

namespace Stands

variable {stages : List Stage} {frames : List Frame}

/-- The sentinel is at the bottom. -/
theorem sentinel_last (stands : Stands stages frames) :
    ∃ above bottom, frames = above ++ [bottom] ∧ bottom.progress = .root ∧ bottom.tag = none ∧
      bottom.isFinished = false ∧ ∀ frame ∈ above, frame.HasComputation ↔ frame.isFinished = false := by
  induction stands with
  | @sentinel frame hroot htag =>
      exact ⟨[], frame, rfl, hroot, htag, by rw [Frame.isFinished, hroot], by simp⟩
  | @above stage frame stages frames hagrees hwaits stands ih =>
      obtain ⟨above, bottom, rfl, hroot, htag, hgoing, habove⟩ := ih
      refine ⟨frame :: above, bottom, rfl, hroot, htag, hgoing, ?_⟩
      exact List.forall_mem_cons.2 ⟨hagrees.hasComputation_iff, habove⟩

/-- Frames that wait have finished, or are suspended on an effect. -/
theorem waiting (stands : Stands stages frames) (hwaits : ∀ stage ∈ stages, stage.Waits) :
    ∀ frame ∈ frames.dropLast, frame.isFinished = true ∨ ∃ resume, frame.progress = .suspended resume := by
  induction stands with
  | sentinel hroot htag => simp
  | @above stage frame stages frames hagrees hbelow stands ih =>
      obtain ⟨hstage, hothers⟩ := List.forall_mem_cons.1 hwaits
      have hnonempty : frames ≠ [] := by
        intro hempty
        rw [hempty] at stands
        cases stands
      rw [List.dropLast_cons_of_ne_nil hnonempty]
      exact List.forall_mem_cons.2 ⟨hagrees.finished_or_suspended hstage, ih hothers⟩

end Stands

/-- A computation is resumed only while it goes on, and with the one outcome of its last effect. -/
theorem Obeys.resumed {acts : List Act} {stages : List Stage} (obeys : Obeys acts stages) {before after : List Act}
    {outcome : Outcome} (hacts : acts = before ++ .resumed outcome :: after) :
    ∃ number, 0 < number ∧ (Roll.after before).live.head? = some number ∧ ¬ Ceased before number ∧
      Resumes before number outcome := by
  obtain ⟨first, last, hfirst, hprotocol⟩ := obeys.split hacts
  cases hprotocol with
  | @top stage later _ hdoes stages =>
      obtain ⟨number, rest, hlive, hlength, hless⟩ := hfirst.live_eq
      have hhead : (Roll.after before).live.head? = some number := by simp [hlive]
      have hpos : 0 < number := by
        have hother := hless _ (List.getElem_mem (show 0 < rest.length by omega))
        omega
      have hceasing : Ceasing before number stage := hfirst.kept_top ceasing hhead
      have hasking : Asking before number stage := hfirst.kept_top asking hhead
      refine ⟨number, hpos, hhead, fun hceased => ?_, ?_⟩
      · have hrests := hceasing.rests hceased
        cases hdoes <;> exact hrests
      · cases hdoes with
        | begin => exact .first hasking
        | resume =>
            have hasked : Asked before number none := hasking
            exact .again hasked
        | resumeWith =>
            have hasked : Asked before number (some outcome) := hasking
            exact .again hasked

/-- A stack is in order at every moment. -/
theorem inOrder_of_moment {machine : Machine} {context : Context} {signal : Option TaskId} {effect : Effect}
    {acts : List Act} {run : Run} (moment : Moment machine context signal effect acts run) :
    InOrder acts run := by
  obtain ⟨stages, obeys, stands⟩ := moment.stands
  have hnumbered : (Roll.after acts).live.length = run.frames.length := by
    rw [obeys.length_live, stands.length_eq]
  refine ⟨stands.sentinel_last, ⟨hnumbered, obeys.sound.sentinel⟩, ?_, obeys.not_mem_vacated,
    fun before outcome after hacts => obeys.resumed hacts⟩
  obtain ⟨⟨context, signal, top, below, canceled⟩, host⟩ := run
  cases stands with
  | sentinel hroot htag => simp
  | above hagrees hwaits rest =>
      have stands : Stands _ (top :: below) := .above hagrees hwaits rest
      exact rest.waiting stands.waits_of_mem

/-- A stack that was canceled while its cleanup was waiting is in order. -/
theorem inOrder_overtaken :
    InOrder OvertakenCleanup.acts OvertakenCleanup.settling.2 :=
  inOrder_of_moment OvertakenCleanup.history.moment

end EffectMachine
