import EffectMachine.Proofs.Acts.History
import Mathlib.Data.List.Forall2

/-!
# The resume protocol

A frame and the machine take turns.  The computation runs until it performs an effect; it then asks, is told
one outcome, and is resumed with it.  While it asks, other frames may stand above it; none may while it
runs or has its answer.  Once it has ended it only hands on what its deferred effects come to.

* `Stage` is how far a frame has come in this, `Stage.Does` what its own acts make of it, and `Protocol`
  what an act makes of a whole stack of stages, the top one first and without the sentinel.
* `Obeys` are the acts of a new stack that keep to the protocol, with the stages they lead to.
* `Leads` is what further acts make of the stages.  `Obeys.alike` says that the stages are known from the acts.
* `Stage.Agrees` and `Stands` compare stages with frames.

The protocol has no rule for a frame that finishes without a computation, and none that resumes a frame
which has ended, or which is to be given up.
-/

namespace EffectMachine

/-- How far a frame has come with its computation. -/
inductive Stage where
  /-- The computation was never resumed. -/
  | fresh
  /-- The computation is being resumed. -/
  | running
  /-- The computation has performed an effect and was not told an outcome. -/
  | asking
  /-- The computation has performed an effect and was told its outcome. -/
  | answered (outcome : Outcome)
  /-- The computation is to be given up, before it was ever resumed or after it performed an effect. -/
  | doomed (begun : Bool)
  /-- The computation has ended, or was given up; the frame has this outcome. -/
  | ended (outcome : Outcome)

namespace Stage

/-- Whether an effect may be handled on a frame, and other frames may stand above it. -/
def Waits : Stage → Prop
  | .asking | .doomed true | .ended _ => True
  | .fresh | .running | .answered _ | .doomed false => False

/-- A frame is told an outcome.  Once it has ended, only a failure under a success counts. -/
def told (outcome : Outcome) : Stage → Stage
  | .asking => .answered outcome
  | .ended (.ok value) =>
    match outcome with
    | .error error => .ended (.error error)
    | .ok _ => .ended (.ok value)
  | stage => stage

/-- A frame takes the error of the frame below, as a value. -/
def took (error : Error) : Stage → Stage
  | .asking => .answered (.ok (.error error))
  | .ended _ => .ended (.ok (.error error))
  | stage => stage

/-- A frame is reached by the cancellation of its stack. -/
def marked : Stage → Stage
  | .ended outcome => .ended outcome
  | .fresh => .doomed false
  | .doomed begun => .doomed begun
  | .asking | .answered _ | .running => .doomed true

/-- What the acts of a frame make of its own stage. -/
inductive Does : Stage → Act → Stage → Prop
  | defer {stage : Stage} (hwaits : stage.Waits) (effect : Effect) : Does stage (.deferred effect) stage
  | start (outcome : Outcome) (effect : Effect) : Does (.ended outcome) (.started effect) (.ended outcome)
  | answer {stage : Stage} (hwaits : stage.Waits) (value : Value) :
      Does stage (.answered value) (stage.told (.ok value))
  | fail {stage : Stage} (hwaits : stage.Waits) (error : Error) :
      Does stage (.failed error) (stage.told (.error error))
  | fork {stage : Stage} (hwaits : stage.Waits) (effect : Effect) (task : TaskId) :
      Does stage (.forked effect) (stage.told (.ok (.task task)))
  | begin : Does .fresh (.resumed (.ok .null)) .running
  -- Deferring an effect tells nothing, and the computation goes on with no value.
  | resume : Does .asking (.resumed (.ok .null)) .running
  | resumeWith (outcome : Outcome) : Does (.answered outcome) (.resumed outcome) .running
  | act (action : Action) (reply : action.Reply) : Does .running (.acted action reply) .running
  | wait (action : Action) : Does .running (.waited action) .running
  | perform (effect : Effect) : Does .running (.performed effect) .asking
  | complete (outcome : Outcome) : Does .running (.completed outcome) (.ended outcome)
  | giveUp (begun : Bool) : Does (.doomed begun) .givenUp (.ended (.ok .null))

end Stage

/-- What an act makes of the stages of a stack, the top one first. -/
inductive Protocol : List Stage → Act → List Stage → Prop
  | push {stages : List Stage} (hwaits : ∀ top ∈ stages.head?, top.Waits) (computation : Computation)
      (tag : Option HandlerTag) : Protocol stages (.pushed computation tag) (.fresh :: stages)
  | drop {top : Stage} (hwaits : top.Waits) (stages : List Stage) : Protocol (top :: stages) .dropped stages
  | leave {stages : List Stage} (hwaits : ∀ below ∈ stages.head?, below.Waits) (outcome : Outcome) :
      Protocol (.ended outcome :: stages) .left (stages.modifyHead (Stage.told outcome))
  | catch {top : Stage} (hwaits : top.Waits) (error : Error) (stages : List Stage) :
      Protocol (top :: .ended (.error error) :: stages) (.caught error)
        (top.took error :: .ended (.ok .null) :: stages)
  | notice {stages : List Stage} (hidle : Stage.running ∉ stages) :
      Protocol stages .noticed (stages.map Stage.marked)
  | top {top after : Stage} {act : Act} (hdoes : top.Does act after) (stages : List Stage) :
      Protocol (top :: stages) act (after :: stages)
  -- What the sentinel is told, and what is deferred on it, is no matter of the protocol.
  | baseDefer (effect : Effect) : Protocol [] (.deferred effect) []
  | baseAnswer (value : Value) : Protocol [] (.answered value) []
  | baseFail (error : Error) : Protocol [] (.failed error) []
  | baseFork (effect : Effect) : Protocol [] (.forked effect) []

/-- The acts of a new stack that keep to the protocol, with the stages of its frames after them. -/
inductive Obeys : List Act → List Stage → Prop
  | start : Obeys [] []
  | act {acts : List Act} {act : Act} {stages after : List Stage} (obeys : Obeys acts stages)
      (hprotocol : Protocol stages act after) : Obeys (acts ++ [act]) after

/-! ## The stages between acts -/

/-- What some acts make of the stages of a stack. -/
inductive Leads : List Stage → List Act → List Stage → Prop
  | done (stages : List Stage) : Leads stages [] stages
  | act {stages middle final : List Stage} {act : Act} {acts : List Act} (hprotocol : Protocol stages act middle)
      (rest : Leads middle acts final) : Leads stages (act :: acts) final

/-- One more act. -/
theorem Leads.concat {stages middle final : List Stage} {act : Act} {acts : List Act}
    (leads : Leads stages acts middle) (hprotocol : Protocol middle act final) :
    Leads stages (acts ++ [act]) final := by
  induction leads with
  | done stages => exact .act hprotocol (.done _)
  | act hfirst _ ih => exact .act hfirst (ih hprotocol)

namespace Obeys

variable {acts first more : List Act} {act : Act} {stages : List Stage}

/-- There are stages between any two acts. -/
theorem leads (obeys : Obeys acts stages) (hacts : acts = first ++ more) :
    ∃ middle, Obeys first middle ∧ Leads middle more stages := by
  induction obeys generalizing more with
  | start =>
      obtain ⟨rfl, rfl⟩ := List.append_eq_nil_iff.1 hacts.symm
      exact ⟨[], .start, .done []⟩
  | @act acts last stages after obeys hprotocol ih =>
      cases more using List.reverseRecOn with
      | nil =>
          rw [List.append_nil] at hacts
          exact ⟨after, hacts ▸ .act obeys hprotocol, .done after⟩
      | append_singleton more other =>
          rw [← List.append_assoc] at hacts
          obtain ⟨hearlier, hlast⟩ := List.append_inj' hacts rfl
          obtain ⟨middle, hfirst, hmore⟩ := ih hearlier
          rw [← List.singleton_inj.1 hlast]
          exact ⟨middle, hfirst, hmore.concat hprotocol⟩

/-- What comes first keeps to the protocol, and so does what comes next. -/
theorem split (obeys : Obeys acts stages) (hacts : acts = first ++ act :: more) :
    ∃ before after, Obeys first before ∧ Protocol before act after := by
  obtain ⟨before, hfirst, hmore⟩ := obeys.leads hacts
  cases hmore with
  | act hprotocol rest => exact ⟨before, _, hfirst, hprotocol⟩

end Obeys

/-- Two stages are the same, but for what a computation was told. -/
inductive Stage.Alike : Stage → Stage → Prop
  | same (stage : Stage) : Alike stage stage
  | answered (outcome other : Outcome) : Alike (.answered outcome) (.answered other)

/-- Acts make the same of stages that are alike. -/
theorem Stage.Does.alike {stage other after later : Stage} {act : Act} (hdoes : stage.Does act after)
    (hother : other.Does act later) (halike : stage.Alike other) : after.Alike later := by
  cases halike with
  | same stage =>
      cases hdoes with
      | fork hwaits effect task =>
          cases hother with
          | fork _ _ other =>
              cases stage with
              | fresh | running | answered outcome => cases hwaits
              | asking => exact .answered _ _
              | doomed begun => exact .same _
              | ended outcome => cases outcome <;> exact .same _
      | _ =>
          cases hother
          exact .same _
  | answered outcome told =>
      cases hdoes with
      | defer hwaits | answer hwaits | fail hwaits | fork hwaits => cases hwaits
      | resumeWith =>
          cases hother
          exact .same _

/-- Stages that are alike stay so, whatever they are told or reached by. -/
theorem Stage.Alike.told {stage other : Stage} (halike : stage.Alike other) (outcome : Outcome) :
    (stage.told outcome).Alike (other.told outcome) := by
  cases halike with
  | same stage => exact .same _
  | answered own told => exact .answered _ _

theorem Stage.Alike.marked {stage other : Stage} (halike : stage.Alike other) :
    stage.marked.Alike other.marked := by
  cases halike with
  | same stage => exact .same _
  | answered own told => exact .same _

/-- Acts make the same of stacks of stages that are alike. -/
theorem Protocol.alike {stages others after later : List Stage} {act : Act} (hprotocol : Protocol stages act after)
    (hother : Protocol others act later) (halike : List.Forall₂ Stage.Alike stages others) :
    List.Forall₂ Stage.Alike after later := by
  cases hprotocol with
  | push hwaits computation tag =>
      cases hother with
      | push => exact .cons (.same _) halike
      | top hdoes => cases hdoes
  | drop hwaits rest =>
      cases hother with
      | drop => exact (List.forall₂_cons.1 halike).2
      | top hdoes => cases hdoes
  | leave hwaits outcome =>
      cases hother with
      | leave =>
          obtain ⟨hhead, hrest⟩ := List.forall₂_cons.1 halike
          cases hhead
          cases hrest with
          | nil => exact .nil
          | cons hsecond hbelow => exact .cons (hsecond.told outcome) hbelow
      | top hdoes => cases hdoes
  | «catch» hwaits error rest =>
      cases hother with
      | «catch» hwaits =>
          obtain ⟨hhead, hrest⟩ := List.forall₂_cons.1 halike
          refine .cons ?_ (.cons (.same _) (List.forall₂_cons.1 hrest).2)
          cases hhead with
          | same stage => exact .same _
          | answered own told => cases hwaits
      | top hdoes => cases hdoes
  | notice hidle =>
      cases hother with
      | notice => exact List.forall₂_map_left_iff.2 (List.forall₂_map_right_iff.2 (halike.imp fun _ _ h => h.marked))
      | top hdoes => cases hdoes
  | top hdoes rest =>
      cases halike with
      | cons hhead hbelow =>
          cases hother with
          | top hother => exact .cons (hdoes.alike hother hhead) hbelow
          | push | drop | leave | «catch» | notice => cases hdoes
  | baseDefer | baseAnswer | baseFail | baseFork =>
      cases halike
      cases hother
      exact .nil

/-- The stages of a stack are known from its acts, but for what a computation was told. -/
theorem Obeys.alike {acts : List Act} {stages others : List Stage} (obeys : Obeys acts stages)
    (hother : Obeys acts others) : List.Forall₂ Stage.Alike stages others := by
  induction obeys generalizing others with
  | start =>
      generalize hnil : ([] : List Act) = acts at hother
      cases hother with
      | start => exact .nil
      | act => simp at hnil
  | @act acts act stages after obeys hprotocol ih =>
      generalize hacts : acts ++ [act] = more at hother
      cases hother with
      | start => simp at hacts
      | act hearlier hlast =>
          obtain ⟨rfl, hsame⟩ := List.append_inj' hacts rfl
          rw [List.singleton_inj.1 hsame] at hprotocol
          exact hprotocol.alike hlast (ih hearlier)

namespace Stage

variable {stage : Stage} {frame : Frame}

/-- A frame that waits still waits after the stack took note of its cancellation. -/
theorem Waits.marked (hwaits : stage.Waits) : stage.marked.Waits := by
  cases stage with
  | asking | ended outcome => trivial
  | doomed begun => exact hwaits
  | fresh | running | answered outcome => cases hwaits

/-- How far the computation of a frame has come at a stage. -/
inductive At : Stage → Progress → Prop
  | fresh (body : Body) : At .fresh (.fresh body)
  | running (body : Body) : At .running (.running body)
  | asking (resume : Outcome → Body) : At .asking (.suspended resume)
  | answered (outcome : Outcome) (resume : Outcome → Body) : At (.answered outcome) (.suspended resume)
  | unborn (body : Body) : At (.doomed false) (.fresh body)
  | doomed (resume : Outcome → Body) : At (.doomed true) (.suspended resume)
  | ended (outcome : Outcome) : At (.ended outcome) .finished

/-- What is known of the result of a frame. -/
def result? : Stage → Option Outcome
  | .fresh | .running | .asking => some (.ok .null)
  | .answered outcome | .ended outcome => some outcome
  | .doomed _ => none

/-- What is known of the cancellation of a frame. -/
def cancellation? : Stage → Option Cancellation
  | .fresh | .running | .asking | .answered _ => some .none
  | .doomed _ => some .due
  | .ended _ => none

/-- A frame is at a stage. -/
structure Agrees (stage : Stage) (frame : Frame) : Prop where
  progress : stage.At frame.progress
  result : ∀ outcome ∈ stage.result?, frame.result = outcome
  cancellation : ∀ cancellation ∈ stage.cancellation?, frame.cancellation = cancellation

/-- Only the sentinel has no computation. -/
theorem At.ne_root {progress : Progress} (hat : stage.At progress) : progress ≠ .root := by
  cases hat <;> simp

namespace Agrees

/-- A frame has finished exactly when its stage has ended. -/
theorem isFinished_iff (hagrees : stage.Agrees frame) :
    frame.isFinished = true ↔ ∃ outcome, stage = .ended outcome := by
  obtain ⟨hat, -, -⟩ := hagrees
  unfold Frame.isFinished
  generalize frame.progress = progress at hat
  cases hat <;> simp

/-- A frame that has finished has ended with its result. -/
theorem eq_ended (hagrees : stage.Agrees frame) (hfinished : frame.isFinished = true) :
    stage = .ended frame.result := by
  obtain ⟨outcome, rfl⟩ := hagrees.isFinished_iff.1 hfinished
  rw [hagrees.result outcome rfl]

/-- A frame that has ended has no computation any more. -/
theorem progress_of_ended {outcome : Outcome} (hagrees : (Stage.ended outcome).Agrees frame) :
    frame.progress = .finished := by
  obtain ⟨hat, -, -⟩ := hagrees
  generalize frame.progress = progress at hat
  cases hat
  rfl

/-- A frame that waits has finished, or is suspended on an effect. -/
theorem finished_or_suspended (hagrees : stage.Agrees frame) (hwaits : stage.Waits) :
    frame.isFinished = true ∨ ∃ resume, frame.progress = .suspended resume := by
  obtain ⟨hat, -, -⟩ := hagrees
  unfold Frame.isFinished
  generalize frame.progress = progress at hat
  cases hat <;> first | exact .inl rfl | exact .inr ⟨_, rfl⟩ | cases hwaits

/-- A frame that waits takes over an outcome as its stage says. -/
theorem absorb (hagrees : stage.Agrees frame) (hwaits : stage.Waits) (outcome : Outcome) :
    (stage.told outcome).Agrees (frame.absorb outcome) := by
  obtain ⟨progress, name, tag, result, defers, cancellation, answerable⟩ := frame
  obtain ⟨hat, hresult, hcancellation⟩ := hagrees
  dsimp only at hat hresult hcancellation
  cases hat with
  | fresh | running | answered | unborn => cases hwaits
  | asking resume => exact ⟨.answered outcome resume, fun _ hmem => Option.some.inj hmem, hcancellation⟩
  | doomed resume => exact ⟨.doomed resume, (fun _ hmem => nomatch hmem), hcancellation⟩
  | ended own =>
      have hown : result = own := hresult own rfl
      subst hown
      cases result <;> cases outcome <;>
        exact ⟨.ended _, fun _ hmem => Option.some.inj hmem, fun _ hmem => nomatch hmem⟩

/-- A frame that waits takes the error of the frame below as its stage says. -/
theorem take (hagrees : stage.Agrees frame) (hwaits : stage.Waits) (error : Error) :
    (stage.took error).Agrees { frame with result := .ok (.error error) } := by
  obtain ⟨progress, name, tag, result, defers, cancellation, answerable⟩ := frame
  obtain ⟨hat, hresult, hcancellation⟩ := hagrees
  dsimp only at hat hresult hcancellation
  cases hat with
  | fresh | running | answered | unborn => cases hwaits
  | asking resume => exact ⟨.answered _ resume, fun _ hmem => Option.some.inj hmem, hcancellation⟩
  | doomed resume => exact ⟨.doomed resume, (fun _ hmem => nomatch hmem), hcancellation⟩
  | ended own => exact ⟨.ended _, fun _ hmem => Option.some.inj hmem, fun _ hmem => nomatch hmem⟩

/-- A frame that is not running is reached by a cancellation as its stage says. -/
theorem mark (hagrees : stage.Agrees frame) (hidle : stage ≠ .running) :
    stage.marked.Agrees frame.markCanceled := by
  obtain ⟨progress, name, tag, result, defers, cancellation, answerable⟩ := frame
  obtain ⟨hat, hresult, hcancellation⟩ := hagrees
  dsimp only at hat hresult hcancellation
  cases hat with
  | running body => exact absurd rfl hidle
  | fresh body =>
      obtain rfl := hcancellation _ rfl
      exact ⟨.unborn body, (fun _ hmem => nomatch hmem), fun _ hmem => Option.some.inj hmem⟩
  | asking resume | answered outcome resume =>
      obtain rfl := hcancellation _ rfl
      exact ⟨.doomed resume, (fun _ hmem => nomatch hmem), fun _ hmem => Option.some.inj hmem⟩
  | unborn body =>
      obtain rfl := hcancellation _ rfl
      exact ⟨.unborn body, (fun _ hmem => nomatch hmem), fun _ hmem => Option.some.inj hmem⟩
  | doomed resume =>
      obtain rfl := hcancellation _ rfl
      exact ⟨.doomed resume, (fun _ hmem => nomatch hmem), fun _ hmem => Option.some.inj hmem⟩
  | ended outcome =>
      have hown : result = outcome := hresult outcome rfl
      subst hown
      cases cancellation <;>
        exact ⟨.ended _, fun _ hmem => Option.some.inj hmem, fun _ hmem => nomatch hmem⟩

end Agrees
end Stage

/-- Frames with their stages, the top one first: the sentinel is at the bottom, and every frame below the top
one waits. -/
inductive Stands : List Stage → List Frame → Prop
  | sentinel {frame : Frame} (hroot : frame.progress = .root) (htag : frame.tag = none) : Stands [] [frame]
  | above {stage : Stage} {frame : Frame} {stages : List Stage} {frames : List Frame}
      (hagrees : stage.Agrees frame) (hwaits : ∀ below ∈ stages.head?, below.Waits)
      (stands : Stands stages frames) : Stands (stage :: stages) (frame :: frames)

namespace Stands

variable {stages : List Stage} {frames : List Frame}

/-- There is a stage for each frame above the sentinel. -/
theorem length_eq (stands : Stands stages frames) : frames.length = stages.length + 1 := by
  induction stands with
  | sentinel hroot htag => rfl
  | above hagrees hwaits stands ih => simp [ih]

/-- Taking note of a cancellation reaches all frames. -/
theorem mark (stands : Stands stages frames) (hidle : Stage.running ∉ stages) :
    Stands (stages.map Stage.marked) (frames.map Frame.markCanceled) := by
  induction stands with
  | sentinel hroot htag =>
      refine .sentinel ?_ ?_
      · unfold Frame.markCanceled
        split <;> exact hroot
      · unfold Frame.markCanceled
        split <;> exact htag
  | @above stage frame stages frames hagrees hwaits stands ih =>
      have hidleTop : stage ≠ .running := fun hsame => hidle (hsame ▸ List.mem_cons_self)
      refine .above (hagrees.mark hidleTop) ?_ (ih fun hmem => hidle (List.mem_cons_of_mem _ hmem))
      intro below hbelow
      rw [List.head?_map] at hbelow
      obtain ⟨before, hbefore, rfl⟩ := Option.map_eq_some_iff.1 hbelow
      exact (hwaits before hbefore).marked

end Stands
end EffectMachine
