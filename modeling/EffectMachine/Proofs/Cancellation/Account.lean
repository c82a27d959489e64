import EffectMachine.Proofs.Acts.Frames

/-!
# The account of a stack

A frame that finishes, fails or is given up still runs what was deferred on it.  This module keeps the
books of a stack: what each frame recorded, what it started, and how its computation ended.

* `recorded` and `started` are the books of one frame, `Ended` says how its computation ended, and
  `Settled` that it ended with nothing left to start.
* `Frame.Resembles` relates a frame to what an act makes of it when its cleanup is not concerned.
* `Kept` is the account of a frame on the stack: it has started all that was recorded on it but for what is
  pending.  A frame that is gone has settled.
* `account` is the watch that keeps these accounts.
-/

namespace EffectMachine

/-- The effects that were deferred on a frame. -/
def recorded (acts : List Act) (number : Nat) : List Effect :=
  (life acts number).filterMap Act.recorded?

/-- The deferred effects that a frame started. -/
def started (acts : List Act) (number : Nat) : List Effect :=
  (life acts number).filterMap Act.started?

/-- A frame was on the stack when the stack took note of its cancellation. -/
def Overtaken (acts : List Act) (number : Nat) : Prop :=
  ∃ before after, acts = before ++ .noticed :: after ∧ number ∈ (Roll.after before).live

/-- How the computation of a frame can end. -/
inductive Ended (acts : List Act) (number : Nat) : Prop
  | completed (outcome : Outcome) (hcompleted : .completed outcome ∈ life acts number)
  | dropped (hdropped : .dropped ∈ life acts number)
  | givenUp (hgivenUp : .givenUp ∈ life acts number) (hovertaken : Overtaken acts number)

/-- The computation of a frame has ended, and every effect that was deferred on the frame has been
started, unless the frame was discarded. -/
structure Settled (acts : List Act) (number : Nat) : Prop where
  ended : Ended acts number
  books : .dropped ∈ life acts number ∨ (recorded acts number).Perm (started acts number)

section Histories

variable {acts : List Act} {act : Act} {number : Nat}

/-- An act adds to what was recorded on the frame it concerns. -/
theorem recorded_concat (acts : List Act) (act : Act) (number : Nat) :
    recorded (acts ++ [act]) number =
      recorded acts number ++ if (Roll.after acts).actor act = number then act.recorded?.toList else [] := by
  unfold recorded
  rw [life_concat, List.filterMap_append]
  congr 1
  split
  · cases act <;> rfl
  · rfl

/-- An act adds to what was started by the frame it concerns. -/
theorem started_concat (acts : List Act) (act : Act) (number : Nat) :
    started (acts ++ [act]) number =
      started acts number ++ if (Roll.after acts).actor act = number then act.started?.toList else [] := by
  unfold started
  rw [life_concat, List.filterMap_append]
  congr 1
  split
  · cases act <;> rfl
  · rfl

/-- An act that is not about the cleanup of a frame leaves its books alone. -/
theorem books_concat (acts : List Act) (act : Act) (number : Nat) (hplain : (Roll.after acts).actor act ≠ number ∨
      act.recorded? = none ∧ act.started? = none) :
    recorded (acts ++ [act]) number = recorded acts number ∧
      started (acts ++ [act]) number = started acts number := by
  rw [recorded_concat, started_concat]
  rcases hplain with hother | ⟨hrecorded, hstarted⟩
  · simp [hother]
  · simp [hrecorded, hstarted]

theorem Overtaken.concat (act : Act) (hovertaken : Overtaken acts number) :
    Overtaken (acts ++ [act]) number := by
  obtain ⟨before, after, rfl, hlive⟩ := hovertaken
  exact ⟨before, after ++ [act], by simp, hlive⟩

theorem Ended.concat (act : Act) (hended : Ended acts number) : Ended (acts ++ [act]) number := by
  cases hended with
  | completed outcome hcompleted => exact .completed outcome (mem_life_append _ hcompleted)
  | dropped hdropped => exact .dropped (mem_life_append _ hdropped)
  | givenUp hgivenUp hovertaken =>
      exact .givenUp (mem_life_append _ hgivenUp) (hovertaken.concat act)

/-- The act that concerns a frame is part of its life. -/
theorem mem_life_concat (hactor : (Roll.after acts).actor act = number) :
    act ∈ life (acts ++ [act]) number := by
  rw [life_concat, if_pos hactor]
  simp

end Histories

/-- A frame after an act that does not concern its cleanup: the same effects are deferred on it, and
neither its end nor its cancellation is new. -/
structure Frame.Resembles (before after : Frame) : Prop where
  defers : after.defers = before.defers
  finished : after.isFinished = true → before.isFinished = true
  due : after.cancellation = .due → before.cancellation = .due
  root : after.progress = .root → before.progress = .root

namespace Frame.Resembles

theorem refl (frame : Frame) : frame.Resembles frame :=
  ⟨rfl, id, id, id⟩

/-- Another result is no matter of cleanup. -/
theorem withResult (frame : Frame) (result : Outcome) : frame.Resembles { frame with result } :=
  ⟨rfl, id, id, id⟩

/-- Nor is what becomes of the computation, as long as it goes on. -/
theorem going {frame : Frame} (progress : Progress) (result : Outcome) (answerable : List Slot)
    (hfinished : ∀ finished : Frame, finished.progress = progress → finished.isFinished = false)
    (hroot : progress ≠ .root) :
    frame.Resembles { frame with progress, result, answerable } where
  defers := rfl
  finished := fun h => absurd h (by rw [hfinished _ rfl]; simp)
  due := id
  root := fun h => absurd h hroot

end Frame.Resembles

/-- The account of a frame on the stack. -/
structure Kept (acts : List Act) (number : Nat) (frame : Frame) : Prop where
  /-- Only the sentinel has no computation. -/
  computes : frame.progress ≠ .root
  /-- What was recorded has been started or is still pending. -/
  pending : (recorded acts number).Perm (started acts number ++ frame.defers)
  ended : frame.isFinished = true → Ended acts number
  overtaken : frame.cancellation = .due → Overtaken acts number

namespace Kept

variable {acts : List Act} {act : Act} {number : Nat} {frame after : Frame}

/-- An act that does not concern the cleanup of a frame keeps its account. -/
theorem later (kept : Kept acts number frame) (hresembles : frame.Resembles after)
    (hplain : (Roll.after acts).actor act ≠ number ∨ act.recorded? = none ∧ act.started? = none) :
    Kept (acts ++ [act]) number after := by
  obtain ⟨hrecorded, hstarted⟩ := books_concat acts act number hplain
  refine ⟨fun hroot => kept.computes (hresembles.root hroot), ?_, ?_, ?_⟩
  · rw [hrecorded, hstarted, hresembles.defers]
    exact kept.pending
  · exact fun hfinished => (kept.ended (hresembles.finished hfinished)).concat act
  · exact fun hdue => (kept.overtaken (hresembles.due hdue)).concat act

/-- A new frame has nothing to account for. -/
theorem fresh (computation : Computation) (tag : Option HandlerTag) (hunborn : life acts number = []) :
    Kept (acts ++ [.pushed computation tag]) number (.ofComputation computation tag) where
  computes := fun hroot => nomatch hroot
  pending := by
    obtain ⟨hrecorded, hstarted⟩ := books_concat acts (.pushed computation tag) number
      (.inr ⟨rfl, rfl⟩)
    rw [hrecorded, hstarted, recorded, started, hunborn]
    exact .refl _
  ended := fun hfinished => nomatch hfinished
  overtaken := fun hdue => nomatch hdue

/-- A frame that records an effect has one more to start. -/
theorem recording (kept : Kept acts number frame) (effect : Effect)
    (hactor : (Roll.after acts).actor (.deferred effect) = number) :
    Kept (acts ++ [.deferred effect]) number { frame with defers := effect :: frame.defers } where
  computes := kept.computes
  pending := by
    rw [recorded_concat, started_concat, if_pos hactor, if_pos hactor]
    show (recorded acts number ++ [effect]).Perm ((started acts number ++ []) ++ effect :: frame.defers)
    rw [List.append_nil]
    exact (List.perm_append_comm.trans (.cons effect kept.pending)).trans List.perm_middle.symm
  ended := fun hfinished => (kept.ended hfinished).concat _
  overtaken := fun hdue => (kept.overtaken hdue).concat _

/-- A frame that starts an effect has one less to start. -/
theorem starting (kept : Kept acts number frame) (effect : Effect) (defers : List Effect)
    (hdefers : frame.defers = effect :: defers)
    (hactor : (Roll.after acts).actor (.started effect) = number) :
    Kept (acts ++ [.started effect]) number { frame with defers } where
  computes := kept.computes
  pending := by
    have hpending := kept.pending
    rw [recorded_concat, started_concat, if_pos hactor, if_pos hactor]
    show (recorded acts number ++ []).Perm ((started acts number ++ [effect]) ++ defers)
    rw [List.append_nil, List.append_assoc, List.singleton_append, ← hdefers]
    exact hpending
  ended := fun hfinished => (kept.ended hfinished).concat _
  overtaken := fun hdue => (kept.overtaken hdue).concat _

/-- A frame whose computation ends goes on with what is deferred on it. -/
theorem finishing (kept : Kept acts number frame) (cancellation : Cancellation) (outcome : Outcome)
    (hended : Ended (acts ++ [act]) number)
    (hdue : cancellation = .due → frame.cancellation = .due)
    (hplain : act.recorded? = none ∧ act.started? = none) :
    Kept (acts ++ [act]) number ({ frame with cancellation }.finish outcome) where
  computes := fun hroot => nomatch hroot
  pending := by
    obtain ⟨hrecorded, hstarted⟩ := books_concat acts act number (.inr hplain)
    rw [hrecorded, hstarted]
    exact kept.pending
  ended := fun _ => hended
  overtaken := fun h => (kept.overtaken (hdue h)).concat _

/-- A frame that is on the stack when the stack takes note of its cancellation is overtaken by it. -/
theorem marked (kept : Kept acts number frame) (hlive : number ∈ (Roll.after acts).live) :
    Kept (acts ++ [.noticed]) number frame.markCanceled := by
  have hpending : (recorded (acts ++ [.noticed]) number).Perm
      (started (acts ++ [.noticed]) number ++ frame.defers) := by
    obtain ⟨hrecorded, hstarted⟩ := books_concat acts .noticed number (.inr ⟨rfl, rfl⟩)
    rw [hrecorded, hstarted]
    exact kept.pending
  unfold Frame.markCanceled
  split
  · exact ⟨kept.computes, hpending, fun hfinished => (kept.ended hfinished).concat _,
      fun _ => ⟨acts, [], rfl, hlive⟩⟩
  · exact ⟨kept.computes, hpending, fun hfinished => (kept.ended hfinished).concat _,
      fun hdue => (kept.overtaken hdue).concat _⟩

end Kept

/-- What an act does to a frame that it is not about is no matter of its cleanup, unless the stack takes
note of its cancellation. -/
theorem Frame.Beside.resembles {frame after : Frame} {act : Act} (hbeside : frame.Beside act after)
    (hnotice : act ≠ .noticed) : frame.Resembles after := by
  cases hbeside with
  | same act => exact .refl frame
  | marked => exact absurd rfl hnotice
  | received result => exact .withResult frame result
  | robbed error => exact .withResult frame _

namespace Kept

variable {acts : List Act} {act : Act} {number : Nat} {frame after : Frame}

/-- An act of a frame keeps its account. -/
theorem own (hactor : (Roll.after acts).actor act = number) (hlive : number ∈ (Roll.after acts).live)
    (hdoes : frame.Does act after) (kept : Kept acts number frame) :
    Kept (acts ++ [act]) number after := by
  have hrunning : ∀ body (running : Frame), running.progress = .running body → running.isFinished = false :=
    fun body running h => by simp [Frame.isFinished, h]
  cases hdoes with
  | tell act result htells =>
      refine kept.later (.withResult frame result) (.inr ?_)
      cases act <;> first | exact ⟨rfl, rfl⟩ | cases htells
  | defer effect => exact kept.recording effect hactor
  | start effect defers hfinished hdefers => exact kept.starting effect defers hdefers hactor
  | notice => exact kept.marked hlive
  | begin body hfresh hkept =>
      exact kept.later (.going (.running body) (.ok .null) frame.answerable (hrunning _) (by simp))
        (.inr ⟨rfl, rfl⟩)
  | resume resume hsuspended hkept =>
      exact kept.later (.going (.running _) (.ok .null) frame.answerable (hrunning _) (by simp))
        (.inr ⟨rfl, rfl⟩)
  | act action resume reply hrunningAct =>
      exact kept.later (.going (.running _) frame.result _ (hrunning _) (by simp)) (.inr ⟨rfl, rfl⟩)
  | wait action resume hrunningAct => exact kept.later (.refl frame) (.inr ⟨rfl, rfl⟩)
  | perform effect resume hrunningPerform =>
      exact kept.later
        (.going (.suspended resume) frame.result frame.answerable
          (fun suspended h => by simp [Frame.isFinished, h]) (by simp)) (.inr ⟨rfl, rfl⟩)
  | complete outcome hrunningDone =>
      exact kept.finishing frame.cancellation outcome (.completed outcome (mem_life_concat hactor)) id
        ⟨rfl, rfl⟩
  | giveUp hfinished hdue =>
      exact kept.finishing .applied _
        (.givenUp (mem_life_concat hactor) ((kept.overtaken hdue).concat _)) (by simp) ⟨rfl, rfl⟩
  | vacate hroot => exact absurd hroot kept.computes

/-- An act of another frame keeps the account of a frame on the stack. -/
theorem beside (hother : (Roll.after acts).actor act ≠ number) (hlive : number ∈ (Roll.after acts).live)
    (hbeside : frame.Beside act after) (kept : Kept acts number frame) :
    Kept (acts ++ [act]) number after := by
  by_cases hnotice : act = .noticed
  · subst hnotice
    cases hbeside with
    | same => exact kept.later (.refl frame) (.inl hother)
    | marked => exact kept.marked hlive
  · exact kept.later (hbeside.resembles hnotice) (.inl hother)

/-- A frame that leaves has settled. -/
theorem leaving (hfinished : frame.isFinished = true) (hdefers : frame.defers = [])
    (kept : Kept acts number frame) : Settled (acts ++ [.left]) number := by
  obtain ⟨hrecorded, hstarted⟩ := books_concat acts .left number (.inr ⟨rfl, rfl⟩)
  have hpending := kept.pending
  rw [hdefers, List.append_nil] at hpending
  refine ⟨(kept.ended hfinished).concat _, .inr ?_⟩
  rw [hrecorded, hstarted]
  exact hpending

end Kept

/-- A frame that has settled stays settled. -/
theorem Settled.stay {acts : List Act} {act : Act} {number : Nat}
    (hother : (Roll.after acts).actor act ≠ number) (settled : Settled acts number) :
    Settled (acts ++ [act]) number := by
  obtain ⟨hrecorded, hstarted⟩ := books_concat acts act number (.inl hother)
  refine ⟨settled.ended.concat act, settled.books.imp (mem_life_append _) ?_⟩
  rw [hrecorded, hstarted]
  exact id

/-- The accounts of the frames of a stack. -/
def account : Watch where
  kept := Kept
  gone := Settled
  fresh := fun computation tag hunborn _ => .fresh computation tag hunborn
  own := fun _ hactor hlive hdoes kept => kept.own hactor hlive hdoes
  beside := fun _ hother hlive hbeside kept => kept.beside hother hlive hbeside
  drop := fun _ hactor _ =>
    have hdropped := mem_life_concat hactor
    ⟨.dropped hdropped, .inl hdropped⟩
  leave := fun _ _ hfinished hdefers kept => kept.leaving hfinished hdefers
  stay := fun hother settled => settled.stay hother

end EffectMachine
