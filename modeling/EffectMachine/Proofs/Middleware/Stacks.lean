import EffectMachine.Proofs.Middleware.Observers

/-!
# Stacks behind an observer

A stack with frames of an observer covers the stack without them, which is the one that another machine has where nothing
is observed.

* `Observer.Covers` is the relation, with one lemma for each change of the frames.
* `Observer.Holds` says that a frame of the observer awaits an outcome, as all those do that have frames above them.
* `Observer.Rests` says that the observer is not at work.
-/

namespace EffectMachine

/-- The last one of some frames. -/
def lastFrame (top : Frame) : List Frame → Frame
  | [] => top
  | next :: rest => lastFrame next rest

/-- A stack stands on a sentinel: its last frame has no computation, and runs no handler. -/
structure Stack.Grounded (stack : Stack) : Prop where
  root : (lastFrame stack.top stack.below).progress = .root
  untagged : (lastFrame stack.top stack.below).tag = none

theorem lastFrame_mem (top : Frame) (below : List Frame) : lastFrame top below ∈ top :: below := by
  induction below generalizing top with
  | nil => exact List.mem_cons_self
  | cons next rest ih => exact List.mem_cons_of_mem _ (ih next)

/-- Of a frame that is marked as canceled, nothing changes but its cancellation. -/
theorem Frame.exists_markCanceled (frame : Frame) : ∃ cancellation, frame.markCanceled = { frame with cancellation } := by
  unfold markCanceled
  split
  · exact ⟨_, rfl⟩
  · exact ⟨_, rfl⟩

theorem lastFrame_markCanceled (top : Frame) (below : List Frame) :
    lastFrame top.markCanceled (below.map Frame.markCanceled) = (lastFrame top below).markCanceled := by
  induction below generalizing top with
  | nil => rfl
  | cons next rest ih => exact ih next

namespace Stack.Grounded

variable {stack : Stack}

/-- What is above the sentinel may change. -/
theorem push (hgrounded : stack.Grounded) (frame : Frame) : (stack.push frame).Grounded :=
  ⟨hgrounded.root, hgrounded.untagged⟩

theorem pop (hgrounded : stack.Grounded) {parent : Frame} {rest : List Frame} (hbelow : stack.below = parent :: rest) :
    Stack.Grounded { stack with top := parent, below := rest } := by
  obtain ⟨hroot, huntagged⟩ := hgrounded
  rw [hbelow] at hroot huntagged
  exact ⟨hroot, huntagged⟩

theorem withTop (hgrounded : stack.Grounded) {change : Frame → Frame} (htag : (change stack.top).tag = stack.top.tag)
    (hbottom : stack.below = [] → (change stack.top).progress = stack.top.progress) : (stack.withTop change).Grounded := by
  obtain ⟨context, signal, top, below, canceled⟩ := stack
  cases below with
  | nil => exact ⟨(hbottom rfl).trans hgrounded.root, htag.trans hgrounded.untagged⟩
  | cons parent rest => exact ⟨hgrounded.root, hgrounded.untagged⟩

theorem markCanceled (hgrounded : stack.Grounded) : stack.markCanceled.Grounded := by
  have hlast : lastFrame stack.markCanceled.top stack.markCanceled.below =
      (lastFrame stack.top stack.below).markCanceled := lastFrame_markCanceled _ _
  obtain ⟨cancellation, hmarked⟩ := (lastFrame stack.top stack.below).exists_markCanceled
  refine ⟨?_, ?_⟩
  · rw [hlast, hmarked]
    exact hgrounded.root
  · rw [hlast, hmarked]
    exact hgrounded.untagged

end Stack.Grounded

/-- A frame does not run, and has no outcome unless it has finished. -/
structure Frame.Expectant (frame : Frame) : Prop where
  result : frame.isFinished = false → frame.result = .ok .null
  idle : ∀ body, frame.progress ≠ .running body

namespace Frame

variable (frame : Frame) (outcome : Outcome)

@[simp] theorem tag_absorb : (frame.absorb outcome).tag = frame.tag := by
  obtain ⟨progress, name, tag, result, defers, cancellation, answerable⟩ := frame
  cases progress <;> cases outcome <;> cases result <;> rfl

@[simp] theorem progress_absorb : (frame.absorb outcome).progress = frame.progress := by
  obtain ⟨progress, name, tag, result, defers, cancellation, answerable⟩ := frame
  cases progress <;> cases outcome <;> cases result <;> rfl

@[simp] theorem isFinished_absorb : (frame.absorb outcome).isFinished = frame.isFinished := by
  simp [isFinished]

variable {frame}

/-- A frame that has not finished takes any outcome. -/
theorem absorb_of_going (hgoing : frame.isFinished = false) : frame.absorb outcome = { frame with result := outcome } := by
  simp [absorb, hgoing]

/-- A frame that expects an outcome is as if it had got none yet. -/
theorem Expectant.absorb_null (hexpectant : frame.Expectant) : frame.absorb (.ok .null) = frame := by
  cases hfinished : frame.isFinished with
  | true => simp [absorb, hfinished]
  | false =>
      obtain ⟨progress, name, tag, result, defers, cancellation, answerable⟩ := frame
      cases hexpectant.result hfinished
      exact absorb_of_going _ hfinished

theorem Expectant.markCanceled (hexpectant : frame.Expectant) : frame.markCanceled.Expectant := by
  obtain ⟨cancellation, hmarked⟩ := frame.exists_markCanceled
  rw [hmarked]
  exact ⟨hexpectant.result, hexpectant.idle⟩

end Frame

namespace Observer

open Middleware

/-- A frame that runs the computation of an observer and has nothing else to do. -/
structure Own (observer : Observer) (frame : Frame) : Prop where
  owns : owns observer.kinds frame = true
  defers : frame.defers = []
  cancellation : frame.cancellation = .none
  answerable : frame.answerable = []

/-- A frame of an observer that awaits the outcome of its operation. -/
structure Holds (observer : Observer) (frame : Frame) : Prop extends observer.Own frame where
  awaits : ∃ operation, frame.progress = .suspended (observer.resuming operation)

variable {observer : Observer}

theorem Holds.isFinished {frame : Frame} (hholds : observer.Holds frame) : frame.isFinished = false := by
  obtain ⟨operation, hprogress⟩ := hholds.awaits
  simp [Frame.isFinished, hprogress]

/-- A stack covers another one if it has the same frames, and frames of the observer between them. -/
structure Covers (observer : Observer) (watched stack : Stack) : Prop where
  context : stack.context = watched.context
  signal : stack.signal = watched.signal
  canceled : stack.canceled = watched.canceled
  frames : stack.top :: stack.below = plainFrames observer.kinds (watched.top :: watched.below)
  holds : ∀ frame ∈ watched.below, owns observer.kinds frame = true → observer.Holds frame
  expectant : ∀ frame ∈ watched.below, frame.Expectant
  grounded : watched.Grounded

/-- A stack whose top frame is not the observer's, and has no outcome while its computation runs. -/
structure Rests (observer : Observer) (watched : Stack) : Prop where
  other : owns observer.kinds watched.top = false
  running : ∀ body, watched.top.progress = .running body → watched.top.result = .ok .null

namespace Covers

variable {watched stack : Stack}

/-- New stacks cover themselves. -/
theorem refl_new (context : Context) (signal : Option TaskId) :
    observer.Covers { context, signal } { context, signal } where
  context := rfl
  signal := rfl
  canceled := rfl
  frames := rfl
  holds _ hmem := absurd hmem List.not_mem_nil
  expectant _ hmem := absurd hmem List.not_mem_nil
  grounded := ⟨rfl, rfl⟩

/-- There are frames below a frame of the observer. -/
theorem below_ne_nil (hcovers : observer.Covers watched stack) (howns : owns observer.kinds watched.top = true) :
    watched.below ≠ [] := by
  intro hbelow
  have huntagged := hcovers.grounded.untagged
  rw [hbelow] at huntagged
  exact Bool.false_ne_true ((owns_of_untagged _ huntagged).symm.trans howns)

/-- There are frames below a frame that has finished. -/
theorem below_ne_nil_of_isFinished (hcovers : observer.Covers watched stack) (hfinished : watched.top.isFinished = true) :
    watched.below ≠ [] := by
  intro hbelow
  have hroot := hcovers.grounded.root
  rw [hbelow] at hroot
  have hroot : watched.top.progress = .root := hroot
  simp [Frame.isFinished, hroot] at hfinished

variable (hcovers : observer.Covers watched stack)

include hcovers

/-- Below a top frame that is not the observer's are the frames that are covered. -/
theorem top_and_below (hother : owns observer.kinds watched.top = false) :
    stack.top = plainFrame observer.kinds watched.top ∧ stack.below = plainFrames observer.kinds watched.below := by
  have hframes := hcovers.frames
  rw [plainFrames_other _ _ hother] at hframes
  exact List.cons.inj hframes

/-- A frame of the observer covers nothing. -/
theorem frames_own (howns : owns observer.kinds watched.top = true) :
    stack.top :: stack.below = plainFrames observer.kinds watched.below := by
  rw [← plainFrames_own _ _ howns]
  exact hcovers.frames

/-- The covered stack is down to its sentinel when the other one is. -/
theorem below_eq_nil_iff (hother : owns observer.kinds watched.top = false) : stack.below = [] ↔ watched.below = [] := by
  rw [(hcovers.top_and_below hother).2]
  constructor
  · intro hnone
    have huntagged := hcovers.grounded.untagged
    cases hbelow : watched.below with
    | nil => rfl
    | cons parent rest =>
        rw [hbelow] at huntagged hnone
        -- the sentinel is not the observer's, so that it is covered
        have hother : owns observer.kinds (lastFrame parent rest) = false := owns_of_untagged _ huntagged
        have hmem : plainFrame observer.kinds (lastFrame parent rest) ∈ plainFrames observer.kinds (parent :: rest) :=
          List.mem_map_of_mem (List.mem_filter.2 ⟨lastFrame_mem parent rest, by simp [hother]⟩)
        rw [hnone] at hmem
        exact absurd hmem List.not_mem_nil
  · rintro hbelow
    rw [hbelow]
    rfl

/-- The covered frame on top expects an outcome as the frames of the other stack do. -/
theorem expectant_top (hexpectant : watched.top.Expectant) : stack.top.Expectant := by
  have hmem : stack.top ∈ plainFrames observer.kinds (watched.top :: watched.below) :=
    hcovers.frames ▸ List.mem_cons_self
  obtain ⟨frame, hframe, htop⟩ := List.mem_map.1 hmem
  have hearlier : frame.Expectant :=
    List.forall_mem_cons.2 ⟨hexpectant, hcovers.expectant⟩ frame (List.mem_filter.1 hframe).1
  rw [← htop]
  exact ⟨hearlier.result, hearlier.idle⟩

/-- Both stacks get a frame that is not the observer's. -/
theorem push {frame : Frame} (hother : owns observer.kinds frame = false)
    (hholds : owns observer.kinds watched.top = true → observer.Holds watched.top) (hexpectant : watched.top.Expectant) :
    observer.Covers (watched.push frame) (stack.push (plainFrame observer.kinds frame)) where
  context := hcovers.context
  signal := hcovers.signal
  canceled := hcovers.canceled
  frames := by
    show plainFrame observer.kinds frame :: stack.top :: stack.below = plainFrames observer.kinds (frame :: _ :: _)
    rw [plainFrames_other _ _ hother, hcovers.frames]
  holds := List.forall_mem_cons.2 ⟨hholds, hcovers.holds⟩
  expectant := List.forall_mem_cons.2 ⟨hexpectant, hcovers.expectant⟩
  grounded := hcovers.grounded.push frame

/-- One stack gets a frame of the observer. -/
theorem push_own {frame : Frame} (howns : owns observer.kinds frame = true)
    (hholds : owns observer.kinds watched.top = true → observer.Holds watched.top) (hexpectant : watched.top.Expectant) :
    observer.Covers (watched.push frame) stack where
  context := hcovers.context
  signal := hcovers.signal
  canceled := hcovers.canceled
  frames := by
    show _ = plainFrames observer.kinds (frame :: _ :: _)
    rw [plainFrames_own _ _ howns, hcovers.frames]
  holds := List.forall_mem_cons.2 ⟨hholds, hcovers.holds⟩
  expectant := List.forall_mem_cons.2 ⟨hexpectant, hcovers.expectant⟩
  grounded := hcovers.grounded.push frame

section Pop

variable {parent : Frame} {rest : List Frame} (hbelow : watched.below = parent :: rest)

include hbelow

/-- The top frames leave, which are not the observer's. -/
theorem pop (hother : owns observer.kinds watched.top = false) {below : List Frame} {frame : Frame}
    (hstack : stack.below = frame :: below) :
    observer.Covers { watched with top := parent, below := rest } { stack with top := frame, below := below } where
  context := hcovers.context
  signal := hcovers.signal
  canceled := hcovers.canceled
  frames := by rw [← hstack, ← hbelow, (hcovers.top_and_below hother).2]
  holds other hmem := hcovers.holds other (hbelow ▸ List.mem_cons_of_mem _ hmem)
  expectant other hmem := hcovers.expectant other (hbelow ▸ List.mem_cons_of_mem _ hmem)
  grounded := hcovers.grounded.pop hbelow

/-- A frame of the observer leaves. -/
theorem pop_own (howns : owns observer.kinds watched.top = true) :
    observer.Covers { watched with top := parent, below := rest } stack where
  context := hcovers.context
  signal := hcovers.signal
  canceled := hcovers.canceled
  frames := by rw [hcovers.frames_own howns, hbelow]
  holds other hmem := hcovers.holds other (hbelow ▸ List.mem_cons_of_mem _ hmem)
  expectant other hmem := hcovers.expectant other (hbelow ▸ List.mem_cons_of_mem _ hmem)
  grounded := hcovers.grounded.pop hbelow

end Pop

/-- The top frames change alike. -/
theorem withTop (change : Frame → Frame) (htag : (change watched.top).tag = watched.top.tag)
    (hbottom : watched.below = [] → (change watched.top).progress = watched.top.progress)
    (hother : owns observer.kinds watched.top = false)
    (hchange : change (plainFrame observer.kinds watched.top) = plainFrame observer.kinds (change watched.top)) :
    observer.Covers (watched.withTop change) (stack.withTop change) where
  context := hcovers.context
  signal := hcovers.signal
  canceled := hcovers.canceled
  frames := by
    obtain ⟨htop, hbelow⟩ := hcovers.top_and_below hother
    show change stack.top :: stack.below = plainFrames observer.kinds (change watched.top :: watched.below)
    rw [plainFrames_other _ _ ((owns_of_tag _ htag).trans hother), htop, hbelow, hchange]
  holds := hcovers.holds
  expectant := hcovers.expectant
  grounded := hcovers.grounded.withTop htag hbottom

/-- A frame of the observer changes. -/
theorem withTop_own (change : Frame → Frame) (htag : (change watched.top).tag = watched.top.tag)
    (howns : owns observer.kinds watched.top = true) : observer.Covers (watched.withTop change) stack where
  context := hcovers.context
  signal := hcovers.signal
  canceled := hcovers.canceled
  frames := by
    show _ = plainFrames observer.kinds (change watched.top :: watched.below)
    rw [plainFrames_own _ _ ((owns_of_tag _ htag).trans howns), hcovers.frames_own howns]
  holds := hcovers.holds
  expectant := hcovers.expectant
  grounded := hcovers.grounded.withTop htag fun hbelow => absurd hbelow (hcovers.below_ne_nil howns)

/-- The top frames take what the frames below are unwinding with. -/
theorem recover (hother : owns observer.kinds watched.top = false) {parent : Frame} {rest : List Frame}
    (hbelow : watched.below = parent :: rest) (hparent : owns observer.kinds parent = false)
    (hfinished : parent.isFinished = true) (caught left : Outcome) :
    observer.Covers
      { watched with top := { watched.top with result := caught }, below := { parent with result := left } :: rest }
      { stack with
        top := { stack.top with result := caught }
        below := { plainFrame observer.kinds parent with result := left } :: plainFrames observer.kinds rest } where
  context := hcovers.context
  signal := hcovers.signal
  canceled := hcovers.canceled
  frames := by
    have hparent' : owns observer.kinds { parent with result := left } = false := hparent
    have hother' : owns observer.kinds { watched.top with result := caught } = false := hother
    rw [plainFrames_other _ _ hother', plainFrames_other _ _ hparent', (hcovers.top_and_below hother).1]
    rfl
  holds frame hmem := by
    rcases List.mem_cons.1 hmem with rfl | hrest
    · exact fun howns => absurd (hparent.symm.trans howns) Bool.false_ne_true
    · exact hcovers.holds frame (hbelow ▸ List.mem_cons_of_mem _ hrest)
  expectant frame hmem := by
    rcases List.mem_cons.1 hmem with rfl | hrest
    · have hexpectant := hcovers.expectant parent (hbelow ▸ List.mem_cons_self)
      exact ⟨fun hgoing => absurd (hgoing.symm.trans hfinished) Bool.false_ne_true, hexpectant.idle⟩
    · exact hcovers.expectant frame (hbelow ▸ List.mem_cons_of_mem _ hrest)
  grounded := by
    obtain ⟨hroot, huntagged⟩ := hcovers.grounded
    rw [hbelow] at hroot huntagged
    cases rest with
    | nil => exact ⟨hroot, huntagged⟩
    | cons next rest => exact ⟨hroot, huntagged⟩

/-- A cancellation is noted on both stacks, if the observer has no frames. -/
theorem markCanceled (hnone : ∀ frame ∈ watched.top :: watched.below, owns observer.kinds frame = false) :
    observer.Covers watched.markCanceled stack.markCanceled where
  context := hcovers.context
  signal := hcovers.signal
  canceled := rfl
  frames := by
    show (stack.top :: stack.below).map Frame.markCanceled =
      plainFrames observer.kinds ((watched.top :: watched.below).map Frame.markCanceled)
    rw [plainFrames_markCanceled, hcovers.frames]
  holds frame hmem hown := by
    obtain ⟨earlier, hearlier, rfl⟩ := List.mem_map.1 hmem
    rw [owns_markCanceled, hnone earlier (List.mem_cons_of_mem _ hearlier)] at hown
    cases hown
  expectant frame hmem := by
    obtain ⟨earlier, hearlier, rfl⟩ := List.mem_map.1 hmem
    exact (hcovers.expectant earlier hearlier).markCanceled
  grounded := hcovers.grounded.markCanceled

end Covers
end Observer
end EffectMachine
