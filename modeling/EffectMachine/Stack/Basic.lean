import EffectMachine.Context
import EffectMachine.Program.Effect

/-!
# Frames and stacks

A stack holds the frames of one run.  The bottom frame is a sentinel that only receives the final result;
every other frame carries one computation.  Main statements: `Stack.labels_length`, the chain of labels names every
frame above the sentinel, and `Stack.outcome_of_canceled`, a canceled stack ends with the mark of cancellation.
-/

namespace EffectMachine

/-- Kind and position of the handler that a frame runs. -/
structure HandlerTag where
  kind : String
  index : Nat
  deriving DecidableEq, Inhabited

/-- How far the computation of a frame has come. -/
inductive Progress where
  /-- The sentinel has no computation. -/
  | root
  /-- It was never resumed. -/
  | fresh (body : Body)
  /-- It performed an effect and awaits the outcome. -/
  | suspended (resume : Outcome → Body)
  /-- It is being resumed. -/
  | running (body : Body)
  /-- It has ended, or was given up. -/
  | finished

/-- How far the cancellation of a stack has reached a frame. -/
inductive Cancellation where
  /-- It has not. -/
  | none
  /-- The frame is to be given up. -/
  | due
  /-- The frame was given up. -/
  | applied
  deriving DecidableEq, Inhabited

/-- A frame of a stack. -/
structure Frame where
  progress : Progress
  /-- Name of the computation, if it has one. -/
  name : Option String := none
  /-- Set on frames that run a handler. -/
  tag : Option HandlerTag := none
  /-- The outcome the computation is resumed with; once it has finished, the outcome of the frame. -/
  result : Outcome := .ok .null
  /-- Deferred effects, the most recent one first. -/
  defers : List Effect := []
  cancellation : Cancellation := .none
  /-- Batched calls that the computation has to answer. -/
  answerable : List Slot := []

namespace Frame

/-- The sentinel. -/
def root : Frame where
  progress := .root

/-- The frame of a computation. -/
def ofComputation (computation : Computation) (tag : Option HandlerTag) : Frame where
  progress := .fresh computation.body
  name := computation.name
  tag := tag

/-- Whether the computation of a frame has ended or was given up. -/
def isFinished (frame : Frame) : Bool :=
  match frame.progress with
  | .finished => true
  | _ => false

/-- What a frame is called in a chain of frames. -/
def label (frame : Frame) : String :=
  match frame.tag, frame.name with
  | some tag, _ => "<yield " ++ tag.kind ++ ">"
  | none, some name => name
  | none, none => "<anonymous>"

/-- A frame that was not yet reached by a cancellation is to be given up. -/
def markCanceled (frame : Frame) : Frame :=
  match frame.cancellation with
  | .none => { frame with cancellation := .due }
  | _ => frame

/-- The frame after its computation has ended. -/
def finish (frame : Frame) (outcome : Outcome) : Frame :=
  { frame with progress := .finished, result := outcome, answerable := [] }

end Frame

/-- The frames of one run. -/
structure Stack where
  /-- The context handed to filters and handlers. -/
  context : Context
  /-- The task whose cancellation reaches this stack, if any. -/
  signal : Option TaskId
  /-- The frame on top. -/
  top : Frame := .root
  /-- The frames below it, from the top down; the last one is the sentinel. -/
  below : List Frame := []
  /-- Whether the stack has taken note of its cancellation. -/
  canceled : Bool := false

namespace Stack

/-- The number of frames above the sentinel. -/
def height (stack : Stack) : Nat :=
  stack.below.length

/-- The frames above the sentinel, from the top down. -/
def live (stack : Stack) : List Frame :=
  (stack.top :: stack.below).dropLast

/-- The labels of the frames above the sentinel, from the top down. -/
def labels (stack : Stack) : List String :=
  stack.live.map Frame.label

/-- The stack with another top frame in place of the present one. -/
def withTop (stack : Stack) (change : Frame → Frame) : Stack :=
  { stack with top := change stack.top }

/-- The stack with a frame on top of the present one. -/
def push (stack : Stack) (frame : Frame) : Stack :=
  { stack with top := frame, below := stack.top :: stack.below }

/-- Every frame that is not yet reached by the cancellation is to be given up. -/
def markCanceled (stack : Stack) : Stack :=
  { stack with
    canceled := true
    top := stack.top.markCanceled
    below := stack.below.map Frame.markCanceled }

/-- The description of the top frame. -/
def frameInfo (stack : Stack) : FrameInfo where
  name := stack.top.name
  kind := stack.top.tag.map HandlerTag.kind
  depth := stack.height

/-- The outcome of a stack that is down to its sentinel.  A canceled one ends with the mark of cancellation,
and a failure seen while it unwound is attached. -/
def outcome (stack : Stack) : Outcome :=
  if stack.canceled then
    match stack.top.result with
    | .error error =>
      if error.isCancellation then .error .cancelled
      else .error (Error.cancelled.withErrors [error])
    | .ok _ => .error .cancelled
  else stack.top.result

/-- Every frame above the sentinel has a label. -/
theorem labels_length (stack : Stack) : stack.labels.length = stack.height := by
  simp [labels, live, height]

/-- A pushed frame makes the stack one higher. -/
@[simp] theorem height_push (stack : Stack) (frame : Frame) :
    (stack.push frame).height = stack.height + 1 := rfl

/-- A change of the top frame keeps the height. -/
@[simp] theorem height_withTop (stack : Stack) (change : Frame → Frame) :
    (stack.withTop change).height = stack.height := rfl

/-- A cancellation keeps the height. -/
@[simp] theorem height_markCanceled (stack : Stack) :
    stack.markCanceled.height = stack.height := by
  simp [markCanceled, height]

/-- A canceled stack never ends well, and its error is the mark of cancellation. -/
theorem outcome_of_canceled {stack : Stack} (canceled : stack.canceled = true) :
    ∃ error, stack.outcome = .error error ∧ error.isCancellation = true := by
  unfold outcome
  rw [if_pos canceled]
  split
  · split
    · exact ⟨_, rfl, rfl⟩
    · exact ⟨_, rfl, rfl⟩
  · exact ⟨_, rfl, rfl⟩

end Stack
end EffectMachine
