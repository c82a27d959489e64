import EffectMachine.Machine.Dispatch

/-!
# Unwinding

What becomes of finished frames: each runs its deferred effects, the most recent one first, and then
hands its outcome to the frame below.  When that frame is itself unwinding, only a failure under a success
counts.
-/

namespace EffectMachine
namespace Machine

/-- Takes finished frames off the stack, from `top` down, until one has a deferred effect to run or the frame
below awaits an outcome. -/
def unwindFrom (machine : Machine) (stack : Stack) (host : Host) (top : Frame) :
    List Frame → Run
  | [] => { stack := { stack with top, below := [] }, host }
  | parent :: rest =>
    match top.defers with
    | effect :: defers =>
      machine.handle effect
        { stack := { stack with top := { top with defers }, below := parent :: rest }
          host := host.emit (.deferredStarted effect.kind) }
    | [] =>
      if parent.isFinished then
        match top.result, parent.result with
        | .error error, .error existing =>
          machine.unwindFrom stack (host.emit (.deferredFailed error existing)) parent rest
        | .error error, .ok _ =>
          machine.unwindFrom stack host { parent with result := .error error } rest
        | .ok _, _ => machine.unwindFrom stack host parent rest
      else { stack := { stack with top := { parent with result := top.result }, below := rest }, host }

/-- Takes finished frames off the stack. -/
def unwind (machine : Machine) (run : Run) : Run :=
  machine.unwindFrom run.stack run.host run.stack.top run.stack.below

/-- Ends the computation of the top frame, which leaves unanswered what it still had to answer, and unwinds. -/
def finishTop (machine : Machine) (outcome : Outcome) (run : Run) : Run :=
  machine.unwind
    { stack := run.stack.withTop fun frame => frame.finish outcome
      host := run.host.close run.stack.top.answerable }

end Machine
end EffectMachine
