import EffectMachine.Host.Basic
import EffectMachine.Plugin.Registry

/-!
# Machines and runs

A machine is fixed once it is built: it has a registry of handlers and validators and a library of
functions.  What changes is a run, a stack with the host it runs on.
-/

namespace EffectMachine

/-- The functions that programs can call. -/
structure Library where
  /-- The computation of one invocation. -/
  body : Function → List Value → Computation

/-- What stays the same while a machine runs. -/
structure Machine where
  registry : Registry
  library : Library

/-- A stack and the host it runs on. -/
structure Run where
  stack : Stack
  host : Host

namespace Machine

/-- The computation of one invocation of a function; an unnamed one takes the name of the function. -/
def invoke (machine : Machine) (function : Function) (args : List Value) : Computation :=
  let computation := machine.library.body function args
  { computation with name := computation.name <|> some function.name }

/-- The effect that a new stack is given for a run from outside: wrapped in a start operation when a plugin
handles those. -/
def submission (machine : Machine) (effect : Effect) : Effect :=
  if machine.registry.hasHandlers Kind.start then .start effect else effect

end Machine

namespace Run

/-- Reports an event. -/
def emit (run : Run) (event : Event) : Run :=
  { run with host := run.host.emit event }

/-- Changes the top frame. -/
def withTop (run : Run) (change : Frame → Frame) : Run :=
  { run with stack := run.stack.withTop change }

/-- Puts the frame of a computation on the stack. -/
def push (run : Run) (computation : Computation) (tag : Option HandlerTag) : Run :=
  { run with stack := run.stack.push (.ofComputation computation tag) }

/-- Gives the top frame the value of the effect it performed.  A finished frame keeps its outcome. -/
def answerTop (run : Run) (value : Value) : Run :=
  if run.stack.top.isFinished then run
  else run.withTop fun frame => { frame with result := .ok value }

/-- Gives the top frame an error.  A finished frame keeps an earlier error. -/
def failTop (run : Run) (error : Error) : Run :=
  match run.stack.top.isFinished, run.stack.top.result with
  | true, .error existing => run.emit (.deferredFailed error existing)
  | _, _ => run.withTop fun frame => { frame with result := .error error }

/-- Records a deferred effect on the top frame. -/
def deferOnTop (run : Run) (effect : Effect) : Run :=
  run.withTop fun frame => { frame with defers := effect :: frame.defers }

/-- Takes the error of the frame directly below the top one, if that frame is unwinding with one. -/
def recover (run : Run) : Run :=
  match run.stack.below with
  | [] => run
  | parent :: rest =>
    match parent.isFinished, parent.result with
    | true, .error error =>
      { run with
        stack :=
          { run.stack with
            top := { run.stack.top with result := .ok (.error error) }
            below := { parent with result := .ok .null } :: rest } }.emit (.recovered error)
    | _, _ => run

/-- Discards the top frame with its deferred effects; the sentinel cannot be discarded. -/
def terminateTop (run : Run) : Except Error Run :=
  match run.stack.below with
  | [] => .error (.validation "terminal: no enclosing frame to terminate")
  | parent :: rest =>
    let frame := run.stack.top
    let run := if frame.defers.isEmpty then run
      else run.emit (.defersDropped frame.label frame.defers.length)
    let run := run.emit (.terminated frame.label)
    .ok
      { stack := { run.stack with top := parent, below := rest }
        host := run.host.close frame.answerable }

/-- Takes note of a cancellation, once. -/
def observeCancellation (run : Run) : Run :=
  if !run.stack.canceled && run.stack.signal.any run.host.isCanceled then
    { run with stack := run.stack.markCanceled }.emit (.stackCanceled run.stack.height)
  else run

end Run
end EffectMachine
