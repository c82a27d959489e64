import EffectMachine.Machine.Basic

/-!
# Dispatch

How a machine handles an effect: it checks the effect, then looks for a handler of its kind, and falls
back on the core rule of the operation.  Handling an effect always ends, because the core rules only ever go on
with an effect that the operation wraps.
-/

namespace EffectMachine

/-- A handled effect: the run after it, and the error it was rejected with, if any. -/
structure Handled where
  run : Run
  failure : Option Error := none

namespace Machine

/-- The text of the refusal to fork without a scheduler. -/
def noScheduler : String :=
  "fork: there is no reactor running, must be called from the context of a Tokio 1.x runtime"

/-- Spawns an effect as a task, which the top frame is given a handle on. -/
def fork (effect : Effect) (run : Run) : Handled :=
  if run.host.scheduled then
    let (task, host) := run.host.spawn (.forked run.stack.context effect)
    { run := ({ run with host }.emit (.forked task)).answerTop (.task task) }
  else { run, failure := some (.type noScheduler) }

/-- Gives the top frame its own description. -/
def describe (run : Run) : Handled :=
  let (identity, host) := run.host.mint 1
  { run := { run with host }.answerTop (.object (.frame identity run.stack.frameInfo)) }

/-- The position at which a delegation of `effect` from the top frame goes on. -/
def delegation (run : Run) (effect : Effect) : Except Error Nat :=
  match run.stack.top.tag with
  | none => .error (.type "next: should be used only in handlers")
  | some tag =>
    if tag.kind = effect.kind then .ok (tag.index + 1)
    else .error (.type ("next: operation kind mismatch, expected \"" ++ tag.kind
      ++ "\", received \"" ++ effect.kind ++ "\""))

/-- Puts the frame that services an effect on the stack: that of the first handler of its kind, from
position `first` on, that takes it, or else the one of the core rule. -/
def dispatch (machine : Machine) (effect : Effect) (first : Nat) (run : Run) : Handled :=
  let operation := effect.operation
  match run.host.run (machine.registry.select operation run.stack.context first) with
  | (some (index, handler), host) =>
    let run := { run with host }.emit (.dispatched effect.kind index (run.stack.height + 1))
    { run := run.push (handler.handle operation run.stack.context) (some ⟨effect.kind, index⟩) }
  | (none, host) =>
    let run := { run with host }
    match effect with
    | .bare computation | .execute computation => { run := run.push computation none }
    | .call function args =>
      { run := (run.emit (.called function.name)).push (machine.invoke function args) none }
    | .fork effect => fork effect run
    | .start effect => machine.dispatch effect 0 run
    | .defer effect => { run := run.deferOnTop effect }
    | .recover => { run := run.recover }
    | .terminal effect =>
      match run.terminateTop with
      | .ok run => machine.dispatch effect 0 run
      | .error error => { run, failure := some error }
    | .generator => describe run
    | .next effect inPlace =>
      match delegation run effect with
      | .error error => { run, failure := some error }
      | .ok position =>
        if inPlace then
          match run.terminateTop with
          | .ok run => machine.dispatch effect position run
          | .error error => { run, failure := some error }
        else machine.dispatch effect position run
    | .custom kind _ => { run, failure := some (.unrecognized kind) }
termination_by structural effect

/-- Checks an effect and, if nothing speaks against it, dispatches it. -/
def attempt (machine : Machine) (effect : Effect) (run : Run) : Handled :=
  match run.host.run (machine.registry.validate effect) with
  | (some error, host) => { run := { run with host }, failure := some error }
  | (none, host) => machine.dispatch effect 0 { run with host }

/-- Handles an effect: a rejected one fails the top frame. -/
def handle (machine : Machine) (effect : Effect) (run : Run) : Run :=
  match machine.attempt effect run with
  | { run, failure := none } => run
  | { run, failure := some error } =>
    (run.emit (.effectFailed error run.stack.labels)).failTop error

end Machine
end EffectMachine
