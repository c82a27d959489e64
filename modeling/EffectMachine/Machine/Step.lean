import EffectMachine.Host.Reaction
import EffectMachine.Machine.Unwind

/-!
# Steps of a run

A run goes on in small steps: one action, one effect, or one outcome at a time.  Between two steps the
host may change, since other processes run while this one waits.  A cancellation is noticed before a frame is
resumed and before an effect is handled, never in the middle of a computation.
-/

namespace EffectMachine

/-- What became of a process after one step. -/
inductive Stepped (α : Type) where
  /-- It can go on at once. -/
  | moved (next : α) (host : Host)
  /-- It gives up its turn. -/
  | gaveWay (next : α) (host : Host)
  /-- It waits for one of the occasions. -/
  | waits (next : α) (host : Host) (occasions : List Occasion)

/-- Changes what goes on, and keeps how. -/
def Stepped.map {α β : Type} (f : α → β) : Stepped α → Stepped β
  | .moved next host => .moved (f next) host
  | .gaveWay next host => .gaveWay (f next) host
  | .waits next host occasions => .waits (f next) host occasions

namespace Machine

/-- A run that can go on at once. -/
def moved (run : Run) : Stepped Stack :=
  .moved run.stack run.host

/-- Resumes the top frame with a body. -/
def resumeTop (run : Run) (body : Body) : Run :=
  run.withTop fun frame => { frame with progress := .running body, result := .ok .null }

/-- The computation of the top frame ends. -/
def complete (machine : Machine) (outcome : Outcome) (run : Run) : Run :=
  match outcome with
  | .error error => machine.finishTop outcome (run.emit (.computationFailed error run.stack.labels))
  | .ok _ => machine.finishTop outcome run

/-- The computation of the top frame performs an effect. -/
def suspend (machine : Machine) (effect : Effect) (resume : Outcome → Body) (run : Run) : Run :=
  let run := (run.withTop fun frame => { frame with progress := .suspended resume }).observeCancellation
  if run.stack.top.cancellation = .due then run.emit (.effectDiscarded effect.kind)
  else machine.handle effect run

/-- The computation of the top frame does something by itself. -/
def act (action : Action) (resume : action.Reply → Body) (run : Run) : Stepped Stack :=
  let goOn (answer : action.Reply) : Stack :=
    run.stack.withTop fun frame =>
      { frame with
        progress := .running (resume answer)
        answerable := frame.answerable ++ action.acquired answer }
  match run.host.react action with
  | .reply host answer => .moved (goOn answer) host
  | .giveWay host answer => .gaveWay (goOn answer) host
  | .wait host occasions => .waits run.stack host occasions

/-- The top frame is resumed, given up or taken off the stack. -/
def turn (machine : Machine) (run : Run) : Run :=
  let run := run.observeCancellation
  let frame := run.stack.top
  if frame.isFinished then machine.unwind run
  else if frame.cancellation = .due then
    machine.finishTop (.ok .null)
      (run.withTop fun frame => { frame with cancellation := .applied })
  else
    match frame.progress with
    | .fresh body => resumeTop run body
    | .suspended resume => resumeTop run (resume frame.result)
    | .running _ => run
    | .root | .finished => machine.finishTop (.ok .null) run

/-- One step of a run that is not yet down to its sentinel. -/
def step (machine : Machine) (run : Run) : Stepped Stack :=
  match run.stack.top.progress with
  | .running (.done outcome) => moved (machine.complete outcome run)
  | .running (.perform effect resume) => moved (machine.suspend effect resume run)
  | .running (.act action resume) => act action resume run
  | _ => moved (machine.turn run)

end Machine
end EffectMachine
