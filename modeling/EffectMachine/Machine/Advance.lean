import EffectMachine.Machine.Step

/-!
# Steps of a process

How each process goes on: a task with the steps of its stack, a client with its script, the runs it
starts, and the reports of those it sent out.
-/

namespace EffectMachine
namespace Machine

/-- A new stack that has handled its first effect. -/
def begin (machine : Machine) (context : Context) (signal : Option TaskId) (effect : Effect)
    (host : Host) : Run :=
  machine.handle effect { stack := { context, signal }, host }

/-- Sends out a client for each errand. -/
def sendOut (host : Host) : List Errand → List TaskId × Host
  | [] => ([], host)
  | errand :: rest =>
    let (task, host) := host.spawn (.client errand)
    let (tasks, host) := sendOut host rest
    (task :: tasks, host)

/-- One step of a client's script. -/
def evaluate (machine : Machine) (context : Context) (host : Host) : Body → Stepped Activity
  | .done outcome => .moved (.ended (.single outcome)) host
  | .perform effect resume =>
    let run := machine.begin context none (machine.submission effect) host
    .moved (.run run.stack resume) run.host
  | .act action resume =>
    match host.react action with
    | .reply host answer => .moved (.client (.evaluate context (resume answer))) host
    | .giveWay host answer => .gaveWay (.client (.evaluate context (resume answer))) host
    | .wait host occasions => .waits (.client (.evaluate context (.act action resume))) host occasions

/-- One step of a process. -/
def advance (machine : Machine) (task : TaskId) (activity : Activity) (host : Host) :
    Stepped Activity :=
  match activity with
  | .forked context effect =>
    let run := machine.begin context (some task) effect host
    .moved (.task run.stack) run.host
  | .task stack =>
    match stack.below with
    | [] => .moved (.ended (.single stack.outcome)) host
    | _ :: _ => (machine.step { stack, host }).map .task
  | .client (.evaluate context body) => machine.evaluate context host body
  | .client (.join errands) =>
    let (tasks, host) := sendOut host errands
    .moved (.gathering [] tasks) host
  | .run stack resume =>
    match stack.below with
    | [] => .moved (.client (.evaluate stack.context (resume stack.outcome))) host
    | _ :: _ => (machine.step { stack, host }).map fun stack => .run stack resume
  | .gathering reports [] => .moved (.ended (.join reports)) host
  | .gathering reports (awaited :: rest) =>
    match host.report? awaited with
    | some report => .moved (.gathering (reports ++ [report]) rest) host
    | none => .waits activity host [.ended awaited]
  | .ended report => .moved (.ended report) host

end Machine
end EffectMachine
