import EffectMachine.Event
import EffectMachine.Value.Inspection

/-!
# Actions

What a computation does by itself, without handing an effect to the machine: it writes to the journal,
reads the clock, waits for tasks and timers, and takes part in batches.  Every action has the type of its
reply.
-/

namespace EffectMachine

/-- The name of a timer. -/
structure TimerId where
  index : Nat
  deriving DecidableEq, Inhabited

/-- The place where one batched call awaits its answer. -/
structure Slot where
  index : Nat
  deriving DecidableEq, Inhabited

/-- What calls of one batch have in common: the batch plugin that serves them, the batched function they call
and their key. -/
structure BatchGroup where
  batcher : Nat
  definition : Nat
  key : BatchKey
  deriving DecidableEq, Inhabited

/-- A call that waits in an open batch. -/
structure Enrolled where
  args : List Value
  slot : Slot
  deriving Inhabited

/-- The answer to an enrolment: the slot of the call, and whether it opened the batch. -/
structure Enrolment where
  slot : Slot
  opened : Bool
  deriving Inhabited

/-- What can be counted about observed operations. -/
inductive Tally where
  | dispatched
  | failed
  deriving DecidableEq, Inhabited

/-- One entry of the log that programs write. -/
inductive Entry where
  | note (value : Value)
  | inspection (inspection : Inspection)
  /-- A listener was told at some stage about a value or an error. -/
  | told (listener stage : String) (about : Outcome)

/-- Something a computation does by itself. -/
inductive Action where
  /-- Writes an entry to the log. -/
  | log (entry : Entry)
  /-- Reports an event. -/
  | emit (event : Event)
  /-- Reads a shared variable. -/
  | load (name : String)
  /-- Writes a shared variable. -/
  | store (name : String) (value : Value)
  /-- Adds one to a count of a meter. -/
  | count (meter : Nat) (tally : Tally)
  /-- Reserves identities for new errors; the reply is the first of them. -/
  | mint (count : Nat)
  /-- Reads the clock. -/
  | now
  /-- Asks which tasks have settled. -/
  | settlements
  /-- Asks whether a task has settled. -/
  | settled (task : TaskId)
  /-- Asks a task to cancel. -/
  | cancel (task : TaskId)
  /-- Waits until all the tasks have settled. -/
  | join (tasks : List TaskId)
  /-- Waits until one of the tasks has failed or all have succeeded. -/
  | firstFailure (tasks : List TaskId)
  /-- Lets everything else that can run go first. -/
  | yieldTurn
  /-- Starts a timer, unless the delay is over at once. -/
  | arm (delay : Nat)
  /-- Waits until one of the timers has run out; the reply is the first such one. -/
  | expired (timers : List TimerId)
  /-- Forgets timers. -/
  | disarm (timers : List TimerId)
  /-- Joins the open batch of a group, or opens one. -/
  | enroll (group : BatchGroup) (args : List Value)
  /-- Closes the batch of a group and takes its calls. -/
  | collect (group : BatchGroup)
  /-- Closes the batch of a group and drops its calls. -/
  | abandon (group : BatchGroup)
  /-- Answers a batched call. -/
  | answer (slot : Slot) (outcome : Outcome)
  /-- Waits for the answer to a batched call; there is none if the call was dropped. -/
  | receive (slot : Slot)

namespace Action

/-- The type of the reply to an action. -/
def Reply : Action → Type
  | .load _ => Value
  | .mint _ | .now => Nat
  | .settlements => TaskId → Bool
  | .settled _ => Bool
  | .join _ => List Outcome
  | .firstFailure _ => Except Error (List Value)
  | .arm _ => Option TimerId
  | .expired timers => Fin timers.length
  | .enroll _ _ => Enrolment
  | .collect _ => List Enrolled
  | .receive _ => Option Outcome
  | _ => Unit

/-- The slots that an action makes its computation answerable for. -/
def acquired : (action : Action) → action.Reply → List Slot
  | .collect _, calls => calls.map fun (call : Enrolled) => call.slot
  | _, _ => []

end Action
end EffectMachine
