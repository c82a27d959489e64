import EffectMachine.Host.Batches
import EffectMachine.Host.Schedule
import EffectMachine.Host.Timers
import EffectMachine.Plugin.Probe
import EffectMachine.Process

/-!
# Hosts

The host is what all processes of a machine share: the journal, shared variables, the clock, open
batches, the processes themselves and their schedule.
-/

namespace EffectMachine

/-- What all processes of a machine share. -/
structure Host where
  /-- The log that programs write, oldest entry first. -/
  log : Array Entry := #[]
  /-- The events reported so far, oldest first. -/
  events : Array Event := #[]
  /-- Shared variables, the one written last first. -/
  shared : List (String × Value) := []
  /-- What was counted, by meter. -/
  tallies : List (Nat × Tally) := []
  /-- The identity of the next new error or object. -/
  nextIdentity : Nat := 0
  timers : Timers := {}
  batches : Batches := {}
  /-- Every process, at the place its name says. -/
  processes : List Process := []
  schedule : Schedule := {}
  /-- Whether there is a scheduler: without one nothing can be forked and nobody ever waits for time. -/
  scheduled : Bool := true

namespace Host

/-- Writes an entry to the log. -/
def write (host : Host) (entry : Entry) : Host :=
  { host with log := host.log.push entry }

/-- Reports an event. -/
def emit (host : Host) (event : Event) : Host :=
  { host with events := host.events.push event }

/-- Reserves identities; returns the first of them. -/
def mint (host : Host) (count : Nat) : Nat × Host :=
  (host.nextIdentity, { host with nextIdentity := host.nextIdentity + count })

/-- The value of a shared variable, absent if it was never written. -/
def load (host : Host) (name : String) : Value :=
  ((host.shared.find? fun entry => entry.1 = name).map Prod.snd).getD .null

/-- Writes a shared variable. -/
def store (host : Host) (name : String) (value : Value) : Host :=
  { host with shared := (name, value) :: host.shared.filter fun entry => entry.1 ≠ name }

/-- How often a meter counted something. -/
def tallied (host : Host) (meter : Nat) (tally : Tally) : Nat :=
  host.tallies.countP fun entry => entry.1 = meter && entry.2 = tally

/-- The report of a process that has ended. -/
def report? (host : Host) (task : TaskId) : Option Report :=
  host.processes[task.index]?.bind Process.report?

/-- The outcome of a task that has settled. -/
def outcome? (host : Host) (task : TaskId) : Option Outcome :=
  (host.report? task).bind Report.outcome?

/-- Whether a task has settled. -/
def isSettled (host : Host) (task : TaskId) : Bool :=
  (host.outcome? task).isSome

/-- Whether a task was asked to cancel. -/
def isCanceled (host : Host) (task : TaskId) : Bool :=
  (host.processes[task.index]?.map Process.canceled).getD false

/-- Asks a task to cancel. -/
def cancel (host : Host) (task : TaskId) : Host :=
  { host with
    processes := host.processes.modify task.index fun process => { process with canceled := true } }

/-- Whether some process has taken the outcome of a task. -/
def isCollected (host : Host) (task : TaskId) : Bool :=
  (host.processes[task.index]?.map Process.collected).getD false

/-- The running process takes the outcome of a task, if the task has settled.  The first one to do so wakes
whoever still waits for the outcome, which by then is only itself. -/
def collect (host : Host) (task : TaskId) : Host :=
  if host.isSettled task && !host.isCollected task then
    { host with
      processes := host.processes.modify task.index fun process => { process with collected := true }
      schedule := { host.schedule with woken := true } }
  else host

/-- Wakes every process that waits for an occasion. -/
def announce (host : Host) (occasion : Occasion) : Host :=
  { host with schedule := host.schedule.announce occasion }

/-- Starts a process, which will run when its turn comes. -/
def spawn (host : Host) (activity : Activity) : TaskId × Host :=
  let task : TaskId := ⟨host.processes.length⟩
  (task,
    { host with
      processes := host.processes ++ [{ activity }]
      schedule := host.schedule.enqueue task })

/-- Notes what a process is doing. -/
def park (host : Host) (task : TaskId) (activity : Activity) : Host :=
  { host with
    processes := host.processes.modify task.index fun process => { process with activity } }

/-- Gives a pending slot its final state and wakes the caller. -/
def settle (host : Host) (slot : Slot) (state : SlotState) : Host :=
  if host.batches.isPending slot then
    { host with batches := host.batches.settle slot state }.announce (.settled slot)
  else host

/-- Closes those of the slots that are still pending, in order. -/
def close (host : Host) (slots : List Slot) : Host :=
  slots.foldl (fun host slot => host.settle slot .closed) host

/-- Carries out a probe. -/
def run {α : Type} (host : Host) : Probe α → α × Host
  | .done answer => (answer, host)
  | .note value rest => (host.write (.note value)).run rest
  | .mint count rest =>
    let (identity, host) := host.mint count
    host.run (rest identity)

end Host
end EffectMachine
