import EffectMachine.Machine.Advance

/-!
# Systems

All processes of a machine under one schedule.  One process runs at a time, until it waits, gives up its
turn or ends; when none can run, the clock jumps to the next timer.
-/

namespace EffectMachine

/-- A host, and the process that is running on it, if one is. -/
structure System where
  host : Host
  current : Option (TaskId × Activity) := none

namespace System

/-- The running process after one step. -/
def settleIn (task : TaskId) : Stepped Activity → System
  | .moved next host =>
    { host := { host with schedule := host.schedule.proceed task }, current := some (task, next) }
  | .gaveWay next host =>
    let host := host.park task next
    { host := { host with schedule := (host.schedule.proceed task).giveWay task } }
  | .waits next host occasions =>
    let host := host.park task next
    { host := { host with schedule := host.schedule.await task occasions } }

/-- Ends a process: its report is kept, and whoever waits for it is woken. -/
def conclude (host : Host) (task : TaskId) (report : Report) : Host :=
  let host := host.park task (.ended report)
  { host with schedule := host.schedule.proceed task }.announce (.ended task)

/-- Picks the next process; one that has ended meanwhile has nothing left to do. -/
def resume (host : Host) (task : TaskId) : System :=
  match (host.processes[task.index]?.map Process.activity).getD default with
  | .ended _ => { host }
  | activity => { host, current := some (task, activity) }

/-- Picks the next process, or lets time pass; nothing when nothing is left to happen. -/
def idle (host : Host) : Option System :=
  match host.schedule.next? with
  | some (task, schedule) => some (resume { host with schedule } task)
  | none =>
    host.timers.advance?.map fun (due, timers) =>
      let host := { host with timers, schedule := host.schedule.letIn }
      { host := due.foldl (fun host timer => host.announce (.expired timer)) host }

/-- One step of a system; nothing when nothing is left to happen. -/
def step (machine : Machine) (system : System) : Option System :=
  match system.current with
  | some (task, .ended report) => some { host := conclude system.host task report }
  | some (task, activity) => some (settleIn task (machine.advance task activity system.host))
  | none => idle system.host

/-- Steps until a process has ended; nothing when it never does, or not within the given number of steps. -/
def runUntil (machine : Machine) (task : TaskId) : Nat → System → Option (Report × System)
  | 0, _ => none
  | steps + 1, system =>
    match system.host.report? task with
    | some report => some (report, system)
    | none => (system.step machine).bind (runUntil machine task steps)

/-- Sends a process out on an errand, at once. -/
def dispatchClient (system : System) (task : TaskId) (errand : Errand) : System where
  host := system.host.park task (.client errand)
  current := some (task, .client errand)

end System
end EffectMachine
