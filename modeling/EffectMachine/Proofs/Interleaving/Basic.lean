import EffectMachine.Proofs.Acts.Lives
import EffectMachine.Proofs.Interleaving.Growth

/-!
# Interleavings

All that the processes of a system can do together.  A system moves as its schedule says, and also in any
other order: the running process may be stopped between any two steps, any process may be picked next, and
time may pass at any moment.  A client that is never picked is one that has not come yet, so that the first
host holds all errands of a run, whenever they are sent.

* `Moves` are the moves of a system, with the acts of the process that moves; `Runs` are any number of
  moves from a host on whose processes have not begun, with all acts so far, and `Proceeds` any number of moves
  from a system on.
* `deeds` are the acts of one process.
* `System.parked` is the host as it would be if the running process stopped now, so that it tells what
  every process is doing.
-/

namespace EffectMachine

/-- What goes on after a step. -/
def Stepped.next {α : Type} : Stepped α → α
  | .moved next _ | .gaveWay next _ | .waits next _ _ => next

/-- The host after a step. -/
def Stepped.host {α : Type} : Stepped α → Host
  | .moved _ host | .gaveWay _ host | .waits _ host _ => host

@[simp] theorem Stepped.next_map {α β : Type} (f : α → β) (stepped : Stepped α) :
    (stepped.map f).next = f stepped.next := by
  cases stepped <;> rfl

@[simp] theorem Stepped.host_map {α β : Type} (f : α → β) (stepped : Stepped α) :
    (stepped.map f).host = stepped.host := by
  cases stepped <;> rfl

/-- The run after a step of a stack. -/
theorem Stepped.run_eq (stepped : Stepped Stack) :
    stepped.run = { stack := stepped.next, host := stepped.host } := by
  cases stepped <;> rfl

namespace Machine

/-- The acts of one step of a process. -/
def advanceActs (machine : Machine) (task : TaskId) (activity : Activity) (host : Host) : List Act :=
  match activity with
  | .forked context effect =>
    machine.handleActs effect { stack := { context, signal := some task }, host }
  | .task stack | .run stack _ =>
    match stack.below with
    | [] => []
    | _ :: _ => machine.stepActs { stack, host }
  | .client (.evaluate context (.perform effect _)) =>
    machine.handleActs (machine.submission effect) { stack := { context, signal := none }, host }
  | _ => []

end Machine

/-- The acts of the processes of a system, in order. -/
abbrev Trace := List (TaskId × Act)

/-- The acts of one process. -/
def deeds (trace : Trace) (task : TaskId) : List Act :=
  trace.filterMap fun entry => if entry.1 = task then some entry.2 else none

namespace System

/-- The acts of the next step of a system. -/
def acts (machine : Machine) (system : System) : Trace :=
  match system.current with
  | some (task, activity) => (machine.advanceActs task activity system.host).map fun act => (task, act)
  | none => []

/-- The host as it would be if the running process stopped now. -/
def parked (system : System) : Host :=
  match system.current with
  | some (task, activity) => system.host.park task activity
  | none => system.host

/-- What a process is doing. -/
def activity? (system : System) (task : TaskId) : Option Activity :=
  system.parked.processes[task.index]?.map Process.activity

/-- The running process has not ended as far as the others know. -/
def Sound (system : System) : Prop :=
  ∀ task activity, system.current = some (task, activity) →
    ∃ process, system.host.processes[task.index]? = some process ∧ process.report? = none

end System

/-- The moves of a system, with the acts of the process that moves. -/
inductive Moves (machine : Machine) : System → Trace → System → Prop
  | step {system next : System} (hstep : system.step machine = some next) :
      Moves machine system (system.acts machine) next
  | preempt (host : Host) (task : TaskId) (activity : Activity) :
      Moves machine { host, current := some (task, activity) } [] { host := host.park task activity }
  | pick (host : Host) (task : TaskId) : Moves machine { host } [] (System.resume host task)
  | elapse (host : Host) (due : List TimerId) (timers : Timers)
      (hadvance : host.timers.advance? = some (due, timers)) :
      Moves machine { host } [] { host := { host with timers } }

/-- What the processes of a host come to that have not begun, with all acts on the way. -/
inductive Runs (machine : Machine) (first : Host) : Trace → System → Prop
  | start (hnew : ∀ process ∈ first.processes, process.activity.stack? = none) :
      Runs machine first [] { host := first }
  | move {trace acts : Trace} {system next : System} (runs : Runs machine first trace system)
      (hmoves : Moves machine system acts next) : Runs machine first (trace ++ acts) next

/-- Any number of moves of a system, with all acts on the way. -/
inductive Proceeds (machine : Machine) (system : System) : Trace → System → Prop
  | start : Proceeds machine system [] system
  | move {trace acts : Trace} {middle next : System} (proceeds : Proceeds machine system trace middle)
      (hmoves : Moves machine middle acts next) : Proceeds machine system (trace ++ acts) next

namespace Proceeds

variable {machine : Machine} {system middle later : System} {trace more : Trace}

/-- A run goes on with the moves of its system. -/
theorem runs {first : Host} (hproceeds : Proceeds machine system more later)
    (hruns : Runs machine first trace system) : Runs machine first (trace ++ more) later := by
  induction hproceeds with
  | start => simpa using hruns
  | move _ hmoves ih =>
      rw [← List.append_assoc]
      exact .move ih hmoves

end Proceeds

/-- A run is the moves of a system from its first host on. -/
theorem Runs.proceeds {machine : Machine} {first : Host} {trace : Trace} {system : System}
    (runs : Runs machine first trace system) : Proceeds machine { host := first } trace system := by
  induction runs with
  | start => exact .start
  | move _ hmoves ih => exact .move ih hmoves

section Deeds

variable {trace : Trace} {task : TaskId}

@[simp] theorem deeds_nil (task : TaskId) : deeds [] task = [] :=
  rfl

theorem deeds_append (trace more : Trace) (task : TaskId) :
    deeds (trace ++ more) task = deeds trace task ++ deeds more task :=
  List.filterMap_append

@[simp] theorem deeds_own (task : TaskId) (acts : List Act) :
    deeds (acts.map fun act => (task, act)) task = acts := by
  simp [deeds, List.filterMap_map]

theorem deeds_other {other : TaskId} (hother : other ≠ task) (acts : List Act) :
    deeds (acts.map fun act => (other, act)) task = [] := by
  simp [deeds, List.filterMap_map, hother]

end Deeds

namespace Host

/-- The host has the same processes, batches and scheduler as another one. -/
structure Like (host other : Host) : Prop where
  processes : host.processes = other.processes
  batches : host.batches = other.batches
  scheduled : host.scheduled = other.scheduled

theorem Like.refl (host : Host) : host.Like host :=
  ⟨rfl, rfl, rfl⟩

theorem Like.trans {host other third : Host} (hfirst : host.Like other) (hsecond : other.Like third) :
    host.Like third :=
  ⟨hfirst.processes.trans hsecond.processes, hfirst.batches.trans hsecond.batches,
    hfirst.scheduled.trans hsecond.scheduled⟩

/-- Noting once more what a process is doing changes nothing. -/
theorem park_self {host : Host} {task : TaskId} {process : Process}
    (hprocess : host.processes[task.index]? = some process) : (host.park task process.activity).Like host where
  processes := by
    refine List.ext_getElem? fun index => ?_
    show (host.processes.modify task.index _)[index]? = _
    rw [List.getElem?_modify]
    by_cases hindex : task.index = index
    · rw [← hindex, hprocess]
      simp
    · simp [hindex]
  batches := rfl
  scheduled := rfl

end Host
end EffectMachine
