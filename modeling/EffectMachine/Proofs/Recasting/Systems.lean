import EffectMachine.Proofs.Interleaving.Origins
import EffectMachine.Proofs.Recasting.Steps

/-!
# Systems of what was recast

A recasting that keeps signals carries steps of processes and of systems over.

* `Activity.hands` lists the effects that a process may hand to the machine in its next step.
* `Recasting.Carries` says that signals are kept, and that submissions are wrapped on both machines or on none.
* `Recasting.advance` says that a process does the same step, and `Recasting.step_system` that a system does, if the effects
  that the running process may hand to the machine are handled alike.
-/

namespace EffectMachine

/-- The effects that a process may hand to the machine in its next step. -/
def Activity.hands (machine : Machine) : Activity → List Effect
  | .forked _ effect => [effect]
  | .task stack | .run stack _ => (stack.top :: stack.below).flatMap Frame.hands
  | .client (.evaluate _ (.perform effect _)) => [machine.submission effect]
  | _ => []

namespace Recasting

/-- Signals are kept, and submissions are wrapped on both machines or on none. -/
structure Carries (recasting : Recasting) (machine other : Machine) : Prop where
  signal : recasting.signal = id
  starts : other.registry.hasHandlers Kind.start = machine.registry.hasHandlers Kind.start

variable {recasting : Recasting} {machine other : Machine}

/-! ## Processes -/

theorem submission (hcarries : recasting.Carries machine other) (effect : Effect) :
    other.submission (recasting.effect effect) = recasting.effect (machine.submission effect) := by
  unfold Machine.submission
  rw [hcarries.starts]
  split
  · exact (recasting.effect_start effect).symm
  · rfl

/-- A new stack begins in the same way. -/
theorem begin (hcarries : recasting.Carries machine other) {context : Context} {effect : Effect}
    (hhandles : recasting.Handles machine other context effect) (signal : Option TaskId) (host : Host) :
    other.begin (recasting.context context) signal (recasting.effect effect) (recasting.host host) =
        recasting.run (machine.begin context signal effect host) ∧
      other.handleActs (recasting.effect effect)
          { stack := { context := recasting.context context, signal }, host := recasting.host host } =
        (machine.handleActs effect { stack := { context, signal }, host }).map recasting.act := by
  have hnew : ({ stack := { context := recasting.context context, signal }, host := recasting.host host } : Run) =
      recasting.run { stack := { context, signal }, host } := by
    simp only [run, stack, hcarries.signal, id]
    rfl
  unfold Machine.begin
  rw [hnew]
  exact handle { stack := { context, signal }, host } hhandles

theorem sendOut (host : Host) (errands : List Errand) :
    Machine.sendOut (recasting.host host) (recasting.allErrands errands) =
      ((Machine.sendOut host errands).1, recasting.host (Machine.sendOut host errands).2) := by
  induction errands generalizing host with
  | nil => rfl
  | cons errand errands ih =>
      have hspawn := recasting.host_spawn host (.client errand)
      rw [allErrands, Machine.sendOut, show Activity.client (recasting.errand errand) =
        recasting.activity (.client errand) from rfl, hspawn]
      dsimp only
      rw [ih]
      rfl

/-- A client's script does the same step. -/
theorem evaluate (hcarries : recasting.Carries machine other) (context : Context) (host : Host) (body : Body)
    (hhands : ∀ effect ∈ (Activity.client (.evaluate context body)).hands machine,
      recasting.Handles machine other context effect) (task : TaskId) :
    other.evaluate (recasting.context context) (recasting.host host) (recasting.body body) =
        recasting.stepped recasting.activity (machine.evaluate context host body) ∧
      other.advanceActs task (.client (.evaluate (recasting.context context) (recasting.body body))) (recasting.host host) =
        (machine.advanceActs task (.client (.evaluate context body)) host).map recasting.act := by
  cases body with
  | done outcome =>
      rw [body_done]
      exact ⟨rfl, rfl⟩
  | perform effect resume =>
      obtain ⟨hafter, hacts⟩ := begin hcarries (hhands _ List.mem_cons_self) none host
      rw [body_perform]
      simp only [Machine.evaluate, Machine.advanceActs, submission hcarries, hafter]
      exact ⟨rfl, hacts⟩
  | act action resume =>
      rw [body_act]
      refine ⟨?_, rfl⟩
      simp only [Machine.evaluate, recasting.react host action]
      cases host.react action with
      | reply later answer | giveWay later answer => rfl
      | wait later occasions =>
          have hbody := (recasting.body_act action resume).symm
          exact congrArg (fun body => Stepped.waits (Activity.client (.evaluate (recasting.context context) body))
            (recasting.host later) occasions) hbody

/-- A stack that a process is on does the same step. -/
theorem step_stack (hcarries : recasting.Carries machine other) (stack : Stack) (host : Host)
    (hhands : ∀ effect ∈ (stack.top :: stack.below).flatMap Frame.hands,
      recasting.Handles machine other stack.context effect) :
    other.step { stack := recasting.stack stack, host := recasting.host host } =
        recasting.stepped recasting.stack (machine.step { stack, host }) ∧
      other.stepActs { stack := recasting.stack stack, host := recasting.host host } =
        (machine.stepActs { stack, host }).map recasting.act :=
  step { stack, host } (fun _ => notices_of_signal hcarries.signal _) fun frame hframe effect heffect =>
    hhands effect (List.mem_flatMap.2 ⟨frame, hframe, heffect⟩)

/-- A process does the same step. -/
theorem advance (hcarries : recasting.Carries machine other) (task : TaskId) (activity : Activity) (host : Host)
    (hhands : ∀ context, activity.context? = some context → ∀ effect ∈ activity.hands machine,
      recasting.Handles machine other context effect) :
    other.advance task (recasting.activity activity) (recasting.host host) =
        recasting.stepped recasting.activity (machine.advance task activity host) ∧
      other.advanceActs task (recasting.activity activity) (recasting.host host) =
        (machine.advanceActs task activity host).map recasting.act := by
  cases activity with
  | forked context effect =>
      obtain ⟨hafter, hacts⟩ := begin hcarries (hhands context rfl effect List.mem_cons_self) (some task) host
      exact ⟨congrArg (fun run : Run => Stepped.moved (Activity.task run.stack) run.host) hafter, hacts⟩
  | task stack =>
      obtain ⟨hafter, hacts⟩ := step_stack hcarries stack host (hhands stack.context rfl)
      simp only [Machine.advance, Machine.advanceActs, activity,
        show (recasting.stack stack).below = stack.below.map recasting.frame from rfl]
      cases stack.below with
      | nil => exact ⟨rfl, rfl⟩
      | cons parent rest =>
          refine ⟨(congrArg (Stepped.map Activity.task) hafter).trans ?_, hacts⟩
          cases machine.step { stack, host } <;> rfl
  | run stack resume =>
      -- what the client goes on with does not matter for a step of its stack
      obtain ⟨hafter, hacts⟩ := step_stack hcarries stack host (hhands stack.context rfl)
      simp only [Machine.advance, Machine.advanceActs, activity,
        show (recasting.stack stack).below = stack.below.map recasting.frame from rfl]
      cases stack.below with
      | nil => exact ⟨rfl, rfl⟩
      | cons parent rest =>
          refine ⟨(congrArg (Stepped.map fun stack => Activity.run stack _) hafter).trans ?_, hacts⟩
          cases machine.step { stack, host } <;> rfl
  | client errand =>
      cases errand with
      | join errands =>
          have hsent := @sendOut recasting host errands
          exact ⟨congrArg (fun sent : List TaskId × Host => Stepped.moved (Activity.gathering [] sent.1) sent.2) hsent, rfl⟩
      | evaluate context body => exact evaluate hcarries context host body (hhands context rfl) task
  | gathering reports awaited =>
      refine ⟨?_, rfl⟩
      cases awaited with
      | nil => rfl
      | cons task rest =>
          simp only [Machine.advance, activity, report?_host]
          cases host.report? task <;> rfl
  | ended report => exact ⟨rfl, rfl⟩

/-! ## Systems -/

theorem settleIn (task : TaskId) (stepped : Stepped Activity) :
    System.settleIn task (recasting.stepped recasting.activity stepped) = recasting.system (System.settleIn task stepped) := by
  cases stepped with
  | moved next host => rfl
  | gaveWay next host | waits next host occasions =>
      simp only [System.settleIn, Recasting.stepped, host_park]
      rfl

theorem conclude (host : Host) (task : TaskId) (report : Report) :
    System.conclude (recasting.host host) task report = recasting.host (System.conclude host task report) := by
  have hparked := recasting.host_park host task (.ended report)
  simp only [System.conclude]
  rw [show (recasting.host host).park task (.ended report) = _ from hparked]
  rfl

theorem resume (host : Host) (task : TaskId) :
    System.resume (recasting.host host) task = recasting.system (System.resume host task) := by
  unfold System.resume
  rw [processes_host]
  cases host.processes[task.index]? with
  | none => rfl
  | some process =>
      obtain ⟨activity, canceled, collected⟩ := process
      cases activity <;> rfl

theorem idle (host : Host) : System.idle (recasting.host host) = (System.idle host).map recasting.system := by
  have hannounced (due : List TimerId) (host : Host) :
      due.foldl (fun host timer => host.announce (.expired timer)) (recasting.host host) =
        recasting.host (due.foldl (fun host timer => host.announce (.expired timer)) host) := by
    induction due generalizing host with
    | nil => rfl
    | cons timer due ih => exact ih (host.announce (.expired timer))
  unfold System.idle
  rw [show (recasting.host host).schedule = host.schedule from rfl, show (recasting.host host).timers = host.timers from rfl]
  cases host.schedule.next? with
  | some chosen => exact congrArg some (resume { host with schedule := chosen.2 } chosen.1)
  | none =>
      cases host.timers.advance? with
      | none => rfl
      | some advanced =>
          have hdue := hannounced advanced.1 { host with timers := advanced.2, schedule := host.schedule.letIn }
          exact congrArg (fun host : Host => some ({ host } : System)) hdue

/-- A system does the same step. -/
theorem step_system (hcarries : recasting.Carries machine other) (system : System)
    (hhands : ∀ task activity context, system.current = some (task, activity) → activity.context? = some context →
      ∀ effect ∈ activity.hands machine, recasting.Handles machine other context effect) :
    (recasting.system system).step other = (system.step machine).map recasting.system ∧
      (recasting.system system).acts other = (system.acts machine).map fun entry => (entry.1, recasting.act entry.2) := by
  obtain ⟨host, current⟩ := system
  cases current with
  | none => exact ⟨idle host, rfl⟩
  | some running =>
      obtain ⟨task, activity⟩ := running
      obtain ⟨hafter, hacts⟩ := advance hcarries task activity host fun context => hhands task activity context rfl
      constructor
      · have hsettled := (congrArg (System.settleIn task) hafter).trans (settleIn task _)
        cases activity with
        | ended report => exact congrArg (fun host : Host => some ({ host } : System)) (conclude host task report)
        | _ => exact congrArg some hsettled
      · have hown := congrArg (List.map fun act => (task, act)) hacts
        exact hown.trans (by simp [System.acts])

end Recasting
end EffectMachine
