import EffectMachine.Plugin.Concurrent
import EffectMachine.Proofs.Coalescing.Turns

/-!
# The forking of calls

The computation of `all` forks one task for each of its calls, one after another, and waits for them.  Nobody else runs
meanwhile, so the tasks stand in the queue in the order of the calls.
-/

namespace EffectMachine

/-- Tasks with consecutive numbers. -/
def tasksFrom (place count : Nat) : List TaskId :=
  (List.range' place count).map TaskId.mk

theorem tasksFrom_succ (place count : Nat) : tasksFrom place (count + 1) = ⟨place⟩ :: tasksFrom (place + 1) count :=
  rfl

theorem mem_tasksFrom {place count : Nat} {task : TaskId} :
    task ∈ tasksFrom place count ↔ place ≤ task.index ∧ task.index < place + count := by
  unfold tasksFrom
  simp only [List.mem_map, List.mem_range'_1]
  constructor
  · rintro ⟨index, hindex, rfl⟩
    exact hindex
  · exact fun hindex => ⟨task.index, hindex, rfl⟩

theorem nodup_tasksFrom (place count : Nat) : (tasksFrom place count).Nodup :=
  List.Pairwise.map TaskId.mk (fun _ _ hother hsame => hother (congrArg TaskId.index hsame)) List.nodup_range'

/-! ## Forking on a host -/

namespace Host

/-- Starts a task for each of some effects. -/
def forkAll (host : Host) (context : Context) : List Effect → Host
  | [] => host
  | effect :: effects => (host.spawn (.forked context effect)).2.forkAll context effects

/-- The tasks stand behind those in the queue, in order. -/
theorem forkAll_eq {host : Host} (context : Context) (effects : List Effect)
    (hready : ∀ task ∈ host.schedule.ready, task.index < host.processes.length) :
    host.forkAll context effects = { host with
      processes := host.processes ++ effects.map fun effect => { activity := .forked context effect }
      schedule := { host.schedule with
        ready := host.schedule.ready ++ tasksFrom host.processes.length effects.length } } := by
  induction effects generalizing host with
  | nil => simp [forkAll, tasksFrom]
  | cons effect effects ih =>
      have hnew : (⟨host.processes.length⟩ : TaskId) ∉ host.schedule.ready := fun hmem =>
        Nat.lt_irrefl _ (hready _ hmem)
      have hspawn : (host.spawn (.forked context effect)).2 = { host with
          processes := host.processes ++ [{ activity := .forked context effect }]
          schedule := { host.schedule with ready := host.schedule.ready ++ [⟨host.processes.length⟩] } } := by
        rw [← Schedule.enqueue_of_not_mem hnew]
        rfl
      unfold forkAll
      rw [ih, hspawn]
      · simp [tasksFrom_succ]
      · rw [hspawn]
        intro task hmem
        rcases List.mem_append.1 hmem with hearlier | hlast
        · simpa using Nat.lt_succ_of_lt (hready task hearlier)
        · simp [List.mem_singleton.1 hlast]

theorem getElem?_forkAll {host : Host} (context : Context) {effects : List Effect} {place : Nat} {effect : Effect}
    (hready : ∀ task ∈ host.schedule.ready, task.index < host.processes.length) (heffect : effects[place]? = some effect) :
    (host.forkAll context effects).processes[host.processes.length + place]? =
      some { activity := .forked context effect } := by
  rw [forkAll_eq context effects hready, List.getElem?_append_right (Nat.le_add_right _ _), Nat.add_sub_cancel_left,
    List.getElem?_map, heffect]
  rfl

/-- A new task is not asked to cancel. -/
theorem isCanceled_spawn (host : Host) (activity : Activity) (task : TaskId) :
    (host.spawn activity).2.isCanceled task = host.isCanceled task := by
  unfold isCanceled spawn
  rcases Nat.lt_trichotomy task.index host.processes.length with hless | heq | hgreater
  · rw [List.getElem?_append_left hless]
  · simp [heq]
  · rw [List.getElem?_eq_none (by simpa using Nat.succ_le_of_lt hgreater), List.getElem?_eq_none (Nat.le_of_lt hgreater)]

end Host

theorem Host.Still.spawn {task : TaskId} {host later : Host} (still : host.Still task later) (activity : Activity) :
    (host.spawn activity).2.Still task (later.spawn activity).2 := by
  have hready (schedule : Schedule) (process : TaskId) : (schedule.enqueue process).ready =
      if schedule.ready.contains process then schedule.ready else schedule.ready ++ [process] := by
    unfold Schedule.enqueue
    split <;> rfl
  have hsame (schedule : Schedule) (process : TaskId) : (schedule.enqueue process).woken = schedule.woken := by
    unfold Schedule.enqueue
    split <;> rfl
  have hhost := Schedule.Widens.enqueue host.schedule ⟨host.processes.length⟩
  have hlater := Schedule.Widens.enqueue later.schedule ⟨later.processes.length⟩
  refine ⟨?_, still.batches, still.scheduled, ?_, ?_, ?_, fun waiter hmem hother => ?_⟩
  · exact congrArg (· ++ _) still.processes
  · exact (hready _ _).trans (by rw [still.ready, still.processes]; exact (hready _ _).symm)
  · exact hlater.yielded.trans (still.yielded.trans hhost.yielded.symm)
  · exact (hsame _ _).trans (still.woken.trans (hsame _ _).symm)
  · exact (congrArg (waiter ∈ ·) hlater.waiting).mpr (still.waiting waiter ((congrArg (waiter ∈ ·) hhost.waiting).mp hmem) hother)

/-! ## The computation of `all` -/

namespace Concurrent

/-- How the computation goes on when its tasks have ended. -/
def verdict (tasks : List TaskId) : Except Error (List Value) → Body
  | .ok values => .ok (.list values)
  | .error error =>
    cancelEach tasks fun failures => .fail (error.withErrors (failures.filter fun failure => !failure.same error))

/-- How the computation goes on when it has forked its tasks. -/
def await (tasks : List TaskId) : Body :=
  .act (.firstFailure tasks) (verdict tasks)

/-- How the computation goes on when it has forked an effect, with the effects that are left. -/
def forkNext (tasks : List TaskId) (effects : List Effect) : Outcome → Body
  | .ok value =>
    match value.intoTask with
    | .ok task => forkEach (tasks ++ [task]) await effects
    | .error error => .fail error
  | .error error => .fail error

theorem allComputation_all (effects : List Effect) :
    allComputation (all effects) = ⟨some "all", forkEach [] await effects⟩ := by
  have heffects : effectsOf (all effects) = .ok effects := rfl
  unfold allComputation Computation.named
  simp only [heffects]
  congr 2
  funext tasks
  unfold await
  congr 1
  funext answer
  cases answer <;> rfl

/-- The stack of a run that has performed `all`. -/
def forkingStack (stack : Stack) (tag : Option HandlerTag) (progress : Progress) (result : Outcome) : Stack :=
  stack.push { progress, name := some "all", tag, result }

end Concurrent

namespace Batch.Burst

open Concurrent

variable {burst : Burst} {machine : Machine} {main : TaskId} {run : Run} {acts : List Act} {host after : Host} {stack : Stack}
variable {tag : Option HandlerTag}

/-- The calls are forked one after another.  The induction is on the calls. -/
theorem Served.goesTo_forked (served : burst.Served machine) (tuples : List (List Value)) {tasks : List TaskId}
    (goesTo : GoesTo machine main run acts
      (forkingStack stack tag (.running (forkEach tasks await (tuples.map burst.call))) (.ok .null)) host)
    (calm : Run.Calm { stack, host }) (hscheduled : host.scheduled = true) :
    ∃ more, GoesTo machine main run (acts ++ more)
        (forkingStack stack tag (.running (await (tasks ++ tasksFrom host.processes.length tuples.length))) (.ok .null))
        (host.forkAll stack.context (tuples.map burst.call)) ∧
      more.filterMap Act.call? = [] := by
  induction tuples generalizing tasks acts host with
  | nil => exact ⟨[], by simpa [tasksFrom, forkEach, Host.forkAll] using goesTo, rfl⟩
  | cons args tuples ih =>
      have hforks : GoesTo machine main run (acts ++ [.performed (.fork (burst.call args)), .forked (burst.call args)])
          (forkingStack stack tag (.suspended (forkNext tasks (tuples.map burst.call)))
            (.ok (.task ⟨host.processes.length⟩)))
          (host.spawn (.forked stack.context (burst.call args))).2 := by
        refine goesTo.performs calm rfl rfl rfl fun later still => ?_
        have hlater : (Machine.asking
            { stack := forkingStack stack tag (.running (forkEach tasks await ((args :: tuples).map burst.call))) (.ok .null)
              host := later } (forkNext tasks (tuples.map burst.call))).host.scheduled = true :=
          still.scheduled.trans hscheduled
        obtain ⟨hhandle, hacts⟩ := Machine.handle_fork_call served.toUndiverted burst.batched args hlater
        refine ⟨_, (still.spawn _).trans (.emit main _ (.forked ⟨later.processes.length⟩)), ?_, hacts⟩
        rw [← still.processes]
        exact hhandle
      have hcalm : (host.spawn (.forked stack.context (burst.call args))).2.isCanceled = host.isCanceled :=
        funext (host.isCanceled_spawn _)
      have hnext : GoesTo machine main run (acts ++ [.performed (.fork (burst.call args)), .forked (burst.call args)] ++
            [.resumed (.ok (.task ⟨host.processes.length⟩))])
          (forkingStack stack tag (.running (forkEach (tasks ++ [⟨host.processes.length⟩]) await (tuples.map burst.call)))
            (.ok .null)) (host.spawn (.forked stack.context (burst.call args))).2 :=
        hforks.resumed (calm.imp_right fun hsignal => by rw [← hsignal, ← hcalm]; rfl) rfl rfl rfl
      obtain ⟨more, hmore, hcalls⟩ := ih hnext (calm.imp_right fun hsignal => by rw [← hsignal, ← hcalm]) hscheduled
      have hlength : (host.spawn (.forked stack.context (burst.call args))).2.processes.length = host.processes.length + 1 := by
        simp [Host.spawn]
      refine ⟨[.performed (.fork (burst.call args)), .forked (burst.call args)] ++
        ([.resumed (.ok (.task ⟨host.processes.length⟩))] ++ more), ?_, ?_⟩
      · rw [hlength, List.append_assoc, List.append_assoc] at hmore
        simpa [tasksFrom_succ, Host.forkAll] using hmore
      · exact hcalls

/-- `all` waits while there is nothing to tell of its tasks. -/
theorem waits_at_join (machine : Machine) (main : TaskId) (driver : Driver) (stack : Stack) (tag : Option HandlerTag)
    {tasks : List TaskId} {occasions : List Occasion} (hreact : host.react (.firstFailure tasks) = .wait after occasions) :
    Scheduled machine
      (.driving main driver { stack := forkingStack stack tag (.running (await tasks)) (.ok .null), host })
      [(main, .waited (.firstFailure tasks))]
      { host := { after.park main (driver.activity (forkingStack stack tag (.running (await tasks)) (.ok .null))) with
        schedule := after.schedule.await main occasions } } :=
  System.driving_waits machine main driver (by simp [forkingStack, Stack.push]) rfl hreact

/-- In its first turn `all` forks its calls and waits for them. -/
theorem Served.turn_of_all (served : burst.Served machine) (tag : Option HandlerTag) {tuples : List (List Value)}
    (hsome : tuples ≠ []) (driver : Driver) (calm : Run.Calm { stack, host }) (hscheduled : host.scheduled = true)
    (hready : host.schedule.ready = []) (hyielded : host.schedule.yielded = []) (hmain : main.index < host.processes.length) :
    ∃ trace later, Scheduled machine (.driving main driver
        { stack := forkingStack stack tag (.fresh (forkEach [] await (tuples.map burst.call))) (.ok .null), host })
        trace { host := later } ∧
      callsIn trace = [] ∧ (∀ other, other ≠ main → deeds trace other = []) ∧
      (host.forkAll stack.context (tuples.map burst.call)).Turn main (driver.activity (forkingStack stack tag
        (.running (await (tasksFrom host.processes.length tuples.length))) (.ok .null))) host.batches later ∧
      later.schedule.yielded = [] ∧
      (∃ behind, (behind = [] ∨ behind = [main]) ∧
        later.schedule.line = tasksFrom host.processes.length tuples.length ++ behind) ∧
      ⟨main, (tasksFrom host.processes.length tuples.length).map .ended⟩ ∈ later.schedule.waiting := by
  have hnobodyReady : ∀ task ∈ host.schedule.ready, task.index < host.processes.length := by simp [hready]
  have hall := Host.forkAll_eq stack.context (tuples.map burst.call) hnobodyReady
  rw [hready, List.nil_append, List.length_map] at hall
  have hstart := (GoesTo.start machine main (forkingStack stack tag (.fresh (forkEach [] await (tuples.map burst.call)))
    (.ok .null)) host).fresh calm rfl rfl rfl
  obtain ⟨acts, hgoes, hcalls⟩ := served.goesTo_forked tuples hstart calm hscheduled
  obtain ⟨later, hforks, still⟩ := Scheduled.of_goesTo hgoes driver
  have hschedule : (host.forkAll stack.context (tuples.map burst.call)).schedule =
      { host.schedule with ready := tasksFrom host.processes.length tuples.length } := by rw [hall]
  have hgoing : ∀ task ∈ tasksFrom host.processes.length tuples.length, later.outcome? task = none := by
    intro task hmem
    obtain ⟨hfrom, hto⟩ := mem_tasksFrom.1 hmem
    have hless : task.index - host.processes.length < (tuples.map burst.call).length := by
      rw [List.length_map]
      omega
    have hprocess := Host.getElem?_forkAll stack.context hnobodyReady (List.getElem?_eq_getElem hless)
    rw [Nat.add_sub_of_le hfrom, ← still.processes] at hprocess
    unfold Host.outcome? Host.report?
    rw [hprocess]
    rfl
  have htasks : tasksFrom host.processes.length tuples.length ≠ [] := by simpa [tasksFrom] using hsome
  have hwaits := waits_at_join machine main driver stack tag (Host.react_firstFailure_of_going htasks hgoing)
  have hbatches : (host.forkAll stack.context (tuples.map burst.call)).batches = host.batches := by rw [hall]
  have hnew : main ∉ later.schedule.ready := by
    rw [still.ready, hschedule]
    intro hmem
    have hfrom := (mem_tasksFrom.1 hmem).1
    omega
  have hstands : later.schedule.yielded = [] := by rw [still.yielded, hschedule, hyielded]
  obtain ⟨hline, hnobody⟩ := Schedule.line_await_of_nodup hnew hstands
    ((tasksFrom host.processes.length tuples.length).map .ended)
  have hthose : later.schedule.line = tasksFrom host.processes.length tuples.length := by
    rw [Schedule.line, hstands, still.ready, hschedule, List.append_nil]
  rw [hthose] at hline
  refine ⟨_, _, hforks.trans hwaits, ?_, ?_, ?_, hnobody, ?_, Schedule.mem_waiting_await _ _ _⟩
  · rw [callsIn_append, callsIn_own]
    exact (List.append_nil _).trans hcalls
  · intro other hother
    rw [deeds_append, deeds_other (Ne.symm hother)]
    simp [deeds, Ne.symm hother]
  · rw [← hbatches]
    exact still.turn rfl rfl
  · rcases hline with hline | hline
    · exact ⟨[], .inl rfl, hline.trans (List.append_nil _).symm⟩
    · exact ⟨[main], .inr rfl, hline⟩

end Batch.Burst
end EffectMachine
