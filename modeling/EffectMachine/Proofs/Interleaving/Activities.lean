import EffectMachine.Proofs.Interleaving.Moves

/-!
# What all processes are doing

The processes of a host, seen only by what they are doing.

* `Host.activities` lists it, and `Host.activities_park` says how one of them is noted.
* `Run.Does.activities` says that an act adds a forked task or nothing.
-/

namespace EffectMachine

namespace Host

/-- What the processes are doing, in order. -/
def activities (host : Host) : List Activity :=
  host.processes.map Process.activity

theorem activities_of_quiet {host later : Host} (hquiet : later.quiet = host.quiet) :
    later.activities = host.activities :=
  congrArg (List.map Process.activity) (congrArg Host.processes hquiet :)

@[simp] theorem activities_settle (host : Host) (slot : Slot) (state : SlotState) :
    (host.settle slot state).activities = host.activities := by
  unfold Host.settle
  split <;> rfl

@[simp] theorem activities_close (host : Host) (slots : List Slot) :
    (host.close slots).activities = host.activities := by
  unfold Host.close
  induction slots generalizing host with
  | nil => rfl
  | cons slot slots ih => exact (ih _).trans (host.activities_settle slot .closed)

/-- A change of processes that is no matter of what they are doing. -/
theorem map_activity_modify (processes : List Process) (index : Nat) (change : Process → Process)
    (hactivity : ∀ process, (change process).activity = process.activity) :
    (processes.modify index change).map Process.activity = processes.map Process.activity := by
  induction processes generalizing index with
  | nil => simp
  | cons process rest ih =>
      cases index with
      | zero => simp [hactivity]
      | succ index => simp [ih]

@[simp] theorem activities_collect (host : Host) (task : TaskId) :
    (host.collect task).activities = host.activities := by
  unfold Host.collect
  split
  · exact map_activity_modify _ _ _ fun _ => rfl
  · rfl

@[simp] theorem activities_collectAll (host : Host) (tasks : List TaskId) :
    (tasks.foldl collect host).activities = host.activities := by
  induction tasks generalizing host with
  | nil => rfl
  | cons task tasks ih => exact (ih _).trans (host.activities_collect task)

@[simp] theorem activities_cancel (host : Host) (task : TaskId) :
    (host.cancel task).activities = host.activities :=
  map_activity_modify _ _ _ fun _ => rfl

@[simp] theorem activities_spawn (host : Host) (activity : Activity) :
    (host.spawn activity).2.activities = host.activities ++ [activity] := by
  simp [Host.activities, Host.spawn]

/-- Noting what a process is doing. -/
theorem activities_park (host : Host) (task : TaskId) (activity : Activity) :
    (host.park task activity).activities = host.activities.set task.index activity := by
  refine List.ext_getElem? fun index => ?_
  show ((host.processes.modify task.index _).map Process.activity)[index]? =
    ((host.processes.map Process.activity).set task.index activity)[index]?
  rw [List.getElem?_map, List.getElem?_modify, List.getElem?_set]
  by_cases hindex : task.index = index
  · subst hindex
    cases hprocess : host.processes[task.index]? with
    | none => simpa using List.getElem?_eq_none_iff.1 hprocess
    | some process => simp [(List.getElem?_eq_some_iff.1 hprocess).1]
  · simp [hindex]

/-- A look at tasks is no matter of what the processes are doing. -/
theorem activities_look {α : Type} (host : Host) (looked tasks : List TaskId) (answer : Option α) :
    (reacted (host.look looked tasks answer)).activities = host.activities := by
  cases answer with
  | none => exact host.activities_collectAll looked
  | some answer => exact host.activities_collectAll looked

/-- Reacting to an action is no matter of what the processes are doing. -/
@[simp] theorem activities_react (host : Host) (action : Action) :
    (reacted (host.react action)).activities = host.activities := by
  cases action with
  | cancel task => exact host.activities_cancel task
  | join tasks => exact host.activities_look tasks tasks _
  | firstFailure tasks => exact host.activities_look _ tasks _
  | arm delay | expired timers | receive slot =>
      rw [react]
      split <;> rfl
  | abandon group => exact activities_close { host with batches := host.batches.remove group } _
  | answer slot outcome => exact host.activities_settle slot _
  | _ => rfl

/-- Sending out errands adds a client for each. -/
theorem activities_sendOut (host : Host) (errands : List Errand) :
    (Machine.sendOut host errands).2.activities = host.activities ++ errands.map Activity.client := by
  induction errands generalizing host with
  | nil => simp [Machine.sendOut]
  | cons errand rest ih =>
      refine (ih (host.spawn (.client errand)).2).trans ?_
      rw [activities_spawn]
      simp

end Host

/-- The task that an act adds. -/
def Act.spawned (context : Context) : Act → List Activity
  | .forked effect => [.forked context effect]
  | _ => []

/-- An act adds a forked task, or nothing. -/
theorem Run.Does.activities {run next : Run} {act : Act} (hdoes : run.Does act next) :
    next.host.activities = run.host.activities ++ act.spawned run.stack.context := by
  cases hdoes with
  | fork effect hscheduled =>
      unfold Run.answerTop
      split
      · exact run.host.activities_spawn _
      · exact run.host.activities_spawn _
  | answer value =>
      unfold Run.answerTop
      split <;> exact (List.append_nil _).symm
  | fail error =>
      unfold Run.failTop
      split <;> exact (List.append_nil _).symm
  | act action resume host reply hrunning hreact =>
      have hactivities := run.host.activities_react action
      rcases hreact with hreact | hreact
      · rw [hreact] at hactivities
        exact hactivities.trans (List.append_nil _).symm
      · rw [hreact] at hactivities
        exact hactivities.trans (List.append_nil _).symm
  | wait action resume host occasions hrunning hreact =>
      have hactivities := run.host.activities_react action
      rw [hreact] at hactivities
      exact hactivities.trans (List.append_nil _).symm
  | drop parent rest hbelow => exact (run.host.activities_close _).trans (List.append_nil _).symm
  | complete outcome hrunning => exact (run.host.activities_close _).trans (List.append_nil _).symm
  | giveUp hfinished hdue => exact (run.host.activities_close _).trans (List.append_nil _).symm
  | vacate hroot => exact (run.host.activities_close _).trans (List.append_nil _).symm
  | _ => exact (List.append_nil _).symm

end EffectMachine
