import EffectMachine.Lifecycle.Hook
import EffectMachine.Plugin.Basic

/-!
# Task lifecycles

A manager surrounds an operation with the hooks of its listeners: all are prepared before it; after a success
each may still object before all are told of the completion; after a failure of any of this all are told of
the error; and at the very end all are finalized.  A failing stage replaces the outcome.  Main statement:
`Manager.stageFailure_eq_none_iff`, a stage fails exactly when one of its hooks does.
-/

namespace EffectMachine

/-- The hooks around the execution of a task; by default none does anything. -/
structure Listener where
  /-- Before the task runs. -/
  prepare : Context → Hook := fun _ => .idle
  /-- After the task succeeded. -/
  preComplete : Value → Hook := fun _ => .idle
  /-- After no listener objected. -/
  complete : Value → Hook := fun _ => .idle
  /-- After the task or one of the hooks before failed. -/
  error : Error → Hook := fun _ => .idle
  /-- At the end, with the error the task failed with, if any. -/
  finalize : Option Error → Hook := fun _ => .idle

/-- Runs tasks inside the lifecycle of its listeners. -/
structure Manager where
  listeners : List Listener

namespace Manager

/-- The written form of a manager. -/
def written (manager : Manager) : String :=
  Text.record "TaskManager" [("listeners", toString manager.listeners.length)]

/-- The failure of a stage, when some of its hooks failed. -/
def stageFailure (stage : String) (failures : List (Option Cause)) : Option Cause :=
  match failures.filterMap id with
  | [] => none
  | causes => some (.listeners stage causes)

/-- A stage fails exactly when one of its hooks does. -/
theorem stageFailure_eq_none_iff (stage : String) (failures : List (Option Cause)) :
    stageFailure stage failures = none ↔ ∀ failure ∈ failures, failure = none := by
  unfold stageFailure
  split
  · rename_i empty
    rw [List.filterMap_eq_nil_iff] at empty
    simpa using empty
  · rename_i some
    constructor
    · intro h
      cases h
    · intro none
      exact absurd (List.filterMap_eq_nil_iff.2 none) some

/-- Runs all hooks of a stage together and goes on with the failure of the stage. -/
def stage (name : String) (hooks : List Hook) (next : Option Cause → Body) : Body :=
  Hook.together false (fun failures => next (stageFailure name failures)) hooks

/-- Goes on with nothing, or with a new error of the given cause. -/
def raised (next : Option Error → Body) : Option Cause → Body
  | none => next none
  | some cause => .raise cause fun error => next (some error)

/-- Prepares all listeners, runs the operation, and completes it; goes on with the outcome. -/
def run (manager : Manager) (operation : Effect) (context : Context) (next : Outcome → Body) : Body :=
  let failing (rest : Body) : Option Cause → Body :=
    raised fun
      | some error => next (.error error)
      | none => rest
  Hook.together true
    (fun failures =>
      failing
        (.perform (.next operation false) fun
          | .error error => next (.error error)
          | .ok value =>
            Hook.inSequence
              (failing
                (stage "completion" (manager.listeners.map fun listener => listener.complete value)
                  (failing (next (.ok value)))))
              (manager.listeners.map fun listener => listener.preComplete value))
        (failures.findSome? id))
    (manager.listeners.map fun listener => listener.prepare context)

/-- Tells all listeners of an error and goes on with the outcome, which is a failure of theirs if there is
one. -/
def report (manager : Manager) (error : Error) (next : Outcome → Body) : Body :=
  .emit (.taskFailed error) <|
    stage "error handling" (manager.listeners.map fun listener => listener.error error) <|
      raised fun
        | some failure => .emit (.errorListenersFailed failure) (next (.error failure))
        | none => next (.error error)

/-- Finalizes all listeners and ends with the outcome, or with a failure of theirs. -/
def finish (manager : Manager) (error : Option Error) (outcome : Outcome) : Body :=
  stage "finalization" (manager.listeners.map fun listener => listener.finalize error) <|
    raised fun
      | some failure => .emit (.finalizationFailed failure) (.fail failure)
      | none => .done outcome

/-- Delegates an operation inside the lifecycle of the listeners. -/
def execute (manager : Manager) (operation : Effect) (context : Context) : Body :=
  manager.run operation context fun
    | .ok value => manager.finish none (.ok value)
    | .error error => manager.report error fun outcome => manager.finish (some error) outcome

/-- The plugin that runs every start operation inside the lifecycle of the manager chosen for the context; without
one the operation is delegated as it is. -/
def plugin (select : Context → Option Manager) : Plugin :=
  .intercepting [Kind.start] fun operation context =>
    .named "task" <|
      match select context with
      | some manager => manager.execute operation context
      | none => .perform (.next operation false) .done

end Manager
end EffectMachine
