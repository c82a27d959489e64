import EffectMachine.Plugin.Basic

/-!
# Running effects side by side

The operations `all` and `allSettled` fork every effect they are given before they wait for any.  `all`
ends with the list of values, or with the first failure it meets, after it has canceled the other tasks and
waited for them; `allSettled` ends with the list of outcomes.
-/

namespace EffectMachine
namespace Concurrent

/-- Runs every effect, and fails as soon as one does. -/
def all (effects : List Effect) : Effect :=
  .custom (Kind.under Kind.concurrent "all") (.effects effects)

/-- Runs every effect, and waits for all of them. -/
def allSettled (effects : List Effect) : Effect :=
  .custom (Kind.under Kind.concurrent "allSettled") (.effects effects)

/-- The effects that an operation carries. -/
def effectsOf (operation : Effect) : Except Error (List Effect) :=
  match operation.intoPayload .effects with
  | .ok (.effects effects) => .ok effects
  | .ok _ => .ok []
  | .error error => .error error

/-- Forks effects one after another and goes on with all their tasks; `tasks` are those forked before. -/
def forkEach (tasks : List TaskId) (rest : List TaskId → Body) : List Effect → Body
  | [] => rest tasks
  | effect :: effects =>
    .andThen (.fork effect) fun value =>
      match value.intoTask with
      | .ok task => forkEach (tasks ++ [task]) rest effects
      | .error error => .fail error

/-- What is left to report of a task that was asked to cancel: nothing if it ended well or was canceled
cleanly, otherwise the failure of its cleanup or its own failure. -/
def cancelFailure : Outcome → Option Error
  | .ok _ => none
  | .error error => if error.isCancellation then error.attached.head? else some error

/-- Asks each task of a list to cancel, unless it has settled by then, and goes on with those that were asked. -/
def signalEach : List TaskId → (List TaskId → Body) → Body
  | [], rest => rest []
  | task :: tasks, rest =>
    .act (.settled task) fun (settled : Bool) =>
      if settled then signalEach tasks rest
      else
        .emit (.cancelling task) (.act (.cancel task) fun _ =>
          signalEach tasks fun asked => rest (task :: asked))

/-- Cancels tasks one after another, waits for those that had not settled, and goes on with what their
cancellations failed with. -/
def cancelEach (tasks : List TaskId) (rest : List Error → Body) : Body :=
  signalEach tasks fun asked =>
    .act (.join asked) fun (outcomes : List Outcome) => rest (outcomes.filterMap cancelFailure)

/-- Cancels one task and goes on; a failure of its cleanup, or another failure of the task, is raised. -/
def cancelOne (task : TaskId) (failed : Error → Body) (rest : Body) : Body :=
  cancelEach [task] fun
    | [] => rest
    | failure :: _ => failed failure

/-- The computation that services `all`. -/
def allComputation (operation : Effect) : Computation :=
  .named "all" <|
    match effectsOf operation with
    | .error error => .fail error
    | .ok effects =>
      forkEach [] (fun tasks =>
        .act (.firstFailure tasks) fun
          | .ok values => .ok (.list values)
          | .error error =>
            cancelEach tasks fun failures =>
              .fail (error.withErrors (failures.filter fun failure => !failure.same error)))
        effects

/-- The computation that services `allSettled`. -/
def allSettledComputation (operation : Effect) : Computation :=
  .named "allSettled" <|
    match effectsOf operation with
    | .error error => .fail error
    | .ok effects =>
      forkEach [] (fun tasks =>
        .act (.join tasks) fun (outcomes : List Outcome) => .ok (.list (outcomes.map Value.settled)))
        effects

/-- The plugin that services both. -/
def plugin : Plugin where
  space := some Kind.concurrent
  handlers :=
    [("all", .ofHandle fun operation _ => allComputation operation),
      ("allSettled", .ofHandle fun operation _ => allSettledComputation operation)]

end Concurrent
end EffectMachine
