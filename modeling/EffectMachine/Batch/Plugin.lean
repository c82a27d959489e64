import EffectMachine.Plugin.Basic

/-!
# Batching of calls

A batched function performs a batch operation in place of its calls.  The calls of one group enroll in
its open batch; the call that opens a batch sees to it that the batch is flushed, after one scheduling turn for
a zero window and from a forked task after the window otherwise.  Flushing closes the batch, calls the function
once with the argument lists of all its calls, and answers every call with its item of the result.  Main
statement: `Batch.resultsFor_eq_ok_iff`, the calls get results exactly when there is one for each.
-/

namespace EffectMachine
namespace Batch

/-- The operation that a batched function performs. -/
def operation (definition : Nat) (function : Function) (key : Option BatchKey) (args : List Value) :
    Effect :=
  .custom (Kind.under Kind.batch "execute") (.batchCall definition function key args)

/-- The computation of a call of a batched function. -/
def computation (definition : Nat) (function : Function) (key : Option BatchKey) (args : List Value) :
    Computation :=
  ⟨none, .perform (operation definition function key args) .done⟩

/-- Calls a function with the argument lists of some calls; `rest` is given its list of results or the
failure. -/
def callWith (function : Function) (calls : List (List Value))
    (rest : Except Error (List Value) → Body) : Body :=
  .perform (.call function (calls.map Value.list)) fun outcome => rest (outcome.bind Value.intoList)

/-- A call that runs alone, whose result is the first item. -/
def alone (function : Function) (args : List Value) : Body :=
  .emit (.callUnbatched function.name) <|
    callWith function [args] fun
      | .error error => .fail error
      | .ok (result :: _) => .ok result
      | .ok [] => .fail (.type ("batch: " ++ function.name ++ " returned no result"))

/-- Answers calls one after another. -/
def answerEach (rest : Body) : List (Slot × Outcome) → Body
  | [] => rest
  | (slot, outcome) :: answers => .act (.answer slot outcome) fun _ => answerEach rest answers

/-- The results of a batch, of which there must be one for every call. -/
def resultsFor (function : Function) (calls : Nat) (results : Except Error (List Value)) :
    Except Error (List Value) :=
  results.bind fun results =>
    if results.length = calls then .ok results
    else .error (.type ("batch: " ++ function.name ++ " returned " ++ toString results.length
      ++ " results for " ++ toString calls ++ " calls"))

/-- The calls of a batch get results exactly when the function returned one for each. -/
theorem resultsFor_eq_ok_iff {function : Function} {calls : Nat}
    {returned : Except Error (List Value)} {results : List Value} :
    resultsFor function calls returned = .ok results ↔
      returned = .ok results ∧ results.length = calls := by
  cases returned with
  | error error => simp [resultsFor, Except.bind]
  | ok values =>
    simp only [resultsFor, Except.bind, Except.ok.injEq]
    split
    · rename_i same
      constructor
      · intro h
        have equal := Except.ok.inj h
        exact ⟨equal, equal ▸ same⟩
      · rintro ⟨rfl, _⟩
        rfl
    · rename_i different
      constructor
      · intro h
        cases h
      · rintro ⟨rfl, same⟩
        exact absurd same different

/-- Closes a batch, makes its calls and answers them. -/
def flushNow (group : BatchGroup) (function : Function) : Body :=
  .act (.collect group) fun (calls : List Enrolled) =>
    .emit (.batchFlushed function.name calls.length) <|
      callWith function (calls.map Enrolled.args) fun results =>
        match resultsFor function calls.length results with
        | .ok results =>
          answerEach (.ok .null) ((calls.map Enrolled.slot).zip (results.map Except.ok))
        | .error error =>
          .emit (.batchFailed error function.name) <|
            answerEach (.ok .null) (calls.map fun call => (call.slot, .error error))

/-- The computation that flushes a batch when its window has passed. -/
def flush (group : BatchGroup) (function : Function) (window : Nat) : Computation :=
  .named "batch flush" <|
    if window = 0 then .act .yieldTurn fun _ => flushNow group function
    else .sleep window (flushNow group function)

/-- Waits for the answer to an enrolled call. -/
def awaitAnswer (slot : Slot) : Body :=
  .act (.receive slot) fun
    | some outcome => .done outcome
    | none => .fail (.type "batch: flushed without a result")

/-- A call that takes part in a batch. -/
def enrolled (group : BatchGroup) (function : Function) (window : Nat) (args : List Value) : Body :=
  .act (.enroll group args) fun (enrolment : Enrolment) =>
    if enrolment.opened then
      .emit (.batchOpened function.name group.key) <|
        let flusher : Effect := .bare (flush group function window)
        if window = 0 then .andThen flusher fun _ => awaitAnswer enrolment.slot
        else
          .perform (.fork flusher) fun
            | .ok _ => awaitAnswer enrolment.slot
            | .error error => .act (.abandon group) fun _ => .fail error
    else awaitAnswer enrolment.slot

/-- The computation that services a batched call. -/
def handle (batcher window : Nat) (operation : Effect) : Computation :=
  .named "batch" <|
    match operation.intoPayload .batchCall with
    | .error error => .fail error
    | .ok (.batchCall definition function key args) =>
      match key.filter BatchKey.isTruthy with
      | none => alone function args
      | some key => enrolled { batcher, definition, key } function window args
    | .ok _ => .ok .null

/-- The plugin with a window, in milliseconds.  Each plugin has batches of its own. -/
def plugin (batcher window : Nat) : Plugin where
  space := some Kind.batch
  handlers := [("execute", .ofHandle fun operation _ => handle batcher window operation)]

end Batch
end EffectMachine
