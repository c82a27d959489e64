import EffectMachine.Script.Scope

/-!
# Evaluation of expressions

An expression becomes a body: what it does, followed by what is done with its value, or with its error.
Both continuations are given the scope as the expression left it.
-/

namespace EffectMachine
namespace Script

/-- What is done with a result and the scope it was reached in. -/
abbrev Continuation (α : Type) := α → Scope → Body

/-- Fails with a new error that reports a misuse of the language. -/
def misuse (reason : String) (scope : Scope) (failed : Continuation Error) : Body :=
  .raise (.message ("driver: " ++ reason)) fun error => failed error scope

/-- Goes on with the value of a literal. -/
def literalValue (literal : Literal) (next : Value → Body) : Body :=
  if literal.identities = 0 then next (literal.build 0).1
  else .act (.mint literal.identities) fun (identity : Nat) => next (literal.build identity).1

/-- Goes on with the error of a literal. -/
def literalError (literal : ErrorLiteral) (next : Error → Body) : Body :=
  if literal.identities = 0 then next (literal.build 0).1
  else .act (.mint literal.identities) fun (identity : Nat) => next (literal.build identity).1

/-- Goes on with something that depends on which tasks have settled. -/
def asSettled {α : Type} (fact : (TaskId → Bool) → α) (next : α → Body) : Body :=
  .act .settlements fun (isSettled : TaskId → Bool) => next (fact isSettled)

/-- Goes on with the task of a handle. -/
def withTask (value : Value) (scope : Scope) (failed : Continuation Error) (next : TaskId → Body) :
    Body :=
  match value.intoTask with
  | .ok task => next task
  | .error error => failed error scope

/-- The error that a raised value stands for. -/
def raisedError (value : Value) (next : Error → Body) : Body :=
  match value with
  | .error error => next error
  | value => asSettled (fun isSettled => value.display isSettled) fun text =>
    .raise (.message text) next

mutual

/-- Evaluates an expression. -/
def Expression.eval (next : Continuation Value) (failed : Continuation Error) :
    Expression → Scope → Body
  | .literal literal, scope => literalValue literal fun value => next value scope
  | .sequence parts, scope => evalLast next failed .null parts scope
  | .list items, scope => evalEach (fun values => next (.list values)) failed [] items scope
  | .variable name, scope => next (scope.get name) scope
  | .assign name value, scope =>
    value.eval (fun value scope => next .null (scope.set name value)) failed scope
  | .argument index, scope => next (scope.args[index]?.getD .null) scope
  | .arguments, scope => next (.list scope.args) scope
  | .load name, scope => .act (.load name) fun (value : Value) => next value scope
  | .store name value, scope =>
    value.eval (fun value scope => .act (.store name value) fun _ => next .null scope) failed scope
  | .perform effect, scope =>
    effect.eval
      (fun effect scope =>
        if scope.performs then
          .perform effect fun
            | .ok value => next value scope
            | .error error => failed error scope
        else misuse "no computation to perform an effect" scope failed)
      failed scope
  | .attempt body handler, scope =>
    body.eval next (fun error scope => handler.eval next failed (scope.set "err" (.error error))) scope
  | .raise value, scope =>
    value.eval (fun value scope => raisedError value fun error => failed error scope) failed scope
  | .choose condition whenTrue whenFalse, scope =>
    condition.eval
      (fun value scope =>
        if value.isTruthy then whenTrue.eval next failed scope else whenFalse.eval next failed scope)
      failed scope
  | .repeated count body, scope =>
    sweep
      (fun (index : Nat) (scope : Scope) rest =>
        body.eval (fun _ scope => rest scope) failed (scope.set "i" (.int (.ofNat index))))
      (next .null) (List.range count) scope
  | .forEach items body, scope =>
    items.eval
      (fun value scope =>
        match value.intoList with
        | .error error => failed error scope
        | .ok values =>
          sweep
            (fun (value : Value) (state : List Value × Scope) rest =>
              body.eval (fun result scope => rest (state.1 ++ [result], scope)) failed
                (state.2.set "it" value))
            (fun (results, scope) => next (.list results) scope) values ([], scope))
      failed scope
  | .log value, scope =>
    value.eval (fun value scope => .note value (next .null scope)) failed scope
  | .inspect value, scope =>
    value.eval
      (fun value scope =>
        asSettled (fun isSettled => value.inspect isSettled) fun inspection =>
          .act (.log (.inspection inspection)) fun _ => next .null scope)
      failed scope
  | .equal a b, scope =>
    a.eval (fun a scope => b.eval (fun b scope => next (.bool (a.equal b)) scope) failed scope) failed
      scope
  | .kindName value, scope =>
    value.eval (fun value scope => next (.str value.kindName) scope) failed scope
  | .length value, scope =>
    value.eval
      (fun value scope =>
        next ((value.list?.map fun items => .int (.ofNat items.length)).getD .null) scope)
      failed scope
  | .item value index, scope =>
    value.eval
      (fun value scope => next ((value.list?.bind fun items => items[index]?).getD .null) scope)
      failed scope
  | .add a b, scope =>
    a.eval (fun a scope => b.eval (fun b scope => next (a.add b) scope) failed scope) failed scope
  | .display value, scope =>
    value.eval
      (fun value scope =>
        asSettled (fun isSettled => value.display isSettled) fun text => next (.str text) scope)
      failed scope
  | .concatenate parts, scope =>
    evalEach
      (fun texts => next (.str (String.join (texts.map fun text => text.str?.getD "")))) failed [] parts
      scope
  | .nest count value, scope =>
    value.eval (fun value scope => next (value.nest count) scope) failed scope
  | .intoList value, scope =>
    value.eval
      (fun value scope =>
        match value.intoList with
        | .ok values => next (.list values) scope
        | .error error => failed error scope)
      failed scope
  | .resultOf task, scope =>
    task.eval
      (fun value scope =>
        withTask value scope failed fun task =>
          .act (.join [task]) fun (outcomes : List Outcome) =>
            match outcomes with
            | .error error :: _ => failed error scope
            | .ok value :: _ => next value scope
            | [] => next .null scope)
      failed scope
  | .cancel task, scope =>
    task.eval
      (fun value scope =>
        withTask value scope failed fun task =>
          Concurrent.cancelOne task (fun error => failed error scope) (next .null scope))
      failed scope
  | .isSettled task, scope =>
    task.eval
      (fun value scope =>
        withTask value scope failed fun task =>
          .act (.settled task) fun (settled : Bool) => next (.bool settled) scope)
      failed scope
  | .sleep delay, scope => .sleep delay (next .null scope)
  | .yieldTurn, scope => .act .yieldTurn fun _ => next .null scope
  | .now, scope => .act .now fun (time : Nat) => next (.int (.ofNat time)) scope
  | .context, scope => next scope.context scope
  | .handledKind, scope => next (scope.aboutHandled fun operation => .str operation.kind) scope
  | .handledWritten, scope =>
    asSettled (fun isSettled => scope.aboutHandled fun operation => .str (operation.written isSettled))
      fun text => next text scope
  | .handledValue, scope =>
    next (scope.aboutHandled fun operation => operation.value?.getD .null) scope
  | .handledWrapped, scope =>
    next
      (scope.aboutHandled fun operation =>
        (operation.wrapped?.map fun inner => .str inner.kind).getD .null)
      scope
  | .handledCount, scope => next (scope.aboutHandled Scope.effectCount) scope
  | .takePayload expected, scope =>
    match scope.handled with
    | none => next .null scope
    | some operation =>
      match operation.intoPayload expected with
      | .ok payload => next (payload.value?.getD .null) { scope with handled := none }
      | .error error => failed error { scope with handled := none }

/-- Evaluates expressions from left to right and keeps the last value; `value` is that of the one before. -/
def evalLast (next : Continuation Value) (failed : Continuation Error) (value : Value) :
    List Expression → Scope → Body
  | [], scope => next value scope
  | part :: rest, scope =>
    part.eval (fun value scope => evalLast next failed value rest scope) failed scope

/-- Evaluates expressions from left to right and keeps all values; `values` are those of the ones before. -/
def evalEach (next : Continuation (List Value)) (failed : Continuation Error) (values : List Value) :
    List Expression → Scope → Body
  | [], scope => next values scope
  | item :: rest, scope =>
    item.eval (fun value scope => evalEach next failed (values ++ [value]) rest scope) failed scope

/-- Builds the effect of an effect expression. -/
def EffectExpression.eval (next : Continuation Effect) (failed : Continuation Error) :
    EffectExpression → Scope → Body
  | .call name args, scope =>
    evalEach
      (fun args scope =>
        match scope.function? name with
        | some function => next (.call function args) scope
        | none => misuse ("no function " ++ name) scope failed)
      failed [] args scope
  | .execute body name, scope =>
    next
      (.execute ⟨name, body.eval (fun value _ => .ok value) (fun error _ => .fail error) scope.nested⟩)
      scope
  | .bare body name, scope =>
    next (.bare ⟨name, body.eval (fun value _ => .ok value) (fun error _ => .fail error) scope.nested⟩)
      scope
  | .ready value, scope =>
    value.eval (fun value scope => next (.bare (.ready value)) scope) failed scope
  | .failing literal, scope => literalError literal fun error => next (.bare (.failing error)) scope
  | .wrapped wrapper times effect, scope =>
    effect.eval (fun effect scope => next (wrapper.wrapTimes times effect) scope) failed scope
  | .recover, scope => next .recover scope
  | .generator, scope => next .generator scope
  | .custom kind payload, scope =>
    payload.eval (fun value scope => next (.custom kind (.ofValue value)) scope) failed scope
  | .handled, scope =>
    match scope.handled with
    | some operation => next operation { scope with handled := none }
    | none => misuse "no handled operation" scope failed
  | .all effects, scope =>
    buildEach (fun effects => next (Concurrent.all effects)) failed [] effects scope
  | .allSettled effects, scope =>
    buildEach (fun effects => next (Concurrent.allSettled effects)) failed [] effects scope
  | .allCopies count effect, scope =>
    sweep
      (fun (index : Nat) (state : List Effect × Scope) rest =>
        effect.eval (fun effect scope => rest (state.1 ++ [effect], scope)) failed
          (state.2.set "i" (.int (.ofNat index))))
      (fun (effects, scope) => next (Concurrent.all effects) scope) (List.range count) ([], scope)

/-- Builds effects from left to right; `effects` are those built before. -/
def buildEach (next : Continuation (List Effect)) (failed : Continuation Error)
    (effects : List Effect) : List EffectExpression → Scope → Body
  | [], scope => next effects scope
  | effect :: rest, scope =>
    effect.eval (fun effect scope => buildEach next failed (effects ++ [effect]) rest scope) failed scope

end

/-- The body of a computation that evaluates an expression. -/
def Expression.body (expression : Expression) (scope : Scope) : Body :=
  expression.eval (fun value _ => .ok value) (fun error _ => .fail error) scope

end Script
end EffectMachine
