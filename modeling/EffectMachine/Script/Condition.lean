import EffectMachine.Plugin.Basic
import EffectMachine.Value.Literal

/-!
# Conditions

What scripted filters and validators ask of an operation.
-/

namespace EffectMachine
namespace Script

/-- A question about an operation. -/
inductive Condition where
  | constant (answer : Bool)
  | not (condition : Condition)
  /-- Writes a value to the log before it asks. -/
  | log (value : Literal) (condition : Condition)
  /-- The operation carries a value. -/
  | carries (value : Literal)
  /-- The operation carries a text that starts in a certain way. -/
  | startsWith (text : String)
  /-- The context has a value; never so when no context is known. -/
  | context (value : Literal)
  /-- The operation calls a function of a name. -/
  | calls (function : String)
  /-- The operation calls a function with a number of arguments. -/
  | argumentCount (count : Nat)
  /-- The operation wraps an effect of a kind. -/
  | wraps (kind : String)
  deriving Inhabited

namespace Condition

/-- Goes on with the value of a literal. -/
def literalValue {α : Type} (literal : Literal) (next : Value → Probe α) : Probe α :=
  if literal.identities = 0 then next (literal.build 0).1
  else .mint literal.identities fun identity => next (literal.build identity).1

/-- Whether an optional value is there and equals another. -/
def isValue (found : Option Value) (expected : Value) : Bool :=
  match found with
  | some value => value.equal expected
  | none => false

/-- Whether an operation carries a text that starts in a certain way. -/
def carriesStart (operation : Effect) (text : String) : Bool :=
  match operation.payload? with
  | some (.text carried) => text.toList.isPrefixOf carried.toList
  | _ => false

/-- Answers a condition. -/
def ask (operation : Effect) (context : Option Value) : Condition → Probe Bool
  | .constant answer => .done answer
  | .not condition => (condition.ask operation context).bind fun answer => .done !answer
  | .log value condition =>
    literalValue value fun value => .note value (condition.ask operation context)
  | .carries value => literalValue value fun value => .done (isValue operation.value? value)
  | .startsWith text => .done (carriesStart operation text)
  | .context value => literalValue value fun value => .done (isValue context value)
  | .calls name =>
    .done <|
      match operation with
      | .call function _ => function.name = name
      | _ => false
  | .argumentCount count =>
    .done <|
      match operation with
      | .call _ args => args.length = count
      | _ => false
  | .wraps kind => .done ((operation.wrapped?.map Effect.kind) = some kind)

end Condition
end Script
end EffectMachine
