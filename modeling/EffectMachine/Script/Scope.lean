import EffectMachine.Plugin.Concurrent
import EffectMachine.Script.Expression

/-!
# Scopes

What an expression is evaluated in: arguments, variables, the value of the context, the operation being
handled, and the functions there are.
-/

namespace EffectMachine
namespace Script

/-- The scope of an expression. -/
structure Scope where
  /-- The functions of the script by the names they were defined under. -/
  functions : List (String × Function) := []
  args : List Value := []
  /-- Variables, the one written last first. -/
  bindings : List (String × Value) := []
  context : Value := .null
  /-- The operation being handled, until it is used up. -/
  handled : Option Effect := none
  /-- Whether effects can be performed: not outside a computation. -/
  performs : Bool := true

namespace Scope

/-- The value of a variable, absent if it was never written. -/
def get (scope : Scope) (name : String) : Value :=
  ((scope.bindings.find? fun entry => entry.1 = name).map Prod.snd).getD .null

/-- Writes a variable. -/
def set (scope : Scope) (name : String) (value : Value) : Scope :=
  { scope with bindings := (name, value) :: scope.bindings.filter fun entry => entry.1 ≠ name }

/-- A function of the script. -/
def function? (scope : Scope) (name : String) : Option Function :=
  (scope.functions.find? fun entry => entry.1 = name).map Prod.snd

/-- The scope of a computation made inside this one: it has a copy of everything but the handled operation. -/
def nested (scope : Scope) : Scope :=
  { scope with handled := none, performs := true }

/-- A fact about the handled operation; absent without one. -/
def aboutHandled (scope : Scope) (fact : Effect → Value) : Value :=
  (scope.handled.map fact).getD .null

/-- The number of effects that an operation runs side by side. -/
def effectCount (operation : Effect) : Value :=
  match operation.payload? with
  | some (.effects effects) => .int (.ofNat effects.length)
  | _ => .null

end Scope

/-- Goes through a list with a state, one item after another. -/
def sweep {α σ : Type} (step : α → σ → (σ → Body) → Body) (next : σ → Body) : List α → σ → Body
  | [], state => next state
  | item :: rest, state => step item state fun state => sweep step next rest state

end Script
end EffectMachine
