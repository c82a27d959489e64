import EffectMachine.Program.Effect

/-!
# Inspections of effects

Everything that can be asked of an effect, answered at one moment.
-/

namespace EffectMachine

/-- The answers to every question about one effect. -/
structure EffectInspection where
  kind : String
  isOperation : Bool
  /-- The kinds of the effects it wraps, from the outside in. -/
  wrapped : List String
  /-- The value it carries. -/
  value : Option Value
  /-- What each type of payload makes of it; only of operations. -/
  conversions : List (PayloadType × Except Error Value)
  written : String

/-- The value of the payload of an operation, taken as one of some type. -/
def Effect.convert (effect : Effect) (expected : PayloadType) : Except Error Value :=
  (effect.intoPayload expected).map fun payload => payload.value?.getD .null

/-- The inspection of an effect, given which tasks have settled. -/
def Effect.inspect (isSettled : TaskId → Bool) (effect : Effect) : EffectInspection where
  kind := effect.kind
  isOperation := effect.isOperation
  wrapped := effect.wrappedKinds
  value := effect.value?
  conversions :=
    if effect.isOperation then
      [PayloadType.unit, .text, .int, .value].map fun expected => (expected, effect.convert expected)
    else []
  written := effect.written isSettled

end EffectMachine
