import EffectMachine.Value.Basic

/-!
# Contexts

A context is what a caller hands to every handler and filter of a run.  Contexts are told apart by
identity; what a handler can read of one is a value.
-/

namespace EffectMachine

/-- What tells one context from another. -/
inductive ContextId where
  /-- The one context of a name. -/
  | shared (name : String)
  /-- A context of its own. -/
  | own (serial : Nat)
  deriving DecidableEq, Inhabited

/-- A caller's context. -/
structure Context where
  identity : ContextId
  value : Value
  deriving Inhabited

namespace Context

/-- The one context of a name, which is also its value. -/
def named (name : String) : Context :=
  ⟨.shared name, .str name⟩

/-- A new context that carries nothing. -/
def blank (serial : Nat) : Context :=
  ⟨.own serial, .null⟩

/-- A new context that carries a name. -/
def fresh (serial : Nat) (name : String) : Context :=
  ⟨.own serial, .str name⟩

end Context
end EffectMachine
