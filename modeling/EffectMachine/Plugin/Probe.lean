import EffectMachine.Program.Action

/-!
# Probes

Filters and validators look at an operation without running anything.  All they may do on the way to
their answer is to write to the log and to make new errors.
-/

namespace EffectMachine

/-- A look at an operation that ends with an answer. -/
inductive Probe (α : Type) where
  /-- The answer. -/
  | done (answer : α)
  /-- Writes a value to the log first. -/
  | note (value : Value) (rest : Probe α)
  /-- Reserves identities for new errors first; the rest is given the first of them. -/
  | mint (count : Nat) (rest : Nat → Probe α)

namespace Probe

variable {α β γ : Type}

/-- Goes on with the answer. -/
def bind : Probe α → (α → Probe β) → Probe β
  | .done answer, next => next answer
  | .note value rest, next => .note value (rest.bind next)
  | .mint count rest, next => .mint count fun identity => (rest identity).bind next

instance : Monad Probe where
  pure := .done
  bind := .bind

/-- A probe that answers at once goes on at once. -/
@[simp]
theorem bind_done (answer : α) (next : α → Probe β) : (Probe.done answer).bind next = next answer :=
  rfl

/-- Going on twice is going on once with both. -/
theorem bind_assoc (probe : Probe α) (first : α → Probe β) (second : β → Probe γ) :
    (probe.bind first).bind second = probe.bind fun answer => (first answer).bind second := by
  induction probe with
  | done answer => rfl
  | note value rest ih => simp [bind, ih]
  | mint count rest ih => simp [bind, ih]

end Probe
end EffectMachine
