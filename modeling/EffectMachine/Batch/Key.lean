import EffectMachine.Text.Record
import EffectMachine.Value.Basic

/-!
# Grouping keys of batched calls

Calls with equal keys share a batch.  A key that does not count as true lets its call run alone.  Main
statement: `BatchKey.isTruthy_ofValue?`, a key counts as true exactly when the value it came from does.
-/

namespace EffectMachine

/-- What groups batched calls. -/
inductive BatchKey where
  | bool (b : Bool)
  | int (n : Int64)
  | str (s : String)
  deriving DecidableEq, Inhabited

namespace BatchKey

/-- Whether calls with this key are batched: all keys do but `false`, zero and the empty text. -/
def isTruthy : BatchKey → Bool
  | .bool b => b
  | .int n => n ≠ 0
  | .str s => s ≠ ""

/-- The key of a scalar value; other values have none. -/
def ofValue? : Value → Option BatchKey
  | .bool b => some (.bool b)
  | .int n => some (.int n)
  | .str s => some (.str s)
  | _ => none

/-- The written form of a key. -/
def written : BatchKey → String
  | .bool b => Text.variant "Bool" [if b then "true" else "false"]
  | .int n => Text.variant "Int" [toString n.toInt]
  | .str s => Text.variant "Str" [Text.quoted s]

/-- A key counts as true exactly when the value it came from does. -/
theorem isTruthy_ofValue? {value : Value} {key : BatchKey} (h : ofValue? value = some key) :
    key.isTruthy = value.isTruthy := by
  cases value with
  | bool b | int n | str s =>
    cases h
    rfl
  | _ => cases h

end BatchKey
end EffectMachine
