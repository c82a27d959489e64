/-!
# Configurations

The settings of a machine, and how they are read from a document.  A group of settings is an object, whose unknown
fields are ignored and whose missing fields keep their defaults, or an array of the fields in order, whose missing
tail keeps its defaults.  Main statements: `Configuration.ofDocument?_object_nil` and
`Configuration.ofDocument?_array_nil`, nothing given leaves every default, and
`Configuration.ofDocument?_array_eq_none`, too many items describe nothing.
-/

namespace EffectMachine

/-- A document that settings are read from. -/
inductive Document where
  | null
  | bool (b : Bool)
  | integer (n : Int)
  /-- A number that is not written as an integer. -/
  | fractional
  | text (s : String)
  | array (items : List Document)
  | object (fields : List (String × Document))
  deriving Inhabited

namespace Document

/-- The numbers that settings may have: those that fit into a word. -/
def natural? : Document → Option Nat
  | .integer n => if 0 ≤ n ∧ n.toNat < UInt64.size then some n.toNat else none
  | _ => none

/-- The fields of a group of settings, by name or by position; nothing unless the document describes one. -/
def group? (names : List String) : Document → Option (List (Option Document))
  | .object fields => some (names.map fun name => fields.lookup name)
  | .array items =>
    if items.length ≤ names.length then
      some (items.map some ++ List.replicate (names.length - items.length) none)
    else none
  | _ => none

/-- The setting of a field, which has a default. -/
def setting {α : Type} (read : Document → Option α) (default : α) : Option Document → Option α
  | none => some default
  | some document => read document

end Document

/-- The settings of a machine. -/
structure Configuration where
  /-- How many contexts keep their facade. -/
  capacity : Nat := 256
  /-- The window of the batch plugin, in milliseconds. -/
  window : Nat := 0
  deriving DecidableEq

namespace Configuration

/-- The window in the settings of the batch plugin. -/
def readWindow (document : Document) : Option Nat :=
  (document.group? ["timeout"]).bind fun
    | [timeout] => Document.setting Document.natural? 0 timeout
    | _ => none

/-- The settings that a document describes. -/
def ofDocument? (document : Document) : Option Configuration :=
  (document.group? ["context_cache_capacity", "batch"]).bind fun
    | [capacity, batch] => do
      let capacity ← Document.setting Document.natural? 256 capacity
      let window ← Document.setting readWindow 0 batch
      some { capacity, window }
    | _ => none

/-- An empty object describes the default settings. -/
theorem ofDocument?_object_nil : ofDocument? (.object []) = some {} := rfl

/-- An empty array describes the default settings. -/
theorem ofDocument?_array_nil : ofDocument? (.array []) = some {} := rfl

/-- An array with more items than there are settings describes none. -/
theorem ofDocument?_array_eq_none {items : List Document} (long : 2 < items.length) :
    ofDocument? (.array items) = none := by
  have refused : ¬ items.length ≤ 2 := by omega
  simp [ofDocument?, Document.group?, refused]

end Configuration
end EffectMachine
