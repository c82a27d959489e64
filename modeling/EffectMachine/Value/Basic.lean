import EffectMachine.Binary64.Basic
import EffectMachine.Error.Basic

/-!
# Values

The values that computations take and give: plain data, and handles on what lives in a machine, namely
tasks, caught errors, outcomes of settled tasks and objects of the host.  `Value.equal` compares plain data by
content and handles by identity.  Main statement: `Value.exists_increasing_tableOf`, a table has its keys in
increasing order whatever the order of the entries it is made of.
-/

namespace EffectMachine

/-- The name of a process of the machine, and of the task it carries out. -/
structure TaskId where
  index : Nat
  deriving DecidableEq, Inhabited

/-- What a computation can learn about the frame it runs in. -/
structure FrameInfo where
  /-- Name of the computation, if it has one. -/
  name : Option String
  /-- Kind of the operation that the frame handles, if it handles one. -/
  kind : Option String
  /-- Position above the bottom of the stack. -/
  depth : Nat
  deriving DecidableEq, Inhabited

/-- An object that a program passes around without looking into it. -/
inductive HostObject where
  /-- An object of the embedding application, one per name. -/
  | named (name : String)
  /-- A frame description, with the identity it was created with. -/
  | frame (identity : Nat) (info : FrameInfo)
  deriving DecidableEq, Inhabited

/-- A dynamically typed value. -/
inductive Value where
  | null
  | bool (b : Bool)
  | int (n : Int64)
  | float (x : Binary64)
  | str (s : String)
  | list (items : List Value)
  /-- A table, with its keys in increasing order. -/
  | map (entries : List (String × Value))
  /-- A handle on a forked computation. -/
  | task (task : TaskId)
  /-- An error turned into a value. -/
  | error (error : Error)
  /-- The outcome of a settled task that succeeded. -/
  | fulfilled (value : Value)
  /-- The outcome of a settled task that failed. -/
  | rejected (error : Error)
  /-- An object of the host, compared by identity. -/
  | object (object : HostObject)
  deriving Inhabited

/-- What a computation ends with. -/
abbrev Outcome := Except Error Value

namespace Value

/-- A table with the given entries: keys in increasing order, a later entry replacing an earlier one. -/
def tableOf (entries : List (String × Value)) : Value :=
  .map (entries.foldl insert [])
where
  /-- Puts one entry into a sorted table. -/
  insert : List (String × Value) → String × Value → List (String × Value)
    | [], entry => [entry]
    | head :: rest, entry =>
      if entry.1 < head.1 then entry :: head :: rest
      else if entry.1 = head.1 then entry :: rest
      else head :: insert rest entry

/-- The keys of a table increase. -/
def Increasing (entries : List (String × Value)) : Prop :=
  entries.Pairwise fun a b => a.1 < b.1

/-- Every entry of a table after an insertion was there before or is the one put in. -/
theorem mem_insert {entries : List (String × Value)} {entry found : String × Value}
    (member : found ∈ tableOf.insert entries entry) : found = entry ∨ found ∈ entries := by
  induction entries with
  | nil => exact Or.inl (by simpa [tableOf.insert] using member)
  | cons head rest ih =>
    rw [tableOf.insert] at member
    split at member
    · simpa using member
    · split at member
      · rcases List.mem_cons.1 member with same | old
        · exact Or.inl same
        · exact Or.inr (List.mem_cons_of_mem _ old)
      · rcases List.mem_cons.1 member with same | old
        · exact Or.inr (same ▸ List.mem_cons_self)
        · exact (ih old).imp id (List.mem_cons_of_mem _)

/-- An insertion keeps the keys of a table increasing. -/
theorem increasing_insert {entries : List (String × Value)} (entry : String × Value)
    (sorted : Increasing entries) : Increasing (tableOf.insert entries entry) := by
  induction entries with
  | nil => simp [tableOf.insert, Increasing]
  | cons head rest ih =>
    obtain ⟨above, tail⟩ := List.pairwise_cons.1 sorted
    rw [tableOf.insert]
    split
    · rename_i below
      refine List.pairwise_cons.2 ⟨?_, sorted⟩
      intro found member
      rcases List.mem_cons.1 member with same | old
      · rw [same]
        exact below
      · exact String.lt_trans below (above found old)
    · rename_i notBelow
      split
      · rename_i same
        refine List.pairwise_cons.2 ⟨?_, tail⟩
        intro found member
        rw [same]
        exact above found member
      · rename_i different
        have after : head.1 < entry.1 := by
          rcases String.le_total head.1 entry.1 with le | le
          · refine String.not_le.1 ?_
            intro back
            exact different (String.le_antisymm back le)
          · exact absurd (String.not_le.1 fun back => different (String.le_antisymm le back)) notBelow
        refine List.pairwise_cons.2 ⟨?_, ih tail⟩
        intro found member
        rcases mem_insert member with same | old
        · rw [same]
          exact after
        · exact above found old

/-- Repeated insertions keep the keys of a table increasing. -/
theorem increasing_foldl_insert (entries : List (String × Value)) {table : List (String × Value)}
    (sorted : Increasing table) : Increasing (entries.foldl tableOf.insert table) := by
  induction entries generalizing table with
  | nil => exact sorted
  | cons entry rest ih => exact ih (increasing_insert entry sorted)

/-- A table made of entries in any order has increasing keys. -/
theorem exists_increasing_tableOf (entries : List (String × Value)) :
    ∃ table, tableOf entries = .map table ∧ Increasing table :=
  ⟨_, rfl, increasing_foldl_insert entries List.Pairwise.nil⟩

/-- The value that describes how a task settled. -/
def settled : Outcome → Value
  | .ok value => .fulfilled value
  | .error reason => .rejected reason

mutual

/-- Equality of values. -/
def equal : Value → Value → Bool
  | .null, .null => true
  | .bool a, .bool b => a = b
  | .int a, .int b => a = b
  | .float a, .float b => a.equal b
  | .str a, .str b => a = b
  | .list a, .list b => equalItems a b
  | .map a, .map b => equalEntries a b
  | .task a, .task b => a = b
  | .error a, .error b => a.same b
  | .fulfilled a, .fulfilled b => equal a b
  | .rejected a, .rejected b => a.same b
  | .object a, .object b => a = b
  | _, _ => false

/-- Equality of lists, item by item. -/
def equalItems : List Value → List Value → Bool
  | [], [] => true
  | a :: as, b :: bs => equal a b && equalItems as bs
  | _, _ => false

/-- Equality of tables, entry by entry. -/
def equalEntries : List (String × Value) → List (String × Value) → Bool
  | [], [] => true
  | (j, a) :: as, (k, b) :: bs => j = k && equal a b && equalEntries as bs
  | _, _ => false

end

/-- The short name of a value's kind. -/
def kindName : Value → String
  | .null => "null"
  | .bool _ => "bool"
  | .int _ => "int"
  | .float _ => "float"
  | .str _ => "string"
  | .list _ => "list"
  | .map _ => "map"
  | .task _ => "task"
  | .error _ => "error"
  | .fulfilled _ | .rejected _ => "settled"
  | .object _ => "opaque"

/-- Whether the value is the absent one. -/
def isNull : Value → Bool
  | .null => true
  | _ => false

/-- Whether a value counts as true: all do but the absent one, `false`, zero, a not-a-number and the empty
text. -/
def isTruthy : Value → Bool
  | .null => false
  | .bool b => b
  | .int n => n ≠ 0
  | .float x => !x.isZero && !x.isNaN
  | .str s => s ≠ ""
  | _ => true

/-- The truth value, of a truth value. -/
def bool? : Value → Option Bool
  | .bool b => some b
  | _ => none

/-- The integer, of an integer. -/
def int? : Value → Option Int64
  | .int n => some n
  | _ => none

/-- The number, of a floating-point number or an integer, which is rounded to the nearest one. -/
def float? : Value → Option Binary64
  | .float x => some x
  | .int n => some (.ofInt n.toInt)
  | _ => none

/-- The text, of a text. -/
def str? : Value → Option String
  | .str s => some s
  | _ => none

/-- The items, of a list. -/
def list? : Value → Option (List Value)
  | .list items => some items
  | _ => none

/-- The error, of an error value. -/
def error? : Value → Option Error
  | .error reason => some reason
  | _ => none

/-- Whether a settled outcome is a success; nothing for other values. -/
def fulfilled? : Value → Option Bool
  | .fulfilled _ => some true
  | .rejected _ => some false
  | _ => none

/-- The items of a list, or the error that names what was found instead. -/
def intoList : Value → Except Error (List Value)
  | .list items => .ok items
  | value => .error (.type ("expected a list, found " ++ value.kindName))

/-- The task of a handle, or the error that names what was found instead. -/
def intoTask : Value → Except Error TaskId
  | .task handle => .ok handle
  | value => .error (.type ("expected a task, found " ++ value.kindName))

/-- The sum of two integers modulo the word size; other values count as zero. -/
def add (a b : Value) : Value :=
  .int (a.int?.getD 0 + b.int?.getD 0)

/-- The value inside a number of one-item lists. -/
def nest : Nat → Value → Value
  | 0, value => value
  | n + 1, value => nest n (.list [value])

end Value
end EffectMachine
