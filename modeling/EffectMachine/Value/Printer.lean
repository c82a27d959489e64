import EffectMachine.Binary64.Shortest
import EffectMachine.Error.Printer
import EffectMachine.Value.Basic

/-!
# The written form of values

Plain data is written as one would expect, handles by what they hold.  A task shows whether it has
settled, so the printer is given the answer for every task.
-/

namespace EffectMachine
namespace Value

mutual

/-- The written form of a value, given which tasks have settled. -/
def written (isSettled : TaskId → Bool) : Value → String
  | .null => "Null"
  | .bool b => if b then "true" else "false"
  | .int n => toString n.toInt
  | .float x => x.text
  | .str s => Text.quoted s
  | .list items => Text.listing (writtenItems isSettled items)
  | .map entries => Text.table (writtenEntries isSettled entries)
  | .task handle =>
    Text.record "Task" [("id", "<id>"), ("settled", if isSettled handle then "true" else "false")]
  | .error reason => Text.variant "Error" [reason.written]
  | .fulfilled value => Text.variant "Fulfilled" [written isSettled value]
  | .rejected reason => Text.variant "Rejected" [reason.written]
  | .object _ => "Opaque(..)"

/-- The written forms of the items of a list. -/
def writtenItems (isSettled : TaskId → Bool) : List Value → List String
  | [] => []
  | value :: rest => written isSettled value :: writtenItems isSettled rest

/-- The written forms of the entries of a table, keys quoted. -/
def writtenEntries (isSettled : TaskId → Bool) : List (String × Value) → List (String × String)
  | [] => []
  | (key, value) :: rest =>
    (Text.quoted key, written isSettled value) :: writtenEntries isSettled rest

end

/-- The display text of a value: a text stands for itself, other values are written out. -/
def display (isSettled : TaskId → Bool) : Value → String
  | .str s => s
  | value => value.written isSettled

end Value
end EffectMachine
