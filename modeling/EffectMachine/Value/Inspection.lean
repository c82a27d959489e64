import EffectMachine.Batch.Key
import EffectMachine.Value.Printer

/-!
# Inspections

Everything that can be asked of a value, answered at one moment.
-/

namespace EffectMachine

/-- The answers to every question about one value. -/
structure Inspection where
  kindName : String
  isNull : Bool
  isTruthy : Bool
  bool : Option Bool
  int : Option Int64
  float : Option Binary64
  str : Option String
  listLength : Option Nat
  error : Option Error
  fulfilled : Option Bool
  /-- The length of the list that the value is turned into, or the refusal. -/
  intoList : Except Error Nat
  /-- Whether the value can be turned into a task, or the refusal. -/
  intoTask : Except Error Unit
  /-- Whether the value equals itself. -/
  selfEqual : Bool
  key : Option BatchKey
  written : String

/-- The inspection of a value, given which tasks have settled. -/
def Value.inspect (isSettled : TaskId → Bool) (value : Value) : Inspection where
  kindName := value.kindName
  isNull := value.isNull
  isTruthy := value.isTruthy
  bool := value.bool?
  int := value.int?
  float := value.float?
  str := value.str?
  listLength := value.list?.map List.length
  error := value.error?
  fulfilled := value.fulfilled?
  intoList := value.intoList.map List.length
  intoTask := value.intoTask.map fun _ => ()
  selfEqual := value.equal value
  key := BatchKey.ofValue? value
  written := value.written isSettled

end EffectMachine
