import EffectMachine.Text.Quoted

/-!
# Written forms of compound data

How lists, tables, records and variants are written out on one line.  Every form joins the written
forms of its parts, so a printer of a data type only says which form each of its cases takes.
-/

namespace EffectMachine
namespace Text

/-- Parts separated by a comma and a space. -/
def separated (parts : List String) : String :=
  String.intercalate ", " parts

/-- A list: its items in square brackets. -/
def listing (items : List String) : String :=
  "[" ++ separated items ++ "]"

/-- A table: keys and values joined by a colon, in braces. -/
def table (rows : List (String × String)) : String :=
  "\x7b" ++ separated (rows.map fun row => row.1 ++ ": " ++ row.2) ++ "\x7d"

/-- A record: its name, then its named fields in braces. -/
def record (name : String) (fields : List (String × String)) : String :=
  name ++ " \x7b " ++ separated (fields.map fun field => field.1 ++ ": " ++ field.2) ++ " \x7d"

/-- A record with fields that are not shown: the shown ones are followed by two dots. -/
def openRecord (name : String) (fields : List (String × String)) : String :=
  name ++ " \x7b " ++ separated (fields.map (fun field => field.1 ++ ": " ++ field.2) ++ [".."])
    ++ " \x7d"

/-- A variant: its name, then its parts in round brackets. -/
def variant (name : String) (parts : List String) : String :=
  name ++ "(" ++ separated parts ++ ")"

/-- A part that may be absent. -/
def optional : Option String → String
  | none => "None"
  | some part => variant "Some" [part]

end Text
end EffectMachine
