import EffectMachine.Text.Invisible

/-!
# Quoted text

A text in double quotes, with the quote, the backslash and the invisible characters spelled out.
Main statement: `Text.quoted_empty`, the quoted form of the empty text is the two quotes.
-/

namespace EffectMachine
namespace Text

/-- Lower-case hexadecimal digits of a code point, without leading zeros. -/
def hexadecimal (codePoint : Nat) : List Char :=
  Nat.toDigits 16 codePoint

/-- The spelling of one character inside quotes. -/
def spell (character : Char) : List Char :=
  if character = '"' then ['\\', '"']
  else if character = '\\' then ['\\', '\\']
  else if character = '\n' then ['\\', 'n']
  else if character = '\r' then ['\\', 'r']
  else if character = '\t' then ['\\', 't']
  else if character.toNat = 0 then ['\\', '0']
  else if Invisible.contains character.toNat then
    ['\\', 'u', '\x7b'] ++ hexadecimal character.toNat ++ ['\x7d']
  else [character]

/-- The text in double quotes, character by character. -/
def quoted (text : String) : String :=
  String.ofList ('"' :: (text.toList.flatMap spell ++ ['"']))

theorem quoted_empty : quoted "" = "\"\"" := by
  simp [quoted]

end Text
end EffectMachine
