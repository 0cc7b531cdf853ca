import Cascade.Text.Classes

/-!
The quoted form of a text, as messages show it: single quotes unless the text holds a single quote
and no double one, backslash escapes for the quote, the backslash and line controls, and hexadecimal
escapes for characters with no printed form.
-/

namespace Cascade.Text.Quoted

def hexDigit (value : Nat) : Char :=
  if value < 10 then Char.ofNat (48 + value) else Char.ofNat (87 + value)

/-- The given number of hexadecimal digits, most significant first. -/
def hexDigits : Nat → Nat → List Char
  | 0, _ => []
  | count + 1, value => hexDigits count (value / 16) ++ [hexDigit (value % 16)]

/-- The quotation mark of a text: double when the text has single ones only. -/
def markOf (text : List Char) : Char :=
  if text.contains '\'' && !text.contains '"' then '"' else '\''

/-- One character between the given quotation marks. -/
def escape (mark character : Char) : List Char :=
  if character == mark || character == '\\' then ['\\', character]
  else if character == '\n' then ['\\', 'n']
  else if character == '\r' then ['\\', 'r']
  else if character == '\t' then ['\\', 't']
  else if Classes.isPrintable character then [character]
  else if character.toNat < 0x100 then '\\' :: 'x' :: hexDigits 2 character.toNat
  else if character.toNat < 0x10000 then '\\' :: 'u' :: hexDigits 4 character.toNat
  else '\\' :: 'U' :: hexDigits 8 character.toNat

def quote (text : List Char) : List Char :=
  let mark := markOf text
  mark :: text.flatMap (escape mark) ++ [mark]

end Cascade.Text.Quoted

namespace Cascade

/-- The text between quotation marks, with escapes for what has no printed form. -/
def quoted (text : String) : String :=
  String.ofList (Text.Quoted.quote text.toList)

end Cascade
