import Cascade.Arguments.Pair

/-!
Reading the text between the marks of an argument list. A text with a colon is tried as the members
of an object literal, then as relaxed pairs; any other text, and one that is neither, is cut at its
commas.
-/

namespace Cascade.Arguments

def pieces (text : List Char) : List String :=
  (Text.Pieces.split ',' text).map fun piece => String.ofList (Text.Blank.trim piece)

/-- The named values that a text writes, if it writes any. -/
def readNamed? (text : List Char) : Option (Entries Value) :=
  (Literal.readMembers? text).or (Pair.readAll? text)

def read (text : List Char) : Arguments :=
  let body := Text.Blank.trim text
  if body.isEmpty then .absent
  else
    match if body.contains ':' then readNamed? body else none with
    | some entries => .named entries
    | none => .positional (pieces body)

end Cascade.Arguments
