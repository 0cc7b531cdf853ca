import Cascade.Arguments
import Cascade.Literal.Reader
import Cascade.Text.Blank

/-!
Relaxed pairs: `key: value` where the key is an identifier or quoted, and the value is quoted or a run
of text without quotes, colons, slashes and brackets. A bare value that is a literal number, truth
value or null denotes that scalar, and any other denotes its own text.
-/

namespace Cascade.Arguments.Pair

/-- A character that starts an identifier. -/
def startsKey (character : Char) : Bool :=
  (97 ≤ character.toNat && character.toNat ≤ 122) ||
    (65 ≤ character.toNat && character.toNat ≤ 90) || character == '_' || character == '$'

/-- A character that follows in an identifier. -/
def continuesKey (character : Char) : Bool :=
  Text.Classes.isWord character || character == '$'

/-- A character that a bare value cannot hold. -/
def endsBare (character : Char) : Bool :=
  character == '\'' || character == '"' || character == ':' || character == '\x7b' ||
    character == '\x7d' || character == '[' || character == ']' || character == '/'

/-- A text between two equal quotation marks that it does not hold itself, and what follows it. -/
def readQuoted? : List Char → Option (List Char × List Char)
  | mark :: rest =>
      if mark == '\'' || mark == '"' then
        match rest.dropWhile (· != mark) with
        | _ :: after => some (rest.takeWhile (· != mark), after)
        | [] => none
      else none
  | [] => none

def readKey? : List Char → Option (List Char × List Char)
  | [] => none
  | first :: rest =>
      if startsKey first then
        some (first :: rest.takeWhile continuesKey, rest.dropWhile continuesKey)
      else readQuoted? (first :: rest)

/-- The value that a bare text denotes. -/
def bareValue (text : List Char) : Value :=
  match Literal.read? text with
  | some (.text _) | some (.list _) | some (.sequence _) | some (.map _) | none =>
      .text (String.ofList text)
  | some scalar => scalar

/-- The value after the colon: a quoted text, or a bare one with at least one character. -/
def readValue? (text : List Char) : Option Value :=
  let body := Text.Blank.trimLeft text
  match readQuoted? body with
  | some (quoted, after) =>
      if Text.Blank.isAllBlank after then some (.text (String.ofList quoted)) else none
  | none =>
      if text.isEmpty || text.any endsBare then none
      else some (bareValue (Text.Blank.trim text))

def read? (text : List Char) : Option (String × Value) := do
  let (key, afterKey) ← readKey? (Text.Blank.trimLeft text)
  match Text.Blank.trimLeft afterKey with
  | ':' :: rest => return (String.ofList key, ← readValue? rest)
  | _ => none

/-- Reads a text all of whose pieces between commas are pairs; the last value of a repeated key
counts. -/
def readAll? (text : List Char) : Option (Entries Value) :=
  ((Text.Pieces.split ',' text).mapM read?).map Entries.ofList

end Cascade.Arguments.Pair
