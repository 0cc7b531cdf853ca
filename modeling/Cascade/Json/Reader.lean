import Cascade.Value

/-!
Reading strict JSON, with the position of the first error. The numbers of the mathematical constants
are read too. The last value of a repeated name counts.
-/

namespace Cascade.Json

/-- What is wrong with a text. -/
inductive Problem
  | value
  | name
  | colon
  | comma
  | extra
  | mark
  | unterminated
  | control
  | escape
  | unicodeEscape
  deriving DecidableEq

def Problem.message : Problem → String
  | value => "Expecting value"
  | name => "Expecting property name enclosed in double quotes"
  | colon => "Expecting ':' delimiter"
  | comma => "Expecting ',' delimiter"
  | extra => "Extra data"
  | mark => "Unexpected UTF-8 BOM (decode using utf-8-sig)"
  | unterminated => "Unterminated string starting at"
  | control => "Invalid control character at"
  | escape => "Invalid \\escape"
  | unicodeEscape => "Invalid \\uXXXX escape"

/-- A problem and the number of characters before it. -/
structure Refusal where
  problem : Problem
  position : Nat
  deriving DecidableEq

/-- The text of a refusal: the position is also given as a line and a column, both from one. -/
def Refusal.message (refusal : Refusal) (text : List Char) : String :=
  let before := text.take refusal.position
  let line := before.count '\n' + 1
  let column := (before.reverse.takeWhile (· != '\n')).length + 1
  refusal.problem.message ++ ": line " ++ Decimal.integerText line ++ " column " ++
    Decimal.integerText column ++ " (char " ++ Decimal.integerText refusal.position ++ ")"

/-- A place in a text: the number of characters before it, and the characters from it on. -/
structure Cursor where
  position : Nat
  rest : List Char

namespace Cursor

/-- The place after a number of characters. -/
def skip (count : Nat) (cursor : Cursor) : Cursor :=
  ⟨cursor.position + count, cursor.rest.drop count⟩

def isBlank (character : Char) : Bool :=
  character == ' ' || character == '\t' || character == '\n' || character == '\r'

def skipBlank (cursor : Cursor) : Cursor :=
  cursor.skip (cursor.rest.takeWhile isBlank).length

def refuse {α : Type} (cursor : Cursor) (problem : Problem) : Except Refusal α :=
  .error ⟨problem, cursor.position⟩

end Cursor

def hexValue? (character : Char) : Option Nat :=
  let code := character.toNat
  if 48 ≤ code && code ≤ 57 then some (code - 48)
  else if 97 ≤ code && code ≤ 102 then some (code - 87)
  else if 65 ≤ code && code ≤ 70 then some (code - 55)
  else none

/-- The number that four hexadecimal digits write at the front of a text with more to follow. -/
def unit? (text : List Char) : Option Nat :=
  match text with
  | a :: b :: c :: d :: _ :: _ =>
      match hexValue? a, hexValue? b, hexValue? c, hexValue? d with
      | some a, some b, some c, some d => some (((a * 16 + b) * 16 + c) * 16 + d)
      | _, _, _, _ => none
  | _ => none

/-- The character of one unit, or of the two units of a pair. -/
def ofPair (high low : Nat) : Char :=
  Char.ofNat (0x10000 + (high - 0xd800) * 0x400 + (low - 0xdc00))

/-- The character that a letter stands for after a backslash. -/
def escaped? (letter : Char) : Option Char :=
  if letter == '"' || letter == '\\' || letter == '/' then some letter
  else if letter == 'b' then some '\x08'
  else if letter == 'f' then some '\x0c'
  else if letter == 'n' then some '\n'
  else if letter == 'r' then some '\r'
  else if letter == 't' then some '\t'
  else none

/-- Reads the characters of a quoted text up to its closing mark. The fuel bounds their number. -/
def readText (opening : Nat) : Nat → Cursor → Except Refusal (List Char × Cursor)
  | 0, _ => .error ⟨.unterminated, opening⟩
  | fuel + 1, cursor =>
      match cursor.rest with
      | [] => .error ⟨.unterminated, opening⟩
      | '"' :: _ => .ok ([], cursor.skip 1)
      | '\\' :: 'u' :: digits =>
          match unit? digits with
          | none => (cursor.skip 1).refuse .unicodeEscape
          | some first =>
              let isHigh := 0xd800 ≤ first && first ≤ 0xdbff
              match isHigh, digits.drop 4 with
              | true, '\\' :: 'u' :: others =>
                  if others.length < 5 then
                    (readText opening fuel (cursor.skip 6)).map fun (read, cursor) =>
                      (Char.ofNat first :: read, cursor)
                  else
                    match unit? others with
                    | none => (cursor.skip 7).refuse .unicodeEscape
                    | some second =>
                        if 0xdc00 ≤ second && second ≤ 0xdfff then
                          (readText opening fuel (cursor.skip 12)).map fun (read, cursor) =>
                            (ofPair first second :: read, cursor)
                        else
                          (readText opening fuel (cursor.skip 6)).map fun (read, cursor) =>
                            (Char.ofNat first :: read, cursor)
              | _, _ =>
                  (readText opening fuel (cursor.skip 6)).map fun (read, cursor) =>
                    (Char.ofNat first :: read, cursor)
      | ['\\'] => .error ⟨.unterminated, opening⟩
      | '\\' :: letter :: _ =>
          match escaped? letter with
          | none => cursor.refuse .escape
          | some character =>
              (readText opening fuel (cursor.skip 2)).map fun (read, cursor) =>
                (character :: read, cursor)
      | character :: _ =>
          if character.toNat < 32 then cursor.refuse .control
          else
            (readText opening fuel (cursor.skip 1)).map fun (read, cursor) =>
              (character :: read, cursor)

/-- A digit of the decimal system, in its basic form. -/
def isDigit (character : Char) : Bool :=
  48 ≤ character.toNat && character.toNat ≤ 57

def decimalValue (digits : List Char) : Nat :=
  digits.foldl (fun value digit => 10 * value + (digit.toNat - 48)) 0

/-- The digits of a fraction, if a point and a digit are at the front. -/
def fractionDigits (text : List Char) : List Char :=
  match text with
  | '.' :: rest => rest.takeWhile isDigit
  | _ => []

/-- The exponent at the front of a text and its length, nothing of it when it has no digit. -/
def exponentPart (text : List Char) : Int × Nat :=
  match text with
  | mark :: rest =>
      if mark == 'e' || mark == 'E' then
        let (negative, signLength) :=
          match rest with
          | '-' :: _ => (true, 1)
          | '+' :: _ => (false, 1)
          | _ => (false, 0)
        let digits := (rest.drop signLength).takeWhile isDigit
        if digits.isEmpty then (0, 0)
        else
          let magnitude : Int := decimalValue digits
          (if negative then -magnitude else magnitude, 1 + signLength + digits.length)
      else (0, 0)
  | [] => (0, 0)

/-- Reads a number without its sign and tells its length. A leading zero stands alone. -/
def unsigned? (negative : Bool) (text : List Char) : Option (Value × Nat) :=
  let digits := text.takeWhile isDigit
  let whole := if digits.head? = some '0' then ['0'] else digits
  if whole.isEmpty then none
  else
    let afterWhole := text.drop whole.length
    let fraction := fractionDigits afterWhole
    let fractionLength := if fraction.isEmpty then 0 else fraction.length + 1
    let (exponent, exponentLength) := exponentPart (afterWhole.drop fractionLength)
    let length := whole.length + fractionLength + exponentLength
    if fractionLength = 0 && exponentLength = 0 then
      let magnitude : Int := decimalValue whole
      some (.integer (if negative then -magnitude else magnitude), length)
    else
      some (.float (Decimal.toBinary64 negative (decimalValue (whole ++ fraction))
        (exponent - fraction.length)), length)

/-- A word at the front of a text and the value it stands for. -/
def constant? (text : List Char) : Option (Value × Nat) :=
  let words : List (String × Value) :=
    [("null", .null), ("true", .boolean true), ("false", .boolean false),
      ("NaN", .float .nan), ("Infinity", .float (.infinite false)),
      ("-Infinity", .float (.infinite true))]
  (words.find? fun word => word.1.toList.isPrefixOf text).map fun word => (word.2, word.1.length)

/-- Reads a scalar that is not a text and tells its length. -/
def scalar? (text : List Char) : Option (Value × Nat) :=
  (constant? text).or
    (match text with
    | '-' :: rest => (unsigned? true rest).map fun (value, length) => (value, length + 1)
    | _ => unsigned? false text)

mutual

/-- Reads a value. The fuel bounds the number of values, members and items read one inside or after
the other; the number of characters is enough. -/
def readValue : Nat → Cursor → Except Refusal (Value × Cursor)
  | 0, cursor => cursor.refuse .value
  | fuel + 1, cursor =>
      match cursor.rest with
      | '"' :: _ =>
          (readText cursor.position cursor.rest.length (cursor.skip 1)).map fun (read, cursor) =>
            (.text (String.ofList read), cursor)
      | '\x7b' :: _ =>
          let inside := (cursor.skip 1).skipBlank
          match inside.rest with
          | '\x7d' :: _ => .ok (.map [], inside.skip 1)
          | _ => (readMembers fuel inside).map fun (pairs, cursor) =>
              (.map (Entries.ofList pairs), cursor)
      | '[' :: _ =>
          let inside := (cursor.skip 1).skipBlank
          match inside.rest with
          | ']' :: _ => .ok (.list [], inside.skip 1)
          | _ => (readItems fuel inside).map fun (items, cursor) => (.list items, cursor)
      | text =>
          match scalar? text with
          | some (value, length) => .ok (value, cursor.skip length)
          | none => cursor.refuse .value

/-- Reads at least one member of an object, up to its closing brace. -/
def readMembers : Nat → Cursor → Except Refusal (List (String × Value) × Cursor)
  | 0, cursor => cursor.refuse .name
  | fuel + 1, cursor =>
      match cursor.rest with
      | '"' :: _ => do
          let (name, afterName) ← readText cursor.position cursor.rest.length (cursor.skip 1)
          let atColon := afterName.skipBlank
          match atColon.rest with
          | ':' :: _ => do
              let (value, afterValue) ← readValue fuel (atColon.skip 1).skipBlank
              let pair := (String.ofList name, value)
              let next := afterValue.skipBlank
              match next.rest with
              | '\x7d' :: _ => return ([pair], next.skip 1)
              | ',' :: _ => do
                  let (pairs, cursor) ← readMembers fuel (next.skip 1).skipBlank
                  return (pair :: pairs, cursor)
              | _ => next.refuse .comma
          | _ => atColon.refuse .colon
      | _ => cursor.refuse .name

/-- Reads at least one item of a list, up to its closing bracket. -/
def readItems : Nat → Cursor → Except Refusal (List Value × Cursor)
  | 0, cursor => cursor.refuse .value
  | fuel + 1, cursor => do
      let (value, afterValue) ← readValue fuel cursor
      let next := afterValue.skipBlank
      match next.rest with
      | ']' :: _ => return ([value], next.skip 1)
      | ',' :: _ => do
          let (values, cursor) ← readItems fuel (next.skip 1).skipBlank
          return (value :: values, cursor)
      | _ => next.refuse .comma

end

/-- The value that a whole text writes. -/
def read (text : List Char) : Except Refusal Value := do
  let start : Cursor := ⟨0, text⟩
  if text.head? = some '\ufeff' then start.refuse .mark
  else
    let (value, after) ← readValue (2 * text.length + 1) start.skipBlank
    let last := after.skipBlank
    if last.rest.isEmpty then return value else last.refuse .extra

end Cascade.Json
