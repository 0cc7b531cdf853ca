import Cascade.Literal.Number
import Cascade.Text.Classes

/-!
The tokens of literals. `scan` reads a text one character at a time; what it has read of an
unfinished token is its `Mode`. Blanks and comments separate tokens and leave nothing behind.
-/

namespace Cascade.Literal

/-- A token: a mark of punctuation, a quoted text, a number or a word. A word is plain when it was
written without escapes. -/
inductive Token
  | openBrace
  | closeBrace
  | openBracket
  | closeBracket
  | colon
  | comma
  | text (characters : String)
  | number (value : Value)
  | word (name : String) (plain : Bool)

namespace Token

def isBlank (character : Char) : Bool :=
  let code := character.toNat
  (9 ≤ code && code ≤ 13) || code == 32 || code == 0xa0 || code == 0xfeff || code == 0x1680 ||
    (0x2000 ≤ code && code ≤ 0x200a) || code == 0x2028 || code == 0x2029 || code == 0x202f ||
    code == 0x205f || code == 0x3000

def endsLine (character : Char) : Bool :=
  character == '\n' || character == '\r' || character == '\u2028' || character == '\u2029'

def startsWord (character : Char) : Bool :=
  character == '$' || character == '_' || Text.Classes.isLetter character

/-- A character that may follow in a word: also marks, digits and the two joiners of width zero. -/
def continuesWord (character : Char) : Bool :=
  startsWord character || Text.Classes.isDecimal character || Text.Classes.isMark character ||
    character == '\u200c' || character == '\u200d'

def startsNumber (character : Char) : Bool :=
  Number.isDigit character || character == '.' || character == '+' || character == '-'

/-- A character that follows in a number: a letter or digit of the basic alphabet, a point, or the
sign of an exponent. -/
def continuesNumber (previous : Option Char) (character : Char) : Bool :=
  character.isAlphanum || character == '.' ||
    ((character == '+' || character == '-') && (previous == some 'e' || previous == some 'E'))

/-- What stands between quotation marks so far: nothing special, an escape that has just begun, a
hexadecimal escape with digits to come, a zero that no digit may follow, or a broken line whose second
half may still come. -/
inductive Inner
  | ordinary
  | escape
  | hexadecimal (remaining value : Nat)
  | zero
  | brokenLine
  deriving DecidableEq

/-- What has been read of an unfinished token, in reverse order. -/
inductive Mode
  | between
  | slash
  | lineComment
  | blockComment (afterStar : Bool)
  | inText (mark : Char) (read : List Char) (inner : Inner)
  | inNumber (read : List Char)
  | inWord (read : List Char) (plain : Bool)
  | wordEscape (read : List Char)
  | wordDigits (read : List Char) (remaining value : Nat)
  deriving DecidableEq

/-- The mode after a character that stands between tokens, and the token that it is by itself. -/
def begin? (character : Char) : Option (Mode × List Token) :=
  if isBlank character then some (.between, [])
  else if character == '\x7b' then some (.between, [.openBrace])
  else if character == '\x7d' then some (.between, [.closeBrace])
  else if character == '[' then some (.between, [.openBracket])
  else if character == ']' then some (.between, [.closeBracket])
  else if character == ':' then some (.between, [.colon])
  else if character == ',' then some (.between, [.comma])
  else if character == '/' then some (.slash, [])
  else if character == '"' || character == '\'' then some (.inText character [] .ordinary, [])
  else if character == '\\' then some (.wordEscape [], [])
  else if startsNumber character then some (.inNumber [character], [])
  else if startsWord character then some (.inWord [character] true, [])
  else none

def finishNumber? (read : List Char) : Option Token :=
  (Number.read? read.reverse).map .number

def finishWord (read : List Char) (plain : Bool) : Token :=
  .word (String.ofList read.reverse) plain

/-- The character that a letter stands for after a backslash. -/
def escaped (letter : Char) : Char :=
  if letter == 'b' then '\x08'
  else if letter == 'f' then '\x0c'
  else if letter == 'n' then '\n'
  else if letter == 'r' then '\r'
  else if letter == 't' then '\t'
  else if letter == 'v' then '\x0b'
  else letter

/-- The mode after one more character between quotation marks. -/
def stepText? (mark : Char) (read : List Char) (inner : Inner) (character : Char) :
    Option (Mode × List Token) :=
  let ordinary (read : List Char) : Option (Mode × List Token) :=
    if character == mark then some (.between, [.text (String.ofList read.reverse)])
    else if character == '\\' then some (.inText mark read .escape, [])
    else if character == '\n' || character == '\r' then none
    else some (.inText mark (character :: read) .ordinary, [])
  match inner with
  | .ordinary => ordinary read
  | .escape =>
      if character == 'x' then some (.inText mark read (.hexadecimal 2 0), [])
      else if character == 'u' then some (.inText mark read (.hexadecimal 4 0), [])
      else if character == '0' then some (.inText mark ('\x00' :: read) .zero, [])
      else if Number.isDigit character then none
      else if character == '\r' then some (.inText mark read .brokenLine, [])
      else if endsLine character then some (.inText mark read .ordinary, [])
      else some (.inText mark (escaped character :: read) .ordinary, [])
  | .hexadecimal remaining value =>
      (Number.hexValue? character).map fun digit =>
        let value := 16 * value + digit
        if remaining ≤ 1 then (.inText mark (Char.ofNat value :: read) .ordinary, [])
        else (.inText mark read (.hexadecimal (remaining - 1) value), [])
  | .zero => if Number.isDigit character then none else ordinary read
  | .brokenLine =>
      if character == '\n' then some (.inText mark read .ordinary, []) else ordinary read

/-- The mode after one more character, and the tokens that it completes; nothing where no token can
go on that way. -/
def step? : Mode → Char → Option (Mode × List Token)
  | .between, character => begin? character
  | .slash, character =>
      if character == '/' then some (.lineComment, [])
      else if character == '*' then some (.blockComment false, [])
      else none
  | .lineComment, character => some (if endsLine character then .between else .lineComment, [])
  | .blockComment afterStar, character =>
      if afterStar && character == '/' then some (.between, [])
      else some (.blockComment (character == '*'), [])
  | .inText mark read inner, character => stepText? mark read inner character
  | .inNumber read, character =>
      if continuesNumber read.head? character then some (.inNumber (character :: read), [])
      else do
        let token ← finishNumber? read
        let (mode, tokens) ← begin? character
        return (mode, token :: tokens)
  | .inWord read plain, character =>
      if continuesWord character then some (.inWord (character :: read) plain, [])
      else if character == '\\' then some (.wordEscape read, [])
      else (begin? character).map fun (mode, tokens) => (mode, finishWord read plain :: tokens)
  | .wordEscape read, character =>
      if character == 'u' then some (.wordDigits read 4 0, []) else none
  | .wordDigits read remaining value, character =>
      (Number.hexValue? character).map fun digit =>
        let value := 16 * value + digit
        if remaining ≤ 1 then (.inWord (Char.ofNat value :: read) false, [])
        else (.wordDigits read (remaining - 1) value, [])

/-- The token that the end of the text completes; nothing inside a quoted text, an escape or a
comment that has to be closed. -/
def finish? : Mode → Option (List Token)
  | .between | .lineComment => some []
  | .inNumber read => (finishNumber? read).map fun token => [token]
  | .inWord read plain => some [finishWord read plain]
  | _ => none

/-- The tokens of a text whose beginning has led to a mode. -/
def scanFrom? (mode : Mode) : List Char → Option (List Token)
  | [] => finish? mode
  | character :: rest => do
      let (next, tokens) ← step? mode character
      let later ← scanFrom? next rest
      return tokens ++ later

def scan? (text : List Char) : Option (List Token) :=
  scanFrom? .between text

end Token

end Cascade.Literal
