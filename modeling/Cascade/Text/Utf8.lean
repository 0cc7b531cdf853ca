/-!
Reading a text file: bytes in UTF-8 with an optional mark at the front, and line ends of every
convention.
-/

namespace Cascade.Text.Utf8

/-- Why bytes are not UTF-8. -/
inductive Reason
  | start
  | continuation
  | ending
  deriving DecidableEq

/-- Where bytes stop being UTF-8: the position and number of the bytes at fault, the first of them,
and why. -/
structure Refusal where
  position : Nat
  count : Nat
  byte : Nat
  reason : Reason
  deriving DecidableEq

def isTail (byte : Nat) : Bool :=
  0x80 ≤ byte && byte ≤ 0xbf

/-- Whether a second byte may follow the first byte of a character. -/
def isSecond (first second : Nat) : Bool :=
  isTail second &&
    !(first == 0xe0 && second < 0xa0) && !(first == 0xed && 0xa0 ≤ second) &&
    !(first == 0xf0 && second < 0x90) && !(first == 0xf4 && 0x90 ≤ second)

/-- The number of bytes after the first byte of a character. -/
def tailCount? (first : Nat) : Option Nat :=
  if first < 0x80 then some 0
  else if 0xc2 ≤ first && first ≤ 0xdf then some 1
  else if 0xe0 ≤ first && first ≤ 0xef then some 2
  else if 0xf0 ≤ first && first ≤ 0xf4 then some 3
  else none

/-- The bits that a first byte contributes. -/
def leading (first count : Nat) : Nat :=
  if count = 0 then first
  else if count = 1 then first % 0x20
  else if count = 2 then first % 0x10
  else first % 8

/-- A character whose first byte has been read: where it starts, the first byte, how many bytes have
been read, how many are to come, and the bits so far. -/
structure Open where
  position : Nat
  first : Nat
  seen : Nat
  remaining : Nat
  bits : Nat

/-- Decodes bytes from a position on, within a character or between characters. -/
def decodeFrom (position : Nat) : Option Open → List Nat → Except Refusal (List Char)
  | none, [] => .ok []
  | some state, [] => .error ⟨state.position, state.seen, state.first, .ending⟩
  | none, byte :: rest =>
      match tailCount? byte with
      | none => .error ⟨position, 1, byte, .start⟩
      | some 0 => (decodeFrom (position + 1) none rest).map (Char.ofNat byte :: ·)
      | some count =>
          decodeFrom (position + 1) (some ⟨position, byte, 1, count, leading byte count⟩) rest
  | some state, byte :: rest =>
      let fits := if state.seen = 1 then isSecond state.first byte else isTail byte
      if fits then
        let bits := state.bits * 64 + byte % 64
        if state.remaining ≤ 1 then
          (decodeFrom (position + 1) none rest).map (Char.ofNat bits :: ·)
        else
          decodeFrom (position + 1)
            (some { state with seen := state.seen + 1, remaining := state.remaining - 1, bits := bits })
            rest
      else .error ⟨state.position, state.seen, state.first, .continuation⟩

/-- The bytes after the mark at the front. A file that ends within the mark is empty. -/
def withoutMark : List Nat → List Nat
  | [] | [0xef] | [0xef, 0xbb] => []
  | 0xef :: 0xbb :: 0xbf :: rest => rest
  | bytes => bytes

/-- Line ends of every convention as line feeds. -/
def withLineFeeds : List Char → List Char
  | [] => []
  | '\r' :: '\n' :: rest => '\n' :: withLineFeeds rest
  | character :: rest => (if character = '\r' then '\n' else character) :: withLineFeeds rest

def read (bytes : List Nat) : Except Refusal (List Char) :=
  (decodeFrom 0 none (withoutMark bytes)).map withLineFeeds

end Cascade.Text.Utf8
