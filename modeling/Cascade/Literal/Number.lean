import Cascade.Value

/-!
The numbers of literals: decimals with an optional point and exponent, hexadecimal integers, and the
names of infinity and not-a-number, each with at most one sign before it.
-/

namespace Cascade.Literal.Number

def hexValue? (character : Char) : Option Nat :=
  let code := character.toNat
  if 48 ≤ code && code ≤ 57 then some (code - 48)
  else if 97 ≤ code && code ≤ 102 then some (code - 87)
  else if 65 ≤ code && code ≤ 70 then some (code - 55)
  else none

/-- The number that hexadecimal digits write, if all characters are such digits. -/
def hexadecimal? (text : List Char) : Option Nat :=
  text.foldl (fun value character => do return 16 * (← value) + (← hexValue? character)) (some 0)

/-- A digit of the decimal system, in its basic form. -/
def isDigit (character : Char) : Bool :=
  48 ≤ character.toNat && character.toNat ≤ 57

/-- The digits at the front of a text and what follows them. -/
def digitsOf (text : List Char) : List Char × List Char :=
  (text.takeWhile isDigit, text.dropWhile isDigit)

/-- The number that decimal digits write. -/
def decimalValue (digits : List Char) : Nat :=
  digits.foldl (fun value digit => 10 * value + (digit.toNat - 48)) 0

def signed (negative : Bool) (magnitude : Nat) : Int :=
  if negative then -(magnitude : Int) else magnitude

/-- An exponent: its mark, at most one sign and at least one digit, up to the end of the text. -/
def exponent? : List Char → Option Int
  | mark :: rest =>
      if mark == 'e' || mark == 'E' then
        let (negative, body) :=
          match rest with
          | '-' :: body => (true, body)
          | '+' :: body => (false, body)
          | body => (false, body)
        match digitsOf body with
        | (digits@(_ :: _), []) => some (signed negative (decimalValue digits))
        | _ => none
      else none
  | [] => none

/-- A decimal without its sign. A leading zero stands alone before the point; a point or an exponent
makes a floating-point number. -/
def decimal? (negative : Bool) (text : List Char) : Option Value :=
  let (whole, afterWhole) := digitsOf text
  let leadingZero := whole.head? == some '0' && 1 < whole.length
  if leadingZero then none
  else
    match afterWhole with
    | [] =>
        if whole.isEmpty then none else some (.integer (signed negative (decimalValue whole)))
    | '.' :: rest =>
        let (fraction, afterFraction) := digitsOf rest
        if whole.isEmpty && fraction.isEmpty then none
        else
          let exponent := if afterFraction.isEmpty then some 0 else exponent? afterFraction
          exponent.map fun power =>
            .float (Decimal.toBinary64 negative (decimalValue (whole ++ fraction))
              (power - fraction.length))
    | rest =>
        if whole.isEmpty then none
        else (exponent? rest).map fun power =>
          .float (Decimal.toBinary64 negative (decimalValue whole) power)

def unsigned? (negative : Bool) : List Char → Option Value
  | '0' :: mark :: rest =>
      if mark == 'x' || mark == 'X' then
        if rest.isEmpty then none
        else (hexadecimal? rest).map fun magnitude => .integer (signed negative magnitude)
      else decimal? negative ('0' :: mark :: rest)
  | text =>
      if text = "Infinity".toList then some (.float (.infinite negative))
      else if text = "NaN".toList then some (.float .nan)
      else decimal? negative text

/-- The number that a whole text writes. -/
def read? : List Char → Option Value
  | '-' :: rest => unsigned? true rest
  | '+' :: rest => unsigned? false rest
  | text => unsigned? false text

end Cascade.Literal.Number
