import Cascade.Number.Binary64
import Cascade.Text.Blank
import Cascade.Text.Classes
import Cascade.Text.Quoted

/-!
Decimal texts of numbers: reading integers and floating-point numbers in digits of any script,
writing the fewest digits that read back, and writing three places after the point.
-/

namespace Cascade.Decimal

/-! ### Reading -/

/-- A character that may stand before and after a number: a blank other than the four information
separators. -/
def isMargin (character : Char) : Bool :=
  Text.Blank.isBlank character && !(28 ≤ character.toNat && character.toNat ≤ 31)

def withoutMargins (text : List Char) : List Char :=
  ((text.dropWhile isMargin).reverse.dropWhile isMargin).reverse

/-- A sign, if there is one, and what follows it. -/
def readSign : List Char → Bool × List Char
  | '-' :: rest => (true, rest)
  | '+' :: rest => (false, rest)
  | text => (false, text)

/-- The digits of a run that has single underscores between digits only, and what follows the run;
nothing when an underscore stands elsewhere. The flag tells whether a digit came just before. -/
def readDigits : Bool → List Char → Option (List Nat × List Char)
  | _, [] => some ([], [])
  | afterDigit, '_' :: rest =>
      match afterDigit, rest with
      | true, next :: _ =>
          if Text.Classes.isDecimal next then readDigits false rest else none
      | _, _ => none
  | _, character :: rest =>
      match Text.Classes.digitValue? character with
      | some digit => (readDigits true rest).map fun result => (digit :: result.1, result.2)
      | none => some ([], character :: rest)

/-- The number that a run of digits writes. -/
def ofDigits (digits : List Nat) : Nat :=
  digits.foldl (fun value digit => 10 * value + digit) 0

/-- Reads an integer: a sign, then digits with single underscores between them. -/
def readInt? (text : List Char) : Option Int :=
  let (negative, body) := readSign (withoutMargins text)
  match readDigits false body with
  | some (digits@(_ :: _), []) =>
      let magnitude : Int := ofDigits digits
      some (if negative then -magnitude else magnitude)
  | _ => none

/-- The floating-point number nearest to a decimal, written as digits and a power of ten. -/
def toBinary64 (negative : Bool) (digits : Nat) (exponent : Int) : Binary64 :=
  if digits = 0 then .signedZero negative
  else
    let size := ((Nat.toDigits 10 digits).length : Int) + exponent
    if 310 < size then .infinite negative
    else if size < -330 then .signedZero negative
    else if 0 ≤ exponent then
      Binary64.ofUnits negative (digits * Nat.pow 10 exponent.toNat * Binary64.one) 1
    else
      Binary64.ofUnits negative (digits * Binary64.one) (Nat.pow 10 (-exponent).toNat)

/-- A letter of the basic alphabet without its case. -/
def lowered (character : Char) : Char :=
  character.toLower

/-- An exponent: nothing at all, or a mark, a sign and at least one digit. -/
def readExponent? : List Char → Option Int
  | [] => some 0
  | mark :: rest =>
      if mark == 'e' || mark == 'E' then
        let (negative, body) := readSign rest
        match readDigits false body with
        | some (digits@(_ :: _), []) =>
            let magnitude : Int := ofDigits digits
            some (if negative then -magnitude else magnitude)
        | _ => none
      else none

/-- Reads digits, a point with more digits, and an exponent; a digit must stand on one side of the
point at least. -/
def readPoint? (negative : Bool) (text : List Char) : Option Binary64 := do
  let (whole, afterWhole) ← readDigits false text
  let (fraction, afterFraction) ←
    match afterWhole with
    | '.' :: rest => readDigits false rest
    | _ => some ([], afterWhole)
  if whole.isEmpty && fraction.isEmpty then none
  else
    let exponent ← readExponent? afterFraction
    return toBinary64 negative (ofDigits (whole ++ fraction)) (exponent - fraction.length)

/-- Reads a floating-point number: a decimal, an infinity or not-a-number in letters of any case. -/
def readBinary64? (text : List Char) : Option Binary64 :=
  let (negative, body) := readSign (withoutMargins text)
  let word := String.ofList (body.map lowered)
  if word = "inf" || word = "infinity" then some (.infinite negative)
  else if word = "nan" then some .nan
  else readPoint? negative body

/-! ### Writing -/

/-- The digits of a natural number, most significant first. -/
def digitsOf (value : Nat) : List Char :=
  Nat.toDigits 10 value

def integerText (value : Int) : String :=
  String.ofList (if value < 0 then '-' :: digitsOf value.natAbs else digitsOf value.natAbs)

theorem integerText_natCast (value : Nat) : integerText (value : Int) = toString value := by
  rw [integerText, if_neg (by omega), Int.natAbs_natCast]
  rfl

/-- Without the zeros at the end of a run of digits. -/
def withoutTrailingZeros (digits : List Char) : List Char :=
  (digits.reverse.dropWhile (· == '0')).reverse

/-- The least power of ten above a positive magnitude, given in units: its exponent. A magnitude of
the given number of binary digits is first estimated and then corrected. -/
def decimalSize (units : Nat) : Int :=
  let estimate : Int := ((units.log2 : Int) - 1074) * 30103 / 100000
  let isBelow (exponent : Int) : Bool :=
    if 0 ≤ exponent then units < Nat.pow 10 exponent.toNat * Binary64.one
    else units * Nat.pow 10 (-exponent).toNat < Binary64.one
  if isBelow (estimate - 1) then estimate - 1
  else if isBelow estimate then estimate
  else if isBelow (estimate + 1) then estimate + 1
  else estimate + 2

/-- The decimals with the given last power of ten next below and next above a magnitude, with the
doubled distance comparison: whether the lower one is nearer. -/
def neighbours (units : Nat) (exponent : Int) : Nat × Nat × Bool :=
  let (numerator, denominator) :=
    if 0 ≤ exponent then (units, Binary64.one * Nat.pow 10 exponent.toNat)
    else (units * Nat.pow 10 (-exponent).toNat, Binary64.one)
  let lower := numerator / denominator
  let rest := numerator % denominator
  (lower, if rest = 0 then lower else lower + 1,
    2 * rest < denominator || (2 * rest = denominator && lower % 2 = 0))

/-- Tries one digit after another until a decimal of that many digits reads back as the magnitude,
the nearer of two that do; the fuel is the greatest number of digits that can be needed. -/
def shortestFrom (place units : Nat) (size : Int) : Nat → Nat → Nat × Int
  | 0, count => ((neighbours units (size - count)).1, size - count)
  | fuel + 1, count =>
      let exponent := size - count
      let (lower, upper, lowerNearer) := neighbours units exponent
      let readsBack (digits : Nat) : Bool :=
        match toBinary64 false digits exponent with
        | .finite _ found => found.val = place
        | _ => false
      match readsBack lower, readsBack upper with
      | true, true => (if lowerNearer then lower else upper, exponent)
      | true, false => (lower, exponent)
      | false, true => (upper, exponent)
      | false, false => shortestFrom place units size fuel (count + 1)

/-- The fewest digits that read back as the positive magnitude at a place, without trailing zeros,
and the number of digits before the point. -/
def shortest (place : Nat) : List Char × Int :=
  let units := Binary64.units place
  let (digits, exponent) := shortestFrom place units (decimalSize units) 17 1
  let written := digitsOf digits
  (withoutTrailingZeros written, written.length + exponent)

/-- Digits with a point, or with an exponent when the first digit stands for a ten-thousandth or less,
or for ten to the sixteenth or more. -/
def placeText (digits : List Char) (point : Int) : List Char :=
  if -3 ≤ point && point ≤ 16 then
    if point ≤ 0 then
      '0' :: '.' :: List.replicate (-point).toNat '0' ++ digits
    else
      let whole := digits.take point.toNat ++ List.replicate (point.toNat - digits.length) '0'
      let fraction := digits.drop point.toNat
      whole ++ '.' :: (if fraction.isEmpty then ['0'] else fraction)
  else
    let exponent := point - 1
    let power := digitsOf exponent.natAbs
    let power := if power.length < 2 then '0' :: power else power
    digits.take 1 ++ (if digits.length ≤ 1 then [] else '.' :: digits.drop 1) ++
      'e' :: (if exponent < 0 then '-' else '+') :: power

/-- The text of a floating-point number: the fewest digits that read back. -/
def binary64Text : Binary64 → String
  | .nan => "nan"
  | .infinite negative => if negative then "-inf" else "inf"
  | .finite negative place =>
      let body :=
        if place.val = 0 then ['0', '.', '0']
        else
          let (digits, point) := shortest place
          placeText digits point
      String.ofList (if negative then '-' :: body else body)

/-- The text of a floating-point number with three places after the point, ties to even. -/
def threePlaces : Binary64 → String
  | .nan => "nan"
  | .infinite negative => if negative then "-inf" else "inf"
  | .finite negative place =>
      let thousandths := Binary64.roundQuotient (Binary64.units place * 1000) Binary64.one
      let fraction := digitsOf (thousandths % 1000)
      let body := digitsOf (thousandths / 1000) ++
        '.' :: List.replicate (3 - fraction.length) '0' ++ fraction
      String.ofList (if negative then '-' :: body else body)

end Cascade.Decimal
