/-!
Binary floating-point numbers of 64 bits, with exact arithmetic behind every operation.

Every finite number is a whole multiple of the smallest positive one, its *unit*, 2 to the power of
-1074. A magnitude is kept as its place in the ascending list of all magnitudes, so comparing
places compares magnitudes; `units` gives the multiple at a place and `place` the place nearest to a
quotient of units, ties to the even place.
-/

namespace Cascade

/-- The number of finite magnitudes. -/
abbrev Binary64.limit : Nat := 0x7ff0000000000000

/-- A floating-point number: not a number, an infinity, or a sign and the place of a magnitude. -/
inductive Binary64
  | nan
  | infinite (negative : Bool)
  | finite (negative : Bool) (place : Fin Binary64.limit)
  deriving DecidableEq

namespace Binary64

/-- The quotient rounded to the nearest whole number, ties to even. -/
def roundQuotient (numerator denominator : Nat) : Nat :=
  let quotient := numerator / denominator
  let rest := numerator % denominator
  if 2 * rest < denominator then quotient
  else if denominator < 2 * rest then quotient + 1
  else quotient + quotient % 2

/-- The number of magnitudes in a binade, 2 to the power of 52. -/
abbrev binade : Nat := 0x10000000000000

/-- The magnitude at a place, in units. The places up to 2 to the power of 53 hold their own number;
from there each binade has as many places and twice the step of the one before. -/
def units (place : Nat) : Nat :=
  if place < binade then place
  else (binade + place % binade) * Nat.pow 2 (place / binade - 1)

/-- The place nearest to a quotient of units, ties to even. -/
def place (numerator denominator : Nat) : Nat :=
  let shift := (numerator / denominator).log2 - 52
  shift * binade + roundQuotient numerator (denominator * Nat.pow 2 shift)

/-- The number of the given sign nearest to a quotient of units, infinite beyond the last place. -/
def ofUnits (negative : Bool) (numerator denominator : Nat) : Binary64 :=
  let nearest := place numerator denominator
  if h : nearest < limit then finite negative ⟨nearest, h⟩ else infinite negative

def one : Nat := Nat.pow 2 1074

def signedZero (negative : Bool) : Binary64 := finite negative ⟨0, by decide⟩

def zero : Binary64 := signedZero false

/-- The number nearest to an integer, if its magnitude is not beyond the last place. -/
def ofInt? (value : Int) : Option Binary64 :=
  match ofUnits (value < 0) (value.natAbs * one) 1 with
  | finite negative place => some (finite negative place)
  | _ => none

/-- The number nearest to a natural number. -/
def ofNat (value : Nat) : Binary64 :=
  ofUnits false (value * one) 1

/-- The finite value as a signed number of units. -/
def signedUnits (negative : Bool) (place : Nat) : Int :=
  if negative then -(units place : Int) else units place

def negate : Binary64 → Binary64
  | nan => nan
  | infinite negative => infinite !negative
  | finite negative place => finite (!negative) place

/-- The rounded sum; a sum of zero is negative only if both terms are. -/
def add : Binary64 → Binary64 → Binary64
  | nan, _ | _, nan => nan
  | infinite left, infinite right => if left = right then infinite left else nan
  | infinite negative, _ | _, infinite negative => infinite negative
  | finite leftNegative left, finite rightNegative right =>
      let sum := signedUnits leftNegative left + signedUnits rightNegative right
      let negative := if sum = 0 then leftNegative && rightNegative else sum < 0
      ofUnits negative sum.natAbs 1

def sub (left right : Binary64) : Binary64 :=
  add left (negate right)

/-- The rounded product with a natural number. -/
def scale (factor : Nat) : Binary64 → Binary64
  | nan => nan
  | infinite negative => if factor = 0 then nan else infinite negative
  | finite negative place => ofUnits negative (units place * factor) 1

/-- A place on the line of all numbers in ascending order, the two zeros together. -/
def rank? : Binary64 → Option Int
  | nan => none
  | infinite negative => some (if negative then -(limit : Int) else limit)
  | finite negative place => some (if negative then -(place.val : Int) else place.val)

/-- Strictly less; false when either side is not a number. -/
def lt (left right : Binary64) : Bool :=
  match left.rank?, right.rank? with
  | some leftRank, some rightRank => leftRank < rightRank
  | _, _ => false

def isZero : Binary64 → Bool
  | finite _ place => place.val = 0
  | _ => false

def isPositive (value : Binary64) : Bool :=
  lt zero value

/-- Zero or less than zero; false for what is not a number. -/
def isAtMostZero (value : Binary64) : Bool :=
  value.isZero || lt value zero

/-- The integer a number is equal to, if it is one. -/
def toInt? : Binary64 → Option Int
  | finite negative place =>
      let magnitude := units place
      if magnitude % one = 0 then
        let whole : Int := (magnitude / one : Nat)
        some (if negative then -whole else whole)
      else none
  | _ => none

end Binary64

end Cascade
