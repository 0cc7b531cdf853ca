import Cascade.Fault

/-!
Numbers from values: texts are read, numbers are converted, and other values are refused.
-/

namespace Cascade

/-- The floating-point number that a text writes. -/
def binary64OfText (text : String) : Except Fault Binary64 :=
  match Decimal.readBinary64? text.toList with
  | some number => .ok number
  | none => .error (.because .value ("could not convert string to float: " ++ quoted text))

def integerOfText (text : String) : Except Fault Int :=
  match Decimal.readInt? text.toList with
  | some number => .ok number
  | none =>
      .error (.because .value ("invalid literal for int() with base 10: " ++ quoted text))

/-- The floating-point number nearest to an integer. -/
def binary64OfInteger (number : Int) : Except Fault Binary64 :=
  match Binary64.ofInt? number with
  | some nearest => .ok nearest
  | none => .error (.because .overflow "int too large to convert to float")

/-- The floating-point number of a value. -/
def binary64OfValue : Value → Except Fault Binary64
  | .text characters => binary64OfText characters
  | .integer number => binary64OfInteger number
  | .boolean flag => binary64OfInteger (if flag then 1 else 0)
  | .float number => .ok number
  | value =>
      .error (.because .type
        ("float() argument must be a string or a real number, not '" ++ value.kindName ++ "'"))

end Cascade
