import Cascade.Library.Greeting

/-!
Demo commands for sums and differences. A number that is whole is an integer, and an operation on two
integers is exact.
-/

namespace Cascade.Library.Arithmetic

/-- The number of a value: an integer when it is whole. -/
def number (value : Value) : Except Fault (Int ⊕ Binary64) := do
  let nearest ← binary64OfValue value
  match nearest.toInt? with
  | some whole => return .inl whole
  | none => return .inr nearest

/-- A number as a floating-point number. -/
def rounded : Int ⊕ Binary64 → Binary64
  | .inl whole => Binary64.ofUnits (whole < 0) (whole.natAbs * Binary64.one) 1
  | .inr nearest => nearest

def sum (left right : Int ⊕ Binary64) : Value :=
  match left, right with
  | .inl left, .inl right => .integer (left + right)
  | left, right => .float ((rounded left).add (rounded right))

def difference (left right : Int ⊕ Binary64) : Value :=
  match left, right with
  | .inl left, .inl right => .integer (left - right)
  | left, right => .float ((rounded left).sub (rounded right))

/-- Shows an operation with its result and gives the result. -/
def report (left right : Value) (operator : String) (result : Value) : Action Value := do
  System.say .message (left.toText ++ operator ++ right.toText ++ "=" ++ result.toText)
  return result

def addSignature : Signature := ⟨"setup.<locals>.add", ["a", "b"], 0⟩

/-- Adds two numbers given by position. -/
def add : Draft :=
  { Draft.ofCode "add" {
      waits := true
      run := fun arguments => do
        let parameters := arguments.parameters
        Action.ofExcept (addSignature.check parameters.length)
        let left := parameters.head?.getD .null
        let right := (parameters.drop 1).head?.getD .null
        return .awaitable false (Routine.ofAction do
          let first ← Action.ofExcept (number left)
          let second ← Action.ofExcept (number right)
          report left right "+" (sum first second)) } with
    help := "addition, ex: add(a, b) => a+b"
    group := some "math"
    accepts := some fun kind => kind = .positional }

def subSignature : Signature := ⟨"setup.<locals>.sub", ["args"], 0⟩

/-- Subtracts one named number from another. -/
def sub : Draft :=
  { Draft.ofCode "sub" {
      waits := true
      run := fun arguments => do
        let parameters := arguments.parameters
        Action.ofExcept (subSignature.check parameters.length)
        let given := parameters.head?.getD .null
        return .awaitable false (Routine.ofAction do
          let left ← Action.ofExcept (Greeting.element given "a")
          let first ← Action.ofExcept (number left)
          let right ← Action.ofExcept (Greeting.element given "b")
          let second ← Action.ofExcept (number right)
          report left right "-" (difference first second)) } with
    help := "subtraction, ex: sub(a: 2, b: 1) => a-b"
    group := some "math"
    accepts := some fun kind => kind = .named }

/-- The demo commands in the order of their registration. -/
def drafts : List Draft :=
  [add, sub]

end Cascade.Library.Arithmetic
