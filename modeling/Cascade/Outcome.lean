import Cascade.Fault

/-!
The outcome of one execution of a command: a value or a failure.
-/

namespace Cascade

/-- What one execution of a command came to. -/
structure Outcome where
  command : String
  result : Except Fault Value

namespace Outcome

def success (command : String) (value : Value) : Outcome :=
  ⟨command, .ok value⟩

/-- A command that ended with a failure. -/
def failure (command : String) (fault : Fault) : Outcome :=
  ⟨command, .error fault⟩

def fault? (outcome : Outcome) : Option Fault :=
  match outcome.result with
  | .ok _ => none
  | .error fault => some fault

def value (outcome : Outcome) : Value :=
  match outcome.result with
  | .ok value => value
  | .error _ => .null

def isSuccess (outcome : Outcome) : Bool :=
  outcome.fault?.isNone

/-- The value, or the failure as the failure of the command. -/
def unwrap (outcome : Outcome) : Except Fault Value :=
  outcome.result.mapError (Fault.ofCommand outcome.command)

end Outcome

end Cascade
