import Cascade.Arguments

/-!
Steps of a chain: what the code of a step can see of its chain, and the scratch state that each step
has for one run.
-/

namespace Cascade

/-- What a step's state holds under a name: a value, or a reference to another step. -/
inductive StateEntry
  | value (content : Value)
  | step (index : Nat)

/-- The scratch state of a step. -/
abbrev StepState := Entries StateEntry

/-- A step as code sees it. -/
structure StepView where
  index : Int
  total : Nat
  name : String
  arguments : Arguments
  previous : Option String
  previousStep : Option (Nat × StepState)
  state : StepState

/-- A step's place in its chain: its index, the names of the chain's commands, its own state and the
states of all steps, which may be fewer than there are commands. -/
structure StepContext where
  index : Int
  names : List String
  arguments : Arguments
  state : StepState
  steps : List StepState

namespace StepContext

/-- The position that an index means: a negative one counts from the end. -/
def position? (size : Nat) (index : Int) : Option Nat :=
  let place := if index < 0 then index + size else index
  if 0 ≤ place && place < size then some place.toNat else none

def element? {α : Type} (items : List α) (index : Int) : Option (Nat × α) := do
  let place ← position? items.length index
  let item ← items[place]?
  return (place, item)

/-- The step before, if its state is known: none for the first step. -/
def previousStep (context : StepContext) : Except Fault (Option (Nat × StepState)) :=
  if context.index = 0 ∨ (context.steps.length : Int) < context.index then .ok none
  else
    match element? context.steps (context.index - 1) with
    | some found => .ok (some found)
    | none => .error (.because .index "list index out of range")

/-- What the step sees; an index outside the chain is refused. -/
def view (context : StepContext) : Except Fault StepView := do
  match element? context.names context.index with
  | none => throw (.because .index "tuple index out of range")
  | some (_, name) =>
      let previousStep ← context.previousStep
      return {
        index := context.index
        total := context.names.length
        name := name
        arguments := context.arguments
        previous :=
          if 0 < context.index then (element? context.names (context.index - 1)).map Prod.snd
          else none
        previousStep := previousStep
        state := context.state }

end StepContext

end Cascade
