import Cascade.Menu
import Cascade.Outcome

/-!
Programs of commands. An `Action` runs to its end at once: every question it asks is answered on the
spot. A `Routine` may also wait: for time, for an event, for another command or for a step of its
chain. Both end with a value or a failure, and both are data, so that whoever runs them decides what
the answers are.
-/

namespace Cascade

/-- A question that is answered at once. -/
inductive Query
  /-- Adds an item to the record. -/
  | emit (item : Item)
  /-- The time since the run started, in seconds. -/
  | now
  /-- Completes the execution that the code belongs to. -/
  | complete (result : Except Fault Value)
  /-- Completes that execution after a delay. -/
  | completeLater (delay : Binary64) (result : Except Fault Value)
  /-- Lets an event happen. -/
  | signal (event : String)
  /-- Counts one more call under a name and gives the new count. -/
  | countCall (name : String)
  /-- The number of calls counted under a name. -/
  | callCount (name : String)
  /-- The current step, if there is one. -/
  | step
  /-- Sets a name in the current step's state; false when there is no current step. -/
  | setState (name : String) (entry : StateEntry)
  /-- What menus are made from. -/
  | menu
  /-- Adds a message to the error log. -/
  | record (command message : String)

/-- The type of the answer to a question. -/
abbrev Query.Answer : Query → Type
  | .emit _ | .complete _ | .completeLater _ _ | .signal _ | .record _ _ => Unit
  | .now => Binary64
  | .countCall _ | .callCount _ => Nat
  | .step => Option StepView
  | .setState _ _ => Bool
  | .menu => MenuView

/-- A program that runs to its end at once. -/
inductive Action (α : Type) : Type
  | finish (value : α)
  | fail (fault : Fault)
  | ask (query : Query) (next : query.Answer → Action α)

namespace Action

variable {α β : Type}

/-- Goes on with the value of an action. -/
def bind (next : α → Action β) : Action α → Action β
  | finish value => next value
  | fail fault => fail fault
  | ask query rest => ask query fun answer => bind next (rest answer)

instance : Monad Action where
  pure := finish
  bind action next := action.bind next

def query (question : Query) : Action question.Answer :=
  ask question finish

def emit (item : Item) : Action Unit :=
  query (.emit item)

/-- Adds items to the record, one after the other. -/
def emitAll : List Item → Action Unit
  | [] => finish ()
  | item :: rest => ask (.emit item) fun _ => emitAll rest

/-- Goes on with a result, or fails with it. -/
def ofExcept : Except Fault α → Action α
  | .ok value => finish value
  | .error fault => fail fault

end Action

/-- A program that may wait. -/
inductive Routine (α : Type) : Type
  | finish (value : α)
  | fail (fault : Fault)
  | ask (query : Query) (next : query.Answer → Routine α)
  /-- Waits for a time; a wait that is cancelled leaves a notice. -/
  | sleep (seconds : Binary64) (notice : Option Item) (next : Unit → Routine α)
  /-- Waits for an event; a wait that is cancelled leaves a notice. -/
  | await (event : String) (notice : Option Item) (next : Unit → Routine α)
  /-- Executes a command by name in the current step. -/
  | invoke (name : String) (given : GivenArguments) (next : Outcome → Routine α)
  /-- Runs the initializer of a step of the chain and tells how it failed, if it did. -/
  | prepare (index : Nat) (next : Option Fault → Routine α)
  /-- Executes a step of the chain in the context of that step. -/
  | execute (index : Nat) (next : Outcome → Routine α)

namespace Routine

variable {α β : Type}

/-- Goes on with the value of a routine. -/
def bind (next : α → Routine β) : Routine α → Routine β
  | finish value => next value
  | fail fault => fail fault
  | ask query rest => ask query fun answer => bind next (rest answer)
  | sleep seconds notice rest => sleep seconds notice fun moment => bind next (rest moment)
  | await event notice rest => await event notice fun moment => bind next (rest moment)
  | invoke name given rest => invoke name given fun outcome => bind next (rest outcome)
  | prepare index rest => prepare index fun fault => bind next (rest fault)
  | execute index rest => execute index fun outcome => bind next (rest outcome)

instance : Monad Routine where
  pure := finish
  bind routine next := routine.bind next

/-- An action as a routine that never waits. -/
def ofAction : Action α → Routine α
  | .finish value => finish value
  | .fail fault => fail fault
  | .ask query next => ask query fun answer => ofAction (next answer)

instance : MonadLift Action Routine where
  monadLift := ofAction

/-- Goes on with a result, or fails with it. -/
def ofExcept : Except Fault α → Routine α
  | .ok value => finish value
  | .error fault => fail fault

end Routine

/-- What a call of a command gives: a value, or something to wait for, which may have been started. -/
inductive Reply
  | value (result : Value)
  | awaitable (started : Bool) (body : Routine Value)

end Cascade
