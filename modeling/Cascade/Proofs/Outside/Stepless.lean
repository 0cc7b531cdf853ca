import Cascade.Run.Job

/-!
Code that does not read the current step. It neither looks at the step nor sets anything in its state,
and the commands that it executes by name do not read it either, so it cannot tell a chain from a run
outside any chain.
-/

namespace Cascade

/-- Questions whose answer does not depend on the current step. -/
def Query.IsStepless : Query → Prop
  | .step | .setState _ _ => False
  | _ => True

/-- Code that runs at once, does not read the current step and ends with a proper value. -/
def Action.IsStepless {β : Type} (proper : β → Prop) : Action β → Prop
  | finish value => proper value
  | fail _ => True
  | ask query next => query.IsStepless ∧ ∀ answer, (next answer).IsStepless proper

/-- Code that may wait and does not read the current step. Only commands of a family are executed, and no
step of a chain is prepared or executed. -/
def Routine.IsStepless {β : Type} (family : String → Prop) : Routine β → Prop
  | finish _ | fail _ => True
  | ask query next => query.IsStepless ∧ ∀ answer, (next answer).IsStepless family
  | sleep _ _ next | await _ _ next => (next ()).IsStepless family
  | invoke name _ next => family name ∧ ∀ outcome, (next outcome).IsStepless family
  | prepare _ _ | execute _ _ => False

/-- An answer to a call after which the current step is not read. -/
def Reply.IsStepless (family : String → Prop) : Reply → Prop
  | .value _ => True
  | .awaitable _ body => body.IsStepless family

/-- A command that does not read the current step, apart from what commands of a family do. -/
def Command.IsStepless (family : String → Prop) (command : Command) : Prop :=
  ∀ arguments, (command.run arguments).IsStepless (Reply.IsStepless family)

/-- A family of names whose commands do not read the current step. -/
def Registry.Stepless (registry : Registry) (family : String → Prop) : Prop :=
  ∀ name command, family name → registry.get? name = some command → command.IsStepless family

/-- A name whose command does not read the current step, by itself or through other commands. -/
def Registry.IsStepless (registry : Registry) (name : String) : Prop :=
  ∃ family : String → Prop, family name ∧ registry.Stepless family

variable {β : Type} {family : String → Prop}

/-- A wait after which the current step is not read. -/
def Waiting.IsStepless (family : String → Prop) : Waiting β → Prop
  | .turn _ next | .timer _ next | .event _ _ next => (next ()).IsStepless family
  | .cell _ next => ∀ outcome, (next outcome).IsStepless family

/-- A state of a thread in which it does not read the current step any more. -/
def ThreadStatus.IsStepless (family : String → Prop) : ThreadStatus β → Prop
  | .waiting wait _ => wait.IsStepless family
  | _ => True

/-- A thread that does not read the current step. -/
def Thread.IsStepless (family : String → Prop) (thread : Thread β) : Prop :=
  thread.status.IsStepless family

namespace Thread

theorem IsStepless.mark {thread : Thread β} (h : thread.IsStepless family) (wake : Wake) :
    (thread.mark wake).IsStepless family := by
  rw [Thread.mark]
  split
  · rename_i waiting _ hstatus
    rw [IsStepless, hstatus] at h
    exact h
  · exact h

theorem IsStepless.of_due? {thread : Thread β} (h : thread.IsStepless family) {waiting : Waiting β}
    {isCancelled : Bool} (hdue : thread.due? = some (waiting, isCancelled)) :
    waiting.IsStepless family := by
  rw [IsStepless] at h
  rw [due?] at hdue
  split at hdue
  · rename_i hstatus
    rw [hstatus] at h
    cases hdue
    exact h
  · rename_i hstatus
    rw [hstatus] at h
    cases hdue
    exact h
  · cases hdue

end Thread

end Cascade
