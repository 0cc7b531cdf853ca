import Cascade.Run.Job
import Cascade.Chain

/-!
Code that shares nothing with other chains. It uses no events, and although its calls may be counted it
does not look at the count.
-/

namespace Cascade

/-- Questions whose answer has nothing to do with other chains. -/
def Query.IsOwn : Query → Prop
  | .signal _ | .countCall _ | .callCount _ => False
  | _ => True

/-- A question that shares nothing, with the code that gets the answer. A call may be counted if the
count is not looked at. -/
def Query.IsIsolated {γ : Type} (query : Query) (next : query.Answer → γ) : Prop :=
  query.IsOwn ∨
    (∃ name, query = .countCall name) ∧ ∀ first second, next first = next second

/-- Code that runs at once, shares nothing and ends with a proper value. -/
def Action.IsIsolated {β : Type} (proper : β → Prop) : Action β → Prop
  | finish value => proper value
  | fail _ => True
  | ask query next => query.IsIsolated next ∧ ∀ answer, (next answer).IsIsolated proper

/-- Code that may wait, but for no event, and shares nothing. -/
def Routine.IsIsolated {β : Type} : Routine β → Prop
  | finish _ | fail _ => True
  | ask query next => query.IsIsolated next ∧ ∀ answer, (next answer).IsIsolated
  | sleep _ _ next => (next ()).IsIsolated
  | await _ _ _ => False
  | invoke _ _ next => ∀ outcome, (next outcome).IsIsolated
  | prepare _ next => ∀ failure, (next failure).IsIsolated
  | execute _ next => ∀ outcome, (next outcome).IsIsolated

/-- An answer to a call that waits for nothing shared. -/
def Reply.IsIsolated : Reply → Prop
  | .value _ => True
  | .awaitable _ body => body.IsIsolated

/-- A command none of whose code shares anything. -/
structure Command.IsIsolated (command : Command) : Prop where
  run : ∀ arguments, (command.run arguments).IsIsolated Reply.IsIsolated
  initializer : ∀ initializer, command.initializer = some initializer →
    initializer.IsIsolated fun _ => True

/-- A wait after which the code shares nothing. -/
def Waiting.IsIsolated {β : Type} : Waiting β → Prop
  | .turn _ next | .timer _ next => (next ()).IsIsolated
  | .event _ _ _ => False
  | .cell _ next => ∀ outcome, (next outcome).IsIsolated

def ThreadStatus.IsIsolated {β : Type} : ThreadStatus β → Prop
  | .waiting wait _ => wait.IsIsolated
  | _ => True

/-- A thread whose code shares nothing. -/
def Thread.IsIsolated {β : Type} (thread : Thread β) : Prop :=
  thread.status.IsIsolated

/-- A strand whose code shares nothing. -/
structure Strand.IsIsolated {α : Type} (strand : Strand α) : Prop where
  invocations : ∀ invocation ∈ strand.invocations, invocation.command.IsIsolated
  root : strand.root.IsIsolated
  children : ∀ child ∈ strand.children, child.IsIsolated

variable {β γ : Type}

namespace Thread

theorem IsIsolated.mark {thread : Thread β} (h : thread.IsIsolated) (wake : Wake) :
    (thread.mark wake).IsIsolated := by
  rw [Thread.mark]
  split
  · rename_i wait other hstatus
    rw [IsIsolated, hstatus] at h
    exact h
  · exact h

theorem IsIsolated.of_due? {thread : Thread β} (h : thread.IsIsolated) {waiting : Waiting β}
    {isCancelled : Bool} (hdue : thread.due? = some (waiting, isCancelled)) :
    waiting.IsIsolated := by
  rw [due?] at hdue
  split at hdue
  · rename_i wait hstatus
    rw [IsIsolated, hstatus] at h
    cases hdue
    exact h
  · rename_i wait hstatus
    rw [IsIsolated, hstatus] at h
    cases hdue
    exact h
  · cases hdue

end Thread

/-! ### The programs of chains -/

theorem Routine.IsIsolated.bind {next : β → Routine γ} {routine : Routine β}
    (h : routine.IsIsolated) (hnext : ∀ value, (next value).IsIsolated) :
    (routine.bind next).IsIsolated := by
  induction routine with
  | finish value => exact hnext value
  | fail fault => trivial
  | ask query rest ih =>
      obtain ⟨hquery, hrest⟩ := h
      refine ⟨?_, fun answer => ih answer (hrest answer)⟩
      rcases hquery with hown | ⟨hcount, hsame⟩
      · exact .inl hown
      · exact .inr ⟨hcount, fun first second => congrArg (Routine.bind next) (hsame first second)⟩
  | sleep seconds notice rest ih => exact ih () h
  | await event notice rest ih => exact h.elim
  | invoke name given rest ih => exact fun outcome => ih outcome (h outcome)
  | prepare index rest ih => exact fun failure => ih failure (h failure)
  | execute index rest ih => exact fun outcome => ih outcome (h outcome)

theorem Routine.isolated_query {query : Query} (h : query.IsOwn) :
    (ofAction (Action.query query)).IsIsolated :=
  ⟨.inl h, fun _ => trivial⟩

namespace Chain

theorem isolated_emitLines (lines : List Line) : (emitLines lines).IsIsolated := by
  have hall : ∀ items : List Item,
      (Routine.ofAction (Action.emitAll items)).IsIsolated := by
    intro items
    induction items with
    | nil => trivial
    | cons item rest ih => exact ⟨.inl trivial, fun _ => ih⟩
  exact hall _

theorem isolated_prepareSteps (indexes : List Nat) : (prepareSteps indexes).IsIsolated := by
  induction indexes with
  | nil => trivial
  | cons index rest ih =>
      intro failure
      cases failure with
      | none => exact ih
      | some fault => trivial

theorem isolated_executeSteps (indexes : List Nat) (last : Option Outcome) :
    (executeSteps last indexes).IsIsolated := by
  induction indexes generalizing last with
  | nil => trivial
  | cons index rest ih =>
      intro outcome
      dsimp only
      split
      · exact ih _
      · trivial

variable (chain : Chain) (start : Binary64)

theorem isolated_finish (invocations : List Invocation) (outcome : Option Outcome)
    (failure : Option Fault) (hidden : Bool) :
    (chain.finish start invocations outcome failure hidden).IsIsolated :=
  ⟨.inl trivial, fun _ => (isolated_emitLines _).bind fun _ => trivial⟩

theorem isolated_reject (invocations : List Invocation) (index : Nat) (cause : Fault) :
    (chain.reject start invocations index cause).IsIsolated := by
  refine (isolated_emitLines _).bind fun _ => ?_
  refine Routine.IsIsolated.bind (Routine.isolated_query trivial) fun _ => ?_
  exact isolated_finish _ _ _ _ _ _

theorem isolated_conclude (invocations : List Invocation) (last : Option Outcome) :
    (chain.conclude start invocations last).IsIsolated := by
  rw [conclude]
  split
  · exact isolated_finish _ _ _ _ _ _
  · refine Routine.IsIsolated.bind (Routine.isolated_query trivial) fun _ => ?_
    exact isolated_finish _ _ _ _ _ _

theorem isolated_runSteps (invocations : List Invocation) :
    (chain.runSteps start invocations).IsIsolated := by
  refine (isolated_prepareSteps _).bind fun failed => ?_
  cases failed with
  | some failure => exact isolated_reject _ _ _ _ _
  | none => exact (isolated_executeSteps _ none).bind fun _ => isolated_conclude _ _ _ _

/-- The program of a chain shares nothing, apart from what its commands share. -/
theorem isolated_routine : chain.routine.IsIsolated := by
  refine ⟨.inl trivial, fun start => (isolated_emitLines _).bind fun _ => ?_⟩
  cases chain.reading with
  | error fault =>
      refine (isolated_emitLines _).bind fun _ => ?_
      refine Routine.IsIsolated.bind (Routine.isolated_query trivial) fun _ => ?_
      exact isolated_finish _ _ _ _ _ _
  | ok invocations => exact (isolated_emitLines _).bind fun _ => isolated_runSteps _ _ _

end Chain

end Cascade
