import Cascade.Proofs.Convention.Pace

/-!
Chains whose commands take each other's place. But for the times at its beginning and at its end the
program of a chain is plain code, which does not depend on the conventions of the commands.
-/

namespace Cascade

variable {α β γ : Type}

theorem Routine.bind_assoc {δ : Type} (routine : Routine β) (next : β → Routine γ)
    (last : γ → Routine δ) :
    (routine.bind next).bind last = routine.bind fun value => (next value).bind last := by
  induction routine with
  | finish value => rfl
  | fail fault => rfl
  | ask query rest ih => exact congrArg (ask query) (funext ih)
  | sleep seconds notice rest ih => exact congrArg (sleep seconds notice) (funext ih)
  | await event notice rest ih => exact congrArg (await event notice) (funext ih)
  | invoke name given rest ih => exact congrArg (invoke name given) (funext ih)
  | prepare index rest ih => exact congrArg (prepare index) (funext ih)
  | execute index rest ih => exact congrArg (execute index) (funext ih)

namespace Chain

/-- How a chain ends, but for its time. -/
structure Verdict where
  outcome : Option Outcome
  failure : Option Fault
  hidden : Bool

/-- The end of a chain of which an initializer failed. -/
def rejected (hidden : Bool) (names : List String) (index : Nat) (cause : Fault) : Routine Verdict := do
  let name := names[index]?.getD ""
  let failure := Fault.initialization name cause
  emitLines [Line.of .error failure.message]
  Routine.ofAction (Action.query (.record name cause.message))
  return ⟨none, some failure, hidden⟩

/-- The end of a chain after its last step. -/
def concluded (hidden : Bool) (last : Option Outcome) : Routine Verdict := do
  match last.bind fun outcome => outcome.fault?.map fun fault => (outcome, fault) with
  | none => return ⟨last, none, hidden⟩
  | some (outcome, fault) =>
      Routine.ofAction (Action.query (.record outcome.command fault.message))
      return ⟨last, some (fault.ofCommand outcome.command), hidden⟩

/-- The initializers and the steps of commands of certain names. -/
def stepsOf (hidden : Bool) (names : List String) : Routine Verdict := do
  let indexes := List.range names.length
  match ← prepareSteps indexes with
  | some (index, cause) => rejected hidden names index cause
  | none => concluded hidden (← executeSteps none indexes)

/-- The program of a chain, but for its times. -/
def work (chain : Chain) : Routine Verdict := do
  emitLines (if chain.isBatch then [Report.batchTitle chain.label] else [])
  match chain.reading with
  | .error fault =>
      emitLines [Line.of .error fault.message]
      Routine.ofAction (Action.query (.record (recordName fault) fault.message))
      return ⟨none, some fault, false⟩
  | .ok invocations =>
      emitLines (chain.title invocations)
      stepsOf chain.isHidden (invocations.map Invocation.name)

/-- The end of the program of a chain: the banner, the time and the result. -/
def close (chain : Chain) (start : Binary64) (verdict : Verdict) : Routine ChainResult :=
  chain.finish start chain.invocations verdict.outcome verdict.failure verdict.hidden

theorem reject_eq (chain : Chain) (start : Binary64) (index : Nat) (cause : Fault) :
    chain.reject start chain.invocations index cause =
      (rejected chain.isHidden (chain.invocations.map Invocation.name) index cause).bind
        (chain.close start) := by
  rw [rejected, List.getElem?_map]
  simp only [reject, bind, pure, Routine.bind_assoc, Routine.bind]
  rfl

theorem conclude_eq (chain : Chain) (start : Binary64) (last : Option Outcome) :
    chain.conclude start chain.invocations last =
      (concluded chain.isHidden last).bind (chain.close start) := by
  rw [conclude, concluded]
  cases last.bind fun outcome => outcome.fault?.map fun fault => (outcome, fault) with
  | none => rfl
  | some failed =>
      simp only [bind, pure, Routine.bind_assoc, Routine.bind]
      rfl

theorem runSteps_eq (chain : Chain) (start : Binary64) :
    chain.runSteps start chain.invocations =
      (stepsOf chain.isHidden (chain.invocations.map Invocation.name)).bind (chain.close start) := by
  simp only [runSteps, stepsOf, bind, Routine.bind_assoc, List.length_map]
  refine congrArg (fun next => (prepareSteps _).bind next) (funext fun failed => ?_)
  cases failed with
  | some failure => exact chain.reject_eq start failure.1 failure.2
  | none =>
      simp only [Routine.bind_assoc]
      exact congrArg (fun next => (executeSteps none _).bind next)
        (funext fun last => chain.conclude_eq start last)

/-- A chain takes its time, does its work and comes to its end. -/
theorem routine_eq (chain : Chain) :
    chain.routine = .ask .now fun start => chain.work.bind (chain.close start) := by
  refine congrArg (Routine.ask .now) (funext fun start => ?_)
  simp only [work, bind, Routine.bind_assoc]
  refine congrArg (fun next => (emitLines _).bind next) (funext fun _ => ?_)
  cases hreading : chain.reading with
  | error fault =>
      have hnone : chain.invocations = [] := by
        rw [invocations, hreading]
        rfl
      simp only [Routine.bind_assoc, Routine.bind, pure, close, hnone]
  | ok invocations =>
      have hinvocations : chain.invocations = invocations := by
        rw [Chain.invocations, hreading]
        rfl
      subst hinvocations
      simp only [Routine.bind_assoc, runSteps_eq]

/-! ### Plain code -/

end Chain

/-! ### The chain of a token in two registries -/

section Reading

variable {first second : Registry}

end Reading

end Cascade
