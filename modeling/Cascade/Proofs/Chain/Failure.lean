import Cascade.Proofs.Chain.Discipline
import Cascade.Proofs.Execution.Failure

/-!
What a failure comes to in a chain. A chain that learns that an initializer or a step of its own has
failed ends in the same turn, and its result tells of that failure.
-/

namespace Cascade

/-- Whether a chain learns of a failure by a deed. -/
def Deed.isFailure : Deed → Bool
  | prepared _ failure => failure.isSome
  | started _ _ _ => false
  | finished _ outcome => !outcome.isSuccess

theorem isFailure_of_mem_prepared {indexes : List Nat} {deed : Deed}
    (h : deed ∈ indexes.map (Deed.prepared · none)) : deed.isFailure = false := by
  obtain ⟨index, -, rfl⟩ := List.mem_map.mp h
  rfl

namespace Chain

variable {chain : Chain} {place : Nat} {result : ChainResult} {world : World ChainResult}
  {invocations : List Invocation} {outcomes : List Outcome} {deed : Deed}

theorem isFailure_of_mem_blocks (h : deed ∈ blocks invocations outcomes)
    (hsucceeded : ∀ outcome ∈ outcomes, outcome.isSuccess = true) : deed.isFailure = false := by
  obtain ⟨index, invocation, outcome, -, houtcome, rfl | rfl⟩ := exists_of_mem_blocks h
  · rfl
  · simp [Deed.isFailure, hsucceeded outcome (List.mem_of_getElem? houtcome)]

theorem Ran.getLast?_of_failed (h : Ran invocations outcomes) {outcome : Outcome}
    (hmem : outcome ∈ outcomes) (hfailed : outcome.isSuccess = false) :
    outcomes.getLast? = some outcome := by
  rcases List.eq_nil_or_concat' outcomes with rfl | ⟨front, last, rfl⟩
  · cases hmem
  · have hfront := h.succeeded
    rw [List.dropLast_concat] at hfront
    rcases List.mem_append.mp hmem with hbefore | hlast
    · cases hfailed.symm.trans (hfront outcome hbefore)
    · rw [List.mem_singleton.mp hlast, List.getLast?_concat]

/-- How the result of a chain answers for a deed of the chain. -/
inductive Answers (chain : Chain) (result : ChainResult) : Deed → Prop
  | prepared (index : Nat) : Answers chain result (.prepared index none)
  | unprepared (index : Nat) (cause : Fault) (invocation : Invocation)
      (placed : result.invocations[index]? = some invocation) (outcome : result.outcome = none)
      (failure : result.failure = some (.initialization invocation.name cause)) :
      Answers chain result (.prepared index (some cause))
  | started (step : Option Nat) (command : Command) (arguments : Arguments)
      (placed : ∃ invocation ∈ chain.invocations, invocation.command = command) :
      Answers chain result (.started step command arguments)
  | finished (step : Option Nat) (outcome : Outcome)
      (failure : ∀ fault, outcome.result = .error fault → result.outcome = some outcome ∧
        result.failure = some (fault.ofCommand outcome.command)) :
      Answers chain result (.finished step outcome)

theorem Answers.of_mem_prepared {indexes : List Nat} (h : deed ∈ indexes.map (Deed.prepared · none)) :
    Answers chain result deed := by
  obtain ⟨index, -, rfl⟩ := List.mem_map.mp h
  exact .prepared index

theorem Answers.of_mem_blocks (h : deed ∈ blocks result.invocations outcomes)
    (hreading : chain.reading = .ok result.invocations) (hran : Ran result.invocations outcomes)
    (houtcome : result.outcome = outcomes.getLast?)
    (hfailure : result.failure = result.outcome.bind fun outcome =>
      outcome.fault?.map (Fault.ofCommand outcome.command)) : Answers chain result deed := by
  obtain ⟨index, invocation, outcome, hinvocation, hplaced, rfl | rfl⟩ := exists_of_mem_blocks h
  · refine .started _ _ _ ⟨invocation, ?_, rfl⟩
    rw [Chain.invocations, hreading]
    exact List.mem_of_getElem? hinvocation
  · refine .finished _ outcome fun fault hfault => ?_
    have hfailed : outcome.fault? = some fault := by rw [Outcome.fault?, hfault]
    have hlast : outcomes.getLast? = some outcome :=
      hran.getLast?_of_failed (List.mem_of_getElem? hplaced) (by
        rw [Outcome.isSuccess, hfailed]
        rfl)
    rw [hlast] at houtcome
    refine ⟨houtcome, ?_⟩
    rw [hfailure, houtcome, Option.bind_some, hfailed]
    rfl

/-- Whatever a chain did, its result answers for it. -/
theorem Phases.answers (h : Phases chain place result world) (hdeed : deed ∈ world.deeds place) :
    Answers chain result deed := by
  cases h with
  | unread _ _ _ _ _ deeds => exact absurd (deeds ▸ hdeed) List.not_mem_nil
  | unprepared before after index cause _ initializers failure outcome deeds =>
      rw [deeds] at hdeed
      rcases List.mem_append.mp hdeed with hbefore | hlast
      · exact .of_mem_prepared hbefore
      · rw [List.mem_singleton.mp hlast]
        have hlt : index < result.invocations.length :=
          preparing_lt (by rw [initializers]; exact List.mem_append_right _ List.mem_cons_self)
        have hplaced := List.getElem?_eq_getElem hlt
        rw [hplaced] at failure
        exact .unprepared index cause _ hplaced outcome failure
  | executed outcomes reading ran outcome failure deeds =>
      rw [deeds] at hdeed
      rcases List.mem_append.mp hdeed with hbefore | hblock
      · exact .of_mem_prepared hbefore
      · exact .of_mem_blocks hblock reading ran outcome failure

theorem Midway.isFailure_eq_false {waiting : Waiting ChainResult} (h : Midway chain place waiting world)
    (hdeed : deed ∈ world.deeds place) : deed.isFailure = false := by
  obtain ⟨invocations, start, step, -, -, outcomes, rest, number, cell, invocation, hsucceeded, -, -,
    -, -, -, hhere⟩ := h
  rw [hhere.deeds] at hdeed
  rcases List.mem_append.mp hdeed with hbefore | hsteps
  · exact isFailure_of_mem_prepared hbefore
  · rcases List.mem_append.mp hsteps with hblock | hlast
    · exact isFailure_of_mem_blocks hblock hsucceeded
    · rw [List.mem_singleton.mp hlast]
      rfl

/-- A chain that has learnt of a failure has ended. -/
theorem InPhase.exists_result (h : InPhase chain place world) (hdeed : deed ∈ world.deeds place)
    (hfailure : deed.isFailure = true) : ∃ ended, Batch.result? world place = some ended := by
  obtain ⟨thread, hthread, hstage⟩ := h
  rw [Batch.result?_eq_outline, hthread, Option.bind_some]
  rcases thread with ⟨step, cell, delivers, _ | ⟨waiting, wake⟩ | ended⟩
  · exact hstage.elim
  · rcases hstage with ⟨-, hnone, -⟩ | hmidway
    · exact absurd (hnone ▸ hdeed) List.not_mem_nil
    · cases (hmidway.isFailure_eq_false hdeed).symm.trans hfailure
  · exact ⟨ended, rfl⟩

end Chain

end Cascade
