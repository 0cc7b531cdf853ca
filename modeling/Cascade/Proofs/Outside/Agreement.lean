import Cascade.Proofs.Outside.Runs
import Cascade.Proofs.Outside.Written

/-!
A program and a text execute a command alike. A command that has no initializer, does not read the current
step and fails in the ordinary way comes to the same whether it is run by name with a list of texts or as
a chain of one written call, the only chain of its run.
-/

namespace Cascade

/-! ### The ends of the two runs -/

namespace Batch

variable {batch : Batch}

theorem exists_returned_of_end (hcontained : ∀ steps, Contained 1 (batch.settle steps))
    (hexit : batch.exitOnError = false) {steps : Nat} {result : ChainResult}
    (hend : (batch.settle steps).world.end? = some (.ok result))
    (halive : (batch.settle steps).supervision ≠ .stalled) :
    ∃ last, (batch.settle last).supervision = .ended (.ok [result]) := by
  have hexits : ∀ steps, (batch.settle steps).exitOnError = false :=
    fun steps => (exitOnError_settle steps batch).trans hexit
  have honly : ∀ {results : List ChainResult} {world : World ChainResult}, results.length = 1 →
      (∀ place given, results[place]? = some given → result? world place = some (.ok given)) →
      result? world 0 = some (.ok result) → results = [result] := by
    intro results world hlength heach hresult
    obtain ⟨given, rfl⟩ := List.length_eq_one_iff.mp hlength
    have hsame := (heach 0 given rfl).symm.trans hresult
    rw [Except.ok.inj (Option.some.inj hsame)]
  cases hcontained steps with
  | watched pending notified h =>
      obtain ⟨last, ⟨pending, notified, hlast⟩, hstays, hends⟩ := exists_stops .of_single h hend
      cases hlast.goes with
      | on others told watched => exact absurd ⟨others, told, watched.supervision⟩ hends
      | waits others told watched => exact absurd ⟨others, told, watched.supervision⟩ hends
      | returns results ended length each spent same =>
          have hresult := honly length (fun place given hget => (each place given hget).1)
            ((same 0).trans hstays)
          exact ⟨last + 1, hresult ▸ ended⟩
      | aborts place failed failure exits => cases exits.symm.trans (hexits last)
      | stalls ended queue => exact absurd queue (hlast.queue_ne_nil hlast.mem_of_single hstays)
  | returned results ended length each => exact ⟨steps, honly length each hend ▸ ended⟩
  | aborted failure exits => cases exits.symm.trans (hexits steps)
  | stalled ended => exact absurd ended halive

theorem Contained.exists_result (h : Contained 1 batch) (hexit : batch.exitOnError = false)
    (halive : batch.supervision ≠ .stalled) {ended : Except Fault ChainResult}
    (hend : batch.world.end? = some ended) : ∃ result, ended = .ok result := by
  cases h with
  | watched pending notified h =>
      rcases (h.orderly.dependable 0 Nat.one_pos).cases with ⟨⟨result, hresult⟩, -⟩ | ⟨hopen, -⟩
      · exact ⟨result, Option.some.inj (hend.symm.trans hresult)⟩
      · cases hopen.symm.trans hend
  | returned results ended length each =>
      obtain ⟨result, rfl⟩ := List.length_eq_one_iff.mp length
      exact ⟨result, Option.some.inj (hend.symm.trans (each 0 result rfl))⟩
  | aborted failure exits => cases exits.symm.trans hexit
  | stalled ended => exact absurd ended halive

end Batch

/-! ### Side by side to the end -/

variable {family : String → Prop} {batch : Batch} {run : SingleRun}

/-- The chain of a token and a run of one command that go on side by side after the first step. -/
structure SideBySide (family : String → Prop) (batch : Batch) (run : SingleRun) : Prop where
  goesOn : batch.exitOnError = false
  contained : ∀ steps, Batch.Contained 1 (batch.settle steps)
  first : Paces family (batch.settle 1) (run.settle 1)
  watching : ∃ pending notified, batch.supervision = .watching pending notified
  running : run.result? = none

theorem SideBySide.exists_chain (h : SideBySide family batch run) {steps : Nat}
    {second : Except Fault Value} (hgoing : (run.settle steps).stalled = false)
    (hended : (run.settle steps).result? = some second) :
    ∃ last result, (batch.settle last).supervision = .ended (.ok [result]) ∧
      SameEnd (.ok result) second := by
  cases steps with
  | zero => cases h.running.symm.trans hended
  | succ steps =>
      have hpaces := h.first.settle h.contained steps
      rw [Nat.add_comm 1 steps] at hpaces
      cases hpaces with
      | level watching going level =>
          obtain ⟨number, next, -, -, hcommand⟩ := level.waits
          cases hcommand.end?_eq_none.symm.trans hended
      | ended same chain alive going command =>
          obtain rfl := Option.some.inj (command.symm.trans hended)
          obtain ⟨result, rfl⟩ := (h.contained (steps + 1)).exists_result
            ((Batch.exitOnError_settle _ batch).trans h.goesOn) alive chain
          obtain ⟨last, hlast⟩ := Batch.exists_returned_of_end h.contained h.goesOn chain alive
          exact ⟨last, result, hlast, same⟩
      | stalled chain command => cases command.symm.trans hgoing

theorem ChainResult.Tells.cases {result : ChainResult} {outcome : Outcome} (h : result.Tells outcome) :
    (∃ value, outcome.unwrap = .ok value ∧ outcome.value = value ∧ result.failure = none) ∨
      ∃ inner cause, outcome.unwrap = .error (.commandFailed inner cause) ∧
        result.failure = some (.commandFailed inner cause) := by
  obtain ⟨name, fault | value⟩ := outcome
  · have hwrapped : ∃ inner cause, fault.ofCommand name = .commandFailed inner cause := by
      cases fault <;> exact ⟨_, _, rfl⟩
    obtain ⟨inner, cause, hfault⟩ := hwrapped
    exact .inr ⟨inner, cause, congrArg Except.error hfault, h.failure.trans (congrArg some hfault)⟩
  · exact .inl ⟨value, rfl, rfl, h.failure⟩

/-- A list of texts as a program passes it. -/
def GivenArguments.texts (values : List String) : GivenArguments :=
  .value (.list (values.map .text))

namespace Engine

variable {engine : Engine} {name text : String} {command : Command} {values : List String}

end Engine

/-! ### A command that fails because of another -/

end Cascade
