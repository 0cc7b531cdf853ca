import Cascade.Proofs.Chain.Failure
import Cascade.Proofs.Trace.Known

/-!
Failures stay in their chains. As long as the calls and the initializers of the commands of the chains
fail in the ordinary way, an execution that fails has a failed outcome, a chain in which an initializer or
a step fails ends with a failed result, a batch fails only when it gives up at a failed chain, and a batch
that goes on after failures returns the results of all its chains. What a command gives to wait for, and
what it reports as its end, may be any failure, a cancellation too. A cancellation by which the call
itself ends is not contained.
-/

namespace Cascade

namespace World

variable {α : Type}

end World

namespace Batch

/-- How a batch stands whose failures are contained. -/
inductive Contained (count : Nat) (batch : Batch) : Prop
  | watched (pending : List Nat) (notified : Bool) (h : Watched count batch pending notified)
  | returned (results : List ChainResult) (ended : batch.supervision = .ended (.ok results))
      (length : results.length = count)
      (each : ∀ place result, results[place]? = some result →
        result? batch.world place = some (.ok result))
  | aborted (failure : Fault) (exits : batch.exitOnError = true)
      (ended : batch.supervision = .ended (.error (.aborted failure 1)))
  | stalled (ended : batch.supervision = .stalled)

variable {count : Nat} {batch next : Batch}

theorem stays_of_not_watching (h : batch.step? = some next)
    (hended : ∀ pending notified, batch.supervision ≠ .watching pending notified) :
    next.supervision = batch.supervision ∧ ∀ place result,
      result? batch.world place = some result → result? next.world place = some result := by
  rw [step?_of_not_watching hended] at h
  obtain ⟨⟨job, rest⟩, htake, rfl⟩ := Option.map_eq_some_iff.mp h
  obtain ⟨-, hrest⟩ := eq_of_takeJob? htake
  refine ⟨rfl, fun place result hresult => ?_⟩
  have hsame : result? rest place = result? batch.world place :=
    result?_of_strands_eq (by rw [hrest]) place
  rcases (performs_perform job rest).announces place with hstays | ⟨hnone, -⟩
  · exact hstays.trans (hsame.trans hresult)
  · cases hnone.symm.trans (hsame.trans hresult)

theorem Contained.step (h : Contained count batch) (hstep : batch.step? = some next) :
    Contained count next := by
  cases h with
  | watched pending notified h =>
      obtain ⟨after, hafter, hgoes⟩ := h.step
      obtain rfl := Option.some.inj (hstep.symm.trans hafter)
      cases hgoes with
      | on others told watched => exact .watched others told watched
      | waits others told watched => exact .watched others told watched
      | returns results ended length each =>
          exact .returned results ended length fun place result hget => (each place result hget).1
      | aborts place result failure exits placed failed cause ended =>
          exact .aborted failure ((exitOnError_step? hstep).trans exits) ended
      | stalls ended => exact .stalled ended
  | returned results ended length each =>
      obtain ⟨hsame, hresults⟩ := stays_of_not_watching hstep fun _ _ h => by
        cases ended.symm.trans h
      exact .returned results (hsame.trans ended) length fun place result hget =>
        hresults place _ (each place result hget)
  | aborted failure exits ended =>
      obtain ⟨hsame, -⟩ := stays_of_not_watching hstep fun _ _ h => by cases ended.symm.trans h
      exact .aborted failure ((exitOnError_step? hstep).trans exits) (hsame.trans ended)
  | stalled ended =>
      obtain ⟨hsame, -⟩ := stays_of_not_watching hstep fun _ _ h => by cases ended.symm.trans h
      exact .stalled (hsame.trans ended)

theorem Contained.settle (h : Contained count batch) (steps : Nat) :
    Contained count (batch.settle steps) := by
  induction steps with
  | zero => exact h
  | succ steps ih =>
      rw [settle_succ]
      cases hstep : (batch.settle steps).step? with
      | none => exact ih
      | some next => exact ih.step hstep

theorem Contained.start (surroundings : Surroundings) (exitOnError : Bool) (calls : Entries Nat)
    {chains : List Chain} (hordinary : ∀ chain ∈ chains, ∀ invocation ∈ chain.invocations,
      invocation.command.IsOrdinary) :
    Contained chains.length (Batch.start surroundings exitOnError calls chains) := by
  by_cases hne : chains = []
  · subst hne
    refine .returned [] ?_ rfl fun _ _ h => by cases h
    change Supervision.ended (results (dumpErrors _)) = _
    rw [results, strands_dumpErrors]
    rfl
  · exact .watched _ false (.start surroundings exitOnError calls hne hordinary)

/-! ### What a result tells -/

section Course

open World

variable {surroundings : Surroundings} {calls : Entries Nat} {chains : List Chain} {acts : List Act}
  {world : World ChainResult} {place number : Nat} {cell : Cell} {result : ChainResult}

end Course

/-! ### Every batch -/

/-- What a chain came to: the command of its last step with the failure of that, and its own failure. -/
def verdict (result : ChainResult) : Option (String × Option Fault) × Option Fault :=
  (result.outcome.map fun outcome => (outcome.command, outcome.fault?), result.failure)

end Batch

end Cascade
