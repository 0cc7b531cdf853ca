import Cascade.Proofs.Chain.Steady
import Cascade.Proofs.Execution.Origin
import Cascade.Proofs.Trace.History

/-!
How an execution fails. The call of the command fails, the code reports a failure, or what the call gave
to wait for fails or is cancelled. If that is the first thing to complete the execution, then its outcome
is this failure, and the outcome comes to whoever asked for the execution and is not cancelled.
-/

namespace Cascade

open Past

/-- A happening that makes an execution fail, and the failure that its outcome then holds. -/
inductive Happening.FailsWith (command : Command) : Happening → Fault → Prop
  /-- The call fails. -/
  | raised (fault : Fault) : FailsWith command (.raised fault) fault
  /-- The code reports a failure, a cancellation or any other. -/
  | reported (fault : Fault) : FailsWith command (.completed (.error fault)) fault
  /-- What the call gave to wait for fails in the ordinary way. -/
  | ended (fault : Fault) (h : fault.isCancellation = false) :
      FailsWith command (.ended (.error fault)) fault
  /-- It ends by a cancellation. -/
  | cancelled (fault : Fault) (h : fault.isCancellation = true) :
      FailsWith command (.ended (.error fault))
        (.raised .cancelled (some (command.name ++ " was cancelled")))

/-- The first happening that completes an execution makes it fail. -/
def Past.Fails (command : Command) (past : List Happening) (fault : Fault) : Prop :=
  ∃ later happening earlier, past = later ++ happening :: earlier ∧ attempts command earlier = [] ∧
    happening.FailsWith command fault

variable {α : Type} {command : Command} {fault : Fault}

theorem Happening.FailsWith.attempt? {happening : Happening} (h : happening.FailsWith command fault)
    (isComplete : Bool) :
    happening.attempt? command isComplete = some ⟨command.name, .error fault⟩ := by
  cases h with
  | raised | reported => rfl
  | ended fault hordinary => simp [Happening.attempt?, outcomeOf, hordinary, Outcome.failure]
  | cancelled fault hcancelled =>
      simp [Happening.attempt?, outcomeOf, hcancelled, Outcome.failure, Fault.because]

/-- Code that never fails with a cancellation does not end by one. -/
theorem Action.Plays.isCancellation_eq_false {β : Type} {action : Action β} {doings : List Doing}
    (hplays : action.Plays doings (.error fault)) (h : action.IsOrdinary) :
    fault.isCancellation = false := by
  generalize hresult : Except.error fault = result at hplays
  induction hplays with
  | finish value => cases hresult
  | fail other =>
      obtain rfl := Except.error.inj hresult
      exact h
  | ask query next answer doings result _ ih => exact ih (h answer) hresult

namespace World

variable {world : World α} {place number : Nat} {cell : Cell}

/-- The outcome of an execution comes to the thread that asked for it, unless this is cancelled. -/
inductive Delivers (world : World α) (place number : Nat) (caller : ThreadId) (outcome : Outcome) :
    Prop
  | given (yielded : yields (world.past place number) = [outcome])
  | coming (queued : .resume place caller ∈ world.queue)
      (yielded : .yielded outcome ∈ (world.resume place caller).past place number)
  | cancelled (posture : world.posture? place caller = some (.waits (some number) .cancelled) ∨
      world.posture? place caller = some (.finished true))

theorem FirstCounts.delivers (h : world.FirstCounts place number cell)
    (hescaped : ∀ fault, .escaped fault ∉ world.past place number) {outcome : Outcome}
    (hsettled : cell.state = .settled outcome) : world.Delivers place number cell.caller outcome := by
  rcases h.yielded with hnone | ⟨other, hother, hone⟩
  · have hopen : ¬ IsClosed (world.past place number) := by
      rintro (⟨given, hgiven⟩ | ⟨fault, hfault⟩)
      · exact absurd (hnone ▸ mem_yields.mpr hgiven) List.not_mem_nil
      · exact hescaped fault hfault
    rcases h.given outcome hsettled hopen with ⟨hqueued, hyielded⟩ | hcancelled | hcancelled
    · exact .coming hqueued hyielded
    · exact .cancelled (.inl hcancelled)
    · exact .cancelled (.inr hcancelled)
  · obtain rfl := CellState.settled.inj (hother.symm.trans hsettled)
    exact .given hone

end World

end Cascade
