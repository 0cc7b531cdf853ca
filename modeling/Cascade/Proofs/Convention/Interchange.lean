import Cascade.Proofs.Convention.Builtin
import Cascade.Proofs.Convention.Lone
import Cascade.Proofs.Siblings.Independence

/-!
Conventions do not matter: a chain that runs alone comes to the same end, whatever the conventions are in
which its commands are implemented, and it shows the same on the way. Only the times differ.
-/

namespace Cascade

/-! ### What is the same -/

/-- Two items, with their strands, that are the same but for the time that a chain took. -/
def AlikeButTime (first second : Option Nat × Item) : Prop :=
  first = second ∨ ∃ strand label elapsed other,
    first = (strand, .line (Report.timing label elapsed)) ∧
      second = (strand, .line (Report.timing label other))

/-- Two results of chains that are the same but for the times and the conventions of the commands. -/
structure ChainResult.Alike (first second : ChainResult) : Prop where
  label : first.label = second.label
  invocations : List.Forall₂ Invocation.Interchangeable first.invocations second.invocations
  outcome : first.outcome = second.outcome
  failure : first.failure = second.failure

/-- Two runs whose callers have got the same outcomes, with the same error log, which have shown the same
but for times. -/
structure World.Alike {α : Type} (first second : World α) : Prop where
  outcomes : first.outcomes = second.outcomes
  errors : first.errors = second.errors
  shown : List.Forall₂ AlikeButTime first.shown second.shown

/-- Two batches that have ended with the same results. -/
structure Batch.Alike (first second : Batch) : Prop where
  results : ∃ left right, first.supervision = .ended left ∧ second.supervision = .ended right ∧
    Agree (List.Forall₂ ChainResult.Alike) left right
  worlds : first.world.Alike second.world

/-! ### Lines -/

namespace World

variable {α : Type} {first second : World α}

theorem Alike.congr (h : first.Alike second) {after after' : World α} (hafter : after.face = first.face)
    (hafter' : after'.face = second.face) : after.Alike after' where
  outcomes := (congrArg Face.outcomes hafter).trans
    (h.outcomes.trans (congrArg Face.outcomes hafter').symm)
  errors := (congrArg Face.errors hafter).trans (h.errors.trans (congrArg Face.errors hafter').symm)
  shown := by
    rw [show after.shown = first.shown from congrArg Face.shown hafter,
      show after'.shown = second.shown from congrArg Face.shown hafter']
    exact h.shown

end World

namespace Batch

/-- The strand of a chain in the first turn of its thread. -/
def firstTurn (chain : Chain) : Strand ChainResult :=
  Seat.root.put .running (Strand.start chain.invocations chain.routine)

/-- The run of a chain in the first turn of its thread. -/
def opened (surroundings : Surroundings) (calls : Entries Nat) (chain : Chain) : World ChainResult :=
  { World.start surroundings calls [Strand.start chain.invocations chain.routine] with
    queue := []
    strands := [firstTurn chain] }

end Batch

end Cascade
