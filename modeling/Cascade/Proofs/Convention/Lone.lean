import Cascade.Proofs.Batch.Course
import Cascade.Proofs.Convention.Chains

/-!
A batch of one chain, from its start to its end. The supervisor does nothing until the chain has ended,
so the batch takes a step whenever something happens in the run; then it looks, and the batch is over.
-/

namespace Cascade

namespace Batch

variable {batch : Batch} {pending : List Nat} {notified : Bool} {world last : World ChainResult}
  {count steps : Nat}

/-- The batch after its only chain has ended with a result. -/
def closed (exitOnError : Bool) (world : World ChainResult) : Except Fault ChainResult → Batch
  | .error fault => ⟨exitOnError, world, .ended (.error fault)⟩
  | .ok result =>
      match result.failure, exitOnError with
      | some fault, true => ⟨exitOnError, dumpErrors world, .ended (.error (.aborted fault 1))⟩
      | _, _ => ⟨exitOnError, dumpErrors world, .ended (.ok [result])⟩

end Batch

end Cascade
