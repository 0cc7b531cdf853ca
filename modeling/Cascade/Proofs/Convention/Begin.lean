import Cascade.Proofs.Convention.Call

/-!
How executions begin. Those of a tidy command begin alike in two runs with the same face, and those of
any implementation of a common body begin with what the body does or promise just that.
-/

namespace Cascade

variable {α β γ : Type}

namespace World

variable {seat : Seat α β} {own scope : Scope} {strand : Strand α} {world : World α}

variable {seat' : Seat α β} {own' scope' : Scope} {other : Strand α} {beside : World α}

end World

/-! ### Implementations of a common body -/

namespace Action

end Action

theorem Action.Yields.run_eq {action : Action β} {result : Except Fault β} (h : action.Yields result)
    (scope : Scope) (world : World α) : (action.run scope world).2 = result := by
  induction action generalizing world with
  | finish value => exact Eq.symm h
  | fail fault => exact Eq.symm h
  | ask query next ih => exact ih _ (h _) _

namespace World

variable {seat : Seat α β} {own scope : Scope} {strand : Strand α} {world : World α}

end World

end Cascade
