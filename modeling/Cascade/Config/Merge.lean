import Cascade.Value

/-!
Laying one configuration over another. Mappings are merged name by name; anything else, lists included,
is replaced as a whole.
-/

namespace Cascade.Config

mutual

/-- A value laid over what was there before. -/
def overlay (base : Option Value) : Value → Value
  | .map entries =>
      match base with
      | some (.map old) => .map (overlayEntries old entries)
      | _ => .map entries
  | value => value

/-- Entries laid over others: old names keep their positions and new ones follow. -/
def overlayEntries (base : Entries Value) : List (String × Value) → Entries Value
  | [] => base
  | (name, value) :: rest =>
      overlayEntries (base.put name (overlay (base.get? name) value)) rest

end

/-- One configuration laid over another. -/
def merge (base override : Entries Value) : Entries Value :=
  overlayEntries base override

end Cascade.Config
