import Cascade.Fault
import Cascade.Text.Pieces

/-!
The argument form of a call: none at all, texts by position, or values by name.
-/

namespace Cascade

/-- The shape of an argument list. -/
inductive ArgumentKind
  | absent
  | positional
  | named
  deriving DecidableEq

namespace ArgumentKind

def name : ArgumentKind → String
  | absent => "none"
  | positional => "positional"
  | named => "named"

/-- Every kind, in the order of the names. -/
def all : List ArgumentKind :=
  [.named, .absent, .positional]

end ArgumentKind

/-- The arguments of a call. -/
inductive Arguments
  | absent
  | positional (values : List String)
  | named (values : Entries Value)

namespace Arguments

instance : Inhabited Arguments := ⟨.absent⟩

def kind : Arguments → ArgumentKind
  | absent => .absent
  | positional _ => .positional
  | named _ => .named

/-- The parameters that a command receives: nothing as one null, texts one by one, and named values as
one mapping. -/
def parameters : Arguments → List Value
  | absent => [.null]
  | positional values => values.map .text
  | named values => [.map values]

/-- The arguments that a value stands for: null for none, a list for texts by position, a mapping for
values by name. -/
def ofValue : Value → Except Fault Arguments
  | .null => .ok absent
  | .list items | .sequence items => .ok (positional (items.map Value.toText))
  | .map entries => .ok (named entries)
  | value => .error (.because .type ("cannot use " ++ value.kindName ++ " as command arguments"))

end Arguments

/-- Arguments given by a program: a form as it is, or a value that stands for one. -/
inductive GivenArguments
  | form (given : Arguments)
  | value (given : Value)

def GivenArguments.toArguments : GivenArguments → Except Fault Arguments
  | form given => .ok given
  | value given => Arguments.ofValue given

end Cascade
