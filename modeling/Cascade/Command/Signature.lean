import Cascade.Command.Basic

/-!
Signatures of commands: which parameters a call has to give and may give, and the wording of a call
that gives others.
-/

namespace Cascade

/-- The parameters of a command: those that have to be given and the number of those that may be. The
first ones are counted among the names even when the caller cannot give them. -/
structure Signature where
  function : String
  required : List String
  optional : Nat

namespace Signature

/-- Names one after the other, the last two with `and` between them. -/
def enumerated : List String → String
  | [] => ""
  | [name] => name
  | [first, second] => first ++ " and " ++ second
  | names => joined ", " names.dropLast ++ ", and " ++ names.getLast?.getD ""

/-- A count with its noun, in the plural unless the count is one. -/
def counted (count : Nat) : String :=
  Decimal.integerText count ++ " positional argument" ++ (if count = 1 then "" else "s")

/-- The wording of a call with too few parameters. -/
def missing (signature : Signature) (given : Nat) : String :=
  let names := (signature.required.drop given).map quoted
  signature.function ++ "() missing " ++ Decimal.integerText names.length ++
    " required positional argument" ++ (if names.length = 1 then "" else "s") ++ ": " ++
    enumerated names

/-- The wording of a call with too many parameters. -/
def tooMany (signature : Signature) (given : Nat) : String :=
  let least := signature.required.length
  let most := least + signature.optional
  signature.function ++ "() takes " ++
    (if signature.optional = 0 then counted most
     else "from " ++ Decimal.integerText least ++ " to " ++ Decimal.integerText most ++
       " positional arguments") ++
    " but " ++ Decimal.integerText given ++ (if given = 1 then " was" else " were") ++ " given"

/-- Checks the number of parameters of a call. -/
def check (signature : Signature) (given : Nat) : Except Fault Unit :=
  if given < signature.required.length then .error (.because .type (signature.missing given))
  else if signature.required.length + signature.optional < given then
    .error (.because .type (signature.tooMany given))
  else .ok ()

end Signature

end Cascade
