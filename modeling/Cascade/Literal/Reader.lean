import Cascade.Literal.Token

/-!
Reading literals: scalars, lists and objects with relaxed keys and trailing commas.
-/

namespace Cascade.Literal

/-- The scalar that a plain word stands for. -/
def constant? (name : String) : Option Value :=
  if name = "null" then some .null
  else if name = "true" then some (.boolean true)
  else if name = "false" then some (.boolean false)
  else if name = "Infinity" then some (.float (.infinite false))
  else if name = "NaN" then some (.float .nan)
  else none

mutual

/-- Reads a value from the front of the tokens. The fuel bounds the number of values, members and
items read one inside or after the other; the number of tokens is enough. -/
def value? : Nat → List Token → Option (Value × List Token)
  | 0, _ => none
  | fuel + 1, tokens =>
      match tokens with
      | .text characters :: rest => some (.text characters, rest)
      | .number value :: rest => some (value, rest)
      | .word name true :: rest => (constant? name).map fun value => (value, rest)
      | .openBrace :: rest =>
          (members? fuel rest).map fun (pairs, rest) => (.map (Entries.ofList pairs), rest)
      | .openBracket :: rest => (items? fuel rest).map fun (items, rest) => (.list items, rest)
      | _ => none

/-- Reads the members of an object up to its closing brace. -/
def members? : Nat → List Token → Option (List (String × Value) × List Token)
  | 0, _ => none
  | fuel + 1, tokens =>
      let member (key : String) (rest : List Token) :=
        match value? fuel rest with
        | some (value, .comma :: rest) =>
            (members? fuel rest).map fun (pairs, rest) => ((key, value) :: pairs, rest)
        | some (value, .closeBrace :: rest) => some ([(key, value)], rest)
        | _ => none
      match tokens with
      | .closeBrace :: rest => some ([], rest)
      | .text key :: .colon :: rest => member key rest
      | .word key _ :: .colon :: rest => member key rest
      | _ => none

/-- Reads the items of a list up to its closing bracket. -/
def items? : Nat → List Token → Option (List Value × List Token)
  | 0, _ => none
  | fuel + 1, tokens =>
      match tokens with
      | .closeBracket :: rest => some ([], rest)
      | tokens =>
          match value? fuel tokens with
          | some (value, .comma :: rest) =>
              (items? fuel rest).map fun (items, rest) => (value :: items, rest)
          | some (value, .closeBracket :: rest) => some ([value], rest)
          | _ => none

end

/-- The value that a whole text writes. -/
def read? (text : List Char) : Option Value := do
  let tokens ← Token.scan? text
  match value? (tokens.length + 1) tokens with
  | some (value, []) => some value
  | _ => none

/-- The entries of the object whose members a text writes: the text is read between two braces. -/
def readMembers? (text : List Char) : Option (Entries Value) :=
  match read? ('\x7b' :: text ++ ['\x7d']) with
  | some (.map entries) => some entries
  | _ => none

end Cascade.Literal
