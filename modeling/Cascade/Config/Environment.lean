import Cascade.Value

/-!
References to environment variables in texts: a name between two percent signs stands for the value of
the variable. A reference to a variable that is not set stays as it is and gives a warning.
-/

namespace Cascade.Config

/-- The variables of the environment. -/
abbrev Environment := Entries String

/-- A letter of the basic alphabet or an underscore. -/
def startsVariable (character : Char) : Bool :=
  character.isAlpha || character == '_'

/-- A character that follows in the name of a variable. -/
def continuesVariable (character : Char) : Bool :=
  character.isAlphanum || character == '_'

/-- What has been read of a reference: nothing, or its sign and a part of its name in reverse order. -/
inductive Reference
  | outside
  | inside (read : List Char)
  deriving DecidableEq

/-- The text of a reference that was begun. -/
def Reference.text : Reference → List Char
  | outside => []
  | inside read => '%' :: read.reverse

/-- A text with its references replaced, and the names of the variables that are not set. -/
structure Substitution where
  text : List Char
  unset : List String

def Substitution.after (written : List Char) (rest : Substitution) : Substitution :=
  { rest with text := written ++ rest.text }

/-- Replaces the references of a text in one pass from left to right. -/
def substituteFrom (environment : Environment) (state : Reference) : List Char → Substitution
  | [] => ⟨state.text, []⟩
  | character :: rest =>
      match state with
      | .outside =>
          if character = '%' then substituteFrom environment (.inside []) rest
          else (substituteFrom environment .outside rest).after [character]
      | .inside read =>
          let continues :=
            if read.isEmpty then startsVariable character else continuesVariable character
          if continues then substituteFrom environment (.inside (character :: read)) rest
          else if character = '%' then
            if read.isEmpty then (substituteFrom environment (.inside []) rest).after ['%']
            else
              let name := String.ofList read.reverse
              match environment.get? name with
              | some value => (substituteFrom environment .outside rest).after value.toList
              | none =>
                  let later := substituteFrom environment .outside rest
                  ⟨state.text ++ '%' :: later.text, name :: later.unset⟩
          else
            (substituteFrom environment .outside rest).after (state.text ++ [character])

def substituteText (environment : Environment) (text : String) : String × List String :=
  let substitution := substituteFrom environment .outside text.toList
  (String.ofList substitution.text, substitution.unset)

mutual

/-- Replaces the references in every text of a value; names stay as they are. Gives the unset names in
the order of the references. -/
def substitute (environment : Environment) : Value → Value × List String
  | .text characters =>
      let (replaced, unset) := substituteText environment characters
      (.text replaced, unset)
  | .list items =>
      let (replaced, unset) := substituteItems environment items
      (.list replaced, unset)
  | .map entries =>
      let (replaced, unset) := substituteEntries environment entries
      (.map replaced, unset)
  | value => (value, [])

/-- Replaces the references in every item. -/
def substituteItems (environment : Environment) : List Value → List Value × List String
  | [] => ([], [])
  | item :: rest =>
      let (replaced, unset) := substitute environment item
      let (others, later) := substituteItems environment rest
      (replaced :: others, unset ++ later)

/-- Replaces the references in every value of entries. -/
def substituteEntries (environment : Environment) :
    List (String × Value) → List (String × Value) × List String
  | [] => ([], [])
  | (name, value) :: rest =>
      let (replaced, unset) := substitute environment value
      let (others, later) := substituteEntries environment rest
      ((name, replaced) :: others, unset ++ later)

end

/-- The warning about a variable that is not set. -/
def unsetWarning (name : String) : String :=
  "Environment variable not set: %" ++ name ++ "%"

/-- Whether a variable's text is a number other than zero. -/
def isFlagSet (text : Option String) : Bool :=
  match text with
  | none => false
  | some characters =>
      match Decimal.readBinary64? (Text.Blank.trim characters.toList) with
      | some number => !number.isZero
      | none => false

end Cascade.Config
