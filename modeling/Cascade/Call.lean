import Cascade.Arguments.Reader

/-!
Calls as text: a cascade is cut into its elements, and an element into the name of a command and its
arguments.
-/

namespace Cascade

/-- The mark between the elements of a cascade. -/
def cascadeMark : Char := '*'

/-- The elements of a cascade, trimmed, without the empty ones. -/
def cascadeElements (text : String) : List String :=
  ((Text.Pieces.split cascadeMark text.toList).map Text.Blank.trim).filterMap fun element =>
    if element.isEmpty then none else some (String.ofList element)

/-- A command's name and its arguments. -/
structure Call where
  name : String
  arguments : Arguments

namespace Call

/-- The marks that open and close an argument list; the round ones are looked for first. -/
def marks : List (Char × Char) :=
  [('(', ')'), ('[', ']')]

/-- The marks of the argument list of a token, if it opens one. -/
def marksOf? (token : List Char) : Option (Char × Char) :=
  marks.find? fun pair => token.contains pair.1

/-- Reads a trimmed token. An argument list reaches from the first opening mark to the last character
of the token, which has to be its closing mark. -/
def readTrimmed (token : List Char) : Except Fault Call :=
  match marksOf? token with
  | some (opening, closing) =>
      let name := Text.Blank.trim (token.takeWhile (· != opening))
      let body := (token.dropWhile (· != opening)).drop 1
      if token.getLast? != some closing then
        .error (.unterminated (String.ofList token) (String.ofList name)
          (String.ofList [closing]))
      else if name.isEmpty then .error (.emptyName (String.ofList token))
      else .ok ⟨String.ofList name, Arguments.read body.dropLast⟩
  | none =>
      if token.isEmpty then .error (.emptyName "")
      else .ok ⟨String.ofList token, .absent⟩

def read (token : String) : Except Fault Call :=
  readTrimmed (Text.Blank.trim token.toList)

end Call

end Cascade
