import Cascade.Value
import Cascade.Text.Pieces

/-!
Paths: a root or none, and names. Empty names and single points are left out of a path; a pair of points
stays until the path is made absolute.
-/

namespace Cascade

/-- A path. The root is empty for a relative path. -/
structure Path where
  root : String
  names : List String
  deriving DecidableEq

namespace Path

/-- The slashes at the front of a text that make a root: one, or exactly two. -/
def rootOf (text : List Char) : String :=
  let slashes := (text.takeWhile (· == '/')).length
  if slashes = 0 then "" else if slashes = 2 then "//" else "/"

def ofText (text : String) : Path where
  root := rootOf text.toList
  names := ((Text.Pieces.split '/' text.toList).map String.ofList).filter fun name =>
    name ≠ "" && name ≠ "."

/-- The text of a path; the empty path is a single point. -/
def toText (path : Path) : String :=
  if path.root.isEmpty && path.names.isEmpty then "."
  else path.root ++ joined "/" path.names

def isAbsolute (path : Path) : Bool :=
  !path.root.isEmpty

/-- A path inside a directory; an absolute path stays as it is. -/
def within (directory path : Path) : Path :=
  if path.isAbsolute then path else ⟨directory.root, directory.names ++ path.names⟩

def child (directory : Path) (name : String) : Path :=
  ⟨directory.root, directory.names ++ [name]⟩

def name (path : Path) : String :=
  path.names.getLast?.getD ""

/-- A name cut before the last point that is neither its first nor its last character. -/
def cutSuffix (name : List Char) : List Char × List Char :=
  let suffix := name.reverse.takeWhile (· != '.')
  let before := (name.reverse.drop suffix.length).drop 1
  if suffix.isEmpty || before.isEmpty then (name, [])
  else (before.reverse, '.' :: suffix.reverse)

def stem (path : Path) : String :=
  String.ofList (cutSuffix path.name.toList).1

/-- The suffix of the last name with its point. -/
def suffix (path : Path) : String :=
  String.ofList (cutSuffix path.name.toList).2

/-- Names without pairs of points: each pair takes back the name before it. -/
def collapse (before : List String) : List String → List String
  | [] => before.reverse
  | name :: rest => if name = ".." then collapse before.tail rest else collapse (name :: before) rest

/-- The absolute path without pairs of points, seen from a directory. -/
def absolute (current path : Path) : Path :=
  let whole := current.within path
  ⟨whole.root, collapse [] whole.names⟩

/-- A text that starts with a tilde and then ends or goes on with a slash has the home directory in its
place. A tilde with the name of a user after it stays as it is, as no users are known. -/
def expandHome (home : String) (text : String) : String :=
  let trimmedHome := String.ofList (home.toList.reverse.dropWhile (· == '/')).reverse
  match text.toList with
  | ['~'] => if trimmedHome.isEmpty then "/" else trimmedHome
  | '~' :: '/' :: rest => trimmedHome ++ String.ofList ('/' :: rest)
  | _ => text

end Path

end Cascade
