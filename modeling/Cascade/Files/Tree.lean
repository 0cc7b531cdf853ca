import Cascade.Files.Path
import Cascade.Module.Basic

/-!
A tree of files: directories, files with their bytes, and files that hold command modules. Every node
is listed under the names that lead to it from the root, after its directory.
-/

namespace Cascade

/-- What a place in the tree holds. -/
inductive FileNode
  | directory
  | file (bytes : List Nat)
  | moduleFile (content : CommandModule)

/-- The nodes by the names that lead to them, and the directory in which relative paths start. -/
structure FileTree where
  nodes : List (List String × FileNode)
  current : Path

namespace FileTree

/-- The node at the end of names from the root. -/
def node? (tree : FileTree) (names : List String) : Option FileNode :=
  if names.isEmpty then some .directory
  else (tree.nodes.find? fun entry => entry.1 = names).map Prod.snd

/-- Whether names from the root lead to a directory. -/
def isDirectoryAt (tree : FileTree) (names : List String) : Bool :=
  match tree.node? names with
  | some .directory => true
  | _ => false

/-- Follows names from a directory: each but the last has to lead to a directory, and a pair of points
goes back. Gives the names from the root, even if nothing is there. -/
def follow? (tree : FileTree) (directory : List String) : List String → Option (List String)
  | [] => some directory
  | name :: rest =>
      if tree.isDirectoryAt directory then
        if name = ".." then tree.follow? directory.dropLast rest
        else tree.follow? (directory ++ [name]) rest
      else none

/-- Where a path leads to: the names from the root and what is there. -/
def find? (tree : FileTree) (path : Path) : Option (List String × FileNode) := do
  let names ← tree.follow? [] (tree.current.within path).names
  let node ← tree.node? names
  return (names, node)

/-- Whether a path leads to a directory. -/
def isDirectory (tree : FileTree) (path : Path) : Bool :=
  match tree.find? path with
  | some (_, .directory) => true
  | _ => false

def isFile (tree : FileTree) (path : Path) : Bool :=
  match tree.find? path with
  | some (_, .file _) | some (_, .moduleFile _) => true
  | _ => false

/-- The names inside a directory, in ascending order. -/
def list (tree : FileTree) (path : Path) : List String :=
  match tree.find? path with
  | some (names, .directory) =>
      (tree.nodes.filterMap fun entry =>
        if entry.1.length = names.length + 1 && entry.1.dropLast = names then entry.1.getLast?
        else none).mergeSort fun left right => left ≤ right
  | _ => []

/-- Adds directories for all the names that lead to a place. -/
def addDirectories (before : List String) (tree : FileTree) : List String → FileTree
  | [] => tree
  | name :: rest =>
      let names := before ++ [name]
      let tree :=
        if (tree.node? names).isSome then tree
        else { tree with nodes := tree.nodes ++ [(names, .directory)] }
      addDirectories names tree rest

/-- Adds a node and the directories that lead to it. -/
def add (names : List String) (node : FileNode) (tree : FileTree) : FileTree :=
  let tree := addDirectories [] tree names.dropLast
  { tree with
      nodes := (tree.nodes.filter fun entry => entry.1 ≠ names) ++ [(names, node)] }

/-- Adds a directory and those that lead to it. -/
def addDirectory (names : List String) (tree : FileTree) : FileTree :=
  addDirectories [] tree names

/-- Why a file cannot be read. -/
inductive Refusal
  | missing
  | isDirectory
  | notDirectory

def Refusal.message : Refusal → String
  | missing => "[Errno 2] No such file or directory"
  | isDirectory => "[Errno 21] Is a directory"
  | notDirectory => "[Errno 20] Not a directory"

/-- Whether following names from a directory comes upon a file before the end. -/
def passesFile (tree : FileTree) (directory : List String) : List String → Bool
  | [] => false
  | name :: rest =>
      if tree.isDirectoryAt directory then
        if name = ".." then tree.passesFile directory.dropLast rest
        else tree.passesFile (directory ++ [name]) rest
      else (tree.node? directory).isSome

/-- The bytes of a file that holds a command module, as far as others read them than those who load the
module: it begins with a word that is no value of JSON. -/
def moduleBytes : List Nat :=
  "setup".toList.map Char.toNat

def read (tree : FileTree) (path : Path) : Except Refusal (List Nat) :=
  match tree.find? path with
  | some (_, .file bytes) => .ok bytes
  | some (_, .moduleFile _) => .ok moduleBytes
  | some (_, .directory) => .error .isDirectory
  | none =>
      .error (if tree.passesFile [] (tree.current.within path).names then .notDirectory
        else .missing)

end FileTree

end Cascade
