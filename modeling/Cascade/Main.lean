import Cascade.CommandLine.Session

/-!
The program: reads the words of its command line, the configuration files and the module directories
that they name, runs the session and prints its record. The clock of a run is simulated, so pauses take
no time.
-/

namespace Cascade.Program

open CommandLine

/-- The modules that are built into the program, by the names of their files. -/
def builtIn : List (String × CommandModule) :=
  [("hello.py", CommandModule.greeting), ("math.py", CommandModule.arithmetic)]

/-- Adds a file to a tree if it can be read. A file with the name of a module that is built in stands for
that module. -/
def addFile (tree : FileTree) (path : Path) : IO FileTree := do
  let names := (Path.absolute tree.current path).names
  try
    let bytes ← IO.FS.readBinFile path.toText
    match builtIn.find? fun entry => entry.1 = path.name with
    | some (_, content) => return tree.add names (.moduleFile content)
    | none => return tree.add names (.file (bytes.toList.map UInt8.toNat))
  catch _ => return tree

/-- Adds the files of a directory to a tree. -/
def addDirectory (tree : FileTree) (directory : Path) : IO FileTree := do
  try
    let place ← IO.currentDir
    let entries ← (place / directory.toText).readDir
    entries.foldlM (fun tree entry => addFile tree (directory.child entry.fileName)) tree
  catch _ => return tree

/-- The variables of the environment with the given names. -/
def environmentOf (names : List String) : IO Config.Environment :=
  names.filterMapM fun name => do
    return (← IO.getEnv name).map fun value => (name, value)

/-- The names of the variables that the files of a tree refer to. -/
def referenced (tree : FileTree) : List String :=
  tree.nodes.flatMap fun entry =>
    match entry.2 with
    | .file bytes =>
        match Text.Utf8.read bytes with
        | .ok text => (Config.substituteText [] (String.ofList text)).2
        | .error _ => []
    | _ => []

/-- The surroundings of a session: the configuration files, the variables that they refer to, and the
files of the module directories. -/
def host (options : Options) : IO Config.Host := do
  let place ← IO.currentDir
  let current := Path.ofText place.toString
  let home := (← IO.getEnv "HOME").getD "/"
  let layers := [Path.ofText home, current].map Config.fileBelow
  let tree ← (options.config.toList ++ layers).foldlM addFile ⟨[], current⟩
  let environment ← environmentOf ("HOME" :: Engine.showHiddenVariable :: referenced tree)
  let configured : Config.Host := ⟨tree, environment, home⟩
  let directories :=
    match (Config.load configured options.config none).result with
    | .ok config => config.moduleDirectories.map Path.ofText
    | .error _ => []
  let tree ← (directories ++ options.moduleDirectories).foldlM addDirectory tree
  return { configured with files := tree }

/-- Prints an item of a record: lines on the output, and warnings apart from them. -/
def print (item : Item) : IO Unit :=
  match item with
  | .line content => IO.println content.text
  | .warning message => IO.eprintln message
  | .mark _ => return ()

/-- The text that is shown when help is asked for. -/
def helpText : String :=
  joined "\n" (("usage: " ++ Engine.programName ++ " [option ...] [invocation ...]") ::
    Switch.all.map fun switch => "  " ++ joined ", " switch.spellings)

/-- A bound on the number of steps of a run. -/
def fuel : Nat := 1000000000000

/-- Runs a session and prints its record. Gives the exit code. -/
def runSession (options : Options) : IO UInt32 := do
  let session := Session.run fuel (← host options) options
  session.record.forM fun entry => print entry.2
  match session.result with
  | some (.ok code) => return UInt32.ofNat code.toNat
  | some (.error fault) =>
      IO.eprintln fault.message
      return 1
  | none =>
      IO.eprintln "nothing is left to wait for"
      return 1

/-- Reads the command line and runs its session. Gives the exit code. -/
def run (words : List String) : IO UInt32 := do
  match Options.read words with
  | .ok options => runSession options
  | .error .help =>
      IO.println helpText
      return 0
  | .error (.refused misuse) =>
      IO.eprintln (Engine.programName ++ ": error: " ++ misuse.message)
      return 2

end Cascade.Program

def main (words : List String) : IO UInt32 :=
  Cascade.Program.run words
