import Cascade.Config.Basic
import Cascade.Config.Environment
import Cascade.Config.Merge
import Cascade.Files.Tree
import Cascade.Json.Reader
import Cascade.Text.Utf8

/-!
Loading configurations: from one file that is named, or from the global file in the home directory with
the local file of the working directory laid over it. References to environment variables are replaced
after the files have been merged.
-/

namespace Cascade.Config

/-- What surrounds a program: its files, its environment variables and its home directory, which is taken
as known. -/
structure Host where
  files : FileTree
  environment : Environment
  home : String

/-- Where the relative paths of a host start. -/
def Host.place (host : Host) : Place :=
  ⟨host.files.current, host.home⟩

/-- A configuration or why there is none, and the warnings on the way. -/
structure Loaded where
  warnings : List String
  result : Except Fault Config

def byteText (byte : Nat) : String :=
  String.ofList (Text.Quoted.hexDigits 2 byte)

/-- The wording of bytes that are not text. -/
def encodingMessage (refusal : Text.Utf8.Refusal) : String :=
  let place :=
    if refusal.count = 1 then
      "byte 0x" ++ byteText refusal.byte ++ " in position " ++
        Decimal.integerText refusal.position
    else
      "bytes in position " ++ Decimal.integerText refusal.position ++ "-" ++
        Decimal.integerText (refusal.position + refusal.count - 1 : Nat)
  let reason :=
    match refusal.reason with
    | .start => "invalid start byte"
    | .continuation => "invalid continuation byte"
    | .ending => "unexpected end of data"
  "'utf-8' codec can't decode " ++ place ++ ": " ++ reason

/-- Reads the entries of a configuration text. A blank text has none. -/
def readText (path : Path) (text : List Char) : Except Fault (Entries Value) :=
  if Text.Blank.isAllBlank text then .ok []
  else
    match Json.read text with
    | .error refusal =>
        .error (.config ("config: Invalid JSON in " ++ path.toText ++ ": " ++ refusal.message text))
    | .ok (.map entries) => .ok entries
    | .ok value =>
        .error (.config ("config: " ++ path.toText ++ " must hold a JSON object, got " ++
          value.kindName))

/-- Reads the entries of a configuration file. -/
def readLayer (files : FileTree) (path : Path) : Except Fault (Entries Value) :=
  match files.read path with
  | .error refusal =>
      .error (.config ("config: Failed to read file " ++ path.toText ++ ": " ++ refusal.message ++
        ": " ++ quoted path.toText))
  | .ok bytes =>
      match Text.Utf8.read bytes with
      | .error refusal => .error (.because .encoding (encodingMessage refusal))
      | .ok text => readText path text

/-- The configuration of entries from a source, after the references in them have been replaced. -/
def validate (host : Host) (source : Path) (entries : Entries Value) : Loaded :=
  let (replaced, unset) := substituteEntries host.environment entries
  { warnings := unset.map unsetWarning
    result := (ofEntries host.place replaced).mapError fun issues =>
      .invalidConfig source.toText issues }

/-- The name of the directory of configurations. -/
def directoryName : String := ".cmdlets"

def fileName : String := "config.json"

/-- The configuration file below a directory. -/
def fileBelow (directory : Path) : Path :=
  (directory.child directoryName).child fileName

/-- Lays a file over what has been read from others; a file that is missing or holds nothing changes
nothing. Gives the entries and the last file that added to them. -/
def addLayer (files : FileTree) (read : Entries Value × Option Path) (path : Path) :
    Except Fault (Entries Value × Option Path) :=
  let isRepeated := read.2.any fun last =>
    Path.absolute files.current path = Path.absolute files.current last
  if isRepeated || !files.isFile path then .ok read
  else do
    let entries ← readLayer files path
    return if entries.isEmpty then read else (merge read.1 entries, some path)

def loadFile (host : Host) (path : Path) : Loaded :=
  if host.files.isFile path then
    match readLayer host.files path with
    | .ok entries => validate host path entries
    | .error fault => ⟨[], .error fault⟩
  else ⟨[], .error (.config ("config: File not found: " ++ path.toText))⟩

/-- Loads the global file with the local file of a directory laid over it. -/
def loadLayers (host : Host) (directory : Path) : Loaded :=
  let home := Path.ofText (Path.expandHome host.home "~")
  let layers := [fileBelow home, fileBelow directory]
  match layers.foldlM (addLayer host.files) ([], none) with
  | .error fault => ⟨[], .error fault⟩
  | .ok (entries, some source) => validate host source entries
  | .ok (_, none) => ⟨[], .ok standard⟩

/-- Loads a configuration: the file at a path if there is one, or the layers of a directory. -/
def load (host : Host) (path directory : Option Path) : Loaded :=
  match path with
  | some path => loadFile host path
  | none => loadLayers host (directory.getD host.files.current)

end Cascade.Config
