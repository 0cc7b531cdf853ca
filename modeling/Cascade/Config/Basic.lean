import Cascade.Fault
import Cascade.Files.Path

/-!
Configurations, and reading one from entries: every part that is not as it should be is reported, first
the known parts in their order and then the unknown names.
-/

namespace Cascade

/-- The settings of the engine and of its modules. -/
structure Config where
  exitOnError : Bool
  showHidden : Bool
  moduleDirectories : List String
  modules : Entries (Entries Value)

namespace Config

/-- The settings that hold when nothing is configured. -/
def standard : Config := ⟨true, false, [], []⟩

/-- The settings of one module group, empty when there are none. -/
def moduleConfig (config : Config) (group : String) : Entries Value :=
  (config.modules.get? group).getD []

def trueWords : List String := ["1", "on", "t", "true", "y", "yes"]

def falseWords : List String := ["0", "off", "f", "false", "n", "no"]

/-- The least integer of sixty-four bits. -/
def leastInteger : Int := -0x8000000000000000

/-- The greatest integer of sixty-four bits. -/
def greatestInteger : Int := 0x7fffffffffffffff

/-- The truth value that an integer stands for: zero and one have one. An integer of more than
sixty-four bits is not taken for a truth value at all. -/
def booleanOfInteger (number : Int) : Except IssueKind Bool :=
  if number = 0 then .ok false
  else if number = 1 then .ok true
  else if leastInteger ≤ number && number ≤ greatestInteger then .error .unreadableBoolean
  else .error .notBoolean

/-- A truth value: itself, zero or one, or a word in letters of any case. -/
def readBoolean : Value → Except IssueKind Bool
  | .boolean flag => .ok flag
  | .integer number => booleanOfInteger number
  | .float number =>
      match number.toInt? with
      | some whole => if whole = leastInteger then .error .notBoolean else booleanOfInteger whole
      | none => .error .notBoolean
  | .text characters =>
      let word := String.ofList (characters.toList.map Char.toLower)
      if trueWords.contains word then .ok true
      else if falseWords.contains word then .ok false
      else .error .unreadableBoolean
  | _ => .error .notBoolean

/-- A part of a configuration as read, or the issues with it. -/
abbrev Part (α : Type) := Except (List Issue) α

def booleanPart (entries : Entries Value) (name : String) (default : Bool) : Part Bool :=
  match entries.get? name with
  | none => .ok default
  | some value => (readBoolean value).mapError fun kind => [⟨[.name name], kind⟩]

/-- The issues with the items of a list of texts. -/
def textIssues (name : String) (items : List Value) : List Issue :=
  items.zipIdx.filterMap fun (item, index) =>
    match item with
    | .text _ => none
    | _ => some ⟨[.name name, .index index], .notText⟩

def textsPart (entries : Entries Value) (name : String) : Part (List String) :=
  match entries.get? name with
  | none => .ok []
  | some (.list items) | some (.sequence items) =>
      match textIssues name items with
      | [] => .ok (items.map Value.toText)
      | issues => .error issues
  | some _ => .error [⟨[.name name], .notList⟩]

/-- The issues with the values of a mapping of mappings. -/
def mappingIssues (name : String) (entries : Entries Value) : List Issue :=
  entries.filterMap fun entry =>
    match entry.2 with
    | .map _ => none
    | _ => some ⟨[.name name, .name entry.1], .notMapping⟩

/-- The entries of a mapping, none for another value. -/
def entriesOf : Value → Entries Value
  | .map entries => entries
  | _ => []

/-- The mapping of mappings under a name. -/
def mappingsPart (entries : Entries Value) (name : String) : Part (Entries (Entries Value)) :=
  match entries.get? name with
  | none => .ok []
  | some (.map groups) =>
      match mappingIssues name groups with
      | [] => .ok (groups.map fun group => (group.1, entriesOf group.2))
      | issues => .error issues
  | some _ => .error [⟨[.name name], .notMapping⟩]

/-- The names that a configuration may have. -/
def knownNames : List String :=
  ["exit_on_error", "show_hidden", "module_dirs", "modules"]

/-- The issues with names that a configuration may not have. -/
def nameIssues (entries : Entries Value) : List Issue :=
  (entries.filter fun entry => !knownNames.contains entry.1).map fun entry =>
    ⟨[.name entry.1], .unknownName⟩

def issuesOf {α : Type} : Part α → List Issue
  | .ok _ => []
  | .error issues => issues

/-- Where relative paths start, and the home directory. -/
structure Place where
  current : Path
  home : String

/-- A module directory as an absolute path. -/
def absoluteDirectory (place : Place) (text : String) : String :=
  (Path.absolute place.current (Path.ofText (Path.expandHome place.home text))).toText

/-- Reads a configuration, or reports every issue with it. -/
def ofEntries (place : Place) (entries : Entries Value) : Except (List Issue) Config :=
  let exitOnError := booleanPart entries "exit_on_error" standard.exitOnError
  let showHidden := booleanPart entries "show_hidden" standard.showHidden
  let directories := textsPart entries "module_dirs"
  let modules := mappingsPart entries "modules"
  match exitOnError, showHidden, directories, modules, nameIssues entries with
  | .ok exitOnError, .ok showHidden, .ok directories, .ok modules, [] =>
      .ok ⟨exitOnError, showHidden, directories.map (absoluteDirectory place), modules⟩
  | exitOnError, showHidden, directories, modules, names =>
      .error (issuesOf exitOnError ++ issuesOf showHidden ++ issuesOf directories ++
        issuesOf modules ++ names)

end Config

end Cascade
