import Cascade.Config.Basic
import Cascade.Files.Tree

/-!
Loading command modules into a registry: one module, a module file or package, or every module of a
directory. What a module did before it failed stays done.
-/

namespace Cascade.Module

/-- A registry after an operation, the items that the operation left in the record, and its result. -/
structure Change (α : Type) where
  registry : Registry
  items : List Item
  result : Except Fault α

namespace Change

variable {α β : Type}

/-- An operation that changes nothing and fails. -/
def refuse (registry : Registry) (fault : Fault) : Change α :=
  ⟨registry, [], .error fault⟩

/-- Goes on after an operation that succeeded. -/
def andThen (change : Change α) (next : α → Registry → Change β) : Change β :=
  match change.result with
  | .error fault => ⟨change.registry, change.items, .error fault⟩
  | .ok value =>
      let later := next value change.registry
      ⟨later.registry, change.items ++ later.items, later.result⟩

end Change

/-- Does the steps of a setup in order, up to the first that fails. Commands without a group of their
own get the given one. -/
def runSetup (group : String) : List SetupStep → Registry → Change Unit
  | [], registry => ⟨registry, [], .ok ()⟩
  | .emit item :: rest, registry =>
      let later := runSetup group rest registry
      { later with items := item :: later.items }
  | .register draft :: rest, registry =>
      match registry.register group draft with
      | .error fault => .refuse registry fault
      | .ok (_, registry, items) =>
          let later := runSetup group rest registry
          { later with items := items ++ later.items }
  | .fail fault :: _, registry => .refuse registry fault

/-- The failure of a setup: the engine's own failures and cancellations stay as they are. -/
def setupFault (name : String) (fault : Fault) : Fault :=
  if fault.isOwn || fault.isCancellation then fault
  else .moduleLoad (name ++ ".setup() failed: " ++ fault.message)

/-- Loads a module under a group, by default the last part of its name. Gives the group. -/
def load (config : Config) (module : CommandModule) (group : Option String)
    (registry : Registry) : Change String :=
  let group := group.getD (CommandModule.lastPart module.name)
  match module.setup with
  | none =>
      .refuse registry
        (.moduleLoad ("command module " ++ quoted module.name ++ " has no setup() function"))
  | some setup =>
      let change := runSetup group (setup ⟨group, config.moduleConfig group⟩) registry
      { change with
          result := (change.result.map fun _ => group).mapError (setupFault module.name) }

/-- The part of a dotted name that cannot be found among known names: the shortest start of it, cut at a
point, that is not the start of a known name. -/
def unknownPart (known : List String) (before : List String) : List String → String
  | [] => joined "." before
  | part :: rest =>
      let start := before ++ [part]
      let parts (name : String) : List String :=
        (Text.Pieces.split '.' name.toList).map String.ofList
      if known.any fun name => start.isPrefixOf (parts name) then unknownPart known start rest
      else joined "." start

def loadNamed (config : Config) (importable : List CommandModule) (name : String)
    (group : Option String) (registry : Registry) : Change String :=
  match importable.find? fun module => module.name = name with
  | some module => load config module group registry
  | none =>
      let parts := (Text.Pieces.split '.' name.toList).map String.ofList
      let missing := unknownPart (importable.map CommandModule.name) [] parts
      .refuse registry (.moduleLoad ("cannot import command module " ++ quoted name ++
        ": No module named " ++ quoted missing))

/-- The file that makes a directory a package. -/
def packageFile : String := "__init__.py"

def moduleSuffix : String := ".py"

/-- The name of a module that was loaded from a file. -/
def fileModuleName (stem : String) : String :=
  "cmdlets_modules." ++ stem

/-- The module in a file. A file without one has no setup. -/
def moduleOf (name : String) : FileNode → CommandModule
  | .moduleFile content => { content with name := name }
  | _ => CommandModule.withoutSetup name

/-- Loads the module in a file, or the package in a directory. The group is by default the name of the
file without its suffix, or the name of the directory. -/
def loadFile (config : Config) (files : FileTree) (path : Path) (group : Option String)
    (registry : Registry) : Change String :=
  let isPackage := files.isDirectory path
  let file := if isPackage then path.child packageFile else path
  let stem := if isPackage then path.name else path.stem
  match files.find? file with
  | none | some (_, .directory) =>
      .refuse registry (.moduleLoad ("command module not found: " ++ path.toText))
  | some (_, node) =>
      if file.suffix ≠ moduleSuffix then
        .refuse registry (.moduleLoad ("cannot load command module: " ++ path.toText))
      else
        let module := moduleOf (fileModuleName stem) node
        match module.importFault with
        | some fault =>
            .refuse registry
              (if fault.isCancellation then fault
              else .moduleLoad ("error importing command module " ++ path.toText ++ ": " ++
                fault.message))
        | none => load config module (some (group.getD stem)) registry

/-- Whether a directory's entry is a module: a module file, or a package. Names that start with an
underscore or a point are not. -/
def isModule (files : FileTree) (directory : Path) (name : String) : Bool :=
  let path := directory.child name
  let isPrivate := name.toList.head? = some '_' || name.toList.head? = some '.'
  !isPrivate &&
    if files.isDirectory path then files.isFile (path.child packageFile)
    else files.isFile path && path.suffix = moduleSuffix

/-- The modules of a directory in ascending order of names; none when there is no such directory. -/
def modulesIn (files : FileTree) (directory : Path) : List Path :=
  ((files.list directory).filter (isModule files directory)).map directory.child

/-- Loads modules one after the other, up to the first that fails. Gives their groups. -/
def loadAll (config : Config) (files : FileTree) : List Path → Registry → Change (List String)
  | [], registry => ⟨registry, [], .ok []⟩
  | path :: rest, registry =>
      (loadFile config files path none registry).andThen fun group registry =>
        (loadAll config files rest registry).andThen fun groups registry =>
          ⟨registry, [], .ok (group :: groups)⟩

/-- Loads every module of a directory. Gives the groups. -/
def loadDirectory (config : Config) (files : FileTree) (directory : Path) (registry : Registry) :
    Change (List String) :=
  loadAll config files (modulesIn files directory) registry

/-- Loads the modules of directories one after the other, up to the first that fails. -/
def loadDirectories (config : Config) (files : FileTree) :
    List Path → Registry → Change Unit
  | [], registry => ⟨registry, [], .ok ()⟩
  | directory :: rest, registry =>
      (loadDirectory config files directory registry).andThen fun _ registry =>
        loadDirectories config files rest registry

/-- The group of the built-in commands. -/
def systemGroup : String := "sys"

/-- Loads the built-in commands and hides every command that is registered by then. Gives the number of
hidden commands. -/
def loadSystem (config : Config) (registry : Registry) : Change Nat :=
  (load config CommandModule.system (some systemGroup) registry).andThen fun _ registry =>
    let (registry, count) := registry.hideWhere fun _ => true
    ⟨registry, [], .ok count⟩

end Cascade.Module
