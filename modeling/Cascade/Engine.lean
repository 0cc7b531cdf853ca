import Cascade.Config.Load
import Cascade.Module.Load
import Cascade.Run.Batch

/-!
The engine: a registry with its settings and error log, which loads modules, runs chains and single
commands, and shows menus.
-/

namespace Cascade

/-- The engine of a host. -/
structure Engine where
  host : Config.Host
  config : Config
  registry : Registry
  errors : ErrorLog
  calls : Entries Nat
  exitOnError : Bool
  silent : Bool
  program : String

namespace Engine

/-- The name of the program when it is not known otherwise. -/
def programName : String := "cmdlets"

/-- The environment variable that shows hidden commands in menus. -/
def showHiddenVariable : String := "SHOW_HIDDEN_CMD"

/-- An engine on a registry. A registry without commands counts as none, and a fresh one takes its
place. -/
def new (host : Config.Host) (config : Config) (registry : Option Registry) : Engine where
  host := host
  config := config
  registry := (registry.filter fun registry => !registry.commands.isEmpty).getD Registry.empty
  errors := ErrorLog.empty
  calls := []
  exitOnError := config.exitOnError
  silent := false
  program := programName

/-- An engine after an operation, the items that the operation left, and its result. -/
structure Change (α : Type) where
  engine : Engine
  items : List Item
  result : Except Fault α

/-- The engine with a changed registry. -/
def withRegistry {α : Type} (engine : Engine) (change : Module.Change α) : Change α :=
  ⟨{ engine with registry := change.registry }, change.items, change.result⟩

/-- Registers a draft; one without a group of its own gets the given one. -/
def register (engine : Engine) (group : String) (draft : Draft) : Change CommandInfo :=
  match engine.registry.register group draft with
  | .ok (command, registry, items) =>
      ⟨{ engine with registry := registry }, items, .ok command.info⟩
  | .error fault => ⟨engine, [], .error fault⟩

/-- The only event that can be listened to. -/
def commandAdded : String := "cmd_added"

def listen (engine : Engine) (event : String) (listener : Listener) : Change Unit :=
  if event = commandAdded then
    ⟨{ engine with registry := engine.registry.listen listener }, [], .ok ()⟩
  else ⟨engine, [], .error (.because .value ("unknown event: " ++ quoted event))⟩

def loadModule (engine : Engine) (module : CommandModule) (group : Option String) :
    Change String :=
  engine.withRegistry (Module.load engine.config module group engine.registry)

def loadNamed (engine : Engine) (importable : List CommandModule) (name : String)
    (group : Option String) : Change String :=
  engine.withRegistry (Module.loadNamed engine.config importable name group engine.registry)

def loadFile (engine : Engine) (path : Path) (group : Option String) : Change String :=
  engine.withRegistry
    (Module.loadFile engine.config engine.host.files path group engine.registry)

def loadDirectory (engine : Engine) (directory : Path) : Change (List String) :=
  engine.withRegistry
    (Module.loadDirectory engine.config engine.host.files directory engine.registry)

def loadSystem (engine : Engine) : Change Nat :=
  engine.withRegistry (Module.loadSystem engine.config engine.registry)

/-- An engine with the built-in commands and the modules of the configured directories, and then those of
further directories. -/
def create (host : Config.Host) (config : Config) (directories : List Path) : Change Unit :=
  let engine := new host config none
  let all := config.moduleDirectories.map Path.ofText ++ directories
  engine.withRegistry
    ((Module.loadSystem config engine.registry).andThen fun _ registry =>
      Module.loadDirectories config host.files all registry)

/-- Whether menus show hidden commands: by configuration, or by the environment. -/
def showHidden (engine : Engine) : Bool :=
  engine.config.showHidden ||
    Config.isFlagSet (engine.host.environment.get? showHiddenVariable)

def surroundings (engine : Engine) : Surroundings where
  registry := engine.registry
  showHidden := engine.showHidden
  program := engine.program
  silent := engine.silent
  errors := engine.errors

/-- The lines of the menu, for a program of a name. -/
def menu (engine : Engine) (program : Option String) : List Line :=
  let name := (program.filter fun name => !name.isEmpty).getD engine.program
  Menu.lines ⟨engine.registry.infos, engine.showHidden, name⟩

def groupMenu (engine : Engine) (group : String) (condition : CommandInfo → Bool)
    (showHidden : Bool) : List Line :=
  Menu.groupLines showHidden group (engine.registry.infos.filter condition)

/-- A run: the engine after it, the record in the order of time with the chain of each item, the number
of chains, and the result; a run that stalled has none. -/
structure Ran (α : Type) where
  engine : Engine
  record : List (Option Nat × Item)
  chains : Nat
  result : Option (Except Fault α)

/-- The chains of tokens; a token without elements makes none. -/
def chainsOf (registry : Registry) (tokens : List String) : List Chain :=
  (tokens.filter fun token => !(cascadeElements token).isEmpty).map (Chain.ofToken registry)

/-- The end of a batch as a run of the engine. -/
def ofBatch (engine : Engine) (batch : Batch) : Ran (List ChainResult) where
  engine := { engine with errors := batch.world.errors, calls := batch.world.calls }
  record := batch.world.shown
  chains := batch.world.strands.length
  result :=
    match batch.supervision with
    | .ended result => some result
    | _ => none

/-- Runs tokens as chains side by side. Without a token the menu is shown. The fuel bounds the number of
steps. -/
def run (fuel : Nat) (engine : Engine) (tokens : List String) : Ran (List ChainResult) :=
  if tokens.isEmpty then
    ⟨engine, (engine.menu none).map fun line => (none, .line line), 0, some (.ok [])⟩
  else
    engine.ofBatch
      (Batch.settle fuel
        (Batch.start engine.surroundings engine.exitOnError engine.calls
          (chainsOf engine.registry tokens)))

/-- Runs one command outside any chain. -/
def runCommand (fuel : Nat) (engine : Engine) (name : String) (given : GivenArguments) :
    Ran Value :=
  let ended :=
    SingleRun.settle fuel
      (SingleRun.start engine.surroundings engine.calls name given)
  { engine := { engine with errors := ended.world.errors, calls := ended.world.calls }
    record := ended.world.shown.map fun entry => (none, entry.2)
    chains := 0
    result := if ended.stalled then none else ended.result? }

end Engine

end Cascade
