import Cascade.Command.Basic

/-!
The registry: commands by name, in the order in which the names were registered first, and listeners
that are told of every registration.
-/

namespace Cascade

/-- Told of a command that was registered; leaves items in the record. -/
abbrev Listener := Command → List Item

/-- The registered commands in listing order, and the listeners in the order of their arrival. -/
structure Registry where
  commands : List Command
  listeners : List Listener

namespace Registry

def empty : Registry := ⟨[], []⟩

def get? (registry : Registry) (name : String) : Option Command :=
  registry.commands.find? fun command => command.name = name

/-- The command of a name, or the failure to find one. -/
def lookup (registry : Registry) (name : String) : Except Fault Command :=
  match registry.get? name with
  | some command => .ok command
  | none => .error (.unknownCommand name name)

/-- Puts a command in the place of the one with its name, or at the end. -/
def insert (command : Command) : List Command → List Command
  | [] => [command]
  | other :: rest =>
      if other.name = command.name then command :: rest else other :: insert command rest

/-- Registers a command and tells the listeners. -/
def add (command : Command) (registry : Registry) : Registry × List Item :=
  ({ registry with commands := insert command registry.commands },
    registry.listeners.flatMap fun listener => listener command)

/-- Registers a draft; one without a group of its own gets the given one. -/
def register (defaultGroup : String) (draft : Draft) (registry : Registry) :
    Except Fault (Command × Registry × List Item) := do
  let command ← draft.toCommand defaultGroup
  return (command, registry.add command)

/-- Adds a listener, which is told of every later registration. -/
def listen (listener : Listener) (registry : Registry) : Registry :=
  { registry with listeners := registry.listeners ++ [listener] }

def names (registry : Registry) : List String :=
  registry.commands.map Command.name

/-- The commands in listing order, without their code. -/
def infos (registry : Registry) : List CommandInfo :=
  registry.commands.map Command.info

/-- The commands that satisfy a condition, in listing order. -/
def listWhere (condition : Command → Bool) (registry : Registry) : List Command :=
  registry.commands.filter condition

/-- Hides the commands that satisfy a condition and tells how many there are. -/
def hideWhere (condition : Command → Bool) (registry : Registry) : Registry × Nat :=
  ({ registry with
      commands := registry.commands.map fun command =>
        if condition command then { command with hidden := true } else command },
    (registry.listWhere condition).length)

/-- The commands by group, the groups in the order of their first command. -/
def groups (registry : Registry) : Entries (List CommandInfo) :=
  Menu.grouped registry.infos

def size (registry : Registry) : Nat :=
  registry.commands.length

def contains (registry : Registry) (name : String) : Bool :=
  (registry.get? name).isSome

end Registry

end Cascade
