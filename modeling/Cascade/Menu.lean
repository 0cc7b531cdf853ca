import Cascade.Command.Info

/-!
Menus: the commands of each group under a heading, groups and commands in ascending order of names.
-/

namespace Cascade

/-- What a menu is made from: the commands in listing order, whether the hidden ones are shown, and
the name of the program. -/
structure MenuView where
  commands : List CommandInfo
  showHidden : Bool
  program : String

namespace Menu

/-- Adds a command to the bucket of its group. -/
def addToGroup (groups : Entries (List CommandInfo)) (command : CommandInfo) :
    Entries (List CommandInfo) :=
  groups.put command.group (((groups.get? command.group).getD []) ++ [command])

/-- The commands by group, the groups in the order of their first command. -/
def grouped (commands : List CommandInfo) : Entries (List CommandInfo) :=
  commands.foldl addToGroup []

/-- The commands that are shown, sorted by name. -/
def visible (showHidden : Bool) (commands : List CommandInfo) : List CommandInfo :=
  (commands.filter fun command => showHidden || !command.hidden).mergeSort
    fun left right => left.name ≤ right.name

def commandLine (command : CommandInfo) : Line :=
  [⟨.plain, "    "⟩, ⟨.menuName, command.name⟩, ⟨.plain, ": "⟩, ⟨.menuHelp, command.help⟩]

/-- The section of one group, nothing when no command of it is shown. -/
def groupLines (showHidden : Bool) (group : String) (commands : List CommandInfo) : List Line :=
  match visible showHidden commands with
  | [] => []
  | shown => [] :: Line.of .menuGroup ("[" ++ group ++ "]") :: shown.map commandLine

/-- A menu of groups, sorted by the groups' names. -/
def ofGroups (program : String) (showHidden : Bool) (groups : Entries (List CommandInfo)) :
    List Line :=
  Line.of .menuHeader ("Format:  " ++ program ++ " [cmd1, cmd2, ...]\n") ::
    Line.of .menuHeader "Available commands are:" ::
    (groups.mergeSort fun left right => left.1 ≤ right.1).flatMap fun group =>
      groupLines showHidden group.1 group.2

def lines (view : MenuView) : List Line :=
  ofGroups view.program view.showHidden (grouped view.commands)

end Menu

end Cascade
