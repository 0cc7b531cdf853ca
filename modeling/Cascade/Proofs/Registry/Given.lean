import Cascade.Proofs.Reading.Written
import Cascade.Proofs.Registry.Startup

/-!
Engines on a given registry. What is registered with an engine, directly or by the setups of modules,
does not depend on the registry, and it extends the registry: names keep their places, a name stands
for what was registered last under it, and the listeners are told of every registration in order
(`Module.Effect`). An engine takes over the registry that it is given exactly if there is a command in it
or nobody listens to it (`Engine.continues_given`): of a registry without commands the listeners are lost.
-/

namespace Cascade

/-! ### Registries that are extended -/

namespace Registry

/-- What a setup does at one point: an item is shown, or a command is registered. -/
inductive Contribution
  | shown (item : Item)
  | registered (command : Command)

namespace Contribution

/-- The command that is registered, if one is. -/
def command? : Contribution → Option Command
  | shown _ => none
  | registered command => some command

/-- The items that are left: of a command that is registered each listener is told in turn. -/
def items (listeners : List Listener) : Contribution → List Item
  | shown item => [item]
  | registered command => listeners.flatMap fun listener => listener command

end Contribution

/-- The commands that are registered, in order. -/
def registeredIn (contributions : List Contribution) : List Command :=
  contributions.filterMap Contribution.command?

/-- A registry with further commands, registered one after the other. -/
def extended (registry : Registry) (commands : List Command) : Registry :=
  commands.foldl (fun registry command => (registry.add command).1) registry

section

variable (registry : Registry) (commands : List Command)

theorem extended_append (others : List Command) :
    registry.extended (commands ++ others) = (registry.extended commands).extended others :=
  List.foldl_append ..

theorem extended_concat (command : Command) :
    registry.extended (commands ++ [command]) = ((registry.extended commands).add command).1 :=
  List.foldl_concat ..

theorem listeners_extended : (registry.extended commands).listeners = registry.listeners := by
  induction commands using List.reverseRecOn with
  | nil => rfl
  | append_singleton commands command ih =>
      rw [extended_concat]
      exact ih

theorem get?_extended (name : String) :
    (registry.extended commands).get? name =
      (commands.reverse.find? fun command => command.name = name).or (registry.get? name) := by
  induction commands using List.reverseRecOn with
  | nil => rfl
  | append_singleton commands command ih =>
      rw [extended_concat, get?_add, ih, List.reverse_append, List.reverse_singleton,
        List.singleton_append, List.find?_cons]
      by_cases hname : command.name = name <;> simp [hname]

theorem names_extended :
    (registry.extended commands).names = registry.names ++
      ((commands.map Command.name).filter fun name => name ∉ registry.names).eraseDups := by
  induction commands using List.reverseRecOn with
  | nil => exact (List.append_nil _).symm
  | append_singleton commands command ih =>
      rw [extended_concat, names_add, ih, List.map_append, List.map_singleton, List.filter_append]
      by_cases hold : command.name ∈ registry.names
      · simp [hold]
      · have hnew : [command.name].filter (fun name => name ∉ registry.names) = [command.name] := by
          simp [hold]
        rw [hnew, eraseDups_concat]
        by_cases hcame : command.name ∈ commands.map Command.name
        · have hfound : command.name ∈
              (commands.map Command.name).filter fun name => name ∉ registry.names := by
            simpa [hold] using hcame
          rw [if_pos hfound, if_pos]
          exact List.mem_append_right _ (List.mem_eraseDups.mpr hfound)
        · have hfresh : command.name ∉
              (commands.map Command.name).filter fun name => name ∉ registry.names :=
            fun hmem => hcame (List.mem_filter.mp hmem).1
          rw [if_neg hfresh, if_neg, List.append_assoc]
          rw [List.mem_append, List.mem_eraseDups, not_or]
          exact ⟨hold, hfresh⟩

end

end Registry

/-! ### What operations contribute -/

open Registry (Contribution registeredIn)

/-- What a step of a setup contributes, if it does not fail. -/
def SetupStep.contribution? (group : String) : SetupStep → Option Contribution
  | .emit item => some (.shown item)
  | .register draft => (draft.toCommand group).toOption.map .registered
  | .fail _ => none

namespace Module

/-- What an operation does to any registry: its contributions in order, and whether it comes to its
end. -/
structure Effect where
  contributions : List Contribution
  completes : Bool

namespace Effect

def done : Effect :=
  ⟨[], true⟩

def refused : Effect :=
  ⟨[], false⟩

/-- One operation and then, if it comes to its end, another. -/
def andThen (first second : Effect) : Effect :=
  if first.completes then ⟨first.contributions ++ second.contributions, second.completes⟩ else first

/-- The steps of a setup up to the first that fails. -/
def ofSteps (group : String) (steps : List SetupStep) : Effect where
  contributions :=
    (steps.takeWhile fun step => (step.fault? group).isNone).filterMap
      (SetupStep.contribution? group)
  completes := steps.all fun step => (step.fault? group).isNone

def ofModule (config : Config) (module : CommandModule) (group : String) : Effect :=
  module.setup.elim refused fun setup => ofSteps group (setup ⟨group, config.moduleConfig group⟩)

/-- Whether a path leads to a module that can be imported. -/
def isImportable (files : FileTree) (path : Path) : Bool :=
  let file := if files.isDirectory path then path.child packageFile else path
  files.isFile file && file.suffix = moduleSuffix && (moduleAt files path).importFault.isNone

/-- Loading the module in a file or package. -/
def atPath (config : Config) (files : FileTree) (group : Option String) (path : Path) : Effect :=
  if isImportable files path then
    ofModule config (moduleAt files path) (group.getD (stemAt files path))
  else refused

/-- Loading modules one after the other. -/
def atPaths (config : Config) (files : FileTree) (paths : List Path) : Effect :=
  paths.foldr (fun path later => (atPath config files none path).andThen later) done

theorem andThen_done (effect : Effect) : effect.andThen done = effect := by
  obtain ⟨contributions, completes⟩ := effect
  cases completes <;> simp [andThen, done]

end Effect

/-- An operation that has an effect on a registry. -/
structure Change.Has {α : Type} (change : Change α) (before : Registry) (effect : Effect) : Prop where
  registry : change.registry = before.extended (registeredIn effect.contributions)
  items : change.items = effect.contributions.flatMap (Contribution.items before.listeners)
  completes : change.result.isOk = effect.completes

section

variable {α β : Type} {config : Config} {files : FileTree}

theorem Change.has_refused (registry : Registry) (fault : Fault) :
    (Change.refuse registry fault : Change α).Has registry .refused :=
  ⟨rfl, rfl, rfl⟩

theorem Change.Has.andThen {change : Change α} {next : α → Registry → Change β}
    {registry : Registry} {first second : Effect} (h : change.Has registry first)
    (hnext : ∀ (value : α) (registry : Registry), (next value registry).Has registry second) :
    (change.andThen next).Has registry (first.andThen second) := by
  obtain ⟨contributions, completes⟩ := first
  obtain ⟨hregistry, hitems, hcompletes⟩ := h
  rw [Change.andThen]
  cases hresult : change.result with
  | error fault =>
      rw [hresult] at hcompletes
      obtain rfl : completes = false := hcompletes.symm
      exact ⟨hregistry, hitems, rfl⟩
  | ok value =>
      rw [hresult] at hcompletes
      obtain rfl : completes = true := hcompletes.symm
      obtain ⟨hlater, hmore, hends⟩ := hnext value change.registry
      rw [hregistry, ← Registry.extended_append] at hlater
      rw [hregistry, Registry.listeners_extended] at hmore
      refine ⟨?_, ?_, hends⟩
      · rw [hregistry]
        exact hlater.trans (congrArg _ (List.filterMap_append ..).symm)
      · rw [hregistry, hitems]
        exact (congrArg _ hmore).trans List.flatMap_append.symm

theorem Change.Has.map {change : Change α} {registry : Registry} {effect : Effect}
    (h : change.Has registry effect) (value : α → β) :
    (change.andThen fun result registry => ⟨registry, [], .ok (value result)⟩).Has registry
      effect := by
  rw [← effect.andThen_done]
  exact h.andThen fun _ _ => ⟨rfl, rfl, rfl⟩

theorem has_runSetup (group : String) (steps : List SetupStep) (registry : Registry) :
    (runSetup group steps registry).Has registry (.ofSteps group steps) := by
  induction steps generalizing registry with
  | nil => exact ⟨rfl, rfl, rfl⟩
  | cons step rest ih =>
      cases step with
      | emit item =>
          obtain ⟨hregistry, hitems, hcompletes⟩ := ih registry
          exact ⟨hregistry, congrArg (item :: ·) hitems, hcompletes⟩
      | fail fault => exact ⟨rfl, rfl, rfl⟩
      | register draft =>
          rw [runSetup, Registry.register_eq, Effect.ofSteps, List.takeWhile_cons, List.all_cons]
          cases hcommand : draft.toCommand group with
          | error fault =>
              simp only [SetupStep.fault?, hcommand]
              exact ⟨rfl, rfl, rfl⟩
          | ok command =>
              obtain ⟨hregistry, hitems, hcompletes⟩ := ih (registry.add command).1
              simp only [SetupStep.fault?, hcommand, Option.isNone_none, if_true]
              rw [List.filterMap_cons_some (b := .registered command)
                (by rw [SetupStep.contribution?, hcommand]; rfl)]
              exact ⟨hregistry, congrArg ((registry.add command).2 ++ ·) hitems, hcompletes⟩

theorem isOk_mapError_map (change : α → β) (blame : Fault → Fault) (result : Except Fault α) :
    ((result.map change).mapError blame).isOk = result.isOk := by
  cases result <;> rfl

theorem has_load (module : CommandModule) (group : Option String) (registry : Registry) :
    (load config module group registry).Has registry
      (.ofModule config module (group.getD (CommandModule.lastPart module.name))) := by
  rw [load, Effect.ofModule]
  generalize group.getD (CommandModule.lastPart module.name) = group
  cases module.setup with
  | none => exact Change.has_refused ..
  | some setup =>
      obtain ⟨hregistry, hitems, hcompletes⟩ :=
        has_runSetup group (setup ⟨group, config.moduleConfig group⟩) registry
      exact ⟨hregistry, hitems, (isOk_mapError_map ..).trans hcompletes⟩

theorem has_loadNamed (importable : List CommandModule) (name : String) (group : Option String)
    (registry : Registry) :
    (loadNamed config importable name group registry).Has registry
      ((importable.find? fun module => module.name = name).elim .refused fun module =>
        .ofModule config module (group.getD (CommandModule.lastPart module.name))) := by
  rw [loadNamed]
  cases importable.find? fun module => module.name = name with
  | none => exact Change.has_refused ..
  | some module => exact has_load ..

theorem has_imported (config : Config) (module : CommandModule) (group : String)
    (blame : Fault → Fault) (registry : Registry) :
    Change.Has
      (match module.importFault with
        | some fault => .refuse registry (blame fault)
        | none => load config module (some group) registry)
      registry (if module.importFault.isNone then .ofModule config module group else .refused) := by
  cases module.importFault with
  | none => exact has_load module (some group) registry
  | some fault => exact Change.has_refused ..

theorem has_loadFile (path : Path) (group : Option String) (registry : Registry) :
    (loadFile config files path group registry).Has registry (.atPath config files group path) := by
  rw [loadFile, Effect.atPath, Effect.isImportable, FileTree.isFile, moduleAt]
  dsimp only
  generalize (if files.isDirectory path then path.child packageFile else path) = file
  cases hfound : files.find? file with
  | none => exact Change.has_refused ..
  | some found =>
      obtain ⟨names, node⟩ := found
      have hloaded := has_imported config
        (moduleOf (fileModuleName (stemAt files path)) node) (group.getD (stemAt files path))
        (fun fault => (Defect.notImported fault).fault files path) registry
      by_cases hsuffix : file.suffix = moduleSuffix
      · simp only [hsuffix, ne_eq, not_true_eq_false, if_false, decide_true, Bool.and_true,
          Option.map_some, Option.getD_some]
        cases node with
        | directory => exact Change.has_refused ..
        | file bytes => exact hloaded
        | moduleFile content => exact hloaded
      · simp only [hsuffix, ne_eq, not_false_eq_true, if_true, decide_false, Bool.and_false,
          Bool.false_and, Bool.false_eq_true, if_false]
        cases node with
        | directory => exact Change.has_refused ..
        | file bytes => exact Change.has_refused ..
        | moduleFile content => exact Change.has_refused ..

theorem has_loadAll (paths : List Path) (registry : Registry) :
    (loadAll config files paths registry).Has registry (.atPaths config files paths) := by
  induction paths generalizing registry with
  | nil => exact ⟨rfl, rfl, rfl⟩
  | cons path rest ih =>
      refine (has_loadFile path none registry).andThen fun group registry => ?_
      exact (ih registry).map (group :: ·)

end

end Module

/-! ### Engines -/

namespace Engine

open Cascade.Module (Effect)

/-- A registration with an engine, or the loading of modules: one that is given, one of a name, the one
in a file or package, or those of a directory. -/
inductive Operation
  | register (group : String) (draft : Draft)
  | loadModule (module : CommandModule) (group : Option String)
  | loadNamed (importable : List CommandModule) (name : String) (group : Option String)
  | loadFile (path : Path) (group : Option String)
  | loadDirectory (directory : Path)

/-- The engine after a change, and the items that the change left. -/
def Change.reached {α : Type} (change : Change α) : Engine × List Item :=
  (change.engine, change.items)

namespace Operation

def perform (engine : Engine) : Operation → Engine × List Item
  | register group draft => (engine.register group draft).reached
  | loadModule module group => (engine.loadModule module group).reached
  | loadNamed importable name group => (engine.loadNamed importable name group).reached
  | loadFile path group => (engine.loadFile path group).reached
  | loadDirectory directory => (engine.loadDirectory directory).reached

/-- The effect of an operation, by the settings and files of the engine. -/
def effect (config : Config) (files : FileTree) : Operation → Effect
  | register group draft => .ofSteps group [.register draft]
  | loadModule module group =>
      .ofModule config module (group.getD (CommandModule.lastPart module.name))
  | loadNamed importable name group =>
      (importable.find? fun module => module.name = name).elim .refused fun module =>
        .ofModule config module (group.getD (CommandModule.lastPart module.name))
  | loadFile path group => .atPath config files group path
  | loadDirectory directory => .atPaths config files (Module.modulesIn files directory)

end Operation

/-- Does operations one after the other, also after those that fail. -/
def performAll (engine : Engine) : List Operation → Engine × List Item
  | [] => (engine, [])
  | operation :: rest =>
      let first := operation.perform engine
      let later := performAll first.1 rest
      (later.1, first.2 ++ later.2)

/-- What operations contribute, in order. -/
def contributionsOf (config : Config) (files : FileTree) (operations : List Operation) :
    List Contribution :=
  operations.flatMap fun operation => (operation.effect config files).contributions

/-- The engine with what contributions add to its registry, and the items that they leave. -/
def contributed (engine : Engine) (contributions : List Contribution) : Engine × List Item :=
  ({ engine with registry := engine.registry.extended (registeredIn contributions) },
    contributions.flatMap (Contribution.items engine.registry.listeners))

variable (engine : Engine)

theorem contributed_append (first second : List Contribution) :
    engine.contributed (first ++ second) =
      (((engine.contributed first).1.contributed second).1,
        (engine.contributed first).2 ++ ((engine.contributed first).1.contributed second).2) := by
  simp only [contributed, registeredIn, List.filterMap_append, Registry.extended_append,
    List.flatMap_append, Registry.listeners_extended]

theorem reached_withRegistry {α : Type} {change : Module.Change α} {effect : Effect}
    (h : change.Has engine.registry effect) :
    (engine.withRegistry change).reached = engine.contributed effect.contributions := by
  rw [contributed, ← h.registry, ← h.items]
  rfl

theorem reached_register (group : String) (draft : Draft) :
    (engine.register group draft).reached =
      engine.contributed (Effect.ofSteps group [.register draft]).contributions := by
  rw [register, Registry.register_eq]
  cases hcommand : draft.toCommand group with
  | error fault =>
      have hnone : (Effect.ofSteps group [.register draft]).contributions = [] := by
        simp [Effect.ofSteps, SetupStep.fault?, hcommand]
      rw [hnone]
      rfl
  | ok command =>
      have hone : (Effect.ofSteps group [.register draft]).contributions = [.registered command] := by
        have hstep : SetupStep.contribution? group (.register draft) = some (.registered command) := by
          rw [SetupStep.contribution?, hcommand]
          rfl
        simp [Effect.ofSteps, SetupStep.fault?, hcommand, hstep]
      rw [hone, contributed, List.flatMap_singleton]
      rfl

theorem Operation.perform_eq (operation : Operation) : operation.perform engine =
    engine.contributed (operation.effect engine.config engine.host.files).contributions := by
  cases operation with
  | register group draft => exact engine.reached_register group draft
  | loadModule module group => exact engine.reached_withRegistry (Module.has_load ..)
  | loadNamed importable name group => exact engine.reached_withRegistry (Module.has_loadNamed ..)
  | loadFile path group => exact engine.reached_withRegistry (Module.has_loadFile ..)
  | loadDirectory directory => exact engine.reached_withRegistry (Module.has_loadAll ..)

theorem performAll_eq (operations : List Operation) : engine.performAll operations =
    engine.contributed (contributionsOf engine.config engine.host.files operations) := by
  induction operations generalizing engine with
  | nil => rfl
  | cons operation rest ih =>
      have hcons : contributionsOf engine.config engine.host.files (operation :: rest) =
          (operation.effect engine.config engine.host.files).contributions ++
            contributionsOf engine.config engine.host.files rest := List.flatMap_cons
      rw [performAll, operation.perform_eq, ih, hcons, contributed_append]
      rfl

/-! ### Engines on a given registry -/

/-- A registry that is the given one with the commands of contributions, and the items that these
left. -/
structure Continues (given : Registry) (contributions : List Contribution) (registry : Registry)
    (items : List Item) : Prop where
  /-- The names keep their places, and new ones follow in the order in which they come first. -/
  names : registry.names = given.names ++
    (((registeredIn contributions).map Command.name).filter fun name => name ∉ given.names).eraseDups
  /-- A name stands for what was registered last under it, and otherwise for what it stood for. -/
  get? (name : String) : registry.get? name =
    ((registeredIn contributions).reverse.find? fun command => command.name = name).or
      (given.get? name)
  /-- A command is still found under its name unless it was replaced. -/
  keeps (name : String) (command : Command) (hgiven : given.lookup name = .ok command)
    (hother : ∀ other ∈ registeredIn contributions, other.name ≠ name) :
    registry.lookup name = .ok command
  listeners : registry.listeners = given.listeners
  /-- Every listener is told of each registration once and in order. -/
  told : items = contributions.flatMap (Contribution.items given.listeners)

theorem registry_new (host : Config.Host) (config : Config) (given : Registry) :
    (new host config (some given)).registry =
      if given.commands = [] then Registry.empty else given := by
  obtain ⟨commands, listeners⟩ := given
  cases commands <;> rfl

theorem registry_new_eq_iff (host : Config.Host) (config : Config) (given : Registry) :
    (new host config (some given)).registry = given ↔
      given.commands ≠ [] ∨ given.listeners = [] := by
  rw [registry_new]
  obtain ⟨commands, listeners⟩ := given
  cases commands <;> simp [Registry.empty, eq_comm]

theorem listeners_new_eq_iff (host : Config.Host) (config : Config) (given : Registry) :
    (new host config (some given)).registry.listeners = given.listeners ↔
      (new host config (some given)).registry = given := by
  rw [registry_new_eq_iff, registry_new]
  split <;> simp [*, Registry.empty, eq_comm]

/-- What is registered with an engine on a given registry extends that registry, and each of its
listeners is told of it, exactly if there is a command in it or nobody listens to it. -/
theorem continues_given (host : Config.Host) (config : Config) (given : Registry)
    (operations : List Operation) :
    Continues given (contributionsOf config host.files operations)
        ((new host config (some given)).performAll operations).1.registry
        ((new host config (some given)).performAll operations).2 ↔
      given.commands ≠ [] ∨ given.listeners = [] := by
  rw [← registry_new_eq_iff host config given]
  have hreached : (new host config (some given)).performAll operations =
      (new host config (some given)).contributed (contributionsOf config host.files operations) :=
    performAll_eq _ operations
  rw [hreached, contributed]
  constructor
  · intro h
    exact (listeners_new_eq_iff host config given).mp
      ((Registry.listeners_extended ..).symm.trans h.listeners)
  · intro hgiven
    rw [hgiven]
    refine ⟨Registry.names_extended .., Registry.get?_extended _ _, ?_,
      Registry.listeners_extended .., rfl⟩
    intro name command hfound hother
    rw [Registry.lookup_eq_ok_iff] at hfound ⊢
    rw [Registry.get?_extended, hfound, List.find?_eq_none.mpr, Option.none_or]
    intro other hmem
    simpa using hother other (List.mem_reverse.mp hmem)

/-- A listener that prints the name of what is registered. -/
def herald : Listener :=
  fun command => [.printed .message command.name]

/-- A registration, and the loading of a directory with a module that takes the name of it. -/
def heraldedOperations : List Operation :=
  [.register "" Library.System.help, .loadDirectory ⟨"/", ["base"]⟩]

theorem continues_given_noteCommand :
    Continues ⟨[PlainCall.noteCommand], [herald]⟩
      (contributionsOf layeredConfig layeredModules.files heraldedOperations)
      ((new layeredModules layeredConfig (some ⟨[PlainCall.noteCommand], [herald]⟩)).performAll
        heraldedOperations).1.registry
      ((new layeredModules layeredConfig (some ⟨[PlainCall.noteCommand], [herald]⟩)).performAll
        heraldedOperations).2 :=
  (continues_given layeredModules layeredConfig ⟨[PlainCall.noteCommand], [herald]⟩
    heraldedOperations).mpr (.inl (List.cons_ne_nil _ _))

/-- The listeners of a registry without commands are lost. -/
theorem not_continues_empty_heralded :
    ¬ Continues ⟨[], [herald]⟩
      (contributionsOf layeredConfig layeredModules.files heraldedOperations)
      ((new layeredModules layeredConfig (some ⟨[], [herald]⟩)).performAll
        heraldedOperations).1.registry
      ((new layeredModules layeredConfig (some ⟨[], [herald]⟩)).performAll heraldedOperations).2 := by
  intro h
  have hlost : ((new layeredModules layeredConfig (some ⟨[], [herald]⟩)).performAll
      heraldedOperations).1.registry.listeners = [] := by
    rw [performAll_eq, contributed, Registry.listeners_extended, registry_new, if_pos rfl]
    rfl
  exact List.cons_ne_nil _ _ (h.listeners.symm.trans hlost)

end Engine

end Cascade
