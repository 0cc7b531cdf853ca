import Cascade.CommandLine.Session
import Cascade.Proofs.Registry.Store
import Mathlib.Data.List.Basic

/-!
Sessions whose modules cannot all be loaded. What is wrong with a module is told from its content
alone: it cannot be imported, it has no setup, or a step of its setup fails. The first module in the
order of loading with such a defect ends the session before anything is run, and the defect is reported
as misuse. Only a setup that fails with one of the engine's own failures that is neither that of a
configuration nor that of a module, and a cancellation, go through the session unreported.
-/

namespace Cascade

/-- What a step of a setup fails with under a group, if it fails. -/
def SetupStep.fault? (group : String) : SetupStep → Option Fault
  | .emit _ => none
  | .register draft =>
      match draft.toCommand group with
      | .ok _ => none
      | .error fault => some fault
  | .fail fault => some fault

/-- The items that a step of a setup leaves. -/
def SetupStep.items : SetupStep → List Item
  | .emit item => [item]
  | _ => []

namespace Module

/-- What is wrong with a module. -/
inductive Defect
  | notImported (fault : Fault)
  | noSetup
  | setupFailed (fault : Fault)

/-- The name that a path gives to the module in it. -/
def stemAt (files : FileTree) (path : Path) : String :=
  if files.isDirectory path then path.name else path.stem

def moduleAt (files : FileTree) (path : Path) : CommandModule :=
  let file := if files.isDirectory path then path.child packageFile else path
  moduleOf (fileModuleName (stemAt files path)) (((files.find? file).map Prod.snd).getD .directory)

/-- What the setup of a module does, if the module can be imported and has one. -/
def setupAt (config : Config) (files : FileTree) (path : Path) : Option (List SetupStep) :=
  let module := moduleAt files path
  if module.importFault.isSome then none
  else module.setup.map fun setup =>
    setup ⟨stemAt files path, config.moduleConfig (stemAt files path)⟩

/-- What is wrong with the module in a file or package, if anything is. -/
def defect? (config : Config) (files : FileTree) (path : Path) : Option Defect :=
  let ofSetup : Option Defect := (setupAt config files path).elim (some .noSetup) fun steps =>
    (steps.findSome? (SetupStep.fault? (stemAt files path))).map .setupFailed
  (moduleAt files path).importFault.elim ofSetup fun fault => some (.notImported fault)

/-- The items that the setup of a module leaves up to its first step that fails. -/
def itemsAt (config : Config) (files : FileTree) (path : Path) : List Item :=
  let steps := (setupAt config files path).getD []
  (steps.takeWhile fun step => (step.fault? (stemAt files path)).isNone).flatMap SetupStep.items

/-- The module files and packages of directories in the order of loading. -/
def pathsIn (files : FileTree) (directories : List Path) : List Path :=
  directories.flatMap (modulesIn files)

namespace Defect

/-- The message about a module at a path that cannot be imported. -/
def importMessage (path : Path) (fault : Fault) : String :=
  "error importing command module " ++ path.toText ++ ": " ++ fault.message

/-- The message about a module of a name that has no setup. -/
def missingMessage (name : String) : String :=
  "command module " ++ quoted name ++ " has no setup() function"

/-- The message about a module of a name whose setup fails. -/
def setupMessage (name : String) (fault : Fault) : String :=
  name ++ ".setup() failed: " ++ fault.message

/-- The message about a module at a path that has a defect. -/
def message (files : FileTree) (path : Path) : Defect → String
  | notImported fault => importMessage path fault
  | noSetup => missingMessage (fileModuleName (stemAt files path))
  | setupFailed fault =>
      if fault.isOwn then fault.message
      else setupMessage (fileModuleName (stemAt files path)) fault

/-- The failure that goes through a session unreported: a cancellation, or one of the engine's own
failures in a setup that is neither that of a configuration nor that of a module. -/
def unreported? : Defect → Option Fault
  | notImported fault => if fault.isCancellation then some fault else none
  | noSetup => none
  | setupFailed fault =>
      if fault.isCancellation || (fault.isOwn && !CommandLine.Session.isMisuse fault) then some fault
      else none

/-- The failure to load a module at a path that has a defect. -/
def fault (files : FileTree) (path : Path) : Defect → Fault
  | notImported fault =>
      if fault.isCancellation then fault
      else .moduleLoad (importMessage path fault)
  | noSetup => .moduleLoad (missingMessage (fileModuleName (stemAt files path)))
  | setupFailed fault => setupFault (fileModuleName (stemAt files path)) fault

variable {files : FileTree} {path : Path} {defect : Defect}

theorem not_isMisuse_of_isCancellation {fault : Fault} (h : fault.isCancellation = true) :
    CommandLine.Session.isMisuse fault = false := by
  cases fault with
  | raised kind detail => simp [CommandLine.Session.isMisuse]
  | _ => simp [Fault.isCancellation] at h

theorem reported_moduleLoad (text : String) :
    CommandLine.Session.isMisuse (.moduleLoad text) = true ∧ (Fault.moduleLoad text).message = text :=
  ⟨rfl, rfl⟩

theorem isMisuse_fault (h : defect.unreported? = none) :
    CommandLine.Session.isMisuse (defect.fault files path) = true ∧
      (defect.fault files path).message = defect.message files path := by
  cases defect with
  | notImported fault =>
      have hordinary : ¬ fault.isCancellation = true := fun hcancelled => by
        simp [unreported?, hcancelled] at h
      rw [Defect.fault, if_neg hordinary]
      exact reported_moduleLoad _
  | noSetup =>
      rw [Defect.fault, Defect.message]
      exact reported_moduleLoad _
  | setupFailed fault =>
      have hordinary : ¬ fault.isCancellation = true := fun hcancelled => by
        simp [unreported?, hcancelled] at h
      rw [Defect.fault, setupFault, Defect.message]
      by_cases hown : fault.isOwn = true
      · have hmisuse : CommandLine.Session.isMisuse fault = true := by
          simpa [unreported?, hordinary, hown] using h
        rw [if_pos hown, hown, Bool.true_or, if_pos rfl]
        exact ⟨hmisuse, rfl⟩
      · have hneither : ¬ (fault.isOwn || fault.isCancellation) = true := by
          simp [hown, hordinary]
        rw [if_neg hown, if_neg hneither]
        exact reported_moduleLoad _

theorem not_isMisuse_fault {escaped : Fault} (h : defect.unreported? = some escaped) :
    defect.fault files path = escaped ∧ CommandLine.Session.isMisuse escaped = false := by
  cases defect with
  | notImported fault =>
      rw [unreported?] at h
      split at h
      · rename_i hcancelled
        obtain rfl := Option.some.inj h
        exact ⟨if_pos hcancelled, not_isMisuse_of_isCancellation hcancelled⟩
      · cases h
  | noSetup => cases h
  | setupFailed fault =>
      rw [unreported?] at h
      split at h
      · rename_i hthrough
        obtain rfl := Option.some.inj h
        rw [Bool.or_eq_true, Bool.and_eq_true, Bool.not_eq_true'] at hthrough
        rcases hthrough with hcancelled | ⟨hown, hother⟩
        · refine ⟨?_, not_isMisuse_of_isCancellation hcancelled⟩
          rw [Defect.fault, setupFault, hcancelled, Bool.or_true, if_pos rfl]
        · exact ⟨by rw [Defect.fault, setupFault, hown, Bool.true_or, if_pos rfl], hother⟩
      · cases h

end Defect

/-! ### Loading without listeners -/

/-- An operation on a registry without listeners leaves items and has a result, and there is still no
listener. -/
structure Change.Leaves {α : Type} (change : Change α) (items : List Item)
    (result : Except Fault α) : Prop where
  items : change.items = items
  result : change.result = result
  listeners : change.registry.listeners = []

section Leaves

variable {α β : Type} {change : Change α} {items more : List Item} {config : Config}
  {files : FileTree} {registry : Registry} {directory : Path}

theorem Change.Leaves.andThen {value : α} {next : α → Registry → Change β} {result : Except Fault β}
    (h : change.Leaves items (.ok value))
    (hnext : ∀ registry : Registry, registry.listeners = [] →
      (next value registry).Leaves more result) :
    (change.andThen next).Leaves (items ++ more) result := by
  obtain ⟨hitems, hresult, hlisteners⟩ := hnext change.registry h.listeners
  rw [Change.andThen, h.result, h.items]
  exact ⟨congrArg _ hitems, hresult, hlisteners⟩

theorem Change.Leaves.fails {fault : Fault} {next : α → Registry → Change β}
    (h : change.Leaves items (.error fault)) :
    (change.andThen next).Leaves items (.error fault) := by
  rw [Change.andThen, h.result]
  exact ⟨h.items, rfl, h.listeners⟩

theorem leaves_runSetup (group : String) (hlisteners : registry.listeners = [])
    (steps : List SetupStep) :
    (runSetup group steps registry).Leaves
      ((steps.takeWhile fun step => (step.fault? group).isNone).flatMap SetupStep.items)
      ((steps.findSome? (SetupStep.fault? group)).elim (.ok ()) .error) := by
  induction steps generalizing registry with
  | nil => exact ⟨rfl, rfl, hlisteners⟩
  | cons step rest ih =>
      cases step with
      | emit item =>
          obtain ⟨hitems, hresult, hlast⟩ := ih hlisteners
          exact ⟨congrArg (item :: ·) hitems, hresult, hlast⟩
      | fail fault => exact ⟨rfl, rfl, hlisteners⟩
      | register draft =>
          rw [runSetup, Registry.register_eq]
          cases hcommand : draft.toCommand group with
          | error fault =>
              have hfault : SetupStep.fault? group (.register draft) = some fault := by
                rw [SetupStep.fault?, hcommand]
              rw [List.takeWhile_cons_of_neg (by rw [hfault]; exact Bool.false_ne_true),
                List.findSome?_cons_of_isSome (by rw [hfault]; rfl), hfault]
              exact ⟨rfl, rfl, hlisteners⟩
          | ok command =>
              have hfault : SetupStep.fault? group (.register draft) = none := by
                rw [SetupStep.fault?, hcommand]
              have hadded : (registry.add command).1.listeners = [] := hlisteners
              obtain ⟨hitems, hresult, hlast⟩ := ih hadded
              rw [List.takeWhile_cons_of_pos (by rw [hfault]; rfl),
                List.findSome?_cons_of_isNone (by rw [hfault]; rfl)]
              refine ⟨?_, hresult, hlast⟩
              have hsilent : (registry.add command).2 = [] := by
                rw [Registry.add, hlisteners]
                rfl
              exact (congrArg (· ++ _) hsilent).trans hitems

/-- What loading a module in a file or package comes to: the group of the module, or its defect. -/
def loadedAt (config : Config) (files : FileTree) (path : Path) : Except Fault String :=
  (defect? config files path).elim (.ok (stemAt files path)) fun defect =>
    .error (defect.fault files path)

theorem suffix_child_packageFile (directory : Path) :
    (directory.child packageFile).suffix = moduleSuffix := by
  have hname : (directory.child packageFile).name = packageFile := by
    simp [Path.name, Path.child]
  rw [Path.suffix, hname]
  decide +kernel

theorem exists_of_isModule {name : String} (h : isModule files directory name = true) :
    let path := directory.child name
    let file := if files.isDirectory path then path.child packageFile else path
    (∃ names node, files.find? file = some (names, node) ∧ node ≠ .directory) ∧
      file.suffix = moduleSuffix := by
  have hfound : ∀ file : Path, files.isFile file = true →
      ∃ names node, files.find? file = some (names, node) ∧ node ≠ .directory := by
    intro file hfile
    rw [FileTree.isFile] at hfile
    split at hfile
    · rename_i names bytes hfind
      exact ⟨names, _, hfind, fun h => by cases h⟩
    · rename_i names content hfind
      exact ⟨names, _, hfind, fun h => by cases h⟩
    · cases hfile
  rw [isModule, Bool.and_eq_true] at h
  by_cases hpackage : files.isDirectory (directory.child name) = true
  · simp only [if_pos hpackage] at h ⊢
    exact ⟨hfound _ h.2, suffix_child_packageFile _⟩
  · simp only [if_neg hpackage, Bool.and_eq_true, decide_eq_true_eq] at h ⊢
    exact ⟨hfound _ h.2.1, h.2.2⟩

theorem loadFile_eq (config : Config) (registry : Registry) {name : String}
    (hmodule : isModule files directory name = true) :
    (moduleAt files (directory.child name)).name =
        fileModuleName (stemAt files (directory.child name)) ∧
      loadFile config files (directory.child name) none registry =
        match (moduleAt files (directory.child name)).importFault with
        | some fault =>
            .refuse registry ((Defect.notImported fault).fault files (directory.child name))
        | none =>
            load config (moduleAt files (directory.child name))
              (some (stemAt files (directory.child name))) registry := by
  obtain ⟨⟨names, node, hfind, hnode⟩, hsuffix⟩ := exists_of_isModule hmodule
  have hcontent : moduleAt files (directory.child name) =
      moduleOf (fileModuleName (stemAt files (directory.child name))) node := by
    simp only [moduleAt, hfind, Option.map_some, Option.getD_some]
  refine ⟨by rw [hcontent]; cases node <;> rfl, ?_⟩
  rw [hcontent]
  unfold loadFile
  simp only [hfind]
  cases node with
  | directory => exact absurd rfl hnode
  | file bytes =>
      simp only [hsuffix, ne_eq, not_true_eq_false, if_false]
      rfl
  | moduleFile content =>
      simp only [hsuffix, ne_eq, not_true_eq_false, if_false, moduleOf]
      cases content.importFault with
      | none => rfl
      | some fault =>
          simp only [Defect.fault]
          rfl

theorem leaves_loadFile (config : Config) (hlisteners : registry.listeners = [])
    {name : String} (hmodule : isModule files directory name = true) :
    (loadFile config files (directory.child name) none registry).Leaves
      (itemsAt config files (directory.child name)) (loadedAt config files (directory.child name)) := by
  obtain ⟨hname, hload⟩ := loadFile_eq config registry hmodule
  generalize directory.child name = path at *
  rw [hload, loadedAt, defect?, itemsAt, setupAt]
  cases himport : (moduleAt files path).importFault with
  | some fault =>
      simp only [Option.isSome_some, if_true, Option.getD_none, Option.elim_some]
      exact ⟨rfl, rfl, hlisteners⟩
  | none =>
      simp only [Option.isSome_none, Bool.false_eq_true, if_false, Option.elim_none]
      unfold load
      cases hsetup : (moduleAt files path).setup with
      | none =>
          simp only [hname, Option.map_none, Defect.fault]
          exact ⟨rfl, rfl, hlisteners⟩
      | some setup =>
          simp only [Option.map_some, Option.elim_some, hname, Option.getD_some]
          generalize setup ⟨stemAt files path, config.moduleConfig (stemAt files path)⟩ = steps
          obtain ⟨hitems, hresult, hlast⟩ := leaves_runSetup (stemAt files path) hlisteners steps
          refine ⟨hitems, ?_, hlast⟩
          rw [hresult]
          cases steps.findSome? (SetupStep.fault? (stemAt files path)) with
          | none => rfl
          | some fault => rfl

/-! ### Directories -/

theorem exists_of_mem_modulesIn {path : Path} (h : path ∈ modulesIn files directory) :
    ∃ name, isModule files directory name = true ∧ directory.child name = path := by
  obtain ⟨name, hname, rfl⟩ := List.mem_map.mp h
  exact ⟨name, (List.mem_filter.mp hname).2, rfl⟩

theorem Change.Leaves.ok {value : α} (h : change.Leaves items (.ok value))
    {next : α → Registry → Change β} {result : Except Fault β}
    (hnext : ∀ registry : Registry, registry.listeners = [] → (next value registry).Leaves [] result) :
    (change.andThen next).Leaves items result := by
  have h := h.andThen hnext
  rwa [List.append_nil] at h

theorem leaves_loadAll (config : Config) (hlisteners : registry.listeners = []) {paths : List Path}
    (hpaths : ∀ path ∈ paths, path ∈ modulesIn files directory)
    (hsound : ∀ path ∈ paths, defect? config files path = none) :
    (loadAll config files paths registry).Leaves (paths.flatMap (itemsAt config files))
      (.ok (paths.map (stemAt files))) := by
  induction paths generalizing registry with
  | nil => exact ⟨rfl, rfl, hlisteners⟩
  | cons path rest ih =>
      obtain ⟨name, hmodule, rfl⟩ := exists_of_mem_modulesIn (hpaths path List.mem_cons_self)
      have hfirst := leaves_loadFile config hlisteners hmodule
      rw [loadedAt, hsound _ List.mem_cons_self, Option.elim_none] at hfirst
      rw [loadAll, List.flatMap_cons, List.map_cons]
      refine hfirst.andThen fun registry hsilent => ?_
      refine Change.Leaves.ok (ih hsilent (fun other hmem => hpaths other (List.mem_cons_of_mem _ hmem))
        fun other hmem => hsound other (List.mem_cons_of_mem _ hmem)) fun registry hsilent => ?_
      exact ⟨rfl, rfl, hsilent⟩

theorem stops_loadAll (hlisteners : registry.listeners = []) {before after : List Path} {path : Path}
    {defect : Defect} (hpaths : ∀ other ∈ before ++ path :: after, other ∈ modulesIn files directory)
    (hsound : ∀ other ∈ before, defect? config files other = none)
    (hdefect : defect? config files path = some defect) :
    (loadAll config files (before ++ path :: after) registry).Leaves
      ((before ++ [path]).flatMap (itemsAt config files)) (.error (defect.fault files path)) := by
  induction before generalizing registry with
  | nil =>
      obtain ⟨name, hmodule, rfl⟩ := exists_of_mem_modulesIn (hpaths path List.mem_cons_self)
      have hfirst := leaves_loadFile config hlisteners hmodule
      rw [loadedAt, hdefect, Option.elim_some] at hfirst
      rw [List.nil_append, List.nil_append, List.flatMap_singleton, loadAll]
      exact hfirst.fails
  | cons first rest ih =>
      obtain ⟨name, hmodule, rfl⟩ := exists_of_mem_modulesIn (hpaths first List.mem_cons_self)
      have hfirst := leaves_loadFile config hlisteners hmodule
      rw [loadedAt, hsound _ List.mem_cons_self, Option.elim_none] at hfirst
      rw [List.cons_append, List.cons_append, List.flatMap_cons, loadAll]
      refine hfirst.andThen fun registry hsilent => ?_
      exact (ih hsilent (fun other hmem => hpaths other (List.mem_cons_of_mem _ hmem))
        fun other hmem => hsound other (List.mem_cons_of_mem _ hmem)).fails

theorem exists_first {paths : List Path} (h : ∃ path ∈ paths, defect? config files path ≠ none) :
    ∃ before path after defect, paths = before ++ path :: after ∧
      (∀ other ∈ before, defect? config files other = none) ∧
        defect? config files path = some defect := by
  induction paths with
  | nil =>
      obtain ⟨path, hmem, -⟩ := h
      cases hmem
  | cons first rest ih =>
      cases hfirst : defect? config files first with
      | some defect => exact ⟨[], first, rest, defect, rfl, (fun _ hmem => by cases hmem), hfirst⟩
      | none =>
          obtain ⟨path, hmem, hbroken⟩ := h
          have hlater : path ∈ rest := by
            rcases List.mem_cons.mp hmem with rfl | hmem
            · exact absurd hfirst hbroken
            · exact hmem
          obtain ⟨before, path, after, defect, rfl, hsound, hdefect⟩ := ih ⟨path, hlater, hbroken⟩
          refine ⟨first :: before, path, after, defect, rfl, fun other hmem => ?_, hdefect⟩
          rcases List.mem_cons.mp hmem with rfl | hmem
          · exact hfirst
          · exact hsound other hmem

theorem stops_loadDirectories {directories : List Path}
    (h : ∃ path ∈ pathsIn files directories, defect? config files path ≠ none) :
    ∃ before path after defect, pathsIn files directories = before ++ path :: after ∧
      (∀ other ∈ before, defect? config files other = none) ∧
      defect? config files path = some defect ∧
      ∀ registry : Registry, registry.listeners = [] →
        (loadDirectories config files directories registry).Leaves
          ((before ++ [path]).flatMap (itemsAt config files)) (.error (defect.fault files path)) := by
  induction directories with
  | nil =>
      obtain ⟨path, hmem, -⟩ := h
      cases hmem
  | cons directory rest ih =>
      rw [pathsIn, List.flatMap_cons] at h ⊢
      by_cases hhere : ∃ path ∈ modulesIn files directory, defect? config files path ≠ none
      · obtain ⟨before, path, after, defect, hpaths, hsound, hdefect⟩ := exists_first hhere
        refine ⟨before, path, after ++ rest.flatMap (modulesIn files), defect, by rw [hpaths]; simp,
          hsound, hdefect, fun registry hlisteners => ?_⟩
        rw [loadDirectories, loadDirectory, hpaths]
        exact (stops_loadAll hlisteners (fun other hmem => hpaths ▸ hmem) hsound hdefect).fails
      · have hfirst : ∀ path ∈ modulesIn files directory, defect? config files path = none :=
          fun path hmem => Classical.not_not.mp fun hbroken => hhere ⟨path, hmem, hbroken⟩
        obtain ⟨path, hmem, hbroken⟩ := h
        have hlater : path ∈ pathsIn files rest :=
          (List.mem_append.mp hmem).resolve_left fun hmem => hbroken (hfirst path hmem)
        obtain ⟨before, path, after, defect, hpaths, hsound, hdefect, hstops⟩ :=
          ih ⟨path, hlater, hbroken⟩
        refine ⟨modulesIn files directory ++ before, path, after, defect, ?_, fun other hmem =>
          (List.mem_append.mp hmem).elim (hfirst other) (hsound other), hdefect,
          fun registry hlisteners => ?_⟩
        · rw [List.append_assoc, ← hpaths, pathsIn]
        · rw [List.append_assoc, List.flatMap_append, loadDirectories, loadDirectory]
          exact (leaves_loadAll config hlisteners (fun _ h => h) hfirst).andThen hstops

end Leaves

theorem leaves_loadSystem (config : Config) :
    ∃ count, (loadSystem config Registry.empty).Leaves [] (.ok count) := by
  have hsteps : (runSetup systemGroup (Library.System.drafts.map SetupStep.register)
      Registry.empty).Leaves [] (.ok ()) := leaves_runSetup systemGroup rfl _
  have hload : (load config CommandModule.system (some systemGroup) Registry.empty).Leaves []
      (.ok systemGroup) := by
    obtain ⟨hitems, hresult, hlisteners⟩ := hsteps
    refine ⟨hitems, ?_, hlisteners⟩
    have hloaded : (load config CommandModule.system (some systemGroup) Registry.empty).result =
        ((runSetup systemGroup (Library.System.drafts.map SetupStep.register)
          Registry.empty).result.map fun _ => systemGroup).mapError (setupFault "sys") := rfl
    rw [hloaded, hresult]
    rfl
  rw [loadSystem, Change.andThen, hload.result]
  exact ⟨_, hload.items, rfl, hload.listeners⟩

end Module

theorem Engine.create_of_broken (host : Config.Host) (config : Config) {directories : List Path}
    {items : List Item} {fault : Fault}
    (h : ∀ registry : Registry, registry.listeners = [] →
      (Module.loadDirectories config host.files
        (config.moduleDirectories.map Path.ofText ++ directories) registry).Leaves items
          (.error fault)) :
    (Engine.create host config directories).items = items ∧
      (Engine.create host config directories).result = .error fault := by
  obtain ⟨count, hsystem⟩ := Module.leaves_loadSystem config
  have hcreated : ((Module.loadSystem config Registry.empty).andThen fun _ registry =>
      Module.loadDirectories config host.files
        (config.moduleDirectories.map Path.ofText ++ directories) registry).Leaves ([] ++ items)
          (.error fault) := hsystem.andThen h
  exact ⟨hcreated.items, hcreated.result⟩

namespace CommandLine.Session

/-- The module files and packages that a session loads, in the order of loading. -/
def modulePaths (host : Config.Host) (options : Options) (config : Config) : List Path :=
  Module.pathsIn host.files
    (config.moduleDirectories.map Path.ofText ++ options.moduleDirectories)

open Cascade.Module in
/-- The configuration of a session can be loaded, and one of its modules has a defect. Then the session
ends at the first such module in the order of loading, and no chain is started. The defect is reported
by one line after what the setups have left, and the exit code is that of misuse; but a failure that
is not reported goes through the session. -/
theorem ends_at_broken_module (fuel : Nat) (host : Config.Host) (options : Options) {config : Config}
    (hconfig : (Config.load host options.config none).result = .ok config)
    (hbroken : ∃ path ∈ modulePaths host options config,
      defect? (configured options config) host.files path ≠ none) :
    ∃ before path after defect, modulePaths host options config = before ++ path :: after ∧
      (∀ other ∈ before, defect? (configured options config) host.files other = none) ∧
      defect? (configured options config) host.files path = some defect ∧
      ∃ items, items = (Config.load host options.config none).warnings.map Item.warning ++
          (before ++ [path]).flatMap (itemsAt (configured options config) host.files) ∧
        (defect.unreported? = none → run fuel host options =
          ⟨apart (items ++ [.printed .error ("Error: " ++ defect.message host.files path)]), 0,
            some (.ok misuseCode)⟩) ∧
        ∀ fault, defect.unreported? = some fault →
          run fuel host options = ⟨apart items, 0, some (.error fault)⟩ := by
  obtain ⟨before, path, after, defect, hpaths, hsound, hdefect, hstops⟩ :=
    stops_loadDirectories hbroken
  obtain ⟨hitems, hresult⟩ := Engine.create_of_broken host (configured options config) hstops
  have hrun : run fuel host options = refused
      ((Config.load host options.config none).warnings.map Item.warning ++
        (before ++ [path]).flatMap (itemsAt (configured options config) host.files))
      (defect.fault host.files path) := by
    simp only [run, hconfig, hresult, hitems]
  refine ⟨before, path, after, defect, hpaths, hsound, hdefect, _, rfl, fun hreported => ?_,
    fun fault hescapes => ?_⟩
  · obtain ⟨hmisuse, hmessage⟩ := Defect.isMisuse_fault hreported
    rw [hrun, refused, if_pos hmisuse, hmessage]
  · obtain ⟨hfault, hother⟩ := Defect.not_isMisuse_fault hescapes
    rw [hrun, hfault, refused, if_neg (by rw [hother]; exact Bool.false_ne_true)]

/-- A host whose only files are the modules in one directory. -/
def hostOf (modules : List (String × CommandModule)) : Config.Host where
  files :=
    ⟨(["mods"], .directory) :: modules.map fun entry => (["mods", entry.1], .moduleFile entry.2),
      ⟨"/", []⟩⟩
  environment := []
  home := "/"

/-- A command line that names that directory and one invocation. -/
def optionsWithModules : Options :=
  { Options.standard with invocations := ["help"], moduleDirectories := [⟨"/", ["mods"]⟩] }

theorem mem_modulePaths {modules : List (String × CommandModule)} {entry : String × CommandModule}
    (hentry : entry ∈ modules)
    (hmodule : Module.isModule (hostOf modules).files ⟨"/", ["mods"]⟩ entry.1 = true) :
    ⟨"/", ["mods", entry.1]⟩ ∈ modulePaths (hostOf modules) optionsWithModules Config.standard := by
  refine List.mem_flatMap.mpr ⟨⟨"/", ["mods"]⟩, List.mem_singleton_self _, ?_⟩
  refine List.mem_map_of_mem (List.mem_filter.mpr ⟨List.mem_mergeSort.mpr ?_, hmodule⟩)
  refine List.mem_filterMap.mpr ⟨(["mods", entry.1], .moduleFile entry.2), ?_, by simp⟩
  exact List.mem_cons_of_mem _ (List.mem_map_of_mem hentry)

/-- A module after a sound one has no setup. -/
def lameHost : Config.Host :=
  hostOf [("hello.py", CommandModule.greeting), ("lame.py", CommandModule.withoutSetup "lame")]

/-- The session ends at the module without a setup. -/
theorem ends_at_lame_module :
    (Config.load lameHost optionsWithModules.config none).result = .ok Config.standard ∧
      (∃ path ∈ modulePaths lameHost optionsWithModules Config.standard,
        Module.defect? (configured optionsWithModules Config.standard) lameHost.files path ≠ none) ∧
      (run 0 lameHost optionsWithModules).chains = 0 := by
  have hconfig : (Config.load lameHost optionsWithModules.config none).result =
      .ok Config.standard := rfl
  have hdefect : (Module.defect? (configured optionsWithModules Config.standard) lameHost.files
      ⟨"/", ["mods", "lame.py"]⟩).isSome = true := by
    decide +kernel
  have hbroken : ∃ path ∈ modulePaths lameHost optionsWithModules Config.standard,
      Module.defect? (configured optionsWithModules Config.standard) lameHost.files path ≠ none :=
    ⟨⟨"/", ["mods", "lame.py"]⟩,
      mem_modulePaths (List.mem_cons_of_mem _ List.mem_cons_self) (by decide +kernel),
      Option.isSome_iff_ne_none.mp hdefect⟩
  refine ⟨hconfig, hbroken, ?_⟩
  obtain ⟨before, path, after, defect, -, -, -, items, -, hreported, hescapes⟩ :=
    ends_at_broken_module 0 lameHost optionsWithModules hconfig hbroken
  cases hfault : defect.unreported? with
  | none => rw [hreported hfault]
  | some fault => rw [hescapes fault hfault]

/-- A session that ends because of misuse: one line reports it, and no chain is started. -/
def ReportsMisuse (session : Session) : Prop :=
  ∃ items message, session =
    ⟨apart (items ++ [.printed .error ("Error: " ++ message)]), 0, some (.ok misuseCode)⟩

/-- The setup of a module registers a command without a name. -/
def namelessHost : Config.Host :=
  hostOf [("bad.py", CommandModule.ofDrafts "bad" fun _ =>
    [{ Library.System.help with name := .text "" }])]

/-- A command without a name is not reported as misuse: its refusal goes through the session. -/
theorem nameless_command_goes_through :
    (Config.load namelessHost optionsWithModules.config none).result = .ok Config.standard ∧
      (∃ path ∈ modulePaths namelessHost optionsWithModules Config.standard,
        Module.defect? (configured optionsWithModules Config.standard) namelessHost.files path ≠
          none) ∧
      ¬ ReportsMisuse (run 0 namelessHost optionsWithModules) ∧
      (run 0 namelessHost optionsWithModules).result =
        some (.error (.descriptor "command name must be a non-empty string: ''")) := by
  have hresult : (run 0 namelessHost optionsWithModules).result =
      some (.error (.descriptor "command name must be a non-empty string: ''")) := by
    decide +kernel
  refine ⟨rfl, ?_, fun hreports => ?_, hresult⟩
  · exact ⟨⟨"/", ["mods", "bad.py"]⟩, mem_modulePaths List.mem_cons_self (by decide +kernel),
      Option.isSome_iff_ne_none.mp (by decide +kernel)⟩
  · obtain ⟨items, message, hsession⟩ := hreports
    rw [hsession] at hresult
    cases hresult

end CommandLine.Session

end Cascade
