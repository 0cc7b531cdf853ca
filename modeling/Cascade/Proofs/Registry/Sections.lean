import Cascade.Engine
import Cascade.Library.System
import Cascade.Proofs.Chain.Deeds
import Cascade.Proofs.Registry.Store
import Mathlib.Data.List.Nodup

/-!
The sections of a menu. Over any registry that operations made, the menu lists every command that it may
show once, in the section of its group, with groups and commands in ascending order; and help on a group
prints the section that the menu of all commands has for it (`menu_lists_once`).
-/

namespace Cascade

namespace Menu

/-- The lines above the sections: how the program is called, and what follows. -/
def header (program : String) : List Line :=
  [[⟨.menuHeader, "Format:  " ++ program ++ " [cmd1, cmd2, ...]\n"⟩],
    [⟨.menuHeader, "Available commands are:"⟩]]

/-- The lines of a section: a blank one, the name of the group in brackets, and for each command its
name and its help after four blanks. -/
def sectionLines (entry : String × List CommandInfo) : List Line :=
  [] :: [⟨.menuGroup, "[" ++ entry.1 ++ "]"⟩] :: entry.2.map fun command =>
    [⟨.plain, "    "⟩, ⟨.menuName, command.name⟩, ⟨.plain, ": "⟩, ⟨.menuHelp, command.help⟩]

/-- The sections of a menu: a group and the commands that are listed under it. -/
def sections (showHidden : Bool) (commands : List CommandInfo) : List (String × List CommandInfo) :=
  (((grouped commands).mergeSort fun left right => left.1 ≤ right.1).map fun group =>
    (group.1, visible showHidden group.2)).filter fun entry => !entry.2.isEmpty

/-- Sections that list the commands of a menu in order, each one once. -/
structure ListsOnce (showHidden : Bool) (commands : List CommandInfo)
    (sections : List (String × List CommandInfo)) : Prop where
  /-- No heading comes twice. -/
  ascending : sections.Pairwise fun left right => left.1 < right.1
  inhabited : ∀ entry ∈ sections, entry.2 ≠ []
  sorted : ∀ entry ∈ sections, entry.2.Pairwise fun left right => left.name < right.name
  /-- Under a heading are the commands of that group which are shown. -/
  belongs : ∀ entry ∈ sections, ∀ command, command ∈ entry.2 ↔
    command ∈ commands ∧ command.group = entry.1 ∧ (showHidden = true ∨ command.hidden = false)
  /-- The whole menu lists the commands that are shown and no other. -/
  complete : (sections.flatMap Prod.snd).Perm
    (commands.filter fun command => showHidden || !command.hidden)
  distinct : ((sections.flatMap Prod.snd).map CommandInfo.name).Nodup

/-! ### Lines -/

section

variable {showHidden : Bool} {commands : List CommandInfo}

theorem groupLines_eq (showHidden : Bool) (group : String) (commands : List CommandInfo) :
    groupLines showHidden group commands =
      if (visible showHidden commands).isEmpty then []
      else sectionLines (group, visible showHidden commands) := by
  rw [groupLines]
  cases visible showHidden commands <;> rfl

theorem flatMap_groupLines (showHidden : Bool) (groups : List (String × List CommandInfo)) :
    (groups.flatMap fun group => groupLines showHidden group.1 group.2) =
      ((groups.map fun group => (group.1, visible showHidden group.2)).filter fun entry =>
        !entry.2.isEmpty).flatMap sectionLines := by
  induction groups with
  | nil => rfl
  | cons group rest ih =>
      rw [List.flatMap_cons, ih, groupLines_eq, List.map_cons, List.filter_cons]
      cases (visible showHidden group.2).isEmpty <;> rfl

theorem lines_eq (view : MenuView) :
    lines view = header view.program ++
      (sections view.showHidden view.commands).flatMap sectionLines := by
  rw [lines, ofGroups, flatMap_groupLines]
  rfl

/-! ### Order -/

theorem mem_visible {command : CommandInfo} :
    command ∈ visible showHidden commands ↔
      command ∈ commands ∧ (showHidden = true ∨ command.hidden = false) := by
  rw [visible, List.mem_mergeSort, List.mem_filter, Bool.or_eq_true, Bool.not_eq_true']

theorem pairwise_visible (h : (commands.map CommandInfo.name).Nodup) :
    (visible showHidden commands).Pairwise fun left right => left.name < right.name :=
  pairwise_lt_mergeSort_by CommandInfo.name (h.sublist (List.filter_sublist.map _))

/-! ### Sections -/

theorem mem_grouped {entry : String × List CommandInfo} :
    entry ∈ grouped commands ↔ entry.1 ∈ commands.map CommandInfo.group ∧
      entry.2 = commands.filter fun command => command.group = entry.1 := by
  rw [grouped_eq, List.mem_map]
  constructor
  · rintro ⟨group, hmem, rfl⟩
    exact ⟨List.mem_eraseDups.mp hmem, rfl⟩
  · rintro ⟨hmem, hcommands⟩
    exact ⟨entry.1, List.mem_eraseDups.mpr hmem, Prod.ext rfl hcommands.symm⟩

theorem mem_sections {entry : String × List CommandInfo} :
    entry ∈ sections showHidden commands ↔ entry.2 ≠ [] ∧
      entry.2 = visible showHidden (commands.filter fun command => command.group = entry.1) := by
  rw [sections, List.mem_filter, Bool.not_eq_true', List.isEmpty_eq_false_iff, and_comm,
    List.mem_map]
  refine and_congr_right fun hinhabited => ⟨?_, fun h => ?_⟩
  · rintro ⟨group, hmem, rfl⟩
    rw [List.mem_mergeSort, mem_grouped] at hmem
    exact congrArg (visible showHidden) hmem.2
  · refine ⟨(entry.1, commands.filter fun command => command.group = entry.1), ?_,
      Prod.ext rfl h.symm⟩
    rw [List.mem_mergeSort, mem_grouped]
    refine ⟨?_, rfl⟩
    obtain ⟨command, hcommand⟩ := List.exists_mem_of_ne_nil _ hinhabited
    rw [h, mem_visible, List.mem_filter, decide_eq_true_eq] at hcommand
    exact List.mem_map.mpr ⟨command, hcommand.1⟩

theorem names_grouped (commands : List CommandInfo) : ((grouped commands).map Prod.fst).Nodup := by
  rw [grouped_eq, List.map_map]
  exact (List.map_id _).symm ▸ nodup_eraseDups _

theorem listsOnce_sections (showHidden : Bool) (h : (commands.map CommandInfo.name).Nodup) :
    ListsOnce showHidden commands (sections showHidden commands) := by
  have hascending : (sections showHidden commands).Pairwise fun left right => left.1 < right.1 := by
    refine List.Pairwise.filter _ (List.pairwise_map.mpr ?_)
    exact pairwise_lt_mergeSort_by Prod.fst (names_grouped commands)
  have hsorted : ∀ entry ∈ sections showHidden commands,
      entry.2.Pairwise fun left right => left.name < right.name := by
    intro entry hentry
    rw [(mem_sections.mp hentry).2]
    exact pairwise_visible (h.sublist (List.filter_sublist.map _))
  have hbelongs : ∀ entry ∈ sections showHidden commands, ∀ command, command ∈ entry.2 ↔
      command ∈ commands ∧ command.group = entry.1 ∧
        (showHidden = true ∨ command.hidden = false) := by
    intro entry hentry command
    rw [(mem_sections.mp hentry).2, mem_visible, List.mem_filter, decide_eq_true_eq, and_assoc]
  -- both lists are without repetitions, so that they have to agree on their members only
  have hcomplete : ((sections showHidden commands).flatMap Prod.snd).Perm
      (commands.filter fun command => showHidden || !command.hidden) := by
    refine (List.perm_ext_iff_of_nodup ?_ ((List.Nodup.of_map _ h).filter _)).mpr fun command => ?_
    · refine List.nodup_flatMap.mpr ⟨fun entry hentry => ?_, ?_⟩
      · refine (hsorted entry hentry).imp ?_
        rintro command other hlt rfl
        exact String.lt_irrefl _ hlt
      · refine hascending.imp_of_mem fun hleft hright hlt command hinleft hinright => ?_
        have hone := ((hbelongs _ hleft command).mp hinleft).2.1
        have hother := ((hbelongs _ hright command).mp hinright).2.1
        exact String.lt_irrefl _ ((hone.symm.trans hother) ▸ hlt)
    · rw [List.mem_flatMap, List.mem_filter, Bool.or_eq_true, Bool.not_eq_true']
      constructor
      · rintro ⟨entry, hentry, hcommand⟩
        obtain ⟨hmem, -, hshown⟩ := (hbelongs entry hentry command).mp hcommand
        exact ⟨hmem, hshown⟩
      · rintro ⟨hmem, hshown⟩
        have hcommand : command ∈ visible showHidden
            (commands.filter fun other => other.group = command.group) :=
          mem_visible.mpr ⟨List.mem_filter.mpr ⟨hmem, decide_eq_true rfl⟩, hshown⟩
        exact ⟨(command.group, _), mem_sections.mpr ⟨List.ne_nil_of_mem hcommand, rfl⟩, hcommand⟩
  refine ⟨hascending, fun entry hentry => (mem_sections.mp hentry).1, hsorted, hbelongs, hcomplete, ?_⟩
  exact ((hcomplete.map _).nodup_iff).mpr (h.sublist (List.filter_sublist.map _))

end

end Menu

/-! ### Help -/

namespace Library.System

/-- The ways of asking help for a group. -/
inductive AsksFor (group : String) : Arguments → Prop
  | byPosition : AsksFor group (.positional [group])
  | byName {values : Entries Value} (h : values.get? "group" = some (.text group)) :
      AsksFor group (.named values)

theorem helpLines_of_mem {view : MenuView} {command : CommandInfo} (hmem : command ∈ view.commands)
    (hgroup : command.group ≠ "") :
    ∃ entry ∈ Menu.sections true view.commands, entry.1 = command.group ∧
      helpLines (.text command.group) view = Menu.sectionLines entry := by
  have hof : command ∈ view.commands.filter fun other => other.group = command.group :=
    List.mem_filter.mpr ⟨hmem, decide_eq_true rfl⟩
  have hshown := List.ne_nil_of_mem (Menu.mem_visible.mpr ⟨hof, .inl (rfl : true = true)⟩)
  refine ⟨(command.group, _), Menu.mem_sections.mpr ⟨hshown, rfl⟩, rfl, ?_⟩
  have htrue : (Value.text command.group).isTrue = true := by
    simpa [Value.isTrue] using hgroup
  rw [helpLines, if_pos htrue]
  have hsome : (view.commands.filter fun other => other.group = command.group).isEmpty = false :=
    List.isEmpty_eq_false_iff.mpr (List.ne_nil_of_mem hof)
  refine (if_neg (Bool.eq_false_iff.mp hsome)).trans ((Menu.groupLines_eq ..).trans (if_neg ?_))
  exact Bool.eq_false_iff.mp (List.isEmpty_eq_false_iff.mpr hshown)

theorem AsksFor.check {group : String} {arguments : Arguments} (h : AsksFor group arguments) :
    helpSignature.check arguments.parameters.length = .ok () ∧
      askedGroup arguments.parameters = .text group := by
  cases h with
  | byPosition => exact ⟨rfl, rfl⟩
  | byName h =>
      refine ⟨rfl, ?_⟩
      rw [Arguments.parameters, askedGroup, h]
      rfl

theorem run_help {α : Type} {code : CommandCode} (hcode : help.code = some code) {group : String}
    {arguments : Arguments} (h : AsksFor group arguments) (scope : Scope) (world : World α) :
    (code.run arguments).run scope world =
      ({ world with
          record := ((helpLines (.text group) world.menuView).map fun line =>
            scope.occurrence (.item (.line line))).reverse ++ world.record },
        .ok (.value .null)) := by
  cases hcode
  obtain ⟨hcheck, hasked⟩ := h.check
  refine (Action.run_bind scope _ (Action.ofExcept _) world).trans ?_
  rw [Action.run_ofExcept, hcheck, hasked]
  refine (Action.run_bind scope _ (Action.emitAll _) world).trans ?_
  rw [Action.run_emitLines]
  rfl

end Library.System

/-! ### Engines -/

/-- The menus of an engine, and help in its runs. -/
structure Engine.ListsMenu (engine : Engine) : Prop where
  /-- The menu names the program as it is asked to, or else as the engine does. -/
  menu (program : Option String) : ∃ name,
    (program = some name ∧ name ≠ "" ∨ (program = none ∨ program = some "") ∧ name = engine.program) ∧
    engine.menu program = Menu.header name ++
      (Menu.sections engine.showHidden engine.registry.infos).flatMap Menu.sectionLines
  once (showHidden : Bool) : Menu.ListsOnce showHidden engine.registry.infos
    (Menu.sections showHidden engine.registry.infos)
  /-- Help on the group of a command prints the section that the menu of all commands has for it. -/
  help (command : CommandInfo) (hmem : command ∈ engine.registry.infos)
    (hgroup : command.group ≠ "") :
    ∃ entry ∈ Menu.sections true engine.registry.infos, entry.1 = command.group ∧
      ∃ code, Library.System.help.code = some code ∧
        ∀ arguments, Library.System.AsksFor command.group arguments →
          ∀ {α : Type} (scope : Scope) (world : World α), world.surroundings = engine.surroundings →
            (code.run arguments).run scope world =
              ({ world with
                  record := ((Menu.sectionLines entry).map fun line =>
                    scope.occurrence (.item (.line line))).reverse ++ world.record },
                .ok (.value .null))

/-- Whatever operations made the registry of an engine, its menus list every command that they may show
once, and help on a group prints the section of that group. -/
theorem menu_lists_once (engine : Engine) (operations : List Registry.Operation) :
    Engine.ListsMenu { engine with registry := (Registry.history operations).1 } := by
  have hnames : ((Registry.history operations).1.infos.map CommandInfo.name).Nodup := by
    rw [Registry.infos, List.map_map]
    exact Registry.nodup_names_history operations
  refine ⟨fun program => ⟨_, ?_, Menu.lines_eq _⟩,
    fun showHidden => Menu.listsOnce_sections showHidden hnames, fun command hmem hgroup => ?_⟩
  · rcases program with _ | name
    · exact .inr ⟨.inl rfl, rfl⟩
    · by_cases hname : name = ""
      · subst hname
        exact .inr ⟨.inr rfl, rfl⟩
      · have hkept : Option.filter (fun name => !name.isEmpty) (some name) = some name := by
          simpa [Option.filter] using hname
        rw [hkept]
        exact .inl ⟨rfl, hname⟩
  · let view : MenuView := ⟨(Registry.history operations).1.infos, engine.showHidden, engine.program⟩
    have hview : command ∈ view.commands := hmem
    obtain ⟨entry, hentry, hheading, hlines⟩ := Library.System.helpLines_of_mem hview hgroup
    refine ⟨entry, hentry, hheading, _, rfl, fun arguments hasks α scope world hworld => ?_⟩
    rw [Library.System.run_help rfl hasks, World.menuView, hworld, ← hlines]
    rfl

/-- A command of a name, a help, a group and a visibility. -/
def listedDraft (name help group : String) (hidden : Bool) : Draft :=
  { Library.System.help with
    name := .text name
    help := help
    group := some group
    hidden := hidden }

/-- Two commands of one group, one without a group, and a new command in place of the first. -/
def listedOperations : List Registry.Operation :=
  [.register "" (listedDraft "sub" "subtracts" "math" false),
    .register "" (listedDraft "add" "adds" "math" true),
    .register "" (listedDraft "note" "" "" false),
    .register "" (listedDraft "sub" "takes away" "" false)]

def listedEngine : Engine where
  host := ⟨⟨[], ⟨"/", []⟩⟩, [], "/"⟩
  config := .standard
  registry := (Registry.history listedOperations).1
  errors := .empty
  calls := []
  exitOnError := true
  silent := false
  program := "cmdlets"

/-- What is known of a command of a name, a help, a group and a visibility. -/
def listedInfo (name help group : String) (hidden : Bool) : CommandInfo where
  name := name
  help := help
  group := group
  hidden := hidden
  convention := .direct
  accepts := fun _ => true
  hasInitializer := false

theorem infos_listedEngine :
    listedEngine.registry.infos =
      [listedInfo "sub" "takes away" "" false, listedInfo "add" "adds" "math" true,
        listedInfo "note" "" "" false] :=
  rfl

theorem listedEngine_lists_once :
    listedEngine.ListsMenu ∧
      listedEngine.menu none =
        [[⟨.menuHeader, "Format:  cmdlets [cmd1, cmd2, ...]\n"⟩],
          [⟨.menuHeader, "Available commands are:"⟩],
          [],
          [⟨.menuGroup, "[]"⟩],
          [⟨.plain, "    "⟩, ⟨.menuName, "note"⟩, ⟨.plain, ": "⟩, ⟨.menuHelp, ""⟩],
          [⟨.plain, "    "⟩, ⟨.menuName, "sub"⟩, ⟨.plain, ": "⟩, ⟨.menuHelp, "takes away"⟩]] ∧
      Library.System.helpLines (.text "math")
          ⟨listedEngine.registry.infos, listedEngine.showHidden, listedEngine.program⟩ =
        [[],
          [⟨.menuGroup, "[math]"⟩],
          [⟨.plain, "    "⟩, ⟨.menuName, "add"⟩, ⟨.plain, ": "⟩, ⟨.menuHelp, "adds"⟩]] := by
  let addition := listedInfo "add" "adds" "math" true
  let note := listedInfo "note" "" "" false
  let subtraction := listedInfo "sub" "takes away" "" false
  have hgroups : Menu.grouped [subtraction, addition, note] =
      [("", [subtraction, note]), ("math", [addition])] := rfl
  have hshown : Menu.visible false [subtraction, note] = [note, subtraction] :=
    mergeSort_by_eq_of_perm _ (.swap ..) (by decide +kernel)
  have hhidden : Menu.visible false [addition] = [] := List.mergeSort_nil ..
  have hsorted : (Menu.grouped [subtraction, addition, note]).mergeSort
      (fun left right => left.1 ≤ right.1) =
        [("", [subtraction, note]), ("math", [addition])] :=
    mergeSort_by_eq_of_perm Prod.fst (.of_eq hgroups.symm) (by decide +kernel)
  have hsections : Menu.sections false [subtraction, addition, note] =
      [("", [note, subtraction])] := by
    rw [Menu.sections, hsorted, List.map_cons, List.map_singleton, hshown, hhidden]
    rfl
  have hall : Menu.visible true [addition] = [addition] := List.mergeSort_singleton ..
  refine ⟨menu_lists_once listedEngine listedOperations, ?_, ?_⟩
  · rw [Engine.menu, infos_listedEngine, Menu.lines_eq]
    exact congrArg (fun sections => _ ++ sections.flatMap Menu.sectionLines) hsections
  · rw [infos_listedEngine]
    change Menu.groupLines true "math" [addition] = _
    rw [Menu.groupLines_eq, hall]
    rfl

end Cascade
