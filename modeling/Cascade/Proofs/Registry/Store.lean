import Cascade.Registry
import Cascade.Menu
import Cascade.Proofs.Registry.Entries

/-!
The registry as a store. All that a registry answers is determined by the operations that made it: the
names come in the order of their first registration, a name stands for what was registered under it
last, and only a condition that hides it has changed it since (`recalls_history`).
-/

namespace Cascade

namespace Menu

variable {commands : List CommandInfo}

/-- A bucket for each group, in the order of the first commands, with the commands of the group. -/
theorem grouped_eq (commands : List CommandInfo) :
    grouped commands = (commands.map CommandInfo.group).eraseDups.map fun group =>
      (group, commands.filter fun command => command.group = group) := by
  induction commands using List.reverseRecOn with
  | nil => rfl
  | append_singleton commands command ih =>
      have hbucket : ((grouped commands).get? command.group).getD [] =
          commands.filter fun other => other.group = command.group := by
        rw [ih, Entries.get?_map_keys]
        split
        · rfl
        · rename_i hnew
          rw [List.mem_eraseDups] at hnew
          refine (List.filter_eq_nil_iff.mpr ?_).symm
          intro other hother hgroup
          exact hnew (List.mem_map.mpr ⟨other, hother, of_decide_eq_true hgroup⟩)
      have hstep : grouped (commands ++ [command]) = addToGroup (grouped commands) command :=
        List.foldl_concat ..
      rw [hstep, addToGroup, hbucket, ih, Entries.put_map_keys _ _ _ (nodup_eraseDups _),
        List.map_append, List.map_singleton, eraseDups_concat]
      simp only [List.mem_eraseDups]
      refine List.map_congr_left fun group _ => ?_
      by_cases h : group = command.group
      · simp [h]
      · simp [h, Ne.symm h]

end Menu

namespace Registry

/-! ### Histories -/

/-- An operation on a registry. -/
inductive Operation
  | register (group : String) (draft : Draft)
  | hide (condition : Command → Bool)
  | listen (listener : Listener)

namespace Operation

/-- The command that an operation registers, if it registers one. -/
def given? : Operation → Option Command
  | register group draft => (draft.toCommand group).toOption
  | _ => none

/-- Whether an operation hides a command. -/
def hides (command : Command) : Operation → Bool
  | hide condition => condition command
  | _ => false

/-- The listener that an operation adds, if it adds one. -/
def listener? : Operation → Option Listener
  | listen listener => some listener
  | _ => none

/-- Does an operation, on a registry and after the items that are left so far. -/
def apply (reached : Registry × List Item) : Operation → Registry × List Item
  | register group draft =>
      match reached.1.register group draft with
      | .ok (_, registry, items) => (registry, reached.2 ++ items)
      | .error _ => reached
  | hide condition => ((reached.1.hideWhere condition).1, reached.2)
  | listen listener => (reached.1.listen listener, reached.2)

end Operation

/-- The registry that operations make, and the items that listeners leave meanwhile. -/
def history (operations : List Operation) : Registry × List Item :=
  operations.foldl Operation.apply (empty, [])

/-- The commands that operations register, in order. -/
def givenIn (operations : List Operation) : List Command :=
  operations.filterMap Operation.given?

/-- A command, hidden if it was so or a condition holds of it. -/
def hiddenIf (condition : Command → Bool) (command : Command) : Command :=
  { command with hidden := command.hidden || condition command }

/-- What the last registration of a name left: the command that was given, hidden if it was given so or
an operation since then hides it. As long as no operation hides it nothing changes it, so each one is
asked about the command as it was given. -/
def IsLatest (operations : List Operation) (name : String) (command : Command) : Prop :=
  ∃ before operation after given, operations = before ++ operation :: after ∧
    operation.given? = some given ∧ given.name = name ∧
    (∀ other ∈ givenIn after, other.name ≠ name) ∧
    command = hiddenIf (fun given => after.any (Operation.hides given)) given

/-- What is told to the listeners: for each registration in order, every listener that was added before
it. -/
def toldIn (operations : List Operation) : List Item :=
  (List.range operations.length).flatMap fun index =>
    (operations[index]?.bind Operation.given?).toList.flatMap fun command =>
      ((operations.take index).filterMap Operation.listener?).flatMap fun listener =>
        listener command

/-! ### One operation -/

section

variable {registry : Registry} {command given : Command} {name : String} {operation : Operation}
  {operations : List Operation}

theorem register_eq (group : String) (draft : Draft) (registry : Registry) :
    registry.register group draft =
      (draft.toCommand group).map fun command => (command, registry.add command) := by
  rw [register]
  cases draft.toCommand group <;> rfl

theorem map_name_insert (command : Command) (commands : List Command) :
    (insert command commands).map Command.name =
      if command.name ∈ commands.map Command.name then commands.map Command.name
      else commands.map Command.name ++ [command.name] := by
  induction commands with
  | nil => rfl
  | cons other rest ih =>
      rw [insert]
      by_cases h : other.name = command.name
      · simp [h]
      · have hne : command.name ≠ other.name := Ne.symm h
        rw [if_neg h, List.map_cons, ih, List.map_cons]
        by_cases hmem : command.name ∈ rest.map Command.name
        · rw [if_pos hmem, if_pos (List.mem_cons_of_mem _ hmem)]
        · rw [if_neg hmem, if_neg (List.not_mem_cons_of_ne_of_not_mem hne hmem)]
          rfl

theorem find?_insert (command : Command) (commands : List Command) (name : String) :
    ((insert command commands).find? fun other => other.name = name) =
      if command.name = name then some command
      else commands.find? fun other => other.name = name := by
  induction commands with
  | nil => by_cases h : command.name = name <;> simp [insert, h]
  | cons other rest ih =>
      rw [insert]
      by_cases hother : other.name = command.name
      · by_cases h : command.name = name <;> simp [hother, h]
      · rw [if_neg hother, List.find?_cons, List.find?_cons, ih]
        by_cases h : command.name = name
        · have hne : other.name ≠ name := fun heq => hother (heq.trans h.symm)
          simp [h, hne]
        · simp [h]

theorem names_add (command : Command) (registry : Registry) :
    (registry.add command).1.names =
      if command.name ∈ registry.names then registry.names else registry.names ++ [command.name] :=
  map_name_insert command registry.commands

theorem get?_add (command : Command) (registry : Registry) (name : String) :
    (registry.add command).1.get? name =
      if command.name = name then some command else registry.get? name :=
  find?_insert command registry.commands name

theorem hiddenIf_false (command : Command) : hiddenIf (fun _ => false) command = command := by
  rw [hiddenIf, Bool.or_false]

theorem map_hiddenIf_false (found : Option Command) :
    found.map (hiddenIf fun _ => false) = found := by
  cases found with
  | none => rfl
  | some command => exact congrArg some (hiddenIf_false command)

theorem hiddenIf_hiddenIf (first second : Command → Bool) (command : Command) :
    hiddenIf second (hiddenIf first command) =
      hiddenIf (fun command => first command || second command) command := by
  cases hhidden : command.hidden || first command with
  | false =>
      obtain ⟨hcommand, hfirst⟩ := (Bool.or_eq_false_iff ..).mp hhidden
      have hsame : hiddenIf first command = command := by
        rw [hiddenIf, hfirst, Bool.or_false]
      rw [hsame, hiddenIf, hiddenIf, hfirst, Bool.false_or]
  | true => simp only [hiddenIf, hhidden, Bool.true_or, ← Bool.or_assoc]

theorem commands_hideWhere (condition : Command → Bool) (registry : Registry) :
    (registry.hideWhere condition).1.commands = registry.commands.map (hiddenIf condition) := by
  refine List.map_congr_left fun command _ => ?_
  cases h : condition command <;> simp [hiddenIf, h]

theorem names_hideWhere (condition : Command → Bool) (registry : Registry) :
    (registry.hideWhere condition).1.names = registry.names := by
  rw [names, commands_hideWhere, List.map_map]
  rfl

theorem get?_hideWhere (condition : Command → Bool) (registry : Registry) (name : String) :
    (registry.hideWhere condition).1.get? name = (registry.get? name).map (hiddenIf condition) := by
  rw [get?, commands_hideWhere, List.find?_map]
  rfl

namespace Operation

variable {group : String} {draft : Draft} (reached : Registry × List Item)

theorem given?_of_accepted (h : draft.toCommand group = .ok given) :
    (register group draft).given? = some given := by
  rw [given?, h]
  rfl

theorem given?_of_refused {fault : Fault} (h : draft.toCommand group = .error fault) :
    (register group draft).given? = none := by
  rw [given?, h]
  rfl

theorem apply_of_accepted (h : draft.toCommand group = .ok given) :
    apply reached (register group draft) =
      ((reached.1.add given).1, reached.2 ++ (reached.1.add given).2) := by
  rw [apply, register_eq, h]
  rfl

theorem apply_of_refused {fault : Fault} (h : draft.toCommand group = .error fault) :
    apply reached (register group draft) = reached := by
  rw [apply, register_eq, h]
  rfl

theorem names_apply (operation : Operation) :
    (apply reached operation).1.names =
      match operation.given? with
      | some given =>
          if given.name ∈ reached.1.names then reached.1.names
          else reached.1.names ++ [given.name]
      | none => reached.1.names := by
  cases operation with
  | register group draft =>
      cases hcommand : draft.toCommand group with
      | ok given => rw [apply_of_accepted reached hcommand, given?_of_accepted hcommand, names_add]
      | error fault => rw [apply_of_refused reached hcommand, given?_of_refused hcommand]
  | hide condition => exact names_hideWhere condition reached.1
  | listen listener => rfl

theorem get?_apply (operation : Operation) (name : String) :
    (apply reached operation).1.get? name =
      match operation.given? with
      | some given => if given.name = name then some given else reached.1.get? name
      | none => (reached.1.get? name).map (hiddenIf fun command => operation.hides command) := by
  cases operation with
  | register group draft =>
      cases hcommand : draft.toCommand group with
      | ok given => rw [apply_of_accepted reached hcommand, given?_of_accepted hcommand, get?_add]
      | error fault =>
          rw [apply_of_refused reached hcommand, given?_of_refused hcommand]
          exact (map_hiddenIf_false _).symm
  | hide condition => exact get?_hideWhere condition reached.1 name
  | listen listener => exact (map_hiddenIf_false _).symm

theorem listeners_apply (operation : Operation) :
    (apply reached operation).1.listeners = reached.1.listeners ++ operation.listener?.toList := by
  cases operation with
  | register group draft =>
      cases hcommand : draft.toCommand group with
      | ok given =>
          rw [apply_of_accepted reached hcommand]
          exact (List.append_nil _).symm
      | error fault =>
          rw [apply_of_refused reached hcommand]
          exact (List.append_nil _).symm
  | hide condition => exact (List.append_nil _).symm
  | listen listener => rfl

theorem items_apply (operation : Operation) :
    (apply reached operation).2 = reached.2 ++ operation.given?.toList.flatMap fun command =>
      reached.1.listeners.flatMap fun listener => listener command := by
  cases operation with
  | register group draft =>
      cases hcommand : draft.toCommand group with
      | ok given =>
          rw [apply_of_accepted reached hcommand, given?_of_accepted hcommand, Option.toList_some,
            List.flatMap_singleton]
          rfl
      | error fault =>
          rw [apply_of_refused reached hcommand, given?_of_refused hcommand]
          exact (List.append_nil _).symm
  | hide condition => exact (List.append_nil _).symm
  | listen listener => exact (List.append_nil _).symm

end Operation

/-! ### Histories of any length -/

theorem history_concat (operations : List Operation) (operation : Operation) :
    history (operations ++ [operation]) = Operation.apply (history operations) operation :=
  List.foldl_concat ..

theorem givenIn_concat (operations : List Operation) (operation : Operation) :
    givenIn (operations ++ [operation]) = givenIn operations ++ operation.given?.toList := by
  rw [givenIn, List.filterMap_append, ← givenIn]
  cases h : operation.given? <;> simp [h]

theorem names_history (operations : List Operation) :
    (history operations).1.names = ((givenIn operations).map Command.name).eraseDups := by
  induction operations using List.reverseRecOn with
  | nil => rfl
  | append_singleton operations operation ih =>
      rw [history_concat, Operation.names_apply, givenIn_concat, ih]
      cases operation.given? with
      | none => rw [Option.toList_none, List.append_nil]
      | some given =>
          rw [Option.toList_some, List.map_append, List.map_singleton, eraseDups_concat]
          simp only [List.mem_eraseDups]

theorem listeners_history (operations : List Operation) :
    (history operations).1.listeners = operations.filterMap Operation.listener? := by
  induction operations using List.reverseRecOn with
  | nil => rfl
  | append_singleton operations operation ih =>
      rw [history_concat, Operation.listeners_apply, ih, List.filterMap_append]
      cases h : operation.listener? <;> simp [h]

theorem toldIn_concat (operations : List Operation) (operation : Operation) :
    toldIn (operations ++ [operation]) =
      toldIn operations ++ operation.given?.toList.flatMap fun command =>
        (operations.filterMap Operation.listener?).flatMap fun listener => listener command := by
  have hbefore : ∀ index ∈ List.range operations.length,
      (operations ++ [operation])[index]? = operations[index]? ∧
        (operations ++ [operation]).take index = operations.take index := by
    intro index hindex
    have hlt := List.mem_range.mp hindex
    exact ⟨List.getElem?_append_left hlt, List.take_append_of_le_length (Nat.le_of_lt hlt)⟩
  rw [toldIn, List.length_append, List.length_singleton, List.range_succ, List.flatMap_append,
    List.flatMap_singleton, List.getElem?_concat_length, Option.bind_some, List.take_left]
  refine congrArg (· ++ _) (List.flatMap_congr fun index hindex => ?_)
  rw [(hbefore index hindex).1, (hbefore index hindex).2]

theorem items_history (operations : List Operation) : (history operations).2 = toldIn operations := by
  induction operations using List.reverseRecOn with
  | nil => rfl
  | append_singleton operations operation ih =>
      rw [history_concat, Operation.items_apply, toldIn_concat, ih, listeners_history]

theorem exists_of_concat_eq {operations before after : List Operation} {operation last : Operation}
    (h : operations ++ [last] = before ++ operation :: after) :
    (operations = before ∧ last = operation ∧ after = []) ∨
      ∃ between, operations = before ++ operation :: between ∧ after = between ++ [last] := by
  rcases List.eq_nil_or_concat after with rfl | ⟨between, ending, rfl⟩
  · obtain ⟨hfront, hlast⟩ := List.append_inj' h rfl
    exact .inl ⟨hfront, (List.cons.inj hlast).1, rfl⟩
  · rw [List.concat_eq_append, ← List.cons_append, ← List.append_assoc] at h
    obtain ⟨hfront, hlast⟩ := List.append_inj' h rfl
    obtain rfl := (List.cons.inj hlast).1
    exact .inr ⟨between, hfront, List.concat_eq_append⟩

theorem isLatest_concat_of_given (hgiven : operation.given? = some given) :
    IsLatest (operations ++ [operation]) name command ↔
      if given.name = name then command = given else IsLatest operations name command := by
  have hhides : ∀ other, operation.hides other = false := by
    intro other
    cases operation with
    | hide condition => cases hgiven
    | _ => rfl
  constructor
  · rintro ⟨before, other, after, last, heq, hlast, hname, hlater, rfl⟩
    rcases exists_of_concat_eq heq with ⟨-, rfl, rfl⟩ | ⟨between, rfl, rfl⟩
    · obtain rfl := Option.some.inj (hgiven.symm.trans hlast)
      rw [if_pos hname]
      exact hiddenIf_false given
    · simp only [givenIn_concat, hgiven, Option.toList_some, List.forall_mem_append,
        List.forall_mem_singleton] at hlater
      rw [if_neg hlater.2]
      refine ⟨before, other, between, last, rfl, hlast, hname, hlater.1, ?_⟩
      simp [List.any_append, hhides]
  · split
    · rintro rfl
      rename_i hname
      exact ⟨operations, operation, [], command, rfl, hgiven, hname, by simp [givenIn],
        (hiddenIf_false command).symm⟩
    · rename_i hname
      rintro ⟨before, other, between, last, rfl, hlast, hlastName, hlater, rfl⟩
      refine ⟨before, other, between ++ [operation], last, by simp, hlast, hlastName, ?_, ?_⟩
      · simp only [givenIn_concat, hgiven, Option.toList_some, List.forall_mem_append,
          List.forall_mem_singleton]
        exact ⟨hlater, hname⟩
      · simp [List.any_append, hhides]

theorem isLatest_concat_of_not_given (hgiven : operation.given? = none) :
    IsLatest (operations ++ [operation]) name command ↔
      ∃ old, IsLatest operations name old ∧
        command = hiddenIf (fun command => operation.hides command) old := by
  have hgivenIn : ∀ between, givenIn (between ++ [operation]) = givenIn between := by
    intro between
    rw [givenIn_concat, hgiven, Option.toList_none, List.append_nil]
  have hany : ∀ (between : List Operation) (given : Command),
      hiddenIf (fun given => (between ++ [operation]).any (Operation.hides given)) given =
        hiddenIf (fun command => operation.hides command)
          (hiddenIf (fun given => between.any (Operation.hides given)) given) := by
    intro between given
    simp only [hiddenIf_hiddenIf, List.any_append, List.any_cons, List.any_nil, Bool.or_false]
  constructor
  · rintro ⟨before, other, after, last, heq, hlast, hname, hlater, rfl⟩
    rcases exists_of_concat_eq heq with ⟨-, rfl, -⟩ | ⟨between, rfl, rfl⟩
    · cases hgiven.symm.trans hlast
    · rw [hgivenIn] at hlater
      exact ⟨_, ⟨before, other, between, last, rfl, hlast, hname, hlater, rfl⟩, hany between last⟩
  · rintro ⟨old, ⟨before, other, between, last, rfl, hlast, hname, hlater, rfl⟩, rfl⟩
    refine ⟨before, other, between ++ [operation], last, by simp, hlast, hname, ?_,
      (hany between last).symm⟩
    rw [hgivenIn]
    exact hlater

theorem get?_history (operations : List Operation) (name : String) (command : Command) :
    (history operations).1.get? name = some command ↔ IsLatest operations name command := by
  induction operations using List.reverseRecOn generalizing command with
  | nil =>
      constructor
      · intro h
        cases h
      · rintro ⟨before, operation, after, given, heq, -⟩
        cases before <;> cases heq
  | append_singleton operations operation ih =>
      rw [history_concat, Operation.get?_apply]
      cases hgiven : operation.given? with
      | some given =>
          rw [isLatest_concat_of_given hgiven]
          dsimp only
          split
          · rw [Option.some.injEq, eq_comm]
          · exact ih command
      | none =>
          rw [isLatest_concat_of_not_given hgiven, Option.map_eq_some_iff]
          simp only [ih]
          exact exists_congr fun old => and_congr_right fun _ => eq_comm

/-! ### Drafts -/

theorem toCommand_refused (group : String) {draft : Draft}
    (h : (∀ name, draft.name = .text name → Text.Blank.isAllBlank name.toList = true) ∨
      draft.code = none) :
    ∃ fault, draft.toCommand group = .error fault := by
  rw [Draft.toCommand]
  split
  · rename_i name hname
    split
    · exact ⟨_, rfl⟩
    · rename_i hblank
      rcases h with h | h
      · exact absurd (h name hname) hblank
      · rw [h]
        exact ⟨_, rfl⟩
  · exact ⟨_, rfl⟩

theorem toCommand_accepted (group : String) {draft : Draft} {name : String} {code : CommandCode}
    (hname : draft.name = .text name) (hblank : Text.Blank.isAllBlank name.toList = false)
    (hcode : draft.code = some code) :
    ∃ command, draft.toCommand group = .ok command ∧ command.name = name ∧
      command.run = code.run ∧ command.hidden = draft.hidden ∧
      command.group = draft.group.getD group := by
  simp only [Draft.toCommand, hname, hblank, hcode, Bool.false_eq_true, if_false]
  exact ⟨_, rfl, rfl, rfl, rfl, rfl⟩

/-! ### What a registry answers -/

/-- The commands that the names stand for, in the order of the names. -/
def listing (registry : Registry) : List Command :=
  registry.names.filterMap registry.get?

theorem commands_eq_listing (h : registry.names.Nodup) : registry.commands = registry.listing := by
  obtain ⟨commands, listeners⟩ := registry
  induction commands with
  | nil => rfl
  | cons command rest ih =>
      obtain ⟨hout, hrest⟩ := List.nodup_cons.mp h
      have hlater : ∀ name ∈ rest.map Command.name,
          get? ⟨command :: rest, listeners⟩ name = get? ⟨rest, listeners⟩ name := by
        intro name hmem
        rw [get?, get?, List.find?_cons_of_neg]
        rintro hname
        exact hout (of_decide_eq_true hname ▸ hmem)
      have hfirst : get? ⟨command :: rest, listeners⟩ command.name = some command :=
        List.find?_cons_of_pos (decide_eq_true rfl)
      rw [listing, names, List.map_cons, List.filterMap_cons_some hfirst,
        List.filterMap_congr hlater]
      exact congrArg _ (ih hrest)

theorem nodup_names_history (operations : List Operation) : (history operations).1.names.Nodup :=
  names_history operations ▸ nodup_eraseDups _

theorem lookup_eq_ok_iff : registry.lookup name = .ok command ↔ registry.get? name = some command := by
  rw [lookup]
  cases registry.get? name <;> simp

theorem lookup_eq_error_iff :
    registry.lookup name = .error (.unknownCommand name name) ↔ registry.get? name = none := by
  rw [lookup]
  cases registry.get? name <;> simp

theorem get?_eq_none_iff : registry.get? name = none ↔ name ∉ registry.names := by
  simp [get?, names]

theorem groups_eq (registry : Registry) :
    registry.groups = (registry.commands.map Command.group).eraseDups.map fun group =>
      (group, (registry.commands.filter fun command => command.group = group).map Command.info) := by
  rw [groups, Menu.grouped_eq, infos, List.map_map]
  refine List.map_congr_left fun group _ => ?_
  rw [List.filter_map]
  rfl

end

/-- What a registry that operations made answers, and what its listeners were told. -/
structure Recalls (operations : List Operation) (registry : Registry) (items : List Item) : Prop where
  /-- The names are listed in the order of their first registration. -/
  names : registry.names = ((givenIn operations).map Command.name).eraseDups
  /-- A name stands for what was registered last under it. -/
  get? (name : String) (command : Command) :
    registry.get? name = some command ↔ IsLatest operations name command
  lookup (name : String) (command : Command) :
    registry.lookup name = .ok command ↔ IsLatest operations name command
  unknown (name : String) : registry.lookup name = .error (.unknownCommand name name) ↔
    name ∉ (givenIn operations).map Command.name
  contains (name : String) :
    registry.contains name = true ↔ name ∈ (givenIn operations).map Command.name
  listWhere (condition : Command → Bool) :
    registry.listWhere condition = registry.listing.filter condition
  /-- Hiding counts the commands that satisfy the condition and changes nothing else of them. -/
  hideWhere (condition : Command → Bool) :
    (registry.hideWhere condition).2 = (registry.listing.filter condition).length ∧
      (registry.hideWhere condition).1.listing = registry.listing.map (hiddenIf condition) ∧
      (registry.hideWhere condition).1.listeners = registry.listeners
  /-- Every group has a bucket with exactly its commands. -/
  groups : registry.groups = (registry.listing.map Command.group).eraseDups.map fun group =>
    (group, (registry.listing.filter fun command => command.group = group).map Command.info)
  /-- A draft without a name or without code is refused, and nothing has changed. -/
  refuses (group : String) (draft : Draft)
    (h : (∀ name, draft.name = .text name → Text.Blank.isAllBlank name.toList = true) ∨
      draft.code = none) :
    (∃ fault, registry.register group draft = .error fault) ∧
      Operation.apply (registry, items) (.register group draft) = (registry, items)
  /-- Any other draft is registered. -/
  accepts (group : String) (draft : Draft) (name : String) (code : CommandCode)
    (hname : draft.name = .text name) (hblank : Text.Blank.isAllBlank name.toList = false)
    (hcode : draft.code = some code) :
    ∃ command, (Operation.register group draft).given? = some command ∧ command.name = name ∧
      command.run = code.run ∧ command.hidden = draft.hidden ∧
      command.group = draft.group.getD group
  /-- Every listener was told of every registration after it was added, once and in order. -/
  told : items = toldIn operations

/-- A registry answers by its history, however long it is. -/
theorem recalls_history (operations : List Operation) :
    Recalls operations (history operations).1 (history operations).2 := by
  have hnodup := nodup_names_history operations
  have hcommands := commands_eq_listing hnodup
  have hnone : ∀ name, (history operations).1.get? name = none ↔
      name ∉ (givenIn operations).map Command.name := by
    intro name
    rw [get?_eq_none_iff, names_history, List.mem_eraseDups]
  refine ⟨names_history operations, get?_history operations, ?_, ?_, ?_, ?_, ?_, ?_, ?_, ?_,
    items_history operations⟩
  · intro name command
    rw [lookup_eq_ok_iff, get?_history]
  · intro name
    rw [lookup_eq_error_iff, hnone]
  · intro name
    rw [contains, Option.isSome_iff_ne_none, ne_eq, hnone, not_not]
  · intro condition
    rw [listWhere, hcommands]
  · intro condition
    refine ⟨?_, ?_, rfl⟩
    · rw [← hcommands]
      rfl
    · rw [← hcommands, ← commands_hideWhere, commands_eq_listing]
      rw [names_hideWhere]
      exact hnodup
  · rw [groups_eq, hcommands]
  · intro group draft h
    obtain ⟨fault, hfault⟩ := toCommand_refused group h
    refine ⟨⟨fault, ?_⟩, Operation.apply_of_refused _ hfault⟩
    rw [register_eq, hfault]
    rfl
  · intro group draft name code hname hblank hcode
    obtain ⟨command, hcommand, hfields⟩ := toCommand_accepted group hname hblank hcode
    exact ⟨command, Operation.given?_of_accepted hcommand, hfields⟩

end Registry

end Cascade
