import Cascade.Proofs.Log.Voice

/-!
The error log as the messages that were added to it, in the order of time. Under each name it has the
messages of that name in their order, so what is added later neither removes nor changes nor reorders
what was there. Its list shows the messages of each name together, and each name once.
-/

namespace Cascade

namespace ErrorLog

/-- A log to which messages are added in their order. -/
def addAll (messages : List Message) (log : ErrorLog) : ErrorLog :=
  messages.foldl (fun log message => log.add message.1 message.2) log

/-- The log of all messages that were added to it. -/
def ofMessages (messages : List Message) : ErrorLog :=
  empty.addAll messages

/-- The messages of one name among those of all names. -/
def named (name : String) (messages : List Message) : List String :=
  (messages.filter fun message => message.1 = name).map Prod.snd

variable {log : ErrorLog} {messages more : List Message} {name : String}

theorem addAll_append (messages more : List Message) (log : ErrorLog) :
    log.addAll (messages ++ more) = (log.addAll messages).addAll more :=
  List.foldl_append ..

theorem addAll_ofMessages (messages more : List Message) :
    (ofMessages messages).addAll more = ofMessages (messages ++ more) :=
  (addAll_append messages more empty).symm

theorem named_append (name : String) (messages more : List Message) :
    named name (messages ++ more) = named name messages ++ named name more := by
  rw [named, List.filter_append, List.map_append, ← named, ← named]

/-! ### What is found in the log -/

theorem get_add (message : Message) (log : ErrorLog) (name : String) :
    (log.add message.1 message.2).get name = log.get name ++ named name [message] := by
  by_cases h : message.1 = name
  · subst h
    simp [get_add_self, named]
  · rw [get_add_of_ne (Ne.symm h)]
    simp [named, h]

theorem get_addAll (messages : List Message) (log : ErrorLog) (name : String) :
    (log.addAll messages).get name = log.get name ++ named name messages := by
  induction messages generalizing log with
  | nil => exact (List.append_nil _).symm
  | cons message rest ih =>
      calc ((log.add message.1 message.2).addAll rest).get name
          = (log.get name ++ named name [message]) ++ named name rest := by rw [ih, get_add]
        _ = log.get name ++ named name (message :: rest) := by
            rw [List.append_assoc, ← named_append]
            rfl

theorem get_ofMessages (messages : List Message) (name : String) :
    (ofMessages messages).get name = named name messages :=
  get_addAll messages empty name

theorem named_ne_nil_iff : named name messages ≠ [] ↔ name ∈ messages.map Prod.fst := by
  simp [named, List.filter_eq_nil_iff]

/-! ### The names -/

theorem names_add (message : Message) (log : ErrorLog) :
    (log.add message.1 message.2).entries.names =
      if message.1 ∈ log.entries.names then log.entries.names
      else log.entries.names ++ [message.1] :=
  Entries.names_put ..

theorem nodup_names_addAll (h : log.entries.names.Nodup) (messages : List Message) :
    (log.addAll messages).entries.names.Nodup := by
  induction messages generalizing log with
  | nil => exact h
  | cons message rest ih => exact ih (Entries.nodup_names_put _ _ h)

theorem nodup_names_ofMessages (messages : List Message) :
    (ofMessages messages).entries.names.Nodup :=
  @nodup_names_addAll empty List.nodup_nil messages

theorem mem_names_addAll (messages : List Message) (log : ErrorLog) :
    name ∈ (log.addAll messages).entries.names ↔
      name ∈ log.entries.names ∨ name ∈ messages.map Prod.fst := by
  induction messages generalizing log with
  | nil => simp [addAll]
  | cons message rest ih =>
      have hadd : name ∈ (log.add message.1 message.2).entries.names ↔
          name ∈ log.entries.names ∨ name = message.1 := by
        rw [names_add]
        split
        · rename_i hmem
          exact ⟨.inl, fun h => h.elim id fun heq => heq ▸ hmem⟩
        · simp
      rw [List.map_cons, List.mem_cons, ← or_assoc, ← hadd]
      exact ih _

theorem mem_names_ofMessages (messages : List Message) :
    name ∈ (ofMessages messages).entries.names ↔ (ofMessages messages).get name ≠ [] := by
  rw [get_ofMessages, named_ne_nil_iff, ofMessages, mem_names_addAll]
  exact or_iff_right (List.not_mem_nil)

/-! ### The list of the errors -/

theorem errorDump_eq (h : log.entries.names.Nodup) :
    Report.errorDump log = log.entries.names.flatMap fun name =>
      [⟨.error, name ++ ": errors [ " ++ toString (log.get name).length ++ "]"⟩] ::
        (log.get name).mapIdx fun index message =>
          [⟨.error, "[" ++ toString index ++ "]: " ++ message⟩] := by
  have hrecorded : ∀ name messages, Report.recorded name messages =
      [⟨.error, name ++ ": errors [ " ++ toString messages.length ++ "]"⟩] ::
        messages.mapIdx fun index message =>
          [⟨.error, "[" ++ toString index ++ "]: " ++ message⟩] := by
    intro name messages
    rw [Report.recorded, List.mapIdx_eq_zipIdx_map, Decimal.integerText_natCast]
    simp only [Decimal.integerText_natCast]
    rfl
  rw [Report.errorDump, Entries.names, List.flatMap_map, List.flatMap_def, List.flatMap_def]
  refine congrArg _ (List.map_congr_left fun entry hmem => ?_)
  rw [hrecorded, get, Entries.get?_of_mem h hmem]
  rfl

end ErrorLog

/-! ### The messages of a run -/

/-- The message that an occurrence adds to the error log, with the strand in which that happens. -/
def Occurrence.logged? (occurrence : Occurrence) : Option (Option Nat × Message) :=
  match occurrence.event with
  | .logged command message => some (occurrence.strand, command, message)
  | _ => none

namespace World

variable {α : Type} {world next : World α} {places : Nat → Prop} {place : Nat}

/-- The messages that a run has added to the error log, in the order of time, each with its strand. -/
def logged (world : World α) : List (Option Nat × Message) :=
  (world.record.filterMap Occurrence.logged?).reverse

/-- The error log is what it was before the run, and what the run has added. -/
theorem errors_eq (world : World α) :
    world.errors = world.surroundings.errors.addAll (world.logged.map Prod.snd) := by
  have hfold : ∀ (record : List Occurrence) (log : ErrorLog),
      record.foldr (fun occurrence log =>
        match occurrence.event with
        | .logged command message => log.add command message
        | _ => log) log =
      log.addAll ((record.filterMap Occurrence.logged?).reverse.map Prod.snd) := by
    intro record log
    induction record with
    | nil => rfl
    | cons occurrence rest ih =>
        rw [List.foldr_cons, ih, List.filterMap_cons]
        rcases occurrence with ⟨strand, thread, step, event⟩
        cases event with
        | logged command message =>
            simp only [Occurrence.logged?, List.reverse_cons, List.map_append]
            exact (ErrorLog.addAll_append _ [(command, message)] log).symm
        | _ => rfl
  exact hfold world.record world.surroundings.errors

theorem exists_logged_append {allowed : Occurrence → Prop} (h : Adds allowed world next) :
    ∃ more, next.logged = world.logged ++ more := by
  obtain ⟨added, hrecord, -⟩ := h
  exact ⟨(added.filterMap Occurrence.logged?).reverse, by
    rw [logged, hrecord, List.filterMap_append, List.reverse_append, ← logged]⟩

end World

end Cascade
