import Cascade.Proofs.Log.Conservation
import Cascade.Proofs.Report.Feedback
import Cascade.Proofs.Report.Lines
import Cascade.Proofs.Report.Title

/-!
The protocol of a report. In every run of the chains of tokens, a chain that comes to a result closes with
one banner and one timing line, and a chain that does not closes with neither; a single hidden command has
exceptions. A chain of several commands prints its title before anything else, and each execution gives
one line with its outcome. The list of the errors comes after all chains, once, if the error log is not
empty when the batch ends.
-/

namespace Cascade

/-! ### Chains -/

/-- What a chain has printed of the report. -/
structure Chain.Reports (chain : Chain) (place : Nat) (world : World ChainResult) : Prop where
  /-- A chain that has come to a result has closed with its banner and its timing line. -/
  finished : ∀ result, Batch.result? world place = some (.ok result) → world.recital place =
    chain.opening ++ result.excuse ++ chain.banner result ++ chain.timing result
  /-- A chain that has not ended or was given up has printed nothing but its title. -/
  unfinished : (∀ result, Batch.result? world place ≠ some (.ok result)) →
    world.recital place = [] ∨ world.recital place = chain.opening
  /-- Neither is a banner or a timing line. -/
  opens : ∀ result : ChainResult, ∀ line ∈ chain.opening ++ result.excuse, line.IsOpen
  /-- The first thing that is shown of a chain of several commands is its title, which is the whole
  opening of its report. -/
  titled : chain.isBatch = true → chain.opening = [Report.batchTitle chain.label] ∧
    ∀ item rest, world.shownOf place = item :: rest → item = .line (Report.batchTitle chain.label)
  /-- A hidden chain is a single hidden command that could be read. -/
  hidden : chain.isHidden = true ↔
    ∃ invocation, chain.reading = .ok [invocation] ∧ invocation.command.hidden = true
  /-- All this is a part of the report. -/
  reported : (world.report.filter fun entry => entry.1 = some place).map Prod.snd =
    world.recital place

namespace World

variable {surroundings : Surroundings} {calls : Entries Nat} {chains : List Chain}
  {acts : List Act} {world : World ChainResult} {place : Nat}

theorem Course.isTitled (h : Course (startOf surroundings calls chains) acts world) {chain : Chain}
    (hchain : chains[place]? = some chain) (hbatch : chain.isBatch = true) :
    chain.IsTitled place world := by
  refine Chain.IsTitled.reaches hbatch (.untouched ?_) h.reaches
  rw [startOf_eq]
  exact .start (getElem?_programs hchain)

theorem Course.reports {tokens : List String}
    (h : Course (startOf surroundings calls (Engine.chainsOf surroundings.registry tokens)) acts world)
    {chain : Chain} (hchain : (Engine.chainsOf surroundings.registry tokens)[place]? = some chain) :
    chain.Reports place world where
  finished result hresult := by
    have hprints := (h.vocal hchain).prints hresult
    generalize world.recital place = lines at hprints
    cases hprints with
    | whole => rw [chain.summary_eq, List.append_assoc _ (chain.banner result)]
  unfinished hnone := by
    have hvocal := h.vocal hchain
    cases hended : Batch.result? world place with
    | none =>
        rw [recital]
        refine (hvocal.begins hended).imp (fun hempty => ?_) fun htitle => ?_
        · rw [hempty]
          rfl
        · rw [htitle, Event.filterMap_line?_ofLines]
    | some ended =>
        have hprints := hvocal.prints hended
        generalize world.recital place = lines at hprints
        cases hprints with
        | silent => exact .inl rfl
        | stopped => exact .inr rfl
        | whole result => exact absurd hended (hnone result)
  opens result line hmem :=
    (List.mem_append.mp hmem).elim Chain.isOpen_of_mem_opening Chain.isOpen_of_mem_excuse
  titled hbatch := ⟨Chain.opening_of_isBatch hbatch, fun _ _ => (h.isTitled hchain hbatch).first⟩
  hidden := by
    obtain ⟨token, -, rfl⟩ := List.mem_map.mp (List.mem_of_getElem? hchain)
    exact Chain.isHidden_ofToken_iff ..
  reported := world.report_filter place

/-! ### Executions -/

theorem Course.responds (h : Course (startOf surroundings calls chains) acts world) {number : Nat}
    {cell : Cell} (hcell : world.cell? place number = some cell) :
    Responds world place number cell := by
  have hreach : Reaches (World.start surroundings calls
      ((chains.map fun chain => (chain.invocations, chain.routine)).map fun program =>
        Strand.start program.1 program.2)) world := startOf_eq surroundings calls chains ▸ h.reaches
  exact (first_outcome_counts hreach hcell).responds h.isAttested hcell

end World

/-! ### The list of the errors -/

namespace Report

theorem errorDump_eq_nil_iff (log : ErrorLog) : errorDump log = [] ↔ log.isEmpty = true := by
  rw [errorDump, ErrorLog.isEmpty]
  cases log.entries with
  | nil => simp
  | cons entry rest => simp [recorded]

end Report

namespace Batch

open World

/-- A batch ends at a step, and at its end it lists its error log after all that the chains have printed,
unless the log is empty. -/
structure ListsAt (batch : Batch) (last : Nat) (result : Except Fault (List ChainResult)) : Prop where
  first : ∀ earlier < last, (batch.settle earlier).ending? = none
  ended : (batch.settle last).ending? = some result
  report : ∃ told : List (Option Nat × Line), (∀ entry ∈ told, entry.1 ≠ none) ∧
    (batch.settle last).world.report =
      told ++ (Report.errorDump (batch.settle last).world.errors).map (none, ·)
  listed : Report.errorDump (batch.settle last).world.errors = [] ↔
    (batch.settle last).world.errors.isEmpty = true

/-- A batch lists its error log at its end, and never before or after. -/
structure ListsOnce (batch : Batch) : Prop where
  /-- Before the end all of the report is the doing of the chains. -/
  before : ∀ steps, (batch.settle steps).ending? = none →
    ∀ entry ∈ (batch.settle steps).world.report, entry.1 ≠ none
  /-- With the list at the end the report is complete. -/
  ended : ∀ steps result, (batch.settle steps).ending? = some result →
    ∃ last ≤ steps, ListsAt batch last result ∧
      (batch.settle steps).world.report = (batch.settle last).world.report

/-- How a batch stands towards its report after so many steps. -/
inductive Dumps (count : Nat) (batch : Batch) (steps : Nat) : Prop
  | watched (pending : List Nat) (notified : Bool)
      (h : Watched count (batch.settle steps) pending notified)
  | ended (last : Nat) (le : last ≤ steps) (result : Except Fault (List ChainResult))
      (before : ∀ earlier < last, (batch.settle earlier).ending? = none)
      (halted : (batch.settle last).supervision = .ended result)
      (now : (batch.settle steps).supervision = .ended result)
      (spent : Spent count (batch.settle steps).world) (told : List Occurrence)
      (unwritten : ∀ occurrence ∈ told, occurrence.strand ≠ none)
      (record : (batch.settle last).world.mainRecord =
        dump (batch.settle last).world.errors ++ told)
      (same : (batch.settle steps).world.mainRecord = (batch.settle last).world.mainRecord)
  | stalled (ended : (batch.settle steps).supervision = .stalled)
      (spent : Spent count (batch.settle steps).world)
      (unwritten : ∀ occurrence ∈ (batch.settle steps).world.mainRecord, occurrence.strand ≠ none)

variable {count : Nat} {batch : Batch} {steps : Nat}

theorem ending?_of_ended {result : Except Fault (List ChainResult)}
    (h : batch.supervision = .ended result) : batch.ending? = some result := by
  rw [ending?, h]

theorem Watched.ending?_eq_none {pending : List Nat} {notified : Bool}
    (h : Watched count (batch.settle steps) pending notified) {earlier : Nat} (hle : earlier ≤ steps) :
    (batch.settle earlier).ending? = none := by
  cases hended : (batch.settle earlier).ending? with
  | none => rfl
  | some result =>
      have hlater := supervision_settle_add (fun _ _ h => by cases h) (ending?_eq_some hended)
        (steps - earlier)
      rw [Nat.add_sub_cancel' hle] at hlater
      cases h.supervision.symm.trans hlater

theorem Dumps.succ (h : Dumps count batch steps) : Dumps count batch (steps + 1) := by
  cases h with
  | watched pending notified h =>
      have hbefore : ∀ earlier < steps + 1, (batch.settle earlier).ending? = none :=
        fun earlier hlt => h.ending?_eq_none (Nat.le_of_lt_succ hlt)
      have htold : ∀ occurrence ∈ (batch.settle steps).world.mainRecord, occurrence.strand ≠ none :=
        fun occurrence hmem => h.orderly.ownRecord occurrence (List.mem_filter.mp hmem).1
      cases h.goes with
      | on others told watched => exact .watched others told watched
      | waits others told watched => exact .watched others told watched
      | returns results ended length each spent same record errors =>
          exact .ended (steps + 1) (Nat.le_refl _) _ hbefore ended ended spent _ htold
            (errors ▸ record) rfl
      | aborts place result failure exits placed failed cause ended spent record results errors =>
          exact .ended (steps + 1) (Nat.le_refl _) _ hbefore ended ended spent _ htold
            (errors ▸ record) rfl
      | stalls ended queue spent results timeless record =>
          exact .stalled ended spent (record ▸ htold)
  | ended last le result before halted now spent told unwritten record same =>
      obtain ⟨hsame, hspent, hdwindles⟩ := spent.step fun _ _ h => by cases now.symm.trans h
      rw [← settle_succ] at hsame hspent hdwindles
      exact .ended last (Nat.le_succ_of_le le) result before halted (hsame.trans now) hspent told
        unwritten record (hdwindles.mainRecord.trans same)
  | stalled ended spent unwritten =>
      obtain ⟨hsame, hspent, hdwindles⟩ := spent.step fun _ _ h => by cases ended.symm.trans h
      rw [← settle_succ] at hsame hspent hdwindles
      exact .stalled (hsame.trans ended) hspent (hdwindles.mainRecord ▸ unwritten)

theorem Dumps.of_start (surroundings : Surroundings) (exitOnError : Bool) (calls : Entries Nat)
    {chains : List Chain} (hordinary : ∀ chain ∈ chains, ∀ invocation ∈ chain.invocations,
      invocation.command.IsOrdinary) (steps : Nat) :
    Dumps chains.length (Batch.start surroundings exitOnError calls chains) steps := by
  induction steps with
  | succ steps ih => exact ih.succ
  | zero =>
      by_cases hne : chains = []
      · subst hne
        let first := startOf surroundings calls []
        have hspent : Spent 0 (dumpErrors first) :=
          ⟨congrArg List.length (strands_dumpErrors first), fun _ h => by cases h⟩
        refine .ended 0 (Nat.le_refl _) _ (fun _ h => by cases h) rfl rfl hspent []
          (fun _ h => by cases h) ?_ rfl
        exact (mainRecord_dumpErrors first).trans
          (congrArg (dump · ++ []) (errors_writeLines _ first).symm)
      · exact .watched _ false (.start surroundings exitOnError calls hne hordinary)

theorem report_told {told : List Occurrence} (h : ∀ occurrence ∈ told, occurrence.strand ≠ none) :
    ∀ entry ∈ told.reverse.filterMap Occurrence.reported?, entry.1 ≠ none := by
  intro entry hmem
  obtain ⟨occurrence, hoccurrence, hreported⟩ := List.mem_filterMap.mp hmem
  rw [Occurrence.reported?] at hreported
  split at hreported
  · obtain ⟨line, -, rfl⟩ := Option.map_eq_some_iff.mp hreported
    exact h occurrence (List.mem_reverse.mp hoccurrence)
  · cases hreported

theorem report_dump (errors : ErrorLog) :
    (dump errors).reverse.filterMap Occurrence.reported? =
      (Report.errorDump errors).map (none, ·) := by
  rw [dump, List.reverse_reverse, List.filterMap_map]
  exact congrFun List.filterMap_eq_map (Report.errorDump errors)

theorem listsOnce_of_dumps (h : ∀ steps, Dumps count batch steps) : ListsOnce batch where
  before steps hopen := by
    rw [report_eq_mainRecord]
    cases h steps with
    | watched pending notified h =>
        exact report_told fun occurrence hmem =>
          h.orderly.ownRecord occurrence (List.mem_filter.mp hmem).1
    | ended last le result before halted now => cases hopen.symm.trans (ending?_of_ended now)
    | stalled ended spent unwritten => exact report_told unwritten
  ended steps result hended := by
    cases h steps with
    | watched pending notified h =>
        cases (h.ending?_eq_none (Nat.le_refl steps)).symm.trans hended
    | stalled ended => cases ended.symm.trans (ending?_eq_some hended)
    | ended last le other before halted now spent told unwritten record same =>
        obtain rfl := Option.some.inj ((ending?_of_ended now).symm.trans hended)
        refine ⟨last, le, ⟨before, ending?_of_ended halted, ⟨_, report_told unwritten, ?_⟩,
          Report.errorDump_eq_nil_iff _⟩, ?_⟩
        · rw [report_eq_mainRecord, record, List.reverse_append, List.filterMap_append, report_dump]
        · rw [report_eq_mainRecord, same, report_eq_mainRecord]

theorem ListsOnce.report_eq (h : ListsOnce batch) {last : Nat}
    {result : Except Fault (List ChainResult)} (hended : (batch.settle last).ending? = some result)
    (hle : last ≤ steps) : (batch.settle steps).world.report = (batch.settle last).world.report := by
  have hlater : (batch.settle steps).ending? = some result := by
    have hstays := supervision_settle_add (fun _ _ h => by cases h) (ending?_eq_some hended)
      (steps - last)
    rw [Nat.add_sub_cancel' hle] at hstays
    exact ending?_of_ended hstays
  obtain ⟨first, -, hfirst, hnow⟩ := h.ended last result hended
  obtain ⟨other, -, hother, hthen⟩ := h.ended steps result hlater
  have hsame : first = other := by
    rcases Nat.lt_trichotomy first other with hlt | heq | hgt
    · cases (hother.first first hlt).symm.trans hfirst.ended
    · exact heq
    · cases (hfirst.first other hgt).symm.trans hother.ended
  rw [hthen, hnow, hsame]

end Batch

/-! ### Every run -/

namespace World

variable {surroundings : Surroundings} {calls : Entries Nat} {acts : List Act}
  {world : World ChainResult}

/-- What holds of the report of a run of chains at any moment. -/
structure KeepsReport (chains : List Chain) (world : World ChainResult) : Prop where
  /-- Each chain has printed its part. -/
  parts : ∀ place (chain : Chain), chains[place]? = some chain → chain.Reports place world
  /-- Each execution of a step, and each that the code of a command asked for, has given its feedback. -/
  feedback : ∀ place number cell, world.cell? place number = some cell →
    Responds world place number cell
  /-- The report is a part of what is shown. -/
  shown : (world.report.map fun entry => (entry.1, Item.line entry.2)).Sublist world.shown

/-- The report in all runs of the chains of an engine. -/
structure KeepsProtocol (surroundings : Surroundings) (calls : Entries Nat) (chains : List Chain) :
    Prop where
  /-- Every course of a run keeps its report, however the turns alternate and whichever chains are given
  up. -/
  courses : ∀ acts world, Course (startOf surroundings calls chains) acts world →
    KeepsReport chains world
  /-- So does a batch, with exit-on-error and without. -/
  batches : ∀ exitOnError steps, KeepsReport chains
    ((Batch.start surroundings exitOnError calls chains).settle steps).world
  /-- It lists the errors once, at its end. -/
  lists : ∀ exitOnError, (Batch.start surroundings exitOnError calls chains).ListsOnce
  /-- A chain that has no result when the batch ends prints nothing but its title, then and later. -/
  abandoned : ∀ exitOnError last steps place result (chain : Chain),
    chains[place]? = some chain → last ≤ steps →
      ((Batch.start surroundings exitOnError calls chains).settle last).ending? = some result →
        (∀ given, Batch.result? ((Batch.start surroundings exitOnError calls chains).settle last).world
          place ≠ some (.ok given)) →
          ((Batch.start surroundings exitOnError calls chains).settle steps).world.recital place = [] ∨
            ((Batch.start surroundings exitOnError calls chains).settle steps).world.recital place =
              chain.opening

theorem keepsReport_of_course {tokens : List String}
    (h : Course (startOf surroundings calls (Engine.chainsOf surroundings.registry tokens)) acts
      world) : KeepsReport (Engine.chainsOf surroundings.registry tokens) world where
  parts _ _ hchain := h.reports hchain
  feedback _ _ _ hcell := h.responds hcell
  shown := world.report_sublist_shown

/-- Every report keeps its protocol, for the chains of all tokens, as long as their calls and
initializers fail in the ordinary way. -/
theorem report_keeps_protocol (surroundings : Surroundings) (calls : Entries Nat)
    (tokens : List String)
    (hordinary : ∀ chain ∈ Engine.chainsOf surroundings.registry tokens,
      ∀ invocation ∈ chain.invocations, invocation.command.IsOrdinary) :
    KeepsProtocol surroundings calls (Engine.chainsOf surroundings.registry tokens) where
  courses _ _ h := keepsReport_of_course h
  batches exitOnError steps := keepsReport_of_course (course_of_start exitOnError steps)
  lists exitOnError :=
    Batch.listsOnce_of_dumps (Batch.Dumps.of_start surroundings exitOnError calls hordinary)
  abandoned exitOnError last steps place result chain hchain hle hended hnone := by
    have hlists := Batch.listsOnce_of_dumps
      (Batch.Dumps.of_start surroundings exitOnError calls hordinary)
    have hcourse : Course (startOf surroundings calls (Engine.chainsOf surroundings.registry tokens))
        _ ((Batch.start surroundings exitOnError calls
          (Engine.chainsOf surroundings.registry tokens)).settle last).world :=
      course_of_start exitOnError last
    rw [← report_filter, hlists.report_eq hended hle, report_filter]
    exact (hcourse.reports hchain).unfinished hnone

def quietCommand : Command where
  name := "quiet"
  help := ""
  group := ""
  hidden := true
  convention := .direct
  accepts := fun _ => true
  initializer := none
  run := fun _ => .finish (.value .null)

def lingeringCommand : Command where
  name := "linger"
  help := "takes its time"
  group := ""
  hidden := false
  convention := .awaited
  accepts := fun _ => true
  initializer := none
  run := fun _ => .finish (.awaitable false (.sleep (.ofNat 1) none fun _ => .finish .null))

/-- An engine with a command that fails, a hidden one and a slow one. -/
def mixedSurroundings : Surroundings :=
  ⟨⟨[brittleCommand, quietCommand, lingeringCommand], []⟩, false, "", false, .empty⟩

/-- Tokens for a hidden chain, for one that fails, for one that cannot be read, and for a slow one. -/
def mixedTokens : List String :=
  ["quiet", "quiet * brittle", "nope * quiet", "linger"]

def mixedBatch (exitOnError : Bool) : Batch :=
  Batch.start mixedSurroundings exitOnError []
    (Engine.chainsOf mixedSurroundings.registry mixedTokens)

def reportTexts (world : World ChainResult) : List (Option Nat × List String) :=
  world.report.map fun entry => (entry.1, entry.2.map Span.text)

/-- The hidden chain prints nothing, the slow one closes its part only where it is not given up, and the
list of the errors comes last. -/
theorem mixedBatch_keeps :
    (∀ chain ∈ Engine.chainsOf mixedSurroundings.registry mixedTokens,
        ∀ invocation ∈ chain.invocations, invocation.command.IsOrdinary) ∧
      KeepsProtocol mixedSurroundings []
        (Engine.chainsOf mixedSurroundings.registry mixedTokens) ∧
      reportTexts ((mixedBatch false).settle 16).world =
        [(some 1, ["Running Batch Serial Cmds [quiet * brittle]..."]),
          (some 1, ["[quiet * brittle]: err = broken"]), (some 1, ["quiet * brittle: 0.000ms"]),
          (some 2, ["Running Batch Serial Cmds [nope * quiet]..."]),
          (some 2, ["Invalid command: nope"]),
          (some 2, ["[nope * quiet]: err = Invalid command: nope"]),
          (some 2, ["nope * quiet: 0.000ms"]), (some 3, ["[linger]: takes its time"]),
          (some 3, ["[linger]: OK"]), (some 3, ["linger: 1000.000ms"]),
          (none, ["brittle: errors [ 1]"]), (none, ["[0]: broken"]),
          (none, ["nope: errors [ 1]"]), (none, ["[0]: Invalid command: nope"])] ∧
      reportTexts ((mixedBatch true).settle 16).world =
        [(some 1, ["Running Batch Serial Cmds [quiet * brittle]..."]),
          (some 1, ["[quiet * brittle]: err = broken"]), (some 1, ["quiet * brittle: 0.000ms"]),
          (some 2, ["Running Batch Serial Cmds [nope * quiet]..."]),
          (some 2, ["Invalid command: nope"]),
          (some 2, ["[nope * quiet]: err = Invalid command: nope"]),
          (some 2, ["nope * quiet: 0.000ms"]), (some 3, ["[linger]: takes its time"]),
          (none, ["brittle: errors [ 1]"]), (none, ["[0]: broken"]),
          (none, ["nope: errors [ 1]"]), (none, ["[0]: Invalid command: nope"])] ∧
      ((mixedBatch false).settle 16).world.feedback 1 0 = [] ∧
      ((mixedBatch false).settle 16).world.feedback 1 1 =
        [Line.of .error "brittle: error broken"] ∧
      ((mixedBatch false).settle 16).world.feedback 3 0 =
        [Line.of .success "linger: done!"] := by
  have hordinary : ∀ chain ∈ Engine.chainsOf mixedSurroundings.registry mixedTokens,
      ∀ invocation ∈ chain.invocations, invocation.command.IsOrdinary := by
    have hregistered : ∀ command ∈ mixedSurroundings.registry.commands, command.IsOrdinary := by
      intro command hmem
      simp only [mixedSurroundings, List.mem_cons, List.not_mem_nil, or_false] at hmem
      rcases hmem with rfl | rfl | rfl
      · exact ⟨fun _ => rfl, fun _ h => by cases h⟩
      · exact ⟨fun _ => trivial, fun _ h => by cases h⟩
      · exact ⟨fun _ => trivial, fun _ h => by cases h⟩
    exact fun chain hchain invocation hmem =>
      hregistered _ (Engine.command_mem_of_chainsOf hchain invocation hmem)
  exact ⟨hordinary, report_keeps_protocol mixedSurroundings [] mixedTokens hordinary,
    by decide +kernel, by decide +kernel, by decide +kernel, by decide +kernel, by decide +kernel⟩

end World

end Cascade
