import Cascade.Proofs.Batch.Abort
import Cascade.Proofs.Batch.Containment
import Cascade.Proofs.Context.Isolation
import Cascade.Proofs.Log.Hushed
import Cascade.Proofs.Log.Messages

/-!
The list of the errors. A batch lists its error log once, at its end. What is still done after that adds
nothing to the log as long as the commands are discreet, so the list shows the whole log.
-/

namespace Cascade

/-! ### What decides the log and the list -/

theorem Occurrence.IsProper.isMain {places : Nat → Prop} {occurrence : Occurrence}
    (h : occurrence.IsProper places) (hmain : occurrence.isMain = false) :
    occurrence.logged? = none := by
  rcases occurrence with ⟨strand, thread, step, event⟩
  cases event with
  | logged command message =>
      obtain ⟨own, -, rfl, rfl, rfl⟩ := h command message rfl
      cases hmain
  | _ => rfl

namespace World

variable {α : Type} {world : World α} {places : Nat → Prop}

theorem IsHushed.logged_eq (h : world.IsHushed places) :
    world.logged = (world.mainRecord.filterMap Occurrence.logged?).reverse := by
  have hall : ∀ record : List Occurrence, (∀ occurrence ∈ record, occurrence.IsProper places) →
      record.filterMap Occurrence.logged? =
        (record.filter Occurrence.isMain).filterMap Occurrence.logged? := by
    intro record hproper
    induction record with
    | nil => rfl
    | cons occurrence rest ih =>
        obtain ⟨hfirst, hrest⟩ := List.forall_mem_cons.mp hproper
        cases hmain : occurrence.isMain with
        | true => simp [hmain, List.filterMap_cons, ih hrest]
        | false => simp [hmain, hfirst.isMain hmain, ih hrest]
  rw [logged, hall world.record h.record, mainRecord]

/-- What the supervisor has shown so far, in the order of time. -/
def announced (world : World α) : List Item :=
  (world.shown.filter fun entry => entry.1 = none).map Prod.snd

theorem announced_eq (world : World α) :
    world.announced = (world.mainRecord.filter fun occurrence => occurrence.strand.isNone).reverse.flatMap
      fun occurrence => occurrence.event.shown world.surroundings.silent := by
  have hmain : world.mainRecord.filter (fun occurrence => occurrence.strand.isNone) =
      world.record.filter fun occurrence => occurrence.strand.isNone := by
    rw [mainRecord, List.filter_filter]
    refine List.filter_congr fun occurrence _ => ?_
    rw [Occurrence.isMain]
    cases occurrence.strand.isNone <;> rfl
  have hall : ∀ record : List Occurrence,
      ((record.flatMap fun occurrence => (occurrence.event.shown world.surroundings.silent).map
        fun item => (occurrence.strand, item)).filter fun entry => entry.1 = none).map Prod.snd =
      (record.filter fun occurrence => occurrence.strand.isNone).flatMap
        fun occurrence => occurrence.event.shown world.surroundings.silent := by
    intro record
    induction record with
    | nil => rfl
    | cons occurrence rest ih =>
        rw [List.flatMap_cons, List.filter_append, List.map_append, ih]
        cases hstrand : occurrence.strand with
        | none => simp [hstrand, List.filter_map, Function.comp_def]
        | some strand => simp [hstrand, List.filter_map, Function.comp_def]
  rw [announced, shown, shownItems, hall, hmain, List.filter_reverse]

end World

/-! ### Batches -/

namespace Batch

open World

/-- How a batch stands towards its list of the errors, in a run from its beginning. -/
inductive Lists (count : Nat) (first : World ChainResult) (batch : Batch) : Prop
  | watched (pending : List Nat) (notified : Bool) (h : Watched count batch pending notified)
      (acts : List Act) (course : Course first acts batch.world)
  | listed (result : Except Fault (List ChainResult)) (ended : batch.supervision = .ended result)
      (spent : Spent count batch.world) (seen : World ChainResult) (acts : List Act)
      (course : Course first acts seen) (unwritten : ∀ occurrence ∈ seen.record, occurrence.strand ≠ none)
      (record : batch.world.mainRecord = dump seen.errors ++ seen.mainRecord)
  | stalled (ended : batch.supervision = .stalled)

variable {count : Nat} {first : World ChainResult} {batch next : Batch}

/-- The errors are listed at the step at which the batch ends, and nothing is written after that. -/
theorem Lists.step (h : Lists count first batch) (hstep : batch.step? = some next) :
    Lists count first next := by
  cases h with
  | watched pending notified h acts course =>
      obtain ⟨after, hafter, hgoes⟩ := h.step
      obtain rfl := Option.some.inj (hstep.symm.trans hafter)
      have hlater := course.trans (course_step? hstep)
      cases hgoes with
      | on others told watched => exact .watched others told watched _ hlater
      | waits others told watched => exact .watched others told watched _ hlater
      | returns results ended length each spent same record =>
          exact .listed _ ended spent batch.world acts course h.orderly.ownRecord record
      | aborts place result failure exits placed failed cause ended spent record =>
          exact .listed _ ended spent batch.world acts course h.orderly.ownRecord record
      | stalls ended => exact .stalled ended
  | listed result ended spent seen acts course unwritten record =>
      obtain ⟨hsame, hspent, hdwindles⟩ := spent.step fun _ _ h => by cases ended.symm.trans h
      rw [hstep] at hsame hspent hdwindles
      exact .listed result (hsame.trans ended) hspent seen acts course unwritten
        (hdwindles.mainRecord.trans record)
  | stalled ended =>
      obtain ⟨hsame, -⟩ := stays_of_not_watching hstep fun _ _ h => by cases ended.symm.trans h
      exact .stalled (hsame.trans ended)

theorem Lists.settle (h : Lists count first batch) (steps : Nat) :
    Lists count first (batch.settle steps) := by
  induction steps with
  | zero => exact h
  | succ steps ih =>
      rw [settle_succ]
      cases hstep : (batch.settle steps).step? with
      | none => exact ih
      | some next => exact ih.step hstep

theorem Lists.start (surroundings : Surroundings) (exitOnError : Bool) (calls : Entries Nat)
    {chains : List Chain} (hordinary : ∀ chain ∈ chains, ∀ invocation ∈ chain.invocations,
      invocation.command.IsOrdinary) :
    Lists chains.length (startOf surroundings calls chains)
      (Batch.start surroundings exitOnError calls chains) := by
  by_cases hne : chains = []
  · subst hne
    refine .listed _ rfl ⟨?_, fun _ h => by cases h⟩ (startOf surroundings calls []) [] .start
      (fun _ h => by cases h) (mainRecord_dumpErrors _)
    exact congrArg List.length (strands_dumpErrors (startOf surroundings calls []))
  · have hstart : Batch.start surroundings exitOnError calls chains = ⟨exitOnError,
        startOf surroundings calls chains, .watching (List.range chains.length) false⟩ := by
      simp [Batch.start, hne]
    refine .watched _ false (.start surroundings exitOnError calls hne hordinary) [] ?_
    rw [hstart]
    exact .start

/-- What a batch has shown of its error log. -/
structure ShowsErrors (batch : Batch) : Prop where
  /-- At its end, and not before, the batch has listed the messages: each name with the number of its
  messages, and under it these one by one, each after its own number. -/
  listed : ∀ result, batch.supervision = .ended result → batch.world.announced =
    (batch.world.errors.entries.names.flatMap fun name =>
      [⟨.error, name ++ ": errors [ " ++ toString (batch.world.errors.get name).length ++ "]"⟩] ::
        (batch.world.errors.get name).mapIdx fun index message =>
          [⟨.error, "[" ++ toString index ++ "]: " ++ message⟩]).map Item.line
  unlisted : ∀ pending notified, batch.supervision = .watching pending notified →
    batch.world.announced = []
  /-- Each name of a message is there once, and no other. -/
  distinct : batch.world.errors.entries.names.Nodup
  complete : ∀ name, name ∈ batch.world.errors.entries.names ↔ batch.world.errors.get name ≠ []

theorem filter_dump (errors : ErrorLog) :
    (dump errors).filter (fun occurrence => occurrence.strand.isNone) = dump errors := by
  refine List.filter_eq_self.mpr fun occurrence hmem => ?_
  obtain ⟨line, -, rfl⟩ := List.mem_map.mp (List.mem_reverse.mp hmem)
  rfl

theorem filter_mainRecord {world : World ChainResult}
    (h : ∀ occurrence ∈ world.record, occurrence.strand ≠ none) :
    world.mainRecord.filter (fun occurrence => occurrence.strand.isNone) = [] := by
  refine List.filter_eq_nil_iff.mpr fun occurrence hmem hnone => ?_
  exact h occurrence (List.mem_filter.mp hmem).1 (Option.isNone_iff_eq_none.mp hnone)

theorem filterMap_logged?_dump (errors : ErrorLog) :
    (dump errors).filterMap Occurrence.logged? = [] := by
  refine List.filterMap_eq_nil_iff.mpr fun occurrence hmem => ?_
  obtain ⟨line, -, rfl⟩ := List.mem_map.mp (List.mem_reverse.mp hmem)
  rfl

theorem Lists.showsErrors {places : Nat → Prop} {acts : List Act} {earlier : List Message}
    (h : Lists count first batch) (hfirst : first.IsHushed places)
    (hcourse : Course first acts batch.world) (herrors : first.surroundings.errors = .ofMessages earlier) :
    ShowsErrors batch := by
  have hlast : ∀ {acts : List Act} {world : World ChainResult}, Course first acts world →
      world.errors = .ofMessages
        (earlier ++ (world.mainRecord.filterMap Occurrence.logged?).reverse.map Prod.snd) := by
    intro acts world hworld
    rw [errors_eq, show world.surroundings = first.surroundings from hworld.tells.surroundings,
      herrors, ErrorLog.addAll_ofMessages, (hworld.isHushed hfirst).logged_eq]
  have hbatch := hlast hcourse
  have hnodup : batch.world.errors.entries.names.Nodup := by
    rw [hbatch]
    exact ErrorLog.nodup_names_ofMessages _
  exact {
    listed := by
      intro result hended
      cases h with
      | watched pending notified h => cases h.supervision.symm.trans hended
      | stalled ended => cases ended.symm.trans hended
      | listed _ _ _ seen _ course unwritten record =>
          have hsame : batch.world.errors = seen.errors := by
            rw [hbatch, record, List.filterMap_append, filterMap_logged?_dump, List.nil_append,
              ← hlast course]
          rw [← ErrorLog.errorDump_eq hnodup, hsame, announced_eq, record, List.filter_append,
            filter_dump, filter_mainRecord unwritten, List.append_nil, dump, List.reverse_reverse,
            List.flatMap_map]
          exact (List.map_eq_flatMap ..).symm
    unlisted := by
      intro pending notified hwatching
      cases h with
      | watched pending notified h =>
          rw [announced_eq, filter_mainRecord h.orderly.ownRecord]
          rfl
      | stalled ended => cases ended.symm.trans hwatching
      | listed _ ended => cases ended.symm.trans hwatching
    distinct := hnodup
    complete := fun name => by rw [hbatch]; exact ErrorLog.mem_names_ofMessages _ }

end Batch

end Cascade
