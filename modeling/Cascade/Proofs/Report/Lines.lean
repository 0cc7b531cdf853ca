import Cascade.Proofs.Chain.Discipline
import Cascade.Proofs.Batch.Abandon
import Cascade.Proofs.Log.Voice

/-!
The lines of a report: what the programs of the chains and the supervisor print, and not what the
commands print. A chain that comes to a result closes its part with a banner and a timing line, and no
other line of its part is one.
-/

namespace Cascade

/-! ### The report -/

/-- The line of the report that an occurrence prints, with its chain. The supervisor has none. -/
def Occurrence.reported? (occurrence : Occurrence) : Option (Option Nat × Line) :=
  if occurrence.strand = none ∨ occurrence.thread = some .root ∧ occurrence.step = none then
    occurrence.event.line?.map fun line => (occurrence.strand, line)
  else none

namespace World

variable {α : Type}

/-- The report of a run so far, in the order of time. -/
def report (world : World α) : List (Option Nat × Line) :=
  world.record.reverse.filterMap Occurrence.reported?

theorem report_eq_mainRecord (world : World α) :
    world.report = world.mainRecord.reverse.filterMap Occurrence.reported? := by
  have hmain : ∀ occurrence : Occurrence, occurrence.isMain = false →
      occurrence.reported? = none := by
    intro occurrence hother
    rw [Occurrence.isMain, Bool.or_eq_false_iff, decide_eq_false_iff_not] at hother
    refine if_neg fun hown => ?_
    rcases hown with hnone | ⟨hroot, -⟩
    · rw [hnone] at hother
      cases hother.1
    · exact hother.2 hroot
  rw [report, mainRecord, ← List.filter_reverse, List.filterMap_filter]
  refine congrArg (fun view => world.record.reverse.filterMap view) (funext fun occurrence => ?_)
  cases h : occurrence.isMain with
  | true => rfl
  | false => exact hmain occurrence h

theorem report_sublist_shown (world : World α) :
    (world.report.map fun entry => (entry.1, Item.line entry.2)).Sublist world.shown := by
  have hone : ∀ occurrence : Occurrence,
      (occurrence.reported?.toList.map fun entry => (entry.1, Item.line entry.2)).Sublist
        ((occurrence.event.shown world.surroundings.silent).map fun item =>
          (occurrence.strand, item)) := by
    rintro ⟨strand, thread, step, event⟩
    rw [Occurrence.reported?]
    split
    · cases event with
      | item content =>
          cases content with
          | line => exact .refl _
          | _ => exact List.nil_sublist _
      | _ => exact List.nil_sublist _
    · exact List.nil_sublist _
  rw [report, shown, shownItems]
  induction world.record.reverse with
  | nil => exact .refl _
  | cons occurrence rest ih =>
      rw [List.flatMap_cons, List.filterMap_cons]
      have hfirst := hone occurrence
      cases h : occurrence.reported? with
      | none => exact (List.nil_append _) ▸ (List.nil_sublist _).append ih
      | some entry =>
          rw [h] at hfirst
          exact hfirst.append ih

theorem report_filter (world : World α) (place : Nat) :
    (world.report.filter fun entry => entry.1 = some place).map Prod.snd = world.recital place := by
  have hone : ∀ occurrence : Occurrence,
      (occurrence.reported?.filter fun entry => entry.1 = some place).map Prod.snd =
        (occurrence.spoken? place).bind Event.line? := by
    rintro ⟨strand, thread, step, event⟩
    simp only [Occurrence.reported?, Occurrence.spoken?]
    by_cases hplace : strand = some place
    · subst hplace
      by_cases hown : thread = some .root ∧ step = none
      · obtain ⟨rfl, rfl⟩ := hown
        cases event with
        | item content => cases content <;> simp [Event.line?, Event.isSpeech, Option.filter]
        | _ => simp [Event.line?, Event.isSpeech]
      · have hnot : ¬ (thread = some .root ∧ step = none ∧ event.isSpeech = true) :=
          fun h => hown ⟨h.1, h.2.1⟩
        simp [hown, hnot]
    · rw [if_neg fun h : strand = some place ∧ _ => hplace h.1]
      split
      · cases event.line? <;> simp [Option.filter, hplace]
      · rfl
  rw [report, recital, speech, ← List.filterMap_reverse, List.filterMap_filterMap,
    List.filter_filterMap, List.map_filterMap]
  exact congrArg (fun view => world.record.reverse.filterMap view) (funext hone)

end World

/-! ### The part of a chain -/

/-- A line that is neither a banner nor a timing line. -/
def Line.IsOpen (line : Line) : Prop :=
  ∀ span ∈ line, span.role ≠ .postRunTitle ∧ span.role ≠ .timing

theorem Line.isOpen_of {role : Role} (hbanner : role ≠ .postRunTitle) (htiming : role ≠ .timing)
    (text : String) : (Line.of role text).IsOpen := by
  intro span hspan
  rw [List.mem_singleton.mp hspan]
  exact ⟨hbanner, htiming⟩

namespace Chain

/-- The banner of a chain that came to a result. The success of a single hidden command has none. -/
def banner (chain : Chain) (result : ChainResult) : List Line :=
  match result.failure with
  | some fault =>
      [Line.of .postRunTitle ("[" ++ chain.label ++ "]: err = " ++ fault.underlying.message)]
  | none => if chain.isHidden then [] else [Line.of .postRunTitle ("[" ++ chain.label ++ "]: OK")]

/-- The timing line of a chain that came to a result. A single hidden command has none. -/
def timing (chain : Chain) (result : ChainResult) : List Line :=
  if chain.isHidden then [] else [Report.timing chain.label result.elapsed]

variable {chain : Chain}

theorem summary_eq (chain : Chain) (result : ChainResult) :
    Report.summary chain.label (result.failure.map Fault.underlying) result.elapsed chain.isHidden =
      chain.banner result ++ chain.timing result := by
  rw [Report.summary.eq_def, banner, timing]
  cases result.failure <;> rfl

theorem opening_of_isBatch (h : chain.isBatch = true) :
    chain.opening = [Report.batchTitle chain.label] := by
  have htitle : chain.title chain.invocations = [] := by
    rw [title.eq_def]
    split
    · rw [h]
      rfl
    · rfl
  rw [opening, if_pos h, htitle, List.append_nil]

theorem isOpen_of_mem_opening {line : Line} (h : line ∈ chain.opening) : line.IsOpen := by
  have hone : ∀ text, (Line.of .preRunTitle text).IsOpen := Line.isOpen_of (by decide) (by decide)
  rcases List.mem_append.mp h with hbatch | htitle
  · split at hbatch
    · rw [List.mem_singleton.mp hbatch]
      exact hone _
    · cases hbatch
  · rw [title.eq_def] at htitle
    split at htitle
    · split at htitle
      · cases htitle
      · rw [List.mem_singleton.mp htitle]
        exact hone _
    · cases htitle

theorem isOpen_of_mem_excuse {result : ChainResult} {line : Line} (h : line ∈ result.excuse) :
    line.IsOpen := by
  rw [ChainResult.excuse] at h
  split at h
  · rw [List.mem_singleton.mp h]
    exact Line.isOpen_of (by decide) (by decide) _
  · cases h

/-- The chain of a token is hidden if it could be read and its only element is a hidden command. -/
theorem isHidden_ofToken_iff (registry : Registry) (token : String) :
    (ofToken registry token).isHidden = true ↔ ∃ invocation,
      (ofToken registry token).reading = .ok [invocation] ∧ invocation.command.hidden = true := by
  cases hreading : (ofToken registry token).reading with
  | error fault => simp [isHidden_of_error hreading]
  | ok invocations =>
      have hlength : invocations.length = (ofToken registry token).elements.length :=
        Invocation.length_of_readAll hreading
      have hbatch : (ofToken registry token).isBatch = decide (1 < invocations.length) := by
        rw [isBatch, hlength]
      have hinvocations : (ofToken registry token).invocations = invocations := by
        rw [Chain.invocations, hreading]
        rfl
      rw [isHidden, hbatch, hinvocations]
      rcases invocations with _ | ⟨first, _ | ⟨second, rest⟩⟩ <;> simp

end Chain

end Cascade
