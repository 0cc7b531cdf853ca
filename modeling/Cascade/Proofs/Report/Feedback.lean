import Cascade.Proofs.Execution.Origin

/-!
The feedback on executions. Of all that happens to an execution, only the outcome that its caller gets
prints a line about it. So an execution, whether it is a step of a chain, a repetition or a call from the
code of another command, gives one line when it gives its outcome, and none before or after; the success
of a hidden command gives none.
-/

namespace Cascade

open Past

def Item.line? : Item → Option Line
  | .line content => some content
  | _ => none

/-- The lines that an occurrence prints about one execution. -/
def Occurrence.feedback (silent : Bool) (place number : Nat) (occurrence : Occurrence) : List Line :=
  if (occurrence.happening? place number).isSome then
    (occurrence.event.shown silent).filterMap Item.line?
  else []

namespace World

variable {α : Type} {world : World α} {place number : Nat} {cell : Cell}

/-- The lines that are printed about one execution, in the order of time. -/
def feedback (world : World α) (place number : Nat) : List Line :=
  world.record.reverse.flatMap (Occurrence.feedback world.surroundings.silent place number)

theorem IsAttested.occurrence_feedback (h : world.IsAttested)
    (hcell : world.cell? place number = some cell) (silent : Bool) {occurrence : Occurrence}
    (hmem : occurrence ∈ world.record) : occurrence.feedback silent place number =
      ((occurrence.happening? place number).bind Happening.yielded?).toList.flatMap fun outcome =>
        (Report.feedback silent cell.command.hidden outcome).filterMap Item.line? := by
  have hquiet : ∀ (hidden : Bool) {happening : Happening}, happening.yielded? = none →
      (happening.shown silent hidden).filterMap Item.line? = [] := by
    intro hidden happening hnone
    cases happening with
    | yielded outcome => cases hnone
    | _ => rfl
  rw [Occurrence.feedback]
  cases h occurrence hmem with
  | noted strand execution command caller step happening origin =>
      by_cases hsame : strand = place ∧ execution = number
      · obtain ⟨rfl, rfl⟩ := hsame
        rw [hcell, Option.map_some, Cell.origin] at origin
        obtain ⟨rfl, -⟩ := Prod.mk.inj (Option.some.inj origin)
        simp only [Occurrence.happening?, and_self, if_true, Option.isSome_some, Option.bind_some,
          Event.shown]
        cases hyield : happening.yielded? with
        | none => simp [hquiet _ hyield]
        | some outcome =>
            cases happening with
            | yielded given =>
                obtain rfl := Option.some.inj hyield
                simp [Happening.shown]
            | _ => cases hyield
      · simp [Occurrence.happening?, hsame]
  | told strand execution command happening late kept =>
      by_cases hsame : strand = place ∧ execution = number
      · simp [Occurrence.happening?, hsame, Event.shown, hquiet _ kept, kept]
      · simp [Occurrence.happening?, hsame]
  | other _ apart =>
      have hnone : occurrence.happening? place number = none := by
        rcases occurrence with ⟨_ | strand, thread, step, event⟩
        · rfl
        · cases event with
          | execution execution command happening => exact absurd rfl (apart execution command happening)
          | _ => rfl
      simp [hnone]

theorem IsAttested.feedback_eq (h : world.IsAttested)
    (hcell : world.cell? place number = some cell) : world.feedback place number =
      (yields (world.past place number)).reverse.flatMap fun outcome =>
        (Report.feedback world.surroundings.silent cell.command.hidden outcome).filterMap
          Item.line? := by
  let lines : Outcome → List Line := fun outcome =>
    (Report.feedback world.surroundings.silent cell.command.hidden outcome).filterMap Item.line?
  let given : Occurrence → Option Outcome := fun occurrence =>
    (occurrence.happening? place number).bind Happening.yielded?
  have hgiven : yields (world.past place number) = world.record.filterMap given := by
    rw [yields, past, List.filterMap_filterMap]
  calc world.feedback place number
      = world.record.reverse.flatMap fun occurrence => (given occurrence).toList.flatMap lines :=
        List.flatMap_congr fun occurrence hmem =>
          h.occurrence_feedback hcell _ (List.mem_reverse.mp hmem)
    _ = (world.record.reverse.filterMap given).flatMap lines := by
        rw [List.filterMap_eq_flatMap_toList, List.flatMap_assoc]
    _ = (yields (world.past place number)).reverse.flatMap lines := by
        rw [hgiven, List.filterMap_reverse]

/-- What is printed about one execution. A silent run prints nothing about any. -/
structure Responds (world : World α) (place number : Nat) (cell : Cell) : Prop where
  /-- Nothing is printed as long as the caller has not got an outcome. -/
  withheld : (∀ outcome, .yielded outcome ∉ world.past place number) →
    world.feedback place number = []
  /-- A success gives one line, or none if the command is hidden. -/
  succeeded : ∀ outcome value, .yielded outcome ∈ world.past place number →
    outcome.result = .ok value → world.feedback place number =
      if cell.command.hidden || world.surroundings.silent then []
      else [Line.of .success (cell.command.name ++ ": done!")]
  /-- A failure gives one line, with what failed. -/
  failed : ∀ outcome fault, .yielded outcome ∈ world.past place number →
    outcome.result = .error fault → world.feedback place number =
      if world.surroundings.silent then []
      else [Line.of .error (cell.command.name ++ ": error " ++ fault.message)]
  /-- Whoever asked for an execution that is complete has got the outcome, or gets it at a turn that is
  in the queue, unless the call or the caller is cancelled. -/
  answered : ∀ outcome, cell.state = .settled outcome →
    .yielded outcome ∈ world.past place number ∨
      .resume place cell.caller ∈ world.queue ∧
        .yielded outcome ∈ (world.resume place cell.caller).past place number ∨
      (∃ fault, .escaped fault ∈ world.past place number) ∨
      world.posture? place cell.caller = some (.waits (some number) .cancelled) ∨
      world.posture? place cell.caller = some (.finished true)

theorem FirstCounts.yields_eq (h : FirstCounts world place number cell) {outcome : Outcome}
    (hyield : .yielded outcome ∈ world.past place number) :
    cell.state = .settled outcome ∧ yields (world.past place number) = [outcome] := by
  have hmem := mem_yields.mpr hyield
  rcases h.yielded with hnone | ⟨settled, hstate, hone⟩
  · rw [hnone] at hmem
    cases hmem
  · rw [hone] at hmem
    obtain rfl := List.mem_singleton.mp hmem
    exact ⟨hstate, hone⟩

theorem FirstCounts.command_eq (h : FirstCounts world place number cell) {outcome : Outcome}
    (hstate : cell.state = .settled outcome) : outcome.command = cell.command.name :=
  h.named outcome (List.mem_of_getLast? ((h.settled outcome).mp hstate).1)

/-- An execution gives one line with its outcome, and no other. -/
theorem FirstCounts.responds (h : FirstCounts world place number cell)
    (hattested : world.IsAttested) (hcell : world.cell? place number = some cell) :
    Responds world place number cell := by
  have hone : ∀ {outcome}, .yielded outcome ∈ world.past place number →
      outcome.command = cell.command.name ∧ world.feedback place number =
        (Report.feedback world.surroundings.silent cell.command.hidden outcome).filterMap
          Item.line? := by
    intro outcome hyield
    obtain ⟨hstate, hyields⟩ := h.yields_eq hyield
    refine ⟨h.command_eq hstate, ?_⟩
    rw [hattested.feedback_eq hcell, hyields]
    exact List.flatMap_singleton ..
  exact {
    withheld := by
      intro hnone
      have hyields : yields (world.past place number) = [] :=
        List.eq_nil_iff_forall_not_mem.mpr fun outcome hmem => hnone outcome (mem_yields.mp hmem)
      rw [hattested.feedback_eq hcell, hyields]
      rfl
    succeeded := by
      intro outcome value hyield hresult
      obtain ⟨hname, hfeedback⟩ := hone hyield
      rw [hfeedback, Report.feedback, hresult, ← hname]
      dsimp only
      split <;> rfl
    failed := by
      intro outcome fault hyield hresult
      obtain ⟨hname, hfeedback⟩ := hone hyield
      rw [hfeedback, Report.feedback, hresult, ← hname]
      dsimp only
      split <;> rfl
    answered := by
      intro outcome hstate
      by_cases hclosed : IsClosed (world.past place number)
      · rcases hclosed with ⟨given, hgiven⟩ | hescaped
        · obtain ⟨hsettled, -⟩ := h.yields_eq hgiven
          obtain rfl := CellState.settled.inj (hsettled.symm.trans hstate)
          exact .inl hgiven
        · exact .inr (.inr (.inl hescaped))
      · rcases h.given outcome hstate hclosed with hturn | hcancelled | hended
        · exact .inr (.inl hturn)
        · exact .inr (.inr (.inr (.inl hcancelled)))
        · exact .inr (.inr (.inr (.inr hended))) }

end World

end Cascade
