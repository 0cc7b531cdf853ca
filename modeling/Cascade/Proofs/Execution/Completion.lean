import Cascade.Proofs.Execution.Sound
import Cascade.Proofs.Run.Growth

/-!
Completions keep the law of executions: the first one settles the cell and wakes the thread that
waits for it, and each later one is ignored. So does all code that runs to its end at once.
-/

namespace Cascade

open Past

/-- Whether an execution has taken an outcome. -/
def CellState.isSettled : CellState → Bool
  | settled _ => true
  | _ => false

namespace World

variable {α : Type}

theorem Sound.of_eq {world other : World α} (h : world.Sound)
    (hstrands : other.strands = world.strands) (hrecord : other.record = world.record) :
    other.Sound := by
  refine h.congr (fun place thread => ?_) (fun place number => ?_) (fun place child => ?_)
    fun place number => ?_
  · simp only [posture?, strand?, hstrands]
  · simp only [cell?, strand?, hstrands]
  · simp only [errand?, strand?, hstrands]
  · simp only [past, hrecord]

theorem Sound.write {world : World α} (h : world.Sound) {occurrence : Occurrence}
    (hnone : ∀ place number, occurrence.happening? place number = none) :
    (world.write occurrence).Sound := by
  refine h.congr (fun _ _ => rfl) (fun _ _ => rfl) (fun _ _ => rfl) fun place number => ?_
  rw [past_write, hnone]
  rfl

theorem Sound.settle_pending {world : World α} (h : world.Sound) {place number : Nat} {cell : Cell}
    (hcell : world.cell? place number = some cell) (hpending : cell.state = .pending)
    {happening : Happening} {outcome : Outcome}
    (hattempt : happening.attempt? cell.command false = some outcome)
    (hopening : happening.isOpening = false)
    (hpromise : KeepsPromise cell.command (happening :: world.past place number)) :
    (((world.tell place number cell.command happening).modifyCell place number fun cell =>
        { cell with state := .settled outcome }).wake place cell.caller (some number)).Sound := by
  let told := world.tell place number cell.command happening
  let changed : Cell := { cell with state := .settled outcome }
  let posture : Option Posture :=
    if world.posture? place cell.caller = some (.waits (some number) .asleep) then
      some (.waits (some number) .woken)
    else world.posture? place cell.caller
  obtain ⟨-, hyield, -, -, hescape⟩ := Happening.of_attempt? hattempt
  have hclosed : IsClosed (happening :: world.past place number) ↔
      IsClosed (world.past place number) := isClosed_cons_iff hyield hescape
  refine h.change changed [happening] posture hcell
    (fun strand execution => ?_) (fun strand execution => ?_) (fun strand child => ?_)
    (fun strand thread => ?_) rfl rfl (by simpa using hopening) ?_ hpromise (fun hopen => ?_) ?_
    fun execution wake hwaits => ?_
  · rw [cell?_wake, cell?_modifyCell]
    change (if place = strand ∧ number = execution then (world.cell? strand execution).map _
      else world.cell? strand execution) = _
    split
    · rename_i heq
      obtain ⟨rfl, rfl⟩ := heq
      rw [hcell]
      rfl
    · rfl
  · rw [past_wake]
    change told.past strand execution = _
    rw [past_tell]
    split
    · rename_i heq
      obtain ⟨rfl, rfl⟩ := heq
      rfl
    · rfl
  · rw [errand?_wake, errand?_modifyCell]
    rfl
  · rw [posture?_wake, posture?_modifyCell, posture?_modifyCell]
    change (if place = strand ∧ cell.caller = thread ∧
      world.posture? place cell.caller = some (.waits (some number) .asleep) then _
      else world.posture? strand thread) = _
    by_cases heq : place = strand ∧ cell.caller = thread
    · obtain ⟨rfl, rfl⟩ := heq
      simp [posture]
    · rw [if_neg heq, if_neg fun hall => heq ⟨hall.1, hall.2.1⟩]
  · have haccounts := h.accounts place number cell hcell
    rw [hpending] at haccounts
    exact haccounts.settle hattempt
  · have hattends := h.attended place number cell hcell fun hpast => hopen (hclosed.mpr hpast)
    rw [hpending] at hattends
    -- a caller that does not sleep has no business with a pending execution, unless it runs
    cases hposture : world.posture? place cell.caller with
    | none => simp [hposture, Attends] at hattends
    | some stance =>
        rcases stance with _ | ⟨_ | awaited, _ | _ | _⟩ | isCancelled
        all_goals simp [hposture, Attends] at hattends
        · simp [posture, hposture, Attends]
        · simp [posture, hposture, changed, Attends, hattends]
        · cases isCancelled <;> simp at hattends
  · by_cases hasleep : world.posture? place cell.caller = some (.waits (some number) .asleep)
    · exact .inr ⟨.asleep, hasleep⟩
    · exact .inl (if_neg hasleep)
  · by_cases hasleep : world.posture? place cell.caller = some (.waits (some number) .asleep)
    · simp only [posture, if_pos hasleep, Option.some.injEq, Posture.waits.injEq] at hwaits
      obtain ⟨rfl, -⟩ := hwaits
      obtain ⟨found, hfound, -, hopen⟩ := h.awaited place cell.caller number .asleep hasleep
      exact ⟨fun _ => mt hclosed.mp hopen, .asleep, hasleep⟩
    · simp only [posture, if_neg hasleep] at hwaits
      refine ⟨fun hsame => ?_, wake, hwaits⟩
      obtain ⟨found, hfound, -, hopen⟩ := h.awaited place cell.caller execution wake hwaits
      exact mt hclosed.mp (hsame ▸ hopen)

theorem Sound.settle_settled {world : World α} (h : world.Sound) {place number : Nat} {cell : Cell}
    (hcell : world.cell? place number = some cell) {first : Outcome}
    (hsettled : cell.state = .settled first) {happening : Happening} {outcome : Outcome}
    (hattempt : happening.attempt? cell.command true = some outcome)
    (hopening : happening.isOpening = false)
    (hpromise : KeepsPromise cell.command (happening :: world.past place number)) :
    ((world.tell place number cell.command happening).tell place number cell.command
      (.ignored outcome)).Sound := by
  have haccounts := h.accounts place number cell hcell
  obtain ⟨-, hyield, -, -, hescape⟩ := Happening.of_attempt? hattempt
  have hignored : IsClosed (.ignored outcome :: happening :: world.past place number) ↔
      IsClosed (happening :: world.past place number) :=
    isClosed_cons_iff rfl fun _ h => by cases h
  have hclosed := hignored.trans (isClosed_cons_iff hyield hescape)
  refine h.change cell [.ignored outcome, happening] (world.posture? place cell.caller) hcell
    (fun strand execution => ?_) (fun strand execution => ?_) (fun _ _ => rfl)
    (fun strand thread => ?_) rfl rfl
    (by simpa [Happening.isOpening] using hopening) ?_ (hpromise.cons rfl fun _ h => by cases h)
    (fun hopen => ?_) (.inl rfl) fun execution wake hwaits => ?_
  · split
    · rename_i heq
      obtain ⟨rfl, rfl⟩ := heq
      exact hcell
    · rfl
  · rw [past_tell, past_tell]
    split
    · rename_i heq
      obtain ⟨rfl, rfl⟩ := heq
      rfl
    · rfl
  · split
    · rename_i heq
      obtain ⟨rfl, rfl⟩ := heq
      rfl
    · rfl
  · rw [hsettled] at haccounts ⊢
    exact haccounts.ignore hattempt
  · exact h.attended place number cell hcell fun hpast => hopen (hclosed.mpr hpast)
  · refine ⟨fun hsame hnow => ?_, wake, hwaits⟩
    obtain ⟨found, hfound, -, hopen⟩ := h.awaited place cell.caller execution wake hwaits
    exact hopen (hsame ▸ hclosed.mp hnow)

/-- A completion keeps the law. -/
theorem Sound.settle {world : World α} (h : world.Sound) {place number : Nat} {cell : Cell}
    (hcell : world.cell? place number = some cell) {happening : Happening} {outcome : Outcome}
    (hattempt : happening.attempt? cell.command cell.state.isSettled = some outcome)
    (hopening : happening.isOpening = false)
    (hended : ∀ result, happening = .ended result →
      Adopts cell.command (world.past place number)) :
    (world.settle place number happening outcome).Sound := by
  have haccounts := h.accounts place number cell hcell
  obtain ⟨-, hyield, hispromise, -, hescape⟩ := Happening.of_attempt? hattempt
  have hpromise := (h.promise place number cell hcell).cons hispromise hended
  simp only [World.settle, hcell]
  cases hstate : cell.state with
  | pending =>
      rw [hstate] at hattempt
      exact h.settle_pending hcell hstate hattempt hopening hpromise
  | dropped =>
      rw [hstate] at hattempt haccounts
      refine h.tell hcell hopening ?_ hpromise fun hnow => .inl ?_
      · rw [hstate]
        exact haccounts.late hattempt
      · exact (isClosed_cons_iff hyield hescape).mp hnow
  | settled first =>
      rw [hstate] at hattempt
      exact h.settle_settled hcell hstate hattempt hopening hpromise

theorem Sound.complete {world : World α} (h : world.Sound) (place number : Nat)
    (result : Except Fault Value) : (world.complete place number result).Sound := by
  rw [World.complete]
  split
  · exact h
  · rename_i cell hcell
    exact h.settle hcell rfl rfl fun _ h => by cases h

theorem Sound.signal {world : World α} (h : world.Sound) (event : String) :
    (world.signal event).Sound :=
  signal_induction (fun _ => h.of_eq rfl rfl) fun _ strand thread h => h.wake strand thread

theorem Sound.answer {world : World α} (h : world.Sound) (scope : Scope) (query : Query) :
    (world.answer scope query).1.Sound := by
  cases query with
  | emit content => exact h.write fun _ _ => rfl
  | record command message => exact h.write fun _ _ => rfl
  | complete result =>
      rw [World.answer]
      split
      · exact h.complete scope.strand _ result
      · exact h
  | completeLater delay result =>
      rw [World.answer]
      split
      · split <;> exact h.of_eq rfl rfl
      · exact h
  | signal event => exact h.signal event
  | setState name entry =>
      rw [World.answer]
      split
      · exact h
      · refine h.congr (posture?_modifyStrand ?_ _ _) (cell?_modifyStrand ?_ _ _)
          (errand?_modifyStrand ?_ _ _) fun _ _ => rfl
        · intro strand thread
          cases thread <;> rfl
        · exact fun _ => rfl
        · exact fun _ => rfl
  | _ => exact h.of_eq rfl rfl

end World

theorem Action.sound_run {α β : Type} (scope : Scope) (action : Action β) {world : World α}
    (h : world.Sound) : (action.run scope world).1.Sound := by
  induction action generalizing world with
  | finish value => exact h
  | fail fault => exact h
  | ask query next ih => exact ih _ (h.answer scope query)

end Cascade
