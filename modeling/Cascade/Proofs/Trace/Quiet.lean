import Cascade.Proofs.Run.Locality

/-!
Changes in which no thread and no execution begins, and no thread has a turn or is given up. Threads
may be woken, executions may come to their outcomes, and the code of an execution may report its end,
at once or for later.
-/

namespace Cascade

namespace World

variable {α : Type}

/-- The end of an execution that will be reported: a timer or a job is there for it. -/
def Pledges (world : World α) (place number : Nat) (result : Except Fault Value) : Prop :=
  (∃ timer ∈ world.timers, timer.strand = place ∧ timer.goal = .complete number result) ∨
    .fire place (.complete number result) ∈ world.queue

/-- A change in which no thread and no execution begins, and no thread has a turn or is given up. What
it adds to the record has its grounds, and what it pledges has been reported. -/
structure Quiet (grounds : Occurrence → Prop) (reports : Nat → Nat → Except Fault Value → Prop)
    (before after : World α) : Prop where
  shape : SameShape before after
  posture : ∀ place thread posture, before.posture? place thread = some posture →
    after.posture? place thread = some posture ∨ ∃ cell, posture = .waits cell .asleep ∧
      after.posture? place thread = some (.waits cell .woken)
  child : ∀ place number,
    (after.cell? place number).map Cell.child = (before.cell? place number).map Cell.child
  adds : Adds grounds before after
  pledges : ∀ place number result, after.Pledges place number result →
    before.Pledges place number result ∨ reports place number result

section Quiet

variable {grounds others : Occurrence → Prop} {reports further : Nat → Nat → Except Fault Value → Prop}
  {before middle after world : World α}

theorem Quiet.refl (world : World α) : Quiet grounds reports world world :=
  ⟨.refl world, fun _ _ _ h => .inl h, fun _ _ => rfl, .refl world, fun _ _ _ h => .inl h⟩

theorem Quiet.trans (h : Quiet grounds reports before middle) (k : Quiet grounds reports middle after) :
    Quiet grounds reports before after := by
  refine ⟨h.shape.trans k.shape, fun place thread posture hposture => ?_,
    fun place number => (k.child place number).trans (h.child place number), h.adds.trans k.adds,
    fun place number result hpledges => ?_⟩
  · rcases h.posture place thread posture hposture with hsame | ⟨cell, hasleep, hwoken⟩
    · exact k.posture place thread posture hsame
    · rcases k.posture place thread _ hwoken with hsame | ⟨other, hother, -⟩
      · exact .inr ⟨cell, hasleep, hsame⟩
      · cases hother
  · rcases k.pledges place number result hpledges with hmiddle | hreport
    · exact h.pledges place number result hmiddle
    · exact .inr hreport

theorem Quiet.mono (h : Quiet grounds reports before after)
    (hgrounds : ∀ occurrence, grounds occurrence → others occurrence)
    (hreports : ∀ place number result, reports place number result → further place number result) :
    Quiet others further before after :=
  ⟨h.shape, h.posture, h.child, h.adds.mono hgrounds, fun place number result hpledges =>
    (h.pledges place number result hpledges).imp_right (hreports place number result)⟩

/-- A change of nothing but the record and the pledges. -/
theorem Quiet.of_strands_eq (h : after.strands = before.strands)
    (hadds : Adds grounds before after)
    (hpledges : ∀ place number result, after.Pledges place number result →
      before.Pledges place number result ∨ reports place number result) :
    Quiet grounds reports before after := by
  have hstrand : ∀ place, after.strand? place = before.strand? place := by
    intro place
    rw [strand?, h, strand?]
  refine ⟨.of_strands_eq h, fun place thread posture hposture => .inl ?_, fun place number => ?_,
    hadds, hpledges⟩
  · rw [← hposture, posture?, hstrand, posture?]
  · rw [cell?, hstrand, cell?]

theorem quiet_enqueue {job : Job} (h : ∀ place number result,
      job = .fire place (.complete number result) → reports place number result) (world : World α) :
    Quiet grounds reports world (world.enqueue job) := by
  refine .of_strands_eq rfl (.of_record_eq rfl) fun place number result hpledges => ?_
  rcases hpledges with htimer | hjob
  · exact .inl (.inl htimer)
  · rcases List.mem_append.mp hjob with hold | hnew
    · exact .inl (.inr hold)
    · exact .inr (h place number result (List.mem_singleton.mp hnew).symm)

theorem quiet_schedule {strand : Nat} {goal : Goal} (h : ∀ number result,
      goal = .complete number result → reports strand number result) (delay : Binary64)
    (world : World α) : Quiet grounds reports world (world.schedule strand delay goal) := by
  refine .of_strands_eq rfl (.of_record_eq rfl) fun place number result hpledges => ?_
  rcases hpledges with ⟨timer, hmem, hplace, hgoal⟩ | hjob
  · rcases List.mem_append.mp hmem with hold | hnew
    · exact .inl (.inl ⟨timer, hold, hplace, hgoal⟩)
    · obtain rfl := List.mem_singleton.mp hnew
      subst hplace
      exact .inr (h number result hgoal)
  · exact .inl (.inr hjob)

theorem quiet_write {occurrence : Occurrence} (h : grounds occurrence) (world : World α) :
    Quiet grounds reports world (world.write occurrence) :=
  .of_strands_eq rfl (adds_write h world) fun _ _ _ hpledges => .inl hpledges

theorem quiet_modifyCell {change : Cell → Cell}
    (h : ∀ cell, (change cell).origin = cell.origin ∧ (change cell).child = cell.child)
    (strand number : Nat) (world : World α) :
    Quiet grounds reports world (world.modifyCell strand number change) := by
  refine ⟨sameShape_modifyCell (fun cell => (h cell).1) strand number world,
    fun place thread posture hposture => .inl ?_, fun place execution => ?_, .of_record_eq rfl,
    fun _ _ _ hpledges => .inl hpledges⟩
  · rw [posture?_modifyCell, hposture]
  · rw [cell?_modifyCell]
    split
    · cases world.cell? place execution <;> simp [h]
    · rfl

theorem quiet_wake (strand : Nat) (thread : ThreadId) (cell : Option Nat) (world : World α) :
    Quiet grounds reports world (world.wake strand thread cell) := by
  refine ⟨sameShape_wake strand thread cell world, fun place other posture hposture => ?_,
    fun place number => by rw [cell?_wake], adds_wake strand thread cell world,
    fun place number result hpledges => .inl ?_⟩
  · rw [posture?_wake]
    split
    · rename_i heq
      obtain ⟨rfl, rfl, hwaits⟩ := heq
      exact .inr ⟨cell, Option.some.inj (hposture.symm.trans hwaits), rfl⟩
    · exact .inl hposture
  · rw [wake] at hpledges
    split at hpledges
    · rcases hpledges with htimer | hjob
      · exact .inl htimer
      · rcases List.mem_append.mp hjob with hold | hnew
        · exact .inr hold
        · cases List.mem_singleton.mp hnew
    · exact hpledges

theorem quiet_settle {strand number : Nat} {happening : Happening} {outcome : Outcome}
    (world : World α)
    (hhappening : ∀ command,
      grounds ⟨some strand, none, none, .execution number command happening⟩)
    (hignored : ∀ command,
      grounds ⟨some strand, none, none, .execution number command (.ignored outcome)⟩) :
    Quiet grounds reports world (world.settle strand number happening outcome) := by
  refine settle_induction (.refl world) (fun command => quiet_write (hhappening command) world)
    (fun other command h => h.trans (quiet_write (hignored command) other))
    (fun _ h => h.trans (quiet_modifyCell ?_ strand number _)) fun _ _ h => h.trans (quiet_wake ..)
  exact fun _ => ⟨rfl, rfl⟩

theorem quiet_complete {strand number : Nat} {result : Except Fault Value} (world : World α)
    (hcompleted : ∀ command,
      grounds ⟨some strand, none, none, .execution number command (.completed result)⟩)
    (hignored : ∀ command outcome,
      grounds ⟨some strand, none, none, .execution number command (.ignored outcome)⟩) :
    Quiet grounds reports world (world.complete strand number result) :=
  complete_induction (.refl world) fun _ =>
    quiet_settle world hcompleted fun command => hignored command _

theorem quiet_signal (event : String) (world : World α) :
    Quiet grounds reports world (world.signal event) :=
  signal_induction
    (fun _ => .of_strands_eq rfl (.of_record_eq rfl) fun _ _ _ hpledges => .inl hpledges)
    fun _ _ _ h => h.trans (quiet_wake ..)

theorem quiet_drop {strand : Nat}
    (h : ∀ number command, grounds ⟨some strand, none, none, .execution number command .dropped⟩)
    (number : Nat) (world : World α) : Quiet grounds reports world (world.drop strand number) := by
  refine drop_induction (.refl world) fun command =>
    (quiet_write (h number command) world).trans (quiet_modifyCell ?_ strand number _)
  exact fun _ => ⟨rfl, rfl⟩

theorem quiet_forget (strand : Nat) (thread : ThreadId) (world : World α) :
    Quiet grounds reports world (world.forget strand thread) := by
  refine .of_strands_eq rfl (.of_record_eq rfl) fun place number result hpledges => .inl ?_
  rcases hpledges with ⟨timer, hmem, htimer⟩ | hjob
  · exact .inl ⟨timer, (List.mem_filter.mp hmem).1, htimer⟩
  · exact .inr hjob

theorem quiet_advance (h : world.advance? = some after) : Quiet grounds reports world after := by
  obtain ⟨due, -, heq⟩ := Option.bind_eq_some_iff.mp h
  obtain rfl := Option.some.inj heq
  have hold : ∀ timer, timer ∈ (world.timers.partition fun timer => timer.due = due).1 ∨
      timer ∈ (world.timers.partition fun timer => timer.due = due).2 → timer ∈ world.timers := by
    intro timer hmem
    rw [List.partition_eq_filter_filter] at hmem
    exact hmem.elim (fun h => (List.mem_filter.mp h).1) fun h => (List.mem_filter.mp h).1
  refine .of_strands_eq rfl (.of_record_eq rfl) fun place number result hpledges => .inl ?_
  rcases hpledges with ⟨timer, hmem, htimer⟩ | hjob
  · exact .inl ⟨timer, hold timer (.inr hmem), htimer⟩
  · rcases List.mem_append.mp hjob with hqueue | hnew
    · exact .inr hqueue
    · obtain ⟨timer, hmem, hfire⟩ := List.mem_map.mp hnew
      injection hfire with hplace hgoal
      exact .inl ⟨timer, hold timer (.inl hmem), hplace, hgoal⟩

end Quiet

end World

end Cascade
