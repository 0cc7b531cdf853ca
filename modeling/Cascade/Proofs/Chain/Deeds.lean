import Cascade.Run.Batch
import Cascade.Proofs.Run.Locality

/-!
The deeds of a chain: the initializers that its own thread runs, and the steps that it starts and
finishes. A routine that goes on with another one runs as the two one after the other.
-/

namespace Cascade

/-- What a chain's own thread does to its steps. -/
inductive Deed
  | prepared (step : Nat) (failure : Option Fault)
  | started (step : Option Nat) (command : Command) (arguments : Arguments)
  | finished (step : Option Nat) (outcome : Outcome)

/-- The deed of a step that an event of the chain's thread is. -/
def Event.deed? (step : Option Nat) : Event → Option Deed
  | .prepared index failure => some (.prepared index failure)
  | .execution _ command (.called arguments) => some (.started step command arguments)
  | .execution _ command (.refused arguments) => some (.started step command arguments)
  | .execution _ _ (.yielded outcome) => some (.finished step outcome)
  | _ => none

/-- The deed of a chain that an occurrence is. -/
def Occurrence.deed? (strand : Nat) (occurrence : Occurrence) : Option Deed :=
  if occurrence.strand = some strand ∧ occurrence.thread = some .root then
    occurrence.event.deed? occurrence.step
  else none

theorem Occurrence.Within.deed?_eq_none {strand place : Nat} {thread : ThreadId}
    {occurrence : Occurrence} (h : occurrence.Within strand thread)
    (hne : ¬ (strand = place ∧ thread = .root)) : occurrence.deed? place = none := by
  rw [deed?, if_neg]
  rintro ⟨hplace, hroot⟩
  obtain ⟨hstrand, hnone | hthread⟩ := h
  · rw [hnone] at hroot
    cases hroot
  · rw [hstrand] at hplace
    rw [hthread] at hroot
    exact hne ⟨Option.some.inj hplace, Option.some.inj hroot⟩

theorem Occurrence.deed?_eq_none_of_thread {occurrence : Occurrence}
    (h : occurrence.thread = none) (place : Nat) : occurrence.deed? place = none := by
  rw [deed?, if_neg]
  rintro ⟨-, hroot⟩
  rw [h] at hroot
  cases hroot

theorem Occurrence.OfAnswer.deed?_eq_none {scope : Scope} {occurrence : Occurrence}
    (h : occurrence.OfAnswer scope) (place : Nat) : occurrence.deed? place = none := by
  cases h with
  | item | logged =>
      rw [deed?]
      split <;> rfl
  | completed | ignored => exact deed?_eq_none_of_thread rfl place

theorem Occurrence.OfCall.deed?_eq_none {scope : Scope} {number : Nat} {occurrence : Occurrence}
    (h : occurrence.OfCall scope number) (place : Nat) : occurrence.deed? place = none := by
  cases h with
  | answer _ h => exact h.deed?_eq_none place
  | told => exact deed?_eq_none_of_thread rfl place

namespace World

variable {α : Type}

/-- The deeds of a chain so far, in the order of time. -/
def deeds (world : World α) (place : Nat) : List Deed :=
  (world.record.filterMap (Occurrence.deed? place)).reverse

theorem deeds_write (occurrence : Occurrence) (world : World α) (place : Nat) :
    (world.write occurrence).deeds place =
      world.deeds place ++ (occurrence.deed? place).toList := by
  unfold deeds write
  cases h : occurrence.deed? place <;> simp [h]

theorem deeds_of_adds {before after : World α} {place : Nat}
    (h : Adds (fun occurrence => occurrence.deed? place = none) before after) :
    after.deeds place = before.deeds place := by
  obtain ⟨added, hrecord, hadded⟩ := h
  have hnone : added.filterMap (Occurrence.deed? place) = [] :=
    List.filterMap_eq_nil_iff.mpr hadded
  rw [deeds, hrecord, List.filterMap_append, hnone]
  rfl

theorem exists_of_mem_deeds {world : World α} {place : Nat} {deed : Deed} (h : deed ∈ world.deeds place) : ∃ step event,
    (⟨some place, some .root, step, event⟩ : Occurrence) ∈ world.record ∧
      event.deed? step = some deed := by
  obtain ⟨⟨strand, thread, step, event⟩, hmem, hdeed⟩ :=
    List.mem_filterMap.mp (List.mem_reverse.mp h)
  rw [Occurrence.deed?, Option.ite_none_right_eq_some] at hdeed
  obtain ⟨⟨rfl, rfl⟩, hdeed⟩ := hdeed
  exact ⟨step, event, hmem, hdeed⟩

theorem mem_deeds_of_mem_record {world : World α} {place : Nat} {step : Option Nat} {event : Event}
    {deed : Deed}
    (hmem : (⟨some place, some .root, step, event⟩ : Occurrence) ∈ world.record)
    (hdeed : event.deed? step = some deed) : deed ∈ world.deeds place := by
  refine List.mem_reverse.mpr (List.mem_filterMap.mpr ⟨_, hmem, ?_⟩)
  rw [Occurrence.deed?, if_pos ⟨rfl, rfl⟩, hdeed]

theorem deeds_call (scope : Scope) (number : Nat) (command : Command) (arguments : Arguments)
    (world : World α) (place : Nat) :
    (world.call scope number command arguments).1.deeds place = world.deeds place :=
  deeds_of_adds ((adds_call ..).mono fun _ h => h.deed?_eq_none place)

theorem deeds_begin (scope : Scope) (hroot : scope.thread = .root) (command : Command)
    (arguments : Arguments) (world : World α) :
    (world.begin scope command arguments).1.deeds scope.strand =
      world.deeds scope.strand ++ .started scope.step command arguments ::
        match (world.begin scope command arguments).2 with
        | .complete outcome => [.finished scope.step outcome]
        | _ => [] := by
  have hnote : ∀ (other : World α) happening,
      (other.noteExecution scope (world.cellCount scope.strand) command happening).deeds
        scope.strand = other.deeds scope.strand ++
          ((Event.execution (world.cellCount scope.strand) command happening).deed?
            scope.step).toList := by
    intro other happening
    rw [noteExecution, note, deeds_write, Occurrence.deed?, if_pos ⟨rfl, by rw [hroot]⟩]
  have henter : (world.enter scope (world.cellCount scope.strand) command arguments).1.deeds
      scope.strand = world.deeds scope.strand ++ [.started scope.step command arguments] := by
    rw [enter]
    split
    · exact (deeds_call ..).trans (hnote (world.openCell scope command .pending) (.called arguments))
    · exact hnote (world.openCell scope command _) (.refused arguments)
  rcases hentered : world.enter scope (world.cellCount scope.strand) command arguments with
    ⟨entered, begun⟩
  rw [hentered] at henter
  simp only [begin, hentered]
  cases begun with
  | complete outcome =>
      rw [hnote entered (.yielded outcome), henter, List.append_assoc]
      rfl
  | waits number => exact henter
  | cancelled fault => exact henter

theorem eq_of_standing {world : World α} {strand cell number : Nat}
    (h : world.standing strand cell = .waits number) : cell = number := by
  rw [standing] at h
  split at h
  · cases h
  · exact Begun.waits.inj h

theorem eq_of_call {scope : Scope} {number other : Nat} {command : Command} {arguments : Arguments}
    (world : World α) (h : (world.call scope number command arguments).2 = .waits other) :
    number = other := by
  cases hcall : (command.run arguments).run { scope with cell := some number } world with
  | mk middle result =>
      simp only [call, hcall] at h
      cases result with
      | ok reply => exact eq_of_standing h
      | error fault =>
          dsimp only at h
          split at h
          · cases h
          · exact eq_of_standing h

theorem cell_of_begin (scope : Scope) (command : Command) (arguments : Arguments)
    {world : World α} {current : Strand α}
    (hstrand : world.strand? scope.strand = some current) {number : Nat}
    (hwaits : (world.begin scope command arguments).2 = .waits number) :
    ∃ cell, (world.begin scope command arguments).1.cell? scope.strand number = some cell ∧
      cell.step = scope.step := by
  have henter : ∀ entered,
      world.enter scope (world.cellCount scope.strand) command arguments =
        (entered, .waits number) →
      ∃ cell, entered.cell? scope.strand number = some cell ∧ cell.step = scope.step := by
    intro entered hentered
    rw [enter] at hentered
    split at hentered
    · let opened := (world.openCell scope command .pending).noteExecution scope
        (world.cellCount scope.strand) command (.called arguments)
      obtain rfl := eq_of_call opened (congrArg Prod.snd hentered)
      have hopened : opened.cell? scope.strand (world.cellCount scope.strand) =
          some ⟨command, scope.thread, scope.step, .pending, none⟩ :=
        (cell?_openCell hstrand ..).trans (if_pos ⟨rfl, rfl⟩)
      obtain ⟨cell, hcell, horigin⟩ := (frame_call scope (world.cellCount scope.strand) command
        arguments opened).cell hopened
      simp only [Cell.origin, Prod.mk.injEq] at horigin
      have hsame : (opened.call scope (world.cellCount scope.strand) command arguments).1 =
          entered := congrArg Prod.fst hentered
      exact ⟨cell, hsame ▸ hcell, horigin.2.2⟩
    · cases congrArg Prod.snd hentered
  rcases hentered : world.enter scope (world.cellCount scope.strand) command arguments with
    ⟨entered, begun⟩
  simp only [begin, hentered] at hwaits ⊢
  cases begun with
  | complete outcome => cases hwaits
  | waits other =>
      obtain rfl := Begun.waits.inj hwaits
      exact henter entered hentered
  | cancelled fault => cases hwaits

end World

/-! ### Routines one after the other -/

/-- A wait after which another routine goes on. -/
def Waiting.bind {β γ : Type} (next : β → Routine γ) : Waiting β → Waiting γ
  | turn notice rest => turn notice fun moment => (rest moment).bind next
  | timer notice rest => timer notice fun moment => (rest moment).bind next
  | event name notice rest => event name notice fun moment => (rest moment).bind next
  | cell number rest => cell number fun outcome => (rest outcome).bind next

namespace Routine

variable {α β γ : Type}

theorem run_bind (scope : Scope) (next : β → Routine γ) (routine : Routine β) (world : World α) :
    (routine.bind next).run scope world =
      match routine.run scope world with
      | (world, .ended (.ok value)) => (next value).run scope world
      | (world, .ended (.error fault)) => (world, .ended (.error fault))
      | (world, .waits waiting wake) => (world, .waits (waiting.bind next) wake) := by
  induction routine generalizing world with
  | finish value => rfl
  | fail fault => rfl
  | ask query rest ih => exact ih _ _
  | sleep seconds notice rest ih =>
      simp only [Routine.bind, run]
      split
      · rfl
      · split <;> rfl
  | await event notice rest ih =>
      simp only [Routine.bind, run]
      split
      · exact ih _ _
      · rfl
  | invoke name given rest ih =>
      simp only [Routine.bind, run]
      split
      · rfl
      · rfl
      · rename_i command arguments _ _
        rcases world.begin scope command arguments with ⟨middle, begun⟩
        cases begun with
        | complete outcome => exact ih _ _
        | waits number => rfl
        | cancelled fault => rfl
  | prepare index rest ih =>
      simp only [Routine.bind, run]
      split
      · rfl
      · split
        · exact ih _ _
        · rename_i initializer _
          rcases initializer.run { scope with step := some index, cell := none } world with
            ⟨middle, result⟩
          cases result with
          | ok value => exact ih _ _
          | error fault =>
              dsimp only
              split
              · rfl
              · exact ih _ _
  | execute index rest ih =>
      simp only [Routine.bind, run]
      split
      · rfl
      · rename_i invocation _
        rcases world.begin { scope with step := some index } invocation.command
          invocation.arguments with ⟨middle, begun⟩
        cases begun with
        | complete outcome => exact ih _ _
        | waits number => rfl
        | cancelled fault => rfl

theorem run_ofAction (scope : Scope) (action : Action β) (world : World α) :
    (ofAction action).run scope world =
      ((action.run scope world).1, .ended (action.run scope world).2) := by
  induction action generalizing world with
  | finish value => rfl
  | fail fault => rfl
  | ask query next ih => exact ih _ _

end Routine

namespace Action

variable {α β γ : Type}

theorem run_ofExcept (scope : Scope) (result : Except Fault β) (world : World α) :
    (ofExcept result).run scope world = (world, result) := by
  cases result <;> rfl

theorem run_bind (scope : Scope) (next : β → Action γ) (action : Action β) (world : World α) :
    (action.bind next).run scope world =
      match action.run scope world with
      | (after, .ok value) => (next value).run scope after
      | (after, .error fault) => (after, .error fault) := by
  induction action generalizing world with
  | finish value => rfl
  | fail fault => rfl
  | ask query rest ih => exact ih _ _

theorem run_emitAll (scope : Scope) (items : List Item) (world : World α) :
    ((emitAll items).run scope world).2 = .ok () := by
  induction items generalizing world with
  | nil => rfl
  | cons item rest ih => exact ih _

end Action

/-- An event that is the doing of the code of a scope. -/
def Scope.occurrence (scope : Scope) (event : Event) : Occurrence :=
  ⟨some scope.strand, some scope.thread, scope.step, event⟩

/-- Lines change the record only. -/
theorem Action.run_emitLines {α : Type} (scope : Scope) (lines : List Line) (world : World α) :
    (emitAll (lines.map Item.line)).run scope world =
      ({ world with
        record := (lines.map fun line => scope.occurrence (.item (.line line))).reverse ++
          world.record }, .ok ()) := by
  induction lines generalizing world with
  | nil => rfl
  | cons line rest ih =>
      refine (ih (world.note scope (.item (.line line)))).trans ?_
      simp only [List.map_cons, List.reverse_cons, List.append_assoc, List.singleton_append]
      rfl

theorem Chain.run_emitLines {α β : Type} (scope : Scope) (lines : List Line)
    (next : Unit → Routine β) (world : World α) :
    ((emitLines lines).bind next).run scope world =
      (next ()).run scope { world with
        record := (lines.map fun line => scope.occurrence (.item (.line line))).reverse ++
          world.record } := by
  rw [Routine.run_bind, emitLines, Routine.run_ofAction, Action.run_emitLines]

end Cascade
