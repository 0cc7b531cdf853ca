import Cascade.Proofs.Convention.Tidy

/-!
What a run has to show for itself, without its times and its threads. Code that knows no time does the
same in two runs that have the same face, and afterwards they have the same face again.
-/

namespace Cascade

/-- The outcome that a caller gets by an event. -/
def Event.yielded? : Event → Option Outcome
  | .execution _ _ (.yielded outcome) => some outcome
  | _ => none

/-- The outcomes that the callers in a run have got, in the order of time. -/
def World.outcomes {α : Type} (world : World α) : List Outcome :=
  world.record.reverse.filterMap fun occurrence => occurrence.event.yielded?

/-- What the first strand of a run has to show for itself, and what its code can see. -/
structure Face where
  states : List StepState
  happened : List String
  calls : Entries Nat
  shown : List (Option Nat × Item)
  outcomes : List Outcome
  errors : ErrorLog
  steps : List (String × Arguments)
  menu : MenuView
  silent : Bool

namespace Face

/-- An event is added to what is shown. -/
def note (strand : Option Nat) (event : Event) (face : Face) : Face :=
  { face with
    shown := face.shown ++ (event.shown face.silent).map fun item => (strand, item)
    outcomes := face.outcomes ++ event.yielded?.toList
    errors :=
      match event with
      | .logged command message => face.errors.add command message
      | _ => face.errors }

/-- What the code of a step sees of it. -/
def view (step : Option Nat) (face : Face) : Option StepView := do
  let index ← step
  let (_, arguments) ← face.steps[index]?
  let context : StepContext := {
    index := index
    names := face.steps.map Prod.fst
    arguments := arguments
    state := (face.states[index]?).getD []
    steps := face.states }
  context.view.toOption

theorem note_execution {happening : Happening}
    (hshown : ∀ silent hidden, happening.shown silent hidden = []) (strand : Option Nat) (number : Nat)
    (command : Command) (face : Face) :
    face.note strand (.execution number command happening) = face := by
  cases happening with
  | yielded outcome =>
      have hnone := hshown false false
      cases outcome with
      | mk name result => cases result <;> cases hnone
  | ignored outcome => cases hshown false false
  | _ => simp only [note, Event.shown, Happening.shown, Event.yielded?, List.map_nil, List.append_nil,
      Option.toList_none]

end Face

namespace World

variable {α : Type} {world : World α} {strand : Strand α}

def face (world : World α) : Face where
  states := ((world.strand? 0).map Strand.states).getD []
  happened := world.happened
  calls := world.calls
  shown := world.shown
  outcomes := world.outcomes
  errors := world.errors
  steps := ((world.strand? 0).map fun strand =>
    strand.invocations.map fun invocation => (invocation.name, invocation.arguments)).getD []
  menu := world.menuView.unmarked
  silent := world.surroundings.silent

theorem face_write (occurrence : Occurrence) (world : World α) :
    (world.write occurrence).face = world.face.note occurrence.strand occurrence.event := by
  have hshown : (world.write occurrence).shown = world.shown ++
      (occurrence.event.shown world.surroundings.silent).map fun item => (occurrence.strand, item) := by
    simp only [World.shown, shownItems, write, List.reverse_cons, List.flatMap_append,
      List.flatMap_cons, List.flatMap_nil, List.append_nil]
  have houtcomes : (world.write occurrence).outcomes =
      world.outcomes ++ occurrence.event.yielded?.toList := by
    simp only [World.outcomes, write, List.reverse_cons, List.filterMap_append, List.filterMap_cons,
      List.filterMap_nil]
    cases occurrence.event.yielded? <;> rfl
  rw [face, hshown, houtcomes]
  rfl

theorem face_note (scope : Scope) (event : Event) (world : World α) :
    (world.note scope event).face = world.face.note (some scope.strand) event :=
  face_write _ world

theorem face_tell {happening : Happening} (hshown : ∀ silent hidden, happening.shown silent hidden = [])
    (strand number : Nat) (command : Command) (world : World α) :
    (world.tell strand number command happening).face = world.face :=
  (face_write _ world).trans (Face.note_execution hshown _ _ _ _)

/-- The face of a run does not show its threads and cells, and neither its times. -/
theorem face_congr {before after : World α} {other : Strand α} (hbefore : before.strands = [strand])
    (hafter : after.strands = [other]) (hstates : other.states = strand.states)
    (hinvocations : other.invocations = strand.invocations)
    (hsurroundings : after.surroundings = before.surroundings)
    (hhappened : after.happened = before.happened) (hcalls : after.calls = before.calls)
    (hrecord : after.record = before.record) : after.face = before.face := by
  have hstrand : before.strand? 0 = some strand := by rw [strand?, hbefore]; rfl
  have hother : after.strand? 0 = some other := by rw [strand?, hafter]; rfl
  rw [face, face, hstrand, hother, Option.map_some, Option.map_some, Option.map_some, Option.map_some,
    hstates, hinvocations, hhappened, hcalls, shown, shown, outcomes, outcomes, errors, errors, menuView,
    menuView, hsurroundings, hrecord]

/-- What plain code may change in a world with one strand. -/
def Untouched (strand : Strand α) (before after : World α) : Prop :=
  ∃ states happened calls record, after = { before with
    strands := [{ strand with states := states }]
    happened := happened
    calls := calls
    record := record }

theorem Untouched.trans {before middle after : World α} {later : Strand α}
    (h : Untouched strand before middle) (hlater : middle.strands = [later])
    (k : Untouched later middle after) : Untouched strand before after := by
  obtain ⟨states, happened, calls, record, rfl⟩ := h
  obtain ⟨states', happened', calls', record', rfl⟩ := k
  obtain rfl := (List.cons.inj hlater).1
  exact ⟨states', happened', calls', record', rfl⟩

theorem Untouched.waiters_eq {before after : World α} (h : Untouched strand before after) :
    after.waiters = before.waiters := by
  obtain ⟨-, -, -, -, rfl⟩ := h
  rfl

theorem untouched_answer (hstrands : world.strands = [strand]) (hwaiters : world.waiters = [])
    {scope : Scope} (hplace : scope.strand = 0) {query : Query} (htimeless : query.IsTimeless) :
    Untouched strand world (world.answer scope query).1 := by
  obtain ⟨surroundings, clock, queue, timers, strands, happened, waiters, calls, record⟩ := world
  obtain rfl : strands = [strand] := hstrands
  obtain rfl : waiters = [] := hwaiters
  cases query with
  | now => exact htimeless.elim
  | complete result => exact htimeless.elim
  | completeLater delay result => exact htimeless.elim
  | setState name entry =>
      obtain ⟨place, thread, step, cell⟩ := scope
      obtain rfl : place = 0 := hplace
      cases step with
      | none => exact ⟨_, _, _, _, rfl⟩
      | some index => exact ⟨_, _, _, _, rfl⟩
  | _ => exact ⟨_, _, _, _, rfl⟩

end World

/-! ### Code that runs at once -/

section Run

open World

variable {α β : Type} {world beside : World α} {strand other : Strand α}

end Run

end Cascade
