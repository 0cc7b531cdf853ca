import Cascade.Proofs.Chain.Deeds
import Cascade.Proofs.Convention.Seat

/-!
The call of a command in a run of one strand. While the code of the call runs, its execution is at a
stage; at the end of the call that says how the execution goes on.
-/

namespace Cascade

theorem modify_concat {γ : Type} (items : List γ) (item : γ) (change : γ → γ) :
    (items ++ [item]).modify items.length change = items ++ [change item] := by
  induction items with
  | nil => rfl
  | cons first rest ih => exact congrArg (first :: ·) ih

variable {α β : Type}

/-! ### What is added to a strand -/

/-- Threads and executions are added to a strand, and nothing else about them changes. -/
structure World.Enlarges (strand : Strand α) (world : World α) (other : Strand α) (after : World α) :
    Prop where
  surroundings : after.surroundings = world.surroundings
  invocations : other.invocations = strand.invocations
  root : other.root = strand.root
  children : strand.children <+: other.children
  cells : strand.cells <+: other.cells

namespace World.Enlarges

variable {strand middle other : Strand α} {world between after : World α}

theorem refl (strand : Strand α) (world : World α) : Enlarges strand world strand world :=
  ⟨rfl, rfl, rfl, List.prefix_refl _, List.prefix_refl _⟩

theorem trans (h : Enlarges strand world middle between) (k : Enlarges middle between other after) :
    Enlarges strand world other after where
  surroundings := k.surroundings.trans h.surroundings
  invocations := k.invocations.trans h.invocations
  root := k.root.trans h.root
  children := h.children.trans k.children
  cells := h.cells.trans k.cells

theorem runs (h : Enlarges strand world other after) {seat : Seat α β} {scope : Scope}
    (hruns : seat.Runs scope strand) : seat.Runs scope other :=
  hruns.congr h.root h.children

end World.Enlarges

/-! ### The stages of a call -/

namespace Stage

/-- The state of an execution at a stage of its call. -/
def cellState : Stage → CellState
  | settled outcome => .settled outcome
  | _ => .pending

/-- The jobs that wait for the end of the call. -/
def jobs (number : Nat) : Stage → List Job
  | due delay result => if delay.isPositive then [] else [.fire 0 (.complete number result)]
  | _ => []

/-- The timers that were set during the call. -/
def timers (number : Nat) (clock : Binary64) : Stage → List Timer
  | due delay result =>
      if delay.isPositive then [⟨clock.add delay, 0, .complete number result⟩] else []
  | _ => []

/-- The stage after an outcome has come. -/
def settle (outcome : Outcome) : Stage → Stage
  | pending => settled outcome
  | stage => stage

/-- What is shown of an outcome that comes. -/
def shown (command : Command) (outcome : Outcome) (face : Face) : Stage → Face
  | settled _ => face.note (some 0) (.execution 0 command (.ignored outcome))
  | _ => face

end Stage

/-- The only execution of a strand that is added is at a stage of its call. -/
structure InCall (strand : Strand α) (scope : Scope) (command : Command) (stage : Stage)
    (world : World α) : Prop where
  strands : ∃ states, world.strands = [{ strand with
    states := states
    cells := strand.cells ++ [⟨command, scope.thread, scope.step, stage.cellState, none⟩] }]
  queue : world.queue = stage.jobs strand.cells.length
  timers : world.timers = stage.timers strand.cells.length world.clock
  waiters : world.waiters = []

namespace InCall

open World

variable {seat : Seat α β} {own scope : Scope} {strand : Strand α} {command : Command} {stage : Stage}
  {world : World α}

theorem cell?_eq (h : InCall strand scope command stage world) :
    world.cell? 0 strand.cells.length =
      some ⟨command, scope.thread, scope.step, stage.cellState, none⟩ := by
  obtain ⟨⟨states, hstrands⟩, -, -, -⟩ := h
  rw [World.cell?, World.strand?, hstrands]
  exact List.getElem?_concat_length

/-- An outcome that comes during the call. -/
theorem settle (hruns : seat.Runs own strand) (hthread : scope.thread = seat.thread)
    (h : InCall strand scope command stage world) (hopen : ∀ delay result, stage ≠ .due delay result)
    {happening : Happening} (hshown : ∀ silent hidden, happening.shown silent hidden = [])
    (outcome : Outcome) :
    InCall strand scope command (stage.settle outcome)
        (world.settle 0 strand.cells.length happening outcome) ∧
      (world.settle 0 strand.cells.length happening outcome).surroundings = world.surroundings ∧
      (world.settle 0 strand.cells.length happening outcome).face =
        stage.shown command outcome world.face := by
  have hcell := h.cell?_eq
  obtain ⟨⟨states, hstrands⟩, hqueue, htimers, hwaiters⟩ := h
  have htold := face_tell hshown 0 strand.cells.length command world
  cases stage with
  | due delay result => exact absurd rfl (hopen delay result)
  | settled first =>
      rw [World.settle, hcell]
      refine ⟨⟨⟨states, hstrands⟩, hqueue, htimers, hwaiters⟩, rfl, ?_⟩
      exact (face_write _ _).trans (congrArg (Face.note (some 0) _) htold)
  | pending =>
      let told := world.tell 0 strand.cells.length command happening
      let after : World α := { told with strands := [{ strand with
        states := states
        cells := strand.cells ++ [⟨command, scope.thread, scope.step, .settled outcome, none⟩] }] }
      have hafter : told.modifyCell 0 strand.cells.length
          (fun cell => { cell with state := .settled outcome }) = after := by
        simp only [World.modifyCell, World.modifyStrand, told, after, World.tell, World.write, hstrands,
          List.modify_zero_cons, modify_concat]
      have hstay : seat.Runs own { strand with
          states := states
          cells := strand.cells ++ [⟨command, scope.thread, scope.step, .settled outcome, none⟩] } :=
        hruns.congr rfl (List.prefix_refl _)
      have hwake : after.wake 0 scope.thread (some strand.cells.length) = after := by
        rw [hthread]
        exact Seat.wake_of_runs hstay rfl _
      have hbefore : told.strands = _ := hstrands
      have hsettle : world.settle 0 strand.cells.length happening outcome = after := by
        rw [World.settle, hcell]
        exact (congrArg (World.wake 0 scope.thread (some strand.cells.length)) hafter).trans hwake
      rw [hsettle]
      have hface : after.face = told.face := face_congr hbefore rfl rfl rfl rfl rfl rfl rfl
      exact ⟨⟨⟨states, rfl⟩, hqueue, htimers, hwaiters⟩, rfl, hface.trans htold⟩

theorem complete_eq (h : InCall strand scope command stage world) (result : Except Fault Value) :
    world.complete 0 strand.cells.length result =
      world.settle 0 strand.cells.length (.completed result) ⟨command.name, result⟩ := by
  rw [World.complete, h.cell?_eq]

theorem untouched (h : InCall strand scope command stage world) {query : Query}
    (htimeless : query.IsTimeless) {inside : Scope} (hplace : inside.strand = 0) :
    InCall strand scope command stage (world.answer inside query).1 ∧
      (world.answer inside query).1.surroundings = world.surroundings := by
  obtain ⟨⟨states, hstrands⟩, hqueue, htimers, hwaiters⟩ := h
  obtain ⟨after, happened, calls, record, heq⟩ :=
    untouched_answer hstrands hwaiters hplace htimeless
  rw [heq]
  exact ⟨⟨⟨after, rfl⟩, hqueue, htimers, hwaiters⟩, rfl⟩

/-- A question of the code of the call leads from one stage to the next. -/
theorem answer (hruns : seat.Runs own strand) (hthread : scope.thread = seat.thread)
    (hplace : scope.strand = 0) (h : InCall strand scope command stage world) {query : Query}
    {later : Stage} (hleads : query.Leads command.name stage later) :
    InCall strand scope command later
        (world.answer { scope with cell := some strand.cells.length } query).1 ∧
      (world.answer { scope with cell := some strand.cells.length } query).1.surroundings =
        world.surroundings := by
  have hquiet : ∀ (result : Except Fault Value) silent hidden,
      (Happening.completed result).shown silent hidden = [] := fun _ _ _ => rfl
  cases hleads with
  | answers htimeless => exact h.untouched htimeless hplace
  | completes result =>
      obtain ⟨hcalled, hsurroundings, -⟩ :=
        h.settle hruns hthread (fun _ _ h => by cases h) (hquiet result) ⟨command.name, result⟩
      simp only [World.answer, hplace, h.complete_eq]
      exact ⟨hcalled, hsurroundings⟩
  | repeats result outcome =>
      obtain ⟨hcalled, hsurroundings, -⟩ :=
        h.settle hruns hthread (fun _ _ h => by cases h) (hquiet result) ⟨command.name, result⟩
      simp only [World.answer, hplace, h.complete_eq]
      exact ⟨hcalled, hsurroundings⟩
  | schedules delay result =>
      obtain ⟨⟨states, hstrands⟩, hqueue, htimers, hwaiters⟩ := h
      simp only [World.answer, hplace]
      cases hpositive : delay.isPositive with
      | true =>
          refine ⟨⟨⟨states, hstrands⟩, ?_, ?_, hwaiters⟩, rfl⟩
          · simp only [if_true, World.schedule, hqueue, Stage.jobs, hpositive]
          · simp only [if_true, World.schedule, htimers, Stage.timers, hpositive, List.nil_append]
      | false =>
          refine ⟨⟨⟨states, hstrands⟩, ?_, ?_, hwaiters⟩, rfl⟩
          · simp only [Bool.false_eq_true, if_false, World.enqueue, hqueue, Stage.jobs, hpositive,
              List.nil_append]
          · simp only [Bool.false_eq_true, if_false, World.enqueue, htimers, Stage.timers, hpositive]

variable {other : Strand α} {beside : World α} {seat' : Seat α β} {own' scope' : Scope}

theorem tell (h : InCall strand scope command stage world) (number : Nat) (happening : Happening) :
    InCall strand scope command stage (world.tell 0 number command happening) :=
  ⟨h.strands, h.queue, h.timers, h.waiters⟩

theorem outcome?_eq (h : InCall strand scope command stage world) :
    world.outcome? 0 strand.cells.length =
      match stage with
      | .settled outcome => some outcome
      | _ => none := by
  rw [World.outcome?, h.cell?_eq]
  cases stage <;> rfl

theorem standing_eq (h : InCall strand scope command stage world) :
    world.standing 0 strand.cells.length =
      match stage with
      | .settled outcome => .complete outcome
      | _ => .waits strand.cells.length := by
  rw [World.standing, h.outcome?_eq]
  cases stage <;> rfl

theorem midway (h : InCall strand scope command stage world)
    (hopen : ∀ delay result, stage ≠ .due delay result) (hruns : seat.Runs own strand) :
    ∃ later, Midway seat own later world ∧ Enlarges strand world later world := by
  obtain ⟨⟨states, hstrands⟩, hqueue, htimers, hwaiters⟩ := h
  have hgrows : Enlarges strand world { strand with
      states := states
      cells := strand.cells ++ [⟨command, scope.thread, scope.step, stage.cellState, none⟩] } world :=
    ⟨rfl, rfl, rfl, List.prefix_refl _, List.prefix_append _ _⟩
  refine ⟨_, ⟨hstrands, ?_, ?_, hwaiters, hgrows.runs hruns⟩, hgrows⟩
  · cases stage with
    | due delay result => exact absurd rfl (hopen delay result)
    | _ => exact hqueue
  · cases stage with
    | due delay result => exact absurd rfl (hopen delay result)
    | _ => exact htimers

end InCall

/-! ### The end of a call -/

/-- How an execution goes on after its call. -/
inductive Upshot
  /-- It is complete. -/
  | complete (outcome : Outcome)
  /-- The call was cancelled. -/
  | escape (fault : Fault)
  /-- Nothing is left that could complete it. -/
  | idle
  /-- It is completed after a delay. -/
  | later (delay : Binary64) (result : Except Fault Value)
  /-- It is waited for. -/
  | waits (body : Routine Value)

namespace Upshot

/-- What comes of a call that ends at a stage. -/
def ofCall (command : Command) : Stage → Except Fault Reply → Upshot
  | .due delay result, _ => later delay result
  | .settled outcome, .ok _ => complete outcome
  | .settled outcome, .error fault => if fault.isCancellation then escape fault else complete outcome
  | .pending, .ok (.value value) =>
      if command.convention = .callback then idle else complete (.success command.name value)
  | .pending, .ok (.awaitable _ body) => waits body
  | .pending, .error fault =>
      if fault.isCancellation then escape fault else complete (.failure command.name fault)

/-- What is shown of the end of a call: a failure after the first outcome, and the outcome. -/
def shown (command : Command) (stage : Stage) (result : Except Fault Reply) (face : Face) : Face :=
  let face :=
    match stage, result with
    | .settled _, .error fault =>
        if fault.isCancellation then face
        else face.note (some 0) (.execution 0 command (.ignored (.failure command.name fault)))
    | _, _ => face
  match ofCall command stage result with
  | complete outcome => face.note (some 0) (.execution 0 command (.yielded outcome))
  | _ => face

end Upshot

namespace World

variable {seat : Seat α β} {own scope : Scope} {strand : Strand α} {command : Command} {stage : Stage}
  {world : World α}

/-- The world after a call, for each way in which its execution goes on. -/
inductive Begins (seat : Seat α β) (own scope : Scope) (strand : Strand α) (command : Command)
    (world : World α) : Upshot → World α × Begun → Prop
  | complete {outcome : Outcome} {other : Strand α} {after : World α}
      (midway : Midway seat own other after) (grows : Enlarges strand world other after) :
      Begins seat own scope strand command world (.complete outcome) (after, .complete outcome)
  | escape {fault : Fault} {other : Strand α} {after : World α}
      (midway : Midway seat own other after) (grows : Enlarges strand world other after) :
      Begins seat own scope strand command world (.escape fault) (after, .cancelled fault)
  | idle {other : Strand α} {after : World α} (midway : Midway seat own other after)
      (grows : Enlarges strand world other after) :
      Begins seat own scope strand command world .idle (after, .waits strand.cells.length)
  | later {delay : Binary64} {result : Except Fault Value} {after : World α}
      (called : InCall strand scope command (.due delay result) after)
      (surroundings : after.surroundings = world.surroundings) :
      Begins seat own scope strand command world (.later delay result)
        (after, .waits strand.cells.length)
  | waits {body : Routine Value} {after : World α}
      (strands : ∃ states, after.strands = [{ strand with
        states := states
        children := strand.children ++ [.start scope.step (some strand.cells.length) true body]
        cells := strand.cells ++
          [⟨command, scope.thread, scope.step, .pending, some strand.children.length⟩] }])
      (queue : after.queue = [.resume 0 (.child strand.children.length)])
      (timers : after.timers = []) (waiters : after.waiters = [])
      (surroundings : after.surroundings = world.surroundings) :
      Begins seat own scope strand command world (.waits body) (after, .waits strand.cells.length)

theorem Begins.standing_eq {before after : World α} {body : Routine Value} {number : Nat}
    (h : Begins seat own scope strand command before (.waits body) (after, .waits number)) :
    after.standing 0 strand.cells.length = .waits strand.cells.length := by
  cases h with
  | waits hstrands =>
      obtain ⟨states, hstrands⟩ := hstrands
      rw [standing, outcome?, cell?, strand?, hstrands]
      simp

end World

end Cascade
