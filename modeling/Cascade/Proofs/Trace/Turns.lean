import Cascade.Proofs.Trace.Calls

/-!
The turn of a thread fits the acts: what the thread does are moves of its program, up to a wait or to
the end.
-/

namespace Cascade

theorem Scope.labels_cons {α : Type} (scope : Scope) (doing : Doing) (world : World α)
    (acts : List Act) :
    scope.labels (world.act scope doing :: acts) = (scope.step, doing) :: scope.labels acts :=
  List.filterMap_cons_some (if_pos ⟨rfl, rfl, .inr rfl⟩)

theorem Scope.labels_begin {α : Type} {scope : Scope} {world : World α} {step : Option Nat}
    {command : Command} {arguments : Arguments}
    (hcell : scope.cell ≠ some (world.cellCount scope.strand)) :
    scope.labels (world.actsOfBegin { scope with step := step } command arguments) = [] :=
  Scope.labels_of_cell (fun act hmem => by rw [World.actsOfBegin_scope hmem]) hcell

namespace World

variable {α : Type} {programs : List (Routine α)} {held : Scope → Routine Value → Prop}
  {ending : Nat → ThreadId → Prop}
  {acts : List Act} {world : World α} {invocations : List Invocation} {scope : Scope}

theorem Acting.lookup (h : world.Acting programs held ending invocations scope acts) (index : Nat) :
    ((world.strand? scope.strand).bind fun strand => strand.invocations[index]?) =
      invocations[index]? := by
  obtain ⟨shape, hshape, rfl, -⟩ := h.shape
  obtain ⟨strand, hstrand, rfl⟩ := Option.map_eq_some_iff.mp hshape
  rw [hstrand]
  rfl

theorem Acting.cell_ne (h : world.Acting programs held ending invocations scope acts) :
    scope.cell ≠ some (world.cellCount scope.strand) := by
  intro hcell
  obtain ⟨shape, hshape, -, hbound⟩ := h.shape
  obtain ⟨strand, hstrand, rfl⟩ := Option.map_eq_some_iff.mp hshape
  have hlt := hbound _ hcell
  rw [cellCount_eq_of_strand? hstrand, Strand.shape, List.length_map] at hlt
  exact Nat.lt_irrefl _ hlt

theorem Acting.gets (h : world.Acting programs held ending invocations scope acts) {number : Nat}
    {outcome : Outcome} (hpast : .yielded outcome ∈ world.past scope.strand number) :
    world.Acting programs held ending invocations scope
      (acts ++ [world.act scope (.gets number outcome)]) :=
  h.act world _ (fun _ _ h => by cases h) fun other value hgets => by
    cases hgets
    exact hpast

end World

namespace Routine

open Stance

variable {α β : Type} {programs : List (Routine α)} {held : Scope → Routine Value → Prop}
  {ending : Nat → ThreadId → Prop} {past : List Act} {world middle : World α}
  {invocations : List Invocation} {scope : Scope}

section Calls

variable {routine : Routine β} {step : Option Nat} {command : Command} {arguments : Arguments}
  {doing : Doing} {next : Outcome → Routine β}

theorem Calls.opens (calls : routine.Calls scope world step command arguments doing next)
    (h : world.Acting programs held ending invocations scope past) {begun : Begun}
    (hbegun : world.begin { scope with step := step } command arguments = (middle, begun)) :
    World.Opens programs held ending invocations scope
      (past ++ world.act scope doing :: world.actsOfBegin { scope with step := step } command arguments)
      (world.cellCount scope.strand) command arguments middle begun := by
  have hdoing : doing.beginning? = some (world.cellCount scope.strand, arguments) := by
    cases calls <;> rfl
  have hbegin := h.begin step command hdoing
  rwa [hbegun] at hbegin

/-- A routine that comes to an execution waits for it. -/
theorem Calls.waits (calls : routine.Calls scope world step command arguments doing next)
    (h : world.Acting programs held ending invocations scope past) :
    Move invocations scope.step (.goes routine) [(scope.step, doing)]
      (.waits (.cell (world.cellCount scope.strand) next)) := by
  cases calls with
  | execute found => exact .execute _ next _ _ ((h.lookup _).symm.trans found)
  | invoke => exact .invoke ..

theorem Calls.stops (calls : routine.Calls scope world step command arguments doing next)
    (h : world.Acting programs held ending invocations scope past) {doings : List Doing}
    {fault : Fault} (plays : (command.run arguments).Plays doings (.error fault))
    (cancellation : fault.isCancellation = true) :
    Move invocations scope.step (.goes routine) [(scope.step, doing)] (.ends (.error fault)) := by
  cases calls with
  | execute found =>
      exact .stop _ next _ _ ((h.lookup _).symm.trans found) doings fault plays cancellation
  | invoke => exact .abort _ _ next _ command arguments doings fault plays cancellation

end Calls

theorem acting_prepared (h : world.Acting programs held ending invocations scope past) {index : Nat}
    {initializer : Action Unit} {result : Except Fault Unit}
    (ran : initializer.run { scope with step := some index, cell := none } world = (middle, result))
    (failure : Option Fault) :
    ∃ doings, initializer.Plays doings result ∧
      scope.labels (initializer.acts { scope with step := some index, cell := none } world) =
        doings.map (Prod.mk (some index)) ∧
      (middle.note scope (.prepared index failure)).Acting programs held ending invocations scope
        (past ++ initializer.acts { scope with step := some index, cell := none } world ++
          [(middle.note scope (.prepared index failure)).act scope (.prepares index failure)]) := by
  let inner : Scope := { scope with step := some index, cell := none }
  obtain ⟨hran, hplays⟩ := initializer.acting_run (h.inner (some index) (.inl rfl))
  rw [ran] at hran hplays
  refine ⟨_, hplays, ?_, ?_⟩
  · have hown : scope.labels (initializer.acts inner world) = _ :=
      Scope.labels_of_scope (fun act hmem => Action.scope_of_mem_acts hmem) rfl rfl (.inl rfl)
    rw [hown, List.map_map]
    rfl
  · obtain ⟨shape, hshape, hall⟩ := h.shape
    have hsame := initializer.sameShape_run inner world
    rw [ran] at hsame
    have hmiddle : middle.Acting programs held ending invocations scope
        (past ++ initializer.acts inner world) :=
      ⟨hran.chronicle, hran.running, shape, (congrFun hsame _).trans hshape, hall⟩
    exact (hmiddle.note (fun _ _ _ h => by cases h)).act _ _ (fun _ _ h => by cases h)
      (fun _ _ h => by cases h)

theorem acting_run (routine : Routine β)
    (h : world.Acting programs held ending invocations scope past) :
    (routine.run scope world).1.Acting programs held ending invocations scope
        (past ++ routine.acts scope world) ∧
      Moves invocations scope.step (.goes routine) (scope.labels (routine.acts scope world))
        (.rests (routine.run scope world).2.status.calm) := by
  have hstretch := routine.stretch scope world
  generalize routine.acts scope world = acts at hstretch ⊢
  generalize routine.run scope world = ended at hstretch ⊢
  induction hstretch generalizing past with
  | finish => exact ⟨(List.append_nil past).symm ▸ h, .single (.finish _)⟩
  | fail => exact ⟨(List.append_nil past).symm ▸ h, .single (.fail _)⟩
  | unknown => exact ⟨(List.append_nil past).symm ▸ h, .single (.unknown ..)⟩
  | lack missing =>
      exact ⟨(List.append_nil past).symm ▸ h, .single (.lack _ _ ((h.lookup _).symm.trans missing))⟩
  | miss missing =>
      exact ⟨(List.append_nil past).symm ▸ h, .single (.miss _ _ ((h.lookup _).symm.trans missing))⟩
  | @ask query next world acts ended rest ih =>
      obtain ⟨hacting, hpath⟩ := ih (h.answer query)
      rw [List.append_cons, Scope.labels_cons]
      exact ⟨hacting, (Moves.single (.ask query next _)).trans hpath⟩
  | @turn seconds _ _ world =>
      have hacted := h.act world (.pauses seconds) (fun _ _ h => by cases h) (fun _ _ h => by cases h)
      rw [Scope.labels_cons]
      exact ⟨hacted.quiet (World.quiet_enqueue (fun _ _ _ h => by cases h) _),
        .single (.sleep _ _ _ _ (.inl rfl))⟩
  | @timer seconds _ _ world =>
      have hacted := h.act world (.pauses seconds) (fun _ _ h => by cases h) (fun _ _ h => by cases h)
      rw [Scope.labels_cons]
      exact ⟨hacted.quiet (World.quiet_schedule (fun _ _ h => by cases h) _ _),
        .single (.sleep _ _ _ _ (.inr rfl))⟩
  | @moment seconds _ _ world =>
      have hacted := h.act world (.pauses seconds) (fun _ _ h => by cases h) (fun _ _ h => by cases h)
      rw [Scope.labels_cons]
      exact ⟨hacted.quiet (World.quiet_enqueue (fun _ _ _ h => by cases h) _),
        .single (.sleep _ _ _ _ (.inr rfl))⟩
  | @happened event _ _ world _ _ _ _ ih =>
      have hacted := h.act world (.awaits event) (fun _ _ h => by cases h) (fun _ _ h => by cases h)
      obtain ⟨hacting, hpath⟩ := ih hacted
      rw [List.append_cons, Scope.labels_cons]
      exact ⟨hacting, (Moves.single (.await ..)).trans ((Moves.single (.event ..)).trans hpath)⟩
  | @event event _ _ world =>
      have hacted := h.act world (.awaits event) (fun _ _ h => by cases h) (fun _ _ h => by cases h)
      rw [Scope.labels_cons]
      exact ⟨hacted.quiet (.of_strands_eq rfl (.of_record_eq rfl) fun _ _ _ h => .inl h),
        .single (.await ..)⟩
  | @ready index _ world _ _ _ found without _ ih =>
      have hacted := h.act world (.prepares index none) (fun _ _ h => by cases h)
        (fun _ _ h => by cases h)
      obtain ⟨hacting, hpath⟩ := ih hacted
      rw [List.append_cons, Scope.labels_cons]
      exact ⟨hacting,
        (Moves.single (.ready _ _ _ ((h.lookup _).symm.trans found) without)).trans hpath⟩
  | @prepared _ _ _ _ _ _ _ failure _ _ found initial ran learned _ ih =>
      obtain ⟨doings, hplays, hlabels, hprepared⟩ := acting_prepared h ran failure
      obtain ⟨hacting, hpath⟩ := ih hprepared
      have hstep := (h.lookup _).symm.trans found
      refine ⟨by simpa using hacting, ?_⟩
      rw [Scope.labels_append, Scope.labels_cons, hlabels, List.append_cons]
      rcases learned with ⟨rfl, rfl⟩ | ⟨fault, rfl, rfl, -⟩
      · exact (Moves.single (.prepare _ _ _ hstep _ initial doings hplays)).trans hpath
      · exact (Moves.single (.reject _ _ _ hstep _ initial doings fault hplays)).trans hpath
  | escaped found initial ran cancellation =>
      obtain ⟨doings, hplays, hlabels, hprepared⟩ := acting_prepared h ran _
      rw [Scope.labels_append, Scope.labels_cons, hlabels, ← List.append_assoc]
      exact ⟨hprepared, .single (.cancel _ _ _ ((h.lookup _).symm.trans found) _ initial doings _ hplays
        cancellation)⟩
  | complete calls begun _ ih =>
      have hbegin := calls.opens h begun
      obtain ⟨hacting, hpath⟩ := ih (hbegin.acting.gets (hbegin.complete _ rfl))
      rw [List.cons_append, Scope.labels_cons, Scope.labels_append, Scope.labels_begin h.cell_ne,
        Scope.labels_cons, List.nil_append]
      refine ⟨by simpa using hacting, ?_⟩
      exact (Moves.single (calls.waits h)).trans ((Moves.single (.get _ _ _)).trans hpath)
  | waits calls begun =>
      have hbegin := calls.opens h begun
      obtain rfl := hbegin.waits _ rfl
      rw [Scope.labels_cons, Scope.labels_begin h.cell_ne]
      exact ⟨hbegin.acting, .single (calls.waits h)⟩
  | cancelled calls begun =>
      have hbegin := calls.opens h begun
      obtain ⟨hcancellation, doings, hplays⟩ := hbegin.cancelled _ rfl
      rw [Scope.labels_cons, Scope.labels_begin h.cell_ne]
      exact ⟨hbegin.acting, .single (calls.stops h hplays hcancellation)⟩

end Routine

end Cascade
