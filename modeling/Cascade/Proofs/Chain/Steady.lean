import Cascade.Run.Batch
import Cascade.Proofs.Run.Locality

/-!
Chains whose commands fail in the ordinary way only. The program of a chain is steady: it runs
initializers and steps that exist, it waits for nothing but its steps, and it never fails by itself.
So the turn of its thread leads to a result or to the wait for a step.
-/

namespace Cascade

/-- Code that never fails with a cancellation. -/
def Action.IsOrdinary {β : Type} : Action β → Prop
  | finish _ => True
  | fail fault => fault.isCancellation = false
  | ask _ next => ∀ answer, (next answer).IsOrdinary

/-- A command whose call and whose initializer fail in the ordinary way only. -/
structure Command.IsOrdinary (command : Command) : Prop where
  run : ∀ arguments, (command.run arguments).IsOrdinary
  initializer : ∀ initializer, command.initializer = some initializer → initializer.IsOrdinary

variable {α β γ : Type}

theorem Action.IsOrdinary.isCancellation_eq_false {action : Action β} (h : action.IsOrdinary)
    (scope : Scope) (world : World α) {fault : Fault}
    (hfault : (action.run scope world).2 = .error fault) : fault.isCancellation = false := by
  induction action generalizing world with
  | finish value => cases hfault
  | fail other =>
      obtain rfl := Except.error.inj hfault
      exact h
  | ask query next ih => exact ih _ (h _) _ hfault

namespace World

theorem standing_ne_cancelled (world : World α) (strand number : Nat) (fault : Fault) :
    world.standing strand number ≠ .cancelled fault := by
  rw [standing]
  split <;> exact fun h => by cases h

theorem call_ne_cancelled {command : Command} (h : command.IsOrdinary) (scope : Scope)
    (number : Nat) (arguments : Arguments) (world : World α) (fault : Fault) :
    (world.call scope number command arguments).2 ≠ .cancelled fault := by
  have hfault := @Action.IsOrdinary.isCancellation_eq_false α _ _ (h.run arguments)
    { scope with cell := some number } world
  cases hcall : (command.run arguments).run { scope with cell := some number } world with
  | mk middle result =>
      rw [hcall] at hfault
      simp only [call, hcall]
      cases result with
      | ok reply => exact standing_ne_cancelled _ _ _ _
      | error other =>
          simp only [hfault rfl, Bool.false_eq_true, if_false]
          exact standing_ne_cancelled _ _ _ _

theorem begin_ne_cancelled {command : Command} (h : command.IsOrdinary) (scope : Scope)
    (arguments : Arguments) (world : World α) (fault : Fault) :
    (world.begin scope command arguments).2 ≠ .cancelled fault := by
  have henter : (world.enter scope (world.cellCount scope.strand) command arguments).2 ≠
      .cancelled fault := by
    rw [enter]
    split
    · exact call_ne_cancelled h _ _ _ _ _
    · exact fun h => by cases h
  rcases hentered : world.enter scope (world.cellCount scope.strand) command arguments with
    ⟨entered, begun⟩
  rw [hentered] at henter
  simp only [begin, hentered]
  cases begun with
  | complete outcome => exact fun h => by cases h
  | waits number => exact fun h => by cases h
  | cancelled other => exact henter

end World

/-! ### Steady programs -/

/-- A program that only asks questions and runs initializers and steps among the first so many. -/
def Routine.Steady (count : Nat) : Routine β → Prop
  | finish _ => True
  | ask _ next => ∀ answer, (next answer).Steady count
  | prepare index next => index < count ∧ ∀ failure, (next failure).Steady count
  | execute index next => index < count ∧ ∀ outcome, (next outcome).Steady count
  | _ => False

/-- A turn that ended with a value or with the wait for a step, after which the program is steady. -/
def Suspension.Steady (count : Nat) : Suspension β → Prop
  | .ended (.ok _) => True
  | .waits (.cell _ next) .asleep => ∀ outcome, (next outcome).Steady count
  | _ => False

namespace Routine

variable {count : Nat}

theorem Steady.bind {next : β → Routine γ} {routine : Routine β} (h : routine.Steady count)
    (hnext : ∀ value, (next value).Steady count) : (routine.bind next).Steady count := by
  induction routine with
  | finish value => exact hnext value
  | ask query rest ih => exact fun answer => ih answer (h answer)
  | prepare index rest ih => exact ⟨h.1, fun failure => ih failure (h.2 failure)⟩
  | execute index rest ih => exact ⟨h.1, fun outcome => ih outcome (h.2 outcome)⟩
  | fail | sleep | await | invoke => exact h.elim

theorem steady_emitLines (count : Nat) (lines : List Line) :
    (Chain.emitLines lines).Steady count := by
  have hall : ∀ items : List Item, (ofAction (Action.emitAll items)).Steady count := by
    intro items
    induction items with
    | nil => trivial
    | cons item rest ih => exact fun _ => ih
  exact hall _

theorem steady_query (count : Nat) (query : Query) :
    (ofAction (Action.query query)).Steady count :=
  fun _ => trivial

/-- The turn of a steady program leads to a value or to the wait for a step. -/
theorem Steady.run {scope : Scope} {invocations : List Invocation} {routine : Routine β}
    (h : routine.Steady invocations.length)
    (hordinary : ∀ invocation ∈ invocations, invocation.command.IsOrdinary) {world : World α}
    (hhere : (world.outline? scope.strand).map Prod.fst = some invocations) :
    (routine.run scope world).2.Steady invocations.length := by
  have hlookup : ∀ (other : World α) (index : Nat),
      (other.outline? scope.strand).map Prod.fst = some invocations →
      ((other.strand? scope.strand).bind fun strand => strand.invocations[index]?) =
        invocations[index]? := by
    intro other index hother
    rw [World.outline?, World.shape?] at hother
    cases hstrand : other.strand? scope.strand with
    | none => simp [hstrand] at hother
    | some current =>
        rw [hstrand] at hother
        obtain rfl : current.invocations = invocations := Option.some.inj hother
        rfl
  induction routine generalizing world with
  | finish value => trivial
  | ask query next ih =>
      have hinside : World.Inside scope.strand world (world.answer scope query).1 :=
        (World.sameShape_answer scope query world).inside
      exact ih _ (h _) ((congrArg _ hinside.own).trans hhere)
  | prepare index next ih =>
      obtain ⟨hlt, hnext⟩ := h
      simp only [Routine.run, hlookup world index hhere, List.getElem?_eq_getElem hlt]
      split
      · exact ih _ (hnext _) hhere
      · rename_i initializer hinitializer
        have hfault := @Action.IsOrdinary.isCancellation_eq_false α _ _
          ((hordinary _ (List.getElem_mem hlt)).initializer initializer hinitializer)
          { scope with step := some index, cell := none } world
        have hinside : World.Inside scope.strand world (initializer.run
            { scope with step := some index, cell := none } world).1 :=
          (initializer.sameShape_run { scope with step := some index, cell := none } world).inside
        rcases hran : initializer.run { scope with step := some index, cell := none } world with
          ⟨middle, result⟩
        rw [hran] at hfault hinside
        have hmiddle : (middle.outline? scope.strand).map Prod.fst = some invocations :=
          (congrArg _ hinside.own).trans hhere
        cases result with
        | ok value => exact ih _ (hnext _) hmiddle
        | error fault =>
            simp only [hfault rfl, Bool.false_eq_true, if_false]
            exact ih _ (hnext _) hmiddle
  | execute index next ih =>
      obtain ⟨hlt, hnext⟩ := h
      simp only [Routine.run, hlookup world index hhere, List.getElem?_eq_getElem hlt]
      have hbegun := @World.begin_ne_cancelled α _ (hordinary _ (List.getElem_mem hlt))
        { scope with step := some index } invocations[index].arguments world
      have hinside := World.inside_begin { scope with step := some index }
        invocations[index].command invocations[index].arguments world
      rcases hbegin : world.begin { scope with step := some index } invocations[index].command
        invocations[index].arguments with ⟨middle, begun⟩
      rw [hbegin] at hbegun hinside
      cases begun with
      | cancelled fault => exact absurd rfl (hbegun fault)
      | waits number => exact hnext
      | complete outcome => exact ih _ (hnext _) ((congrArg _ hinside.own).trans hhere)
  | fail | sleep | await | invoke => exact h.elim

end Routine

namespace Chain

theorem steady_prepareSteps {count : Nat} {indexes : List Nat}
    (h : ∀ index ∈ indexes, index < count) : (prepareSteps indexes).Steady count := by
  induction indexes with
  | nil => trivial
  | cons index rest ih =>
      obtain ⟨hindex, hrest⟩ := List.forall_mem_cons.mp h
      refine ⟨hindex, fun failure => ?_⟩
      cases failure with
      | none => exact ih hrest
      | some fault => trivial

theorem steady_executeSteps {count : Nat} {indexes : List Nat}
    (h : ∀ index ∈ indexes, index < count) (last : Option Outcome) :
    (executeSteps last indexes).Steady count := by
  induction indexes generalizing last with
  | nil => trivial
  | cons index rest ih =>
      obtain ⟨hindex, hrest⟩ := List.forall_mem_cons.mp h
      refine ⟨hindex, fun outcome => ?_⟩
      dsimp only
      split
      · exact ih hrest _
      · trivial

variable (chain : Chain) (count : Nat) (start : Binary64)

theorem steady_finish (invocations : List Invocation) (outcome : Option Outcome)
    (failure : Option Fault) (hidden : Bool) :
    (chain.finish start invocations outcome failure hidden).Steady count :=
  fun _ => (Routine.steady_emitLines count _).bind fun _ => trivial

theorem steady_reject (invocations : List Invocation) (index : Nat) (cause : Fault) :
    (chain.reject start invocations index cause).Steady count := by
  refine (Routine.steady_emitLines count _).bind fun _ => ?_
  refine (Routine.steady_query count _).bind fun _ => ?_
  exact steady_finish _ _ _ _ _ _ _

theorem steady_conclude (invocations : List Invocation) (last : Option Outcome) :
    (chain.conclude start invocations last).Steady count := by
  rw [conclude]
  split
  · exact steady_finish _ _ _ _ _ _ _
  · exact (Routine.steady_query count _).bind fun _ => steady_finish _ _ _ _ _ _ _

theorem steady_runSteps (invocations : List Invocation) :
    (chain.runSteps start invocations).Steady invocations.length := by
  have hrange : ∀ index ∈ List.range invocations.length, index < invocations.length :=
    fun _ => List.mem_range.mp
  refine (steady_prepareSteps hrange).bind fun failed => ?_
  cases failed with
  | some failure => exact steady_reject _ _ _ _ _ _
  | none => exact (steady_executeSteps hrange none).bind fun _ => steady_conclude _ _ _ _ _

theorem steady_routine : chain.routine.Steady chain.invocations.length := by
  intro clock
  refine (Routine.steady_emitLines _ _).bind fun _ => ?_
  cases hreading : chain.reading with
  | error fault =>
      refine (Routine.steady_emitLines _ _).bind fun _ => ?_
      refine (Routine.steady_query _ _).bind fun _ => ?_
      exact steady_finish _ _ _ _ _ _ _
  | ok invocations =>
      have hinvocations : chain.invocations = invocations := by
        rw [Chain.invocations, hreading]
        rfl
      rw [hinvocations]
      exact (Routine.steady_emitLines _ _).bind fun _ => steady_runSteps _ _ _

end Chain

end Cascade
