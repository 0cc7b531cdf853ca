import Cascade.Proofs.Run.Growth

/-!
The shape of a strand: its invocations, its threads without the marks on their waits, and its
executions without what they came to. Completions, wakes and cancellations keep the shape of every
strand. Whatever else happens in one strand keeps the shape of the others, and in its own strand the
invocations and the thread of the chain.
-/

namespace Cascade

/-- The state of a thread without the mark on its wait. -/
def ThreadStatus.calm {β : Type} : ThreadStatus β → ThreadStatus β
  | .waiting wait _ => .waiting wait .asleep
  | status => status

/-- A thread without the mark on its wait. -/
def Thread.calm {β : Type} (thread : Thread β) : Thread β :=
  { thread with status := thread.status.calm }

theorem Thread.calm_mark {β : Type} (wake : Wake) (thread : Thread β) :
    (thread.mark wake).calm = thread.calm := by
  rcases thread with ⟨_, _, _, _ | _ | _⟩ <;> rfl

/-- The shape of a strand. -/
structure Shape (α : Type) where
  invocations : List Invocation
  root : Thread α
  children : List (Thread Value)
  cells : List (Command × ThreadId × Option Nat)

def Strand.shape {α : Type} (strand : Strand α) : Shape α where
  invocations := strand.invocations
  root := strand.root.calm
  children := strand.children.map Thread.calm
  cells := strand.cells.map Cell.origin

namespace World

variable {α : Type}

def shape? (world : World α) (place : Nat) : Option (Shape α) :=
  (world.strand? place).map Strand.shape

theorem cells_of_cell? {world : World α} {place number : Nat} {cell : Cell} {shape : Shape α}
    (hcell : world.cell? place number = some cell) (hshape : world.shape? place = some shape) :
    shape.cells[number]? = some cell.origin := by
  obtain ⟨strand, hstrand, rfl⟩ := Option.map_eq_some_iff.mp hshape
  rw [cell?, hstrand] at hcell
  rw [Strand.shape, List.getElem?_map, show strand.cells[number]? = some cell from hcell,
    Option.map_some]

/-- The invocations of a strand and the thread of its chain. -/
def outline? (world : World α) (place : Nat) : Option (List Invocation × Thread α) :=
  (world.shape? place).map fun shape => (shape.invocations, shape.root)

def SameShape (before after : World α) : Prop :=
  after.shape? = before.shape?

/-- A change that happens in one strand. -/
structure Inside (strand : Nat) (before after : World α) : Prop where
  others : ∀ place, place ≠ strand → after.shape? place = before.shape? place
  own : after.outline? strand = before.outline? strand

section SameShape

variable {before middle after : World α}

theorem SameShape.refl (world : World α) : SameShape world world :=
  rfl

theorem SameShape.trans (h : SameShape before middle) (k : SameShape middle after) :
    SameShape before after :=
  Eq.trans k h

theorem SameShape.of_strands_eq (h : after.strands = before.strands) : SameShape before after := by
  funext place
  rw [shape?, strand?, h, shape?, strand?]

theorem sameShape_modifyStrand {change : Strand α → Strand α}
    (h : ∀ current, (change current).shape = current.shape) (strand : Nat) (world : World α) :
    SameShape world (world.modifyStrand strand change) := by
  funext place
  rw [shape?, strand?_modifyStrand, shape?]
  split
  · rw [Option.map_map]
    exact congrArg (Option.map · (world.strand? place)) (funext h)
  · rfl

end SameShape

theorem map_modify_eq {β γ : Type} {view : β → γ} {change : β → β}
    (h : ∀ item, view (change item) = view item) (items : List β) (index : Nat) :
    (items.modify index change).map view = items.map view := by
  apply List.ext_getElem?
  intro place
  rw [List.getElem?_map, List.getElem?_modify, List.getElem?_map]
  split <;> cases items[place]? <;> simp [h]

theorem forall_mem_modify {γ : Type} {holds : γ → Prop} {change : γ → γ}
    (hchange : ∀ item, holds item → holds (change item)) {items : List γ}
    (h : ∀ item ∈ items, holds item) (index : Nat) :
    ∀ item ∈ items.modify index change, holds item := by
  intro item hmem
  obtain ⟨number, hnumber⟩ := List.mem_iff_getElem?.mp hmem
  rw [List.getElem?_modify] at hnumber
  obtain ⟨before, hbefore, rfl⟩ := Option.map_eq_some_iff.mp hnumber
  have hold := h before (List.mem_of_getElem? hbefore)
  split
  · exact hchange before hold
  · exact hold

theorem sameShape_modifyCell {change : Cell → Cell} (h : ∀ cell, (change cell).origin = cell.origin)
    (strand number : Nat) (world : World α) :
    SameShape world (world.modifyCell strand number change) := by
  refine sameShape_modifyStrand (fun current => ?_) strand world
  simp only [Strand.shape, map_modify_eq h]

theorem sameShape_mark (wake : Wake) (strand : Nat) (thread : ThreadId) (world : World α) :
    SameShape world (world.modifyThread strand thread (Thread.mark wake)) := by
  refine sameShape_modifyStrand (fun current => ?_) strand world
  cases thread with
  | root => simp [Strand.shape, Thread.calm_mark]
  | child number => simp [Strand.shape, map_modify_eq (Thread.calm_mark wake)]

theorem sameShape_wake (strand : Nat) (thread : ThreadId) (cell : Option Nat) (world : World α) :
    SameShape world (world.wake strand thread cell) := by
  rw [wake]
  split
  · exact (sameShape_mark .woken strand thread world).trans (.of_strands_eq rfl)
  · exact .refl world

theorem sameShape_settle (strand number : Nat) (happening : Happening) (outcome : Outcome)
    (world : World α) : SameShape world (world.settle strand number happening outcome) := by
  refine settle_induction (.refl world) (fun _ => .of_strands_eq rfl)
    (fun _ _ h => h.trans (.of_strands_eq rfl)) (fun _ h => h.trans (sameShape_modifyCell ?_ ..))
    fun _ _ h => h.trans (sameShape_wake ..)
  exact fun _ => rfl

theorem sameShape_complete (strand number : Nat) (result : Except Fault Value) (world : World α) :
    SameShape world (world.complete strand number result) :=
  complete_induction (.refl world) fun _ => sameShape_settle ..

theorem sameShape_signal (event : String) (world : World α) :
    SameShape world (world.signal event) :=
  signal_induction (fun _ => .of_strands_eq rfl) fun _ _ _ h => h.trans (sameShape_wake ..)

theorem sameShape_answer (scope : Scope) (query : Query) (world : World α) :
    SameShape world (world.answer scope query).1 := by
  cases query with
  | complete result =>
      rw [answer]
      split
      · exact sameShape_complete ..
      · exact .refl world
  | completeLater delay result =>
      rw [answer]
      split
      · split <;> exact .of_strands_eq rfl
      · exact .refl world
  | signal event => exact sameShape_signal ..
  | setState name entry =>
      rw [answer]
      split
      · exact .refl world
      · refine sameShape_modifyStrand ?_ _ world
        exact fun _ => rfl
  | _ => exact .of_strands_eq rfl

theorem sameShape_drop (strand number : Nat) (world : World α) :
    SameShape world (world.drop strand number) := by
  refine drop_induction (.refl world) fun _ => SameShape.trans (.of_strands_eq rfl)
    (sameShape_modifyCell ?_ ..)
  exact fun _ => rfl

theorem sameShape_cancel (strand : Nat) (thread : ThreadId) (world : World α) :
    SameShape world (world.cancel strand thread) := by
  refine cancel_induction (.refl world) (fun _ => sameShape_drop ..) (fun other h => ?_)
    (sameShape_mark ..)
  have hforget : SameShape other (other.forget strand thread) := .of_strands_eq rfl
  exact ((h.trans hforget).trans (sameShape_mark ..)).trans (.of_strands_eq rfl)

theorem sameShape_unwind {β : Type} (scope : Scope) (waiting : Waiting β) (world : World α) :
    SameShape world (world.unwind scope waiting) := by
  have hnotice : ∀ notice : Option Item, SameShape world (world.leave scope notice) := by
    intro notice
    cases notice <;> exact .of_strands_eq rfl
  exact unwind_induction hnotice fun _ => sameShape_cancel ..

theorem sameShape_deliver (strand child : Nat) (world : World α) :
    SameShape world (world.deliver strand child) :=
  deliver_induction (.refl world) fun _ _ _ => sameShape_settle ..

theorem sameShape_fire (strand : Nat) (goal : Goal) (world : World α) :
    SameShape world (world.fire strand goal) := by
  cases goal with
  | wake thread => exact sameShape_wake ..
  | complete cell result => exact sameShape_complete ..

end World

theorem Action.sameShape_run {α β : Type} (scope : Scope) (action : Action β) (world : World α) :
    World.SameShape world (action.run scope world).1 :=
  action.run_induction (fun query other h => h.trans (World.sameShape_answer scope query other))
    (World.SameShape.refl world)

namespace World

variable {α : Type}

/-! ### Changes of one strand -/

section Inside

variable {strand : Nat} {before middle after : World α}

theorem SameShape.inside (h : SameShape before after) : Inside strand before after :=
  ⟨fun place _ => congrFun h place, by rw [outline?, congrFun h strand, outline?]⟩

theorem Inside.refl (strand : Nat) (world : World α) : Inside strand world world :=
  ⟨fun _ _ => rfl, rfl⟩

theorem Inside.trans (h : Inside strand before middle) (k : Inside strand middle after) :
    Inside strand before after :=
  ⟨fun place hne => (k.others place hne).trans (h.others place hne), k.own.trans h.own⟩

theorem Inside.of_strands_eq (h : after.strands = before.strands) : Inside strand before after :=
  (SameShape.of_strands_eq h).inside

/-- Every strand keeps its invocations and the thread of its chain. -/
theorem Inside.outline (h : Inside strand before after) (place : Nat) :
    after.outline? place = before.outline? place := by
  by_cases hsame : place = strand
  · exact hsame ▸ h.own
  · rw [outline?, h.others place hsame, outline?]

end Inside

theorem inside_modifyStrand {change : Strand α → Strand α}
    (h : ∀ current, (change current).invocations = current.invocations ∧
      (change current).root = current.root) (strand : Nat) (world : World α) :
    Inside strand world (world.modifyStrand strand change) := by
  refine ⟨fun place hne => ?_, ?_⟩
  · rw [shape?, strand?_modifyStrand, if_neg hne.symm, shape?]
  · rw [outline?, shape?, strand?_modifyStrand, if_pos rfl, outline?, shape?]
    cases world.strand? strand with
    | none => rfl
    | some current => simp [Strand.shape, h]

theorem inside_openCell (scope : Scope) (command : Command) (state : CellState) (world : World α) :
    Inside scope.strand world (world.openCell scope command state) := by
  refine inside_modifyStrand ?_ _ world
  exact fun _ => ⟨rfl, rfl⟩

theorem inside_spawn (scope : Scope) (cell : Nat) (delivers : Bool) (body : Routine Value)
    (world : World α) : Inside scope.strand world (world.spawn scope cell delivers body) := by
  refine (inside_modifyStrand ?_ _ world).trans (.of_strands_eq rfl)
  exact fun _ => ⟨rfl, rfl⟩

theorem inside_takeReply (scope : Scope) (command : Command) (cell : Nat) (reply : Reply)
    (world : World α) :
    Inside scope.strand world (world.takeReply scope command cell reply) := by
  have htell : ∀ happening,
      Inside scope.strand world (world.tell scope.strand cell command happening) :=
    fun _ => .of_strands_eq rfl
  refine takeReply_induction (fun _ => htell _) (fun _ => htell _)
    (fun _ _ h => h.trans (inside_spawn ..)) (fun _ _ h => ?_) fun _ => (sameShape_settle ..).inside
  refine (h.trans (inside_spawn ..)).trans (SameShape.inside (sameShape_modifyCell ?_ ..))
  exact fun _ => rfl

theorem inside_call (scope : Scope) (number : Nat) (command : Command) (arguments : Arguments)
    (world : World α) :
    Inside scope.strand world (world.call scope number command arguments).1 :=
  call_induction (Action.sameShape_run ..).inside (fun _ _ _ h => h.trans (inside_takeReply ..))
    (fun _ _ h => h.trans (.of_strands_eq rfl)) fun _ _ h => h.trans (sameShape_settle ..).inside

theorem inside_begin (scope : Scope) (command : Command) (arguments : Arguments)
    (world : World α) : Inside scope.strand world (world.begin scope command arguments).1 :=
  begin_induction
    (fun state _ => (inside_openCell scope command state world).trans (.of_strands_eq rfl))
    (fun _ h => h.trans (inside_call ..)) fun _ _ h => h.trans (.of_strands_eq rfl)

end World

theorem Routine.inside_run {α β : Type} (scope : Scope) (routine : Routine β) (world : World α) :
    World.Inside scope.strand world (routine.run scope world).1 := by
  have hrule : Rule scope (World.Inside scope.strand world)
      fun (_ : Suspension β) => World.Inside scope.strand world := {
    ended := fun _ _ h => h
    answer := fun query other h => h.trans (World.sameShape_answer scope query other).inside
    turn := fun _ _ _ h => h.trans (.of_strands_eq rfl)
    timer := fun _ _ _ _ h _ => h.trans (.of_strands_eq rfl)
    moment := fun _ _ _ h => h.trans (.of_strands_eq rfl)
    event := fun _ _ _ _ h => h.trans (.of_strands_eq rfl)
    prepared := by
      intro index _ initializer _ other h _ _
      let inner : Scope := { scope with step := some index, cell := none }
      exact (h.trans (initializer.sameShape_run inner other).inside).trans (.of_strands_eq rfl)
    complete := fun step _ _ _ _ h _ _ =>
      h.trans (World.inside_begin { scope with step := step } _ _ _)
    waits := fun step _ _ _ _ _ h _ _ =>
      h.trans (World.inside_begin { scope with step := step } _ _ _)
    cancelled := fun step _ _ _ _ h _ _ =>
      h.trans (World.inside_begin { scope with step := step } _ _ _) }
  exact hrule.run routine (.refl _ world)

/-- The state of a thread that gave up its turn. -/
def Suspension.status {β : Type} : Suspension β → ThreadStatus β
  | .ended result => .finished result
  | .waits waiting wake => .waiting waiting wake

namespace World

variable {α : Type}

theorem inside_resumed {β : Type} (scope : Scope) (waiting : Waiting β) (world : World α) :
    Inside scope.strand world (world.resumed scope waiting).1 :=
  resumed_induction (.refl _ world) fun _ _ _ _ => .of_strands_eq rfl

theorem turn_of_not_cancelled {β : Type} (scope : Scope) (waiting : Waiting β) (world : World α) :
    world.turn scope waiting false =
      (((world.resumed scope waiting).2.run scope (world.resumed scope waiting).1).1,
        ((world.resumed scope waiting).2.run scope (world.resumed scope waiting).1).2.status) := by
  simp only [turn, Bool.false_eq_true, if_false]
  rcases world.resumed scope waiting with ⟨middle, routine⟩
  rcases routine.run scope middle with ⟨after, result | ⟨wait, wake⟩⟩ <;> rfl

theorem inside_turn {β : Type} (scope : Scope) (waiting : Waiting β) (isCancelled : Bool)
    (world : World α) : Inside scope.strand world (world.turn scope waiting isCancelled).1 :=
  turn_induction (sameShape_unwind ..).inside (inside_resumed scope waiting world)
    fun other routine h => h.trans (routine.inside_run scope other)

/-! ### Turns and jobs -/

/-- The turn of a thread that an execution started happens in its strand. -/
theorem inside_resume_child (strand number : Nat) (world : World α) :
    Inside strand world (world.resume strand (.child number)) := by
  cases hstrand : world.strand? strand with
  | none =>
      simp only [World.resume, hstrand]
      exact .refl strand world
  | some current =>
      simp only [World.resume, hstrand]
      split
      · exact .refl strand world
      · rename_i thread waiting isCancelled _
        have hbegin : Inside strand world
            (world.modifyThread strand (.child number) Thread.begin) := by
          refine inside_modifyStrand ?_ strand world
          exact fun _ => ⟨rfl, rfl⟩
        have hturn := hbegin.trans (inside_turn ⟨strand, .child number, thread.step, thread.cell⟩
          waiting isCancelled _)
        rcases hend : (world.modifyThread strand (.child number) Thread.begin).turn
          ⟨strand, .child number, thread.step, thread.cell⟩ waiting isCancelled with ⟨after, status⟩
        rw [hend] at hturn
        have hstored : Inside strand after (after.setChild strand number status) := by
          refine inside_modifyStrand ?_ strand after
          exact fun _ => ⟨rfl, rfl⟩
        refine (hturn.trans hstored).trans ?_
        cases status with
        | finished result => exact .of_strands_eq rfl
        | running => exact .refl strand _
        | waiting wait wake => exact .refl strand _

/-- What a chain's thread does at its turn is done in its strand, and its new state is stored. -/
theorem resume_root_cases (strand : Nat) (world : World α) :
    world.resume strand .root = world ∨
    ∃ (current : Strand α) (waiting : Waiting α) (isCancelled : Bool) (after : World α)
      (status : ThreadStatus α),
      world.strand? strand = some current ∧
      current.root.status = .waiting waiting (if isCancelled then .cancelled else .woken) ∧
      (world.modifyThread strand .root Thread.begin).turn
        ⟨strand, .root, current.root.step, current.root.cell⟩ waiting isCancelled =
          (after, status) ∧
      world.resume strand .root = (after.setRoot strand status).close (.announce strand) status := by
  cases hstrand : world.strand? strand with
  | none => simp [World.resume, hstrand]
  | some current =>
      cases hdue : current.root.due? with
      | none => simp [World.resume, hstrand, hdue]
      | some due =>
          obtain ⟨waiting, isCancelled⟩ := due
          rcases hturn : (world.modifyThread strand .root Thread.begin).turn
            ⟨strand, .root, current.root.step, current.root.cell⟩ waiting isCancelled with
            ⟨after, status⟩
          refine .inr ⟨current, waiting, isCancelled, after, status, rfl, ?_, hturn, ?_⟩
          · rcases hroot : current.root with ⟨step, cell, delivers, _ | ⟨wait, _ | _ | _⟩ | _⟩
            all_goals
              rw [hroot] at hdue
              simp [Thread.due?] at hdue
            all_goals
              obtain ⟨rfl, rfl⟩ := hdue
              rfl
          · simp only [World.resume, hstrand, hdue, hturn]

theorem shape?_resume_root {strand place : Nat} (hne : place ≠ strand) (world : World α) :
    (world.resume strand .root).shape? place = world.shape? place := by
  rcases world.resume_root_cases strand with hsame |
    ⟨current, waiting, isCancelled, after, status, -, -, hturn, hresume⟩
  · rw [hsame]
  · have hbegin : (world.modifyThread strand .root Thread.begin).shape? place =
        world.shape? place := by
      rw [shape?, modifyThread, strand?_modifyStrand, if_neg hne.symm, shape?]
    have hafter := (inside_turn ⟨strand, .root, current.root.step, current.root.cell⟩ waiting
      isCancelled (world.modifyThread strand .root Thread.begin)).others place hne
    rw [hturn] at hafter
    have hset : (after.setRoot strand status).shape? place = after.shape? place := by
      rw [shape?, setRoot, strand?_modifyStrand, if_neg hne.symm, shape?]
    rw [hresume]
    refine Eq.trans ?_ (hset.trans (hafter.trans hbegin))
    cases status <;> rfl

end World

end Cascade
