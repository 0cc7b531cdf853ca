import Cascade.Proofs.Run.Growth

/-!
The clock stands still while jobs are done. The threads of the chains stand still as well: such a thread
changes at its own turn, and besides that it can only be woken.
-/

namespace Cascade

namespace World

variable {α : Type}

/-- How a thread may come to stand without a turn of its own: as before, or woken. -/
def Wakes (before after : Option Posture) : Prop :=
  after = before ∨
    ∃ cell, before = some (.waits cell .asleep) ∧ after = some (.waits cell .woken)

theorem Wakes.trans {before middle after : Option Posture} (h : Wakes before middle)
    (k : Wakes middle after) : Wakes before after := by
  rcases h with rfl | ⟨cell, rfl, rfl⟩
  · exact k
  · rcases k with rfl | ⟨other, hother, -⟩
    · exact .inr ⟨cell, rfl, rfl⟩
    · cases hother

/-- The clock and the threads of the chains stand still. -/
structure Still (before after : World α) : Prop where
  clock : after.clock = before.clock
  root : ∀ place, Wakes (before.posture? place .root) (after.posture? place .root)

section Still

variable {before middle after : World α}

theorem Still.of_eq (hclock : after.clock = before.clock)
    (hposture : ∀ place, after.posture? place .root = before.posture? place .root) :
    Still before after :=
  ⟨hclock, fun place => .inl (hposture place)⟩

theorem Still.refl (world : World α) : Still world world :=
  .of_eq rfl fun _ => rfl

theorem Still.trans (h : Still before middle) (k : Still middle after) : Still before after :=
  ⟨k.clock.trans h.clock, fun place => (h.root place).trans (k.root place)⟩

end Still

/-! ### Waking and completing -/

theorem still_wake (strand : Nat) (thread : ThreadId) (cell : Option Nat) (world : World α) :
    Still world (world.wake strand thread cell) := by
  refine ⟨?_, fun place => ?_⟩
  · rw [wake]
    split <;> rfl
  · rw [posture?_wake]
    split
    · rename_i hall
      obtain ⟨rfl, rfl, hasleep⟩ := hall
      exact .inr ⟨cell, hasleep, rfl⟩
    · exact .inl rfl

theorem still_modifyCell (strand number : Nat) (change : Cell → Cell) (world : World α) :
    Still world (world.modifyCell strand number change) :=
  .of_eq rfl fun place => posture?_modifyCell strand number change world place .root

theorem still_settle (strand number : Nat) (happening : Happening) (outcome : Outcome)
    (world : World α) : Still world (world.settle strand number happening outcome) :=
  settle_induction (.refl world) (fun _ => .of_eq rfl fun _ => rfl)
    (fun _ _ h => h.trans (.of_eq rfl fun _ => rfl)) (fun _ h => h.trans (still_modifyCell ..))
    fun _ _ h => h.trans (still_wake ..)

theorem still_complete (strand number : Nat) (result : Except Fault Value) (world : World α) :
    Still world (world.complete strand number result) :=
  complete_induction (.refl world) fun _ => still_settle ..

theorem still_signal (event : String) (world : World α) : Still world (world.signal event) :=
  signal_induction (fun _ => .of_eq rfl fun _ => rfl) fun _ _ _ h => h.trans (still_wake ..)

theorem still_answer (scope : Scope) (query : Query) (world : World α) :
    Still world (world.answer scope query).1 := by
  cases query with
  | complete result =>
      rw [answer]
      split
      · exact still_complete ..
      · exact .refl world
  | completeLater delay result =>
      rw [answer]
      split
      · split <;> exact .of_eq rfl fun _ => rfl
      · exact .refl world
  | signal event => exact still_signal event world
  | setState name entry =>
      rw [answer]
      split
      · exact .refl world
      · refine .of_eq rfl fun place => posture?_modifyStrand ?_ _ _ place .root
        intro strand thread
        cases thread <;> rfl
  | _ => exact .of_eq rfl fun _ => rfl

/-! ### Executions -/

theorem still_spawn (scope : Scope) (cell : Nat) (delivers : Bool) (body : Routine Value)
    (world : World α) : Still world (world.spawn scope cell delivers body) := by
  refine .of_eq rfl fun place => ?_
  cases hstrand : world.strand? scope.strand with
  | some strand => rw [posture?_spawn hstrand, if_neg fun hall => by cases hall.2]
  | none =>
      change (World.modifyStrand scope.strand _ world).posture? place .root = _
      rw [posture?, strand?_modifyStrand, posture?]
      split
      · rename_i heq
        rw [← heq, hstrand]
        rfl
      · rfl

theorem still_takeReply (scope : Scope) (command : Command) (cell : Nat) (reply : Reply)
    (world : World α) : Still world (world.takeReply scope command cell reply) := by
  have htell : ∀ happening, Still world (world.tell scope.strand cell command happening) :=
    fun _ => .of_eq rfl fun _ => rfl
  exact takeReply_induction (fun _ => htell _) (fun _ => htell _)
    (fun _ _ h => h.trans (still_spawn ..))
    (fun _ _ h => (h.trans (still_spawn ..)).trans (still_modifyCell ..)) fun _ => still_settle ..

end World

theorem Action.still_run {α β : Type} (scope : Scope) (action : Action β) (world : World α) :
    World.Still world (action.run scope world).1 :=
  action.run_induction (fun query other h => h.trans (World.still_answer scope query other))
    (World.Still.refl world)

namespace World

variable {α : Type}

theorem still_call (scope : Scope) (number : Nat) (command : Command) (arguments : Arguments)
    (world : World α) : Still world (world.call scope number command arguments).1 :=
  call_induction (Action.still_run ..) (fun _ _ _ h => h.trans (still_takeReply ..))
    (fun _ _ h => h.trans (.of_eq rfl fun _ => rfl)) fun _ _ h => h.trans (still_settle ..)

theorem still_begin (scope : Scope) (command : Command) (arguments : Arguments)
    (world : World α) : Still world (world.begin scope command arguments).1 :=
  begin_induction
    (fun state _ => .of_eq rfl fun place => posture?_openCell scope command state world place .root)
    (fun _ h => h.trans (still_call ..)) fun _ _ h => h.trans (.of_eq rfl fun _ => rfl)

end World

theorem Routine.still_run {α β : Type} (scope : Scope) (routine : Routine β) (world : World α) :
    World.Still world (routine.run scope world).1 := by
  have hrule : Rule scope (World.Still world) fun (_ : Suspension β) => World.Still world := {
    ended := fun _ _ h => h
    answer := fun query other h => h.trans (World.still_answer scope query other)
    turn := fun _ _ _ h => h.trans (.of_eq rfl fun _ => rfl)
    timer := fun _ _ _ _ h _ => h.trans (.of_eq rfl fun _ => rfl)
    moment := fun _ _ _ h => h.trans (.of_eq rfl fun _ => rfl)
    event := fun _ _ _ _ h => h.trans (.of_eq rfl fun _ => rfl)
    prepared := fun _ _ initializer _ other h _ _ =>
      (h.trans (initializer.still_run _ other)).trans (.of_eq rfl fun _ => rfl)
    complete := fun _ _ _ _ _ h _ _ => h.trans (World.still_begin _ _ _ _)
    waits := fun _ _ _ _ _ _ h _ _ => h.trans (World.still_begin _ _ _ _)
    cancelled := fun _ _ _ _ _ h _ _ => h.trans (World.still_begin _ _ _ _) }
  exact hrule.run routine (.refl world)

namespace World

variable {α : Type}

/-! ### Turns and jobs -/

theorem still_cancel_child (strand number : Nat) (world : World α) :
    Still world (world.cancel strand (.child number)) := by
  have hdrop : ∀ cell, Still world (world.drop strand cell) := by
    intro cell
    refine drop_induction (.refl world) fun command => ?_
    have htell : Still world (world.tell strand cell command .dropped) := .of_eq rfl fun _ => rfl
    exact htell.trans (still_modifyCell ..)
  refine cancel_induction (.refl world) hdrop (fun other h => h.trans (.of_eq rfl fun place => ?_))
    (.of_eq rfl fun place => ?_)
  · exact (posture?_mark .cancelled strand (.child number)
      (other.forget strand (.child number)) place .root).trans (if_neg fun hall => by cases hall.2)
  · rw [posture?_mark, if_neg fun hall => by cases hall.2]

theorem still_turn {β : Type} (scope : Scope) (waiting : Waiting β) (isCancelled : Bool)
    (world : World α) : Still world (world.turn scope waiting isCancelled).1 := by
  have hnotice : ∀ notice : Option Item, Still world (world.leave scope notice) := by
    intro notice
    cases notice <;> exact .of_eq rfl fun _ => rfl
  exact turn_induction (unwind_induction hnotice fun _ => still_cancel_child ..)
    (resumed_induction (.refl world) fun _ _ _ _ => .of_eq rfl fun _ => rfl)
    fun other routine h => h.trans (routine.still_run scope other)

/-- A turn leaves the clock and the threads of the other chains. -/
theorem still_resume (strand : Nat) (thread : ThreadId) (world : World α) :
    (world.resume strand thread).clock = world.clock ∧
      ∀ place, ¬ (strand = place ∧ thread = .root) →
        Wakes (world.posture? place .root) ((world.resume strand thread).posture? place .root) := by
  rcases world.resume_cases strand thread with ⟨hsame, -⟩ |
    ⟨β, step, cell, waiting, isCancelled, after, status, -, hturn, hstored⟩
  · rw [hsame]
    exact ⟨rfl, fun _ _ => .inl rfl⟩
  · have hrun := still_turn ⟨strand, thread, step, cell⟩ waiting isCancelled
      (world.modifyThread strand thread Thread.begin)
    rw [hturn] at hrun
    refine ⟨hstored.clock.trans hrun.clock, fun place hne => ?_⟩
    have hroot := hrun.root place
    rw [posture?_begin, if_neg hne] at hroot
    rwa [hstored.posture, if_neg hne]

theorem still_deliver (strand child : Nat) (world : World α) :
    Still world (world.deliver strand child) :=
  deliver_induction (.refl world) fun _ _ _ => still_settle ..

theorem still_fire (strand : Nat) (goal : Goal) (world : World α) :
    Still world (world.fire strand goal) := by
  cases goal with
  | wake thread => exact still_wake ..
  | complete cell result => exact still_complete ..

end World

end Cascade
