import Cascade.Proofs.Batch.Abandon
import Cascade.Proofs.Trace.Quiet

/-!
What a job does to the threads whose turn it is not. It can wake them, and it cancels none of them but
the one that a cancelled thread waits for. What an execution has started stays.
-/

namespace Cascade

namespace World

variable {α : Type}

/-- The thread that an execution has started for its end. -/
def link? (world : World α) (place number : Nat) : Option Nat :=
  (world.cell? place number).bind Cell.child

/-- A change in which threads are only woken, and executions keep the threads that they have started. -/
structure Rouses (before after : World α) : Prop where
  posture : ∀ place thread posture, before.posture? place thread = some posture →
    Wakes (some posture) (after.posture? place thread)
  cell : ∀ place number cell, before.cell? place number = some cell →
    ∃ later, after.cell? place number = some later ∧ later.child = cell.child

section Rouses

variable {before middle after : World α}

theorem Rouses.of_eq (hposture : ∀ place thread posture, before.posture? place thread = some posture →
      after.posture? place thread = some posture)
    (hcell : ∀ place number cell, before.cell? place number = some cell →
      after.cell? place number = some cell) : Rouses before after :=
  ⟨fun place thread posture h => .inl (hposture place thread posture h),
    fun place number cell h => ⟨cell, hcell place number cell h, rfl⟩⟩

theorem Rouses.of_strands_eq (h : after.strands = before.strands) : Rouses before after := by
  have hstrand : ∀ place, after.strand? place = before.strand? place := by
    intro place
    rw [strand?, h, strand?]
  refine .of_eq (fun place thread posture hposture => ?_) fun place number cell hcell => ?_
  · rw [← hposture, posture?, hstrand, posture?]
  · rw [← hcell, cell?, hstrand, cell?]

theorem Rouses.refl (world : World α) : Rouses world world :=
  .of_strands_eq rfl

theorem Rouses.trans (h : Rouses before middle) (k : Rouses middle after) : Rouses before after := by
  refine ⟨fun place thread posture hposture => ?_, fun place number cell hcell => ?_⟩
  · cases hmiddle : middle.posture? place thread with
    | none =>
        rcases h.posture place thread posture hposture with hsame | ⟨_, _, hwoken⟩
        · cases hsame.symm.trans hmiddle
        · cases hwoken.symm.trans hmiddle
    | some other =>
        exact (hmiddle ▸ h.posture place thread posture hposture).trans
          (k.posture place thread other hmiddle)
  · obtain ⟨between, hbetween, hchild⟩ := h.cell place number cell hcell
    obtain ⟨later, hlater, hsame⟩ := k.cell place number between hbetween
    exact ⟨later, hlater, hsame.trans hchild⟩

theorem Quiet.rouses {grounds : Occurrence → Prop} {reports : Nat → Nat → Except Fault Value → Prop}
    (h : Quiet grounds reports before after) : Rouses before after := by
  refine ⟨fun place thread posture hposture => ?_, fun place number cell hcell => ?_⟩
  · rcases h.posture place thread posture hposture with hsame | ⟨cell, rfl, hwoken⟩
    · exact .inl hsame
    · exact .inr ⟨cell, rfl, hwoken⟩
  · have hchild := h.child place number
    rw [hcell] at hchild
    exact Option.map_eq_some_iff.mp hchild

theorem Rouses.link (h : Rouses before after) {place number child : Nat}
    (hlink : before.link? place number = some child) : after.link? place number = some child := by
  obtain ⟨cell, hcell, hchild⟩ := Option.bind_eq_some_iff.mp hlink
  obtain ⟨later, hlater, hsame⟩ := h.cell place number cell hcell
  rw [link?, hlater, Option.bind_some, hsame, hchild]

end Rouses

/-! ### Turns -/

theorem rouses_settle (strand number : Nat) (happening : Happening) (outcome : Outcome)
    (world : World α) : Rouses world (world.settle strand number happening outcome) := by
  have hquiet : Quiet (fun _ => True) (fun _ _ _ => True) world
      (world.settle strand number happening outcome) :=
    quiet_settle world (fun _ => trivial) fun _ => trivial
  exact hquiet.rouses

theorem rouses_answer (scope : Scope) (query : Query) (world : World α) :
    Rouses world (world.answer scope query).1 := by
  cases query with
  | complete result =>
      rw [answer]
      split
      · exact complete_induction (.refl world) fun _ => rouses_settle ..
      · exact .refl world
  | completeLater delay result =>
      rw [answer]
      split
      · split <;> exact .of_strands_eq rfl
      · exact .refl world
  | signal event =>
      have hquiet : Quiet (fun _ => True) (fun _ _ _ => True) world (world.signal event) :=
        quiet_signal event world
      exact hquiet.rouses
  | setState name entry =>
      rw [answer]
      split
      · exact .refl world
      · refine .of_eq (fun place thread posture hposture => ?_) fun place number cell hcell => ?_
        · refine (posture?_modifyStrand ?_ _ _ _ _).trans hposture
          intro strand id
          cases id <;> rfl
        · refine (cell?_modifyStrand ?_ _ _ _ _).trans hcell
          exact fun _ => rfl
  | _ => exact .of_strands_eq rfl

end World

theorem Action.rouses_run {α β : Type} (scope : Scope) (action : Action β) (world : World α) :
    World.Rouses world (action.run scope world).1 :=
  action.run_induction (fun query other h => h.trans (World.rouses_answer scope query other))
    (World.Rouses.refl world)

namespace World

variable {α : Type}

theorem rouses_openCell (scope : Scope) (command : Command) (state : CellState) (world : World α) :
    Rouses world (world.openCell scope command state) := by
  refine .of_eq (fun place thread posture hposture => ?_) fun place number cell hcell => ?_
  · rw [posture?_openCell, hposture]
  · cases hstrand : world.strand? scope.strand with
    | some strand =>
        rw [cell?_openCell hstrand, if_neg, hcell]
        rintro ⟨rfl, rfl⟩
        cases (cell?_cellCount world scope.strand).symm.trans hcell
    | none =>
        obtain ⟨strand, hplace, -⟩ := Option.bind_eq_some_iff.mp hcell
        have hne : scope.strand ≠ place := by
          rintro rfl
          cases hstrand.symm.trans hplace
        rw [openCell, cell?, strand?_modifyStrand, if_neg hne]
        exact hcell

theorem rouses_spawn (scope : Scope) (cell : Nat) (delivers : Bool) (body : Routine Value)
    (world : World α) : Rouses world (world.spawn scope cell delivers body) := by
  refine .of_eq (fun place thread posture hposture => ?_) fun place number found hcell => ?_
  · cases hstrand : world.strand? scope.strand with
    | some strand =>
        rw [posture?_spawn hstrand, if_neg, hposture]
        rintro ⟨rfl, rfl⟩
        cases (posture?_childCount world scope.strand).symm.trans hposture
    | none =>
        obtain ⟨strand, hplace, -⟩ := Option.bind_eq_some_iff.mp hposture
        have hne : scope.strand ≠ place := by
          rintro rfl
          cases hstrand.symm.trans hplace
        change (World.modifyStrand scope.strand _ world).posture? place thread = _
        rw [posture?, strand?_modifyStrand, if_neg hne]
        exact hposture
  · rw [cell?_spawn, hcell]

/-- A new execution may start a thread for its end. -/
theorem Rouses.adopt {base world : World α} (h : Rouses base world) {scope : Scope} {number : Nat}
    (hfresh : base.cell? scope.strand number = none) (body : Routine Value) :
    Rouses base (world.adopt scope number body) := by
  have hspawned := h.trans (rouses_spawn scope number true body world)
  refine ⟨fun place thread posture hposture => ?_, fun place other cell hcell => ?_⟩
  · have hadopted := hspawned.posture place thread posture hposture
    rwa [← posture?_modifyCell scope.strand number (fun cell =>
      { cell with child := some (world.childCount scope.strand) })] at hadopted
  · obtain ⟨later, hlater, hchild⟩ := hspawned.cell place other cell hcell
    refine ⟨later, ?_, hchild⟩
    rw [World.adopt, cell?_modifyCell, if_neg, hlater]
    rintro ⟨rfl, rfl⟩
    cases hfresh.symm.trans hcell

theorem Rouses.takeReply {base world : World α} (h : Rouses base world) {scope : Scope}
    {number : Nat} (hfresh : base.cell? scope.strand number = none) (command : Command)
    (reply : Reply) : Rouses base (world.takeReply scope command number reply) := by
  have htell : ∀ happening, Rouses base (world.tell scope.strand number command happening) :=
    fun _ => h.trans (.of_strands_eq rfl)
  exact takeReply_induction (fun _ => htell _) (fun _ => htell _)
    (fun _ _ h => h.trans (rouses_spawn ..)) (fun _ body h => h.adopt hfresh body)
    fun _ => h.trans (rouses_settle ..)

theorem Rouses.call {base world : World α} (h : Rouses base world) {scope : Scope}
    {number : Nat} (hfresh : base.cell? scope.strand number = none) (command : Command)
    (arguments : Arguments) : Rouses base (world.call scope number command arguments).1 :=
  call_induction (h.trans (Action.rouses_run ..))
    (fun _ reply _ h => h.takeReply hfresh command reply) (fun _ _ h => h.trans (.of_strands_eq rfl))
    fun _ _ h => h.trans (rouses_settle ..)

theorem rouses_begin (scope : Scope) (command : Command) (arguments : Arguments) (world : World α) :
    Rouses world (world.begin scope command arguments).1 :=
  begin_induction
    (fun state _ => (rouses_openCell scope command state world).trans (.of_strands_eq rfl))
    (fun _ h => h.call (cell?_cellCount world scope.strand) command arguments)
    fun _ _ h => h.trans (.of_strands_eq rfl)

end World

theorem Routine.rouses_run {α β : Type} (scope : Scope) (routine : Routine β) (world : World α) :
    World.Rouses world (routine.run scope world).1 := by
  have hrule : Rule scope (World.Rouses world) fun (_ : Suspension β) => World.Rouses world := {
    ended := fun _ _ h => h
    answer := fun query other h => h.trans (World.rouses_answer scope query other)
    turn := fun _ _ _ h => h.trans (.of_strands_eq rfl)
    timer := fun _ _ _ _ h _ => h.trans (.of_strands_eq rfl)
    moment := fun _ _ _ h => h.trans (.of_strands_eq rfl)
    event := fun _ _ _ _ h => h.trans (.of_strands_eq rfl)
    prepared := fun _ _ initializer _ other h _ _ =>
      (h.trans (initializer.rouses_run _ other)).trans (.of_strands_eq rfl)
    complete := fun _ _ _ _ _ h _ _ => h.trans (World.rouses_begin _ _ _ _)
    waits := fun _ _ _ _ _ _ h _ _ => h.trans (World.rouses_begin _ _ _ _)
    cancelled := fun _ _ _ _ _ h _ _ => h.trans (World.rouses_begin _ _ _ _) }
  exact hrule.run routine (.refl world)

namespace World

variable {α : Type} {world : World α} {place : Nat} {thread other : ThreadId} {cell : Option Nat}

theorem rouses_turn {β : Type} (scope : Scope) (waiting : Waiting β) (world : World α) :
    Rouses world (world.turn scope waiting false).1 := by
  have hresumed : Rouses world (world.resumed scope waiting).1 :=
    resumed_induction (.refl world) fun _ _ _ _ => .of_strands_eq rfl
  rw [turn_of_not_cancelled]
  exact hresumed.trans (Routine.rouses_run ..)

/-- The thread of the execution that is waited for. -/
def awaitedThread? (world : World α) (place : Nat) (cell : Option Nat) : Option Nat :=
  cell.bind (world.link? place)

theorem unwind_cases {β : Type} (scope : Scope) (waiting : Waiting β) (world : World α) :
    (∃ child, world.awaitedThread? scope.strand waiting.cell? = some child ∧
      world.unwind scope waiting = world.cancel scope.strand (.child child)) ∨
    world.awaitedThread? scope.strand waiting.cell? = none ∧
      ∃ notice, world.unwind scope waiting = world.leave scope notice := by
  cases waiting with
  | turn notice next => exact .inr ⟨rfl, notice, rfl⟩
  | timer notice next => exact .inr ⟨rfl, notice, rfl⟩
  | event name notice next => exact .inr ⟨rfl, notice, rfl⟩
  | cell number next =>
      have hlink : world.awaitedThread? scope.strand (Waiting.cell number next).cell? =
          (world.cell? scope.strand number).bind Cell.child := rfl
      rw [hlink, unwind]
      cases (world.cell? scope.strand number).bind Cell.child with
      | some child => exact .inl ⟨child, rfl, rfl⟩
      | none => exact .inr ⟨rfl, none, rfl⟩

theorem link?_modifyThread (strand : Nat) (thread : ThreadId)
    (change : {β : Type} → Thread β → Thread β) (world : World α) (place number : Nat) :
    (world.modifyThread strand thread change).link? place number = world.link? place number := by
  rw [link?, cell?_modifyThread, link?]

theorem awaitedThread?_modifyThread (strand : Nat) (thread : ThreadId)
    (change : {β : Type} → Thread β → Thread β) (world : World α) (place : Nat) (cell : Option Nat) :
    (world.modifyThread strand thread change).awaitedThread? place cell =
      world.awaitedThread? place cell := by
  have hlink : (world.modifyThread strand thread change).link? place = world.link? place :=
    funext fun number => link?_modifyThread strand thread change world place number
  rw [awaitedThread?, hlink, awaitedThread?]

theorem resume_of_cancelled (h : world.posture? place thread = some (.waits cell .cancelled)) :
    ∃ middle, Stored place thread (.finished true) middle (world.resume place thread) ∧
      ((∃ child, world.awaitedThread? place cell = some child ∧
          middle = (world.modifyThread place thread Thread.begin).cancel place (.child child)) ∨
        world.awaitedThread? place cell = none ∧ ∃ step own notice,
          middle = (world.modifyThread place thread Thread.begin).leave ⟨place, thread, step, own⟩
            notice) := by
  rcases world.resume_cases place thread with ⟨-, hasleep⟩ |
    ⟨β, step, own, waiting, isCancelled, after, status, hstands, hturn, hstored⟩
  · cases hasleep cell _ h
  · have hsame := Posture.waits.inj (Option.some.inj (hstands.symm.trans h))
    obtain rfl : isCancelled = true := by
      cases isCancelled
      · cases hsame.2
      · rfl
    obtain ⟨rfl, rfl⟩ := Prod.mk.inj hturn
    refine ⟨_, hstored, ?_⟩
    have hcases := unwind_cases ⟨place, thread, step, own⟩ waiting
      (world.modifyThread place thread Thread.begin)
    rw [hsame.1, awaitedThread?_modifyThread] at hcases
    rcases hcases with hchild | ⟨hnone, notice, hleaves⟩
    · exact .inl hchild
    · exact .inr ⟨hnone, step, own, notice, hleaves⟩

theorem posture?_leave (scope : Scope) (notice : Option Item) (world : World α) (place : Nat)
    (thread : ThreadId) :
    (world.leave scope notice).posture? place thread = world.posture? place thread := by
  cases notice <;> rfl

theorem cell?_leave (scope : Scope) (notice : Option Item) (world : World α) (place number : Nat) :
    (world.leave scope notice).cell? place number = world.cell? place number := by
  cases notice <;> rfl

theorem posture?_resume_of_cancelled
    (h : world.posture? place thread = some (.waits cell .cancelled)) :
    (world.resume place thread).posture? place thread = some (.finished true) := by
  have hbegun : (world.modifyThread place thread Thread.begin).posture? place thread =
      some .running := by
    rw [posture?_begin, if_pos ⟨rfl, rfl⟩, h]
    rfl
  obtain ⟨middle, hstored, hcases⟩ := resume_of_cancelled h
  have hmiddle : ∃ posture, middle.posture? place thread = some posture := by
    rcases hcases with ⟨child, -, rfl⟩ | ⟨-, step, own, notice, rfl⟩
    · rw [posture?_cancel, hbegun]
      split <;> exact ⟨_, rfl⟩
    · rw [posture?_leave, hbegun]
      exact ⟨_, rfl⟩
  obtain ⟨posture, hposture⟩ := hmiddle
  rw [hstored.posture, if_pos ⟨rfl, rfl⟩, hposture]
  rfl

theorem posture?_awaited_of_cancelled {number child : Nat} {posture : Posture}
    (h : world.posture? place thread = some (.waits (some number) .cancelled))
    (hlink : world.link? place number = some child) (hne : thread ≠ .child child)
    (hchild : world.posture? place (.child child) = some posture) :
    (world.resume place thread).posture? place (.child child) = some (posture.mark .cancelled) := by
  obtain ⟨middle, hstored, hcases⟩ := resume_of_cancelled h
  rw [hstored.posture, if_neg fun hsame => hne hsame.2]
  have hawaited : world.awaitedThread? place (some number) = some child := hlink
  rcases hcases with ⟨started, hstarted, rfl⟩ | ⟨hnone, -⟩
  · obtain rfl := Option.some.inj (hawaited.symm.trans hstarted)
    rw [posture?_cancel, if_pos ⟨rfl, rfl⟩, posture?_begin, if_neg fun hsame => hne hsame.2, hchild]
    rfl
  · cases hawaited.symm.trans hnone

theorem rouses_deliver (strand child : Nat) (world : World α) :
    Rouses world (world.deliver strand child) :=
  deliver_induction (.refl world) fun _ _ _ => rouses_settle ..

theorem rouses_fire (strand : Nat) (goal : Goal) (world : World α) :
    Rouses world (world.fire strand goal) := by
  cases goal with
  | wake thread =>
      have hquiet : Quiet (fun _ => True) (fun _ _ _ => True) world (world.wake strand thread none) :=
        quiet_wake strand thread none world
      exact hquiet.rouses
  | complete number result =>
      exact complete_induction (.refl world) fun _ => rouses_settle ..

/-- How a job can change a thread. -/
inductive Turns (job : Job) (after : World α) (place : Nat) (thread : ThreadId)
    (posture : Posture) : Prop
  /-- Its turn has come. -/
  | own (cell : Option Nat) (wake : Wake) (waits : posture = .waits cell wake) (awake : wake ≠ .asleep)
      (job : job = .resume place thread)
  /-- It stands as before. -/
  | stays (stands : after.posture? place thread = some posture)
  /-- It is woken. -/
  | woken (cell : Option Nat) (waits : posture = .waits cell .asleep)
      (stands : after.posture? place thread = some (.waits cell .woken))
  /-- It is cancelled. -/
  | cancelled (stands : after.posture? place thread = some (posture.mark .cancelled))

variable {posture : Posture}

theorem Rouses.turns {after : World α} (h : Rouses world after) (job : Job)
    (hstands : world.posture? place thread = some posture) :
    Turns job after place thread posture := by
  rcases h.posture place thread _ hstands with hsame | ⟨cell, heq, hwoken⟩
  · exact .stays hsame
  · exact .woken cell (Option.some.inj heq) hwoken

theorem turns_resume {strand : Nat} (hne : ¬ (strand = place ∧ other = thread))
    (hstands : world.posture? place thread = some posture) :
    Turns (.resume strand other) (world.resume strand other) place thread posture := by
  have hbegun : (world.modifyThread strand other Thread.begin).posture? place thread =
      some posture := by
    rw [posture?_begin, if_neg hne, hstands]
  rcases world.resume_cases strand other with ⟨hsame, -⟩ |
    ⟨β, step, own, waiting, isCancelled, after, status, hwaits, hturn, hstored⟩
  · rw [hsame]
    exact .stays hstands
  cases isCancelled with
  | false =>
      have hrouses := rouses_turn ⟨strand, other, step, own⟩ waiting
        (world.modifyThread strand other Thread.begin)
      rw [hturn] at hrouses
      rcases hrouses.posture place thread _ hbegun with hsame | ⟨cell, heq, hwoken⟩
      · exact .stays (by rw [hstored.posture, if_neg hne, hsame])
      · exact .woken cell (Option.some.inj heq) (by rw [hstored.posture, if_neg hne, hwoken])
  | true =>
      obtain ⟨middle, hlast, hends⟩ := resume_of_cancelled hwaits
      have hposture : (world.resume strand other).posture? place thread =
          middle.posture? place thread := by
        rw [hlast.posture, if_neg hne]
      rcases hends with ⟨child, -, rfl⟩ | ⟨-, step, own, notice, rfl⟩
      · rw [posture?_cancel, hbegun] at hposture
        split at hposture
        · exact .cancelled hposture
        · exact .stays hposture
      · rw [posture?_leave, hbegun] at hposture
        exact .stays hposture

/-- What a job does to a thread. -/
theorem turns_perform (job : Job) (hstands : world.posture? place thread = some posture) :
    Turns job (world.perform job) place thread posture := by
  cases job with
  | fire strand goal => exact (rouses_fire strand goal world).turns _ hstands
  | deliver strand child => exact (rouses_deliver strand child world).turns _ hstands
  | announce | supervise => exact .stays hstands
  | resume strand id =>
      by_cases hown : strand = place ∧ id = thread
      · obtain ⟨rfl, rfl⟩ := hown
        rcases world.resume_cases strand id with ⟨hsame, -⟩ |
          ⟨β, step, own, waiting, isCancelled, after, status, hwaits, -, -⟩
        · rw [perform, hsame]
          exact .stays hstands
        · exact .own _ _ (Option.some.inj (hstands.symm.trans hwaits)) (by cases isCancelled <;> simp) rfl
      · exact turns_resume hown hstands

/-! ### What executions have started -/

theorem link?_cancel (strand : Nat) (thread : ThreadId) (world : World α) {place number child : Nat}
    (h : world.link? place number = some child) :
    (world.cancel strand thread).link? place number = some child := by
  let linked (other : World α) : Prop := other.link? place number = some child
  have hdrop : ∀ cell, linked (world.drop strand cell) := by
    intro cell
    have hquiet : Quiet (fun _ => True) (fun _ _ _ => True) world (world.drop strand cell) :=
      quiet_drop (fun _ _ => trivial) cell world
    exact hquiet.rouses.link h
  have hmark : ∀ other, linked other →
      linked (other.modifyThread strand thread (Thread.mark .cancelled)) := fun other hother =>
    (link?_modifyThread strand thread (Thread.mark .cancelled) other place number).trans hother
  have hcancelled : linked (world.cancel strand thread) :=
    cancel_induction (show linked world from h) hdrop
      (fun other hother => hmark (other.forget strand thread) hother) (hmark world h)
  exact hcancelled

theorem link?_resume (strand : Nat) (thread : ThreadId) {number child : Nat}
    (h : world.link? place number = some child) :
    (world.resume strand thread).link? place number = some child := by
  have hbegun : (world.modifyThread strand thread Thread.begin).link? place number = some child := by
    rwa [link?_modifyThread]
  have hstored : ∀ {posture : Posture} {middle : World α},
      Stored strand thread posture middle (world.resume strand thread) →
        middle.link? place number = some child →
          (world.resume strand thread).link? place number = some child := by
    intro posture middle hstored hmiddle
    rwa [link?, hstored.cell]
  rcases world.resume_cases strand thread with ⟨hsame, -⟩ |
    ⟨β, step, own, waiting, isCancelled, after, status, hstands, hturn, hlast⟩
  · rwa [hsame]
  cases isCancelled with
  | false =>
      have hrouses := rouses_turn ⟨strand, thread, step, own⟩ waiting
        (world.modifyThread strand thread Thread.begin)
      rw [hturn] at hrouses
      exact hstored hlast (hrouses.link hbegun)
  | true =>
      obtain ⟨middle, hends, hcases⟩ := resume_of_cancelled hstands
      rcases hcases with ⟨started, -, rfl⟩ | ⟨-, step, own, notice, rfl⟩
      · exact hstored hends (link?_cancel strand (.child started) _ hbegun)
      · refine hstored hends ?_
        rwa [link?, cell?_leave]

theorem link?_perform (job : Job) {number child : Nat} (h : world.link? place number = some child) :
    (world.perform job).link? place number = some child := by
  cases job with
  | fire strand goal => exact (rouses_fire strand goal world).link h
  | deliver strand child => exact (rouses_deliver strand child world).link h
  | announce | supervise => exact h
  | resume strand id => exact link?_resume strand id h

end World

/-! ### What a thread does -/

/-- Whether an occurrence is the doing of the code of a thread. -/
def Occurrence.isBy (place : Nat) (thread : ThreadId) (occurrence : Occurrence) : Bool :=
  occurrence.strand = some place && occurrence.thread = some thread

/-- An occurrence that is no end of an execution: an item, or that an execution is given up. -/
inductive Occurrence.ResolvesNothing : Occurrence → Prop
  | item (strand : Option Nat) (thread : Option ThreadId) (step : Option Nat) (item : Item) :
      ResolvesNothing ⟨strand, thread, step, .item item⟩
  | dropped (strand number : Nat) (command : Command) :
      ResolvesNothing ⟨some strand, none, none, .execution number command .dropped⟩

theorem Occurrence.ResolvesNothing.eq_dropped {occurrence : Occurrence} (h : occurrence.ResolvesNothing)
    {place number : Nat} {happening : Happening}
    (hhappening : occurrence.happening? place number = some happening) : happening = .dropped := by
  cases h with
  | item strand => cases strand <;> cases hhappening
  | dropped strand execution command =>
      simp only [happening?] at hhappening
      split at hhappening
      · exact (Option.some.inj hhappening).symm
      · cases hhappening

theorem Occurrence.Told.isBy_eq_false {strand : Nat} {occurrence : Occurrence}
    (h : occurrence.Told strand) (place : Nat) (thread : ThreadId) :
    occurrence.isBy place thread = false := by
  rw [isBy, h.2]
  exact Bool.and_false _

namespace World

variable {α : Type} {world : World α} {place : Nat} {thread : ThreadId} {cell : Option Nat}

/-- What the code of a thread did, the newest first. -/
def doneBy (world : World α) (place : Nat) (thread : ThreadId) : List Occurrence :=
  world.record.filter (Occurrence.isBy place thread)

theorem doneBy_of_adds {before after : World α}
    (h : Adds (fun occurrence => occurrence.isBy place thread = false) before after) :
    after.doneBy place thread = before.doneBy place thread := by
  obtain ⟨added, hrecord, hadded⟩ := h
  have hnone : added.filter (Occurrence.isBy place thread) = [] :=
    List.filter_eq_nil_iff.mpr fun occurrence hmem => Bool.eq_false_iff.mp (hadded occurrence hmem)
  rw [doneBy, hrecord, List.filter_append, hnone]
  rfl

theorem doneBy_perform {job : Job} (hne : job ≠ .resume place thread) (world : World α) :
    (world.perform job).doneBy place thread = world.doneBy place thread := by
  cases job with
  | resume strand id =>
      refine doneBy_of_adds ((within_resume strand id world).mono fun occurrence hwithin => ?_)
      obtain ⟨hstrand, hnone | hthread⟩ := hwithin
      · exact Occurrence.Told.isBy_eq_false ⟨hstrand, hnone⟩ place thread
      · rw [Occurrence.isBy, hstrand, hthread]
        refine Bool.eq_false_iff.mpr fun hboth => hne ?_
        obtain ⟨hplace, hid⟩ := Bool.and_eq_true_iff.mp hboth
        rw [Option.some.inj (of_decide_eq_true hplace), Option.some.inj (of_decide_eq_true hid)]
  | fire strand goal =>
      exact doneBy_of_adds ((told_fire strand goal world).mono fun _ h => h.isBy_eq_false place thread)
  | deliver strand child =>
      exact doneBy_of_adds ((told_deliver strand child world).mono fun _ h => h.isBy_eq_false place thread)
  | announce | supervise => rfl

theorem doneBy_resume_of_cancelled
    (h : world.posture? place thread = some (.waits cell .cancelled)) :
    ∃ notice : Option Item, ∃ step, (world.resume place thread).doneBy place thread =
      (notice.map fun item => ⟨some place, some thread, step, .item item⟩).toList ++
        world.doneBy place thread := by
  obtain ⟨middle, hstored, hcases⟩ := resume_of_cancelled h
  have hlast : (world.resume place thread).doneBy place thread = middle.doneBy place thread :=
    congrArg (List.filter _) hstored.record
  rw [hlast]
  rcases hcases with ⟨child, -, rfl⟩ | ⟨-, step, own, notice, rfl⟩
  · have htold : Adds (Occurrence.Told place) (world.modifyThread place thread Thread.begin)
        ((world.modifyThread place thread Thread.begin).cancel place (.child child)) :=
      adds_cancel (fun _ _ => ⟨rfl, rfl⟩) _ _
    exact ⟨none, none, doneBy_of_adds (htold.mono fun _ htold => htold.isBy_eq_false place thread)⟩
  · refine ⟨notice, step, ?_⟩
    cases notice with
    | none => rfl
    | some item =>
        refine List.filter_cons_of_pos ?_
        simp [Occurrence.isBy]

/-- The end of a cancelled thread adds at most its notice and that an execution is given up. -/
theorem adds_resume_of_cancelled
    (h : world.posture? place thread = some (.waits cell .cancelled)) :
    Adds Occurrence.ResolvesNothing world (world.resume place thread) := by
  obtain ⟨middle, hstored, hcases⟩ := resume_of_cancelled h
  have hbegun : Adds Occurrence.ResolvesNothing (world.modifyThread place thread Thread.begin)
      middle := by
    rcases hcases with ⟨child, -, rfl⟩ | ⟨-, step, own, notice, rfl⟩
    · exact adds_cancel (fun number command => .dropped place number command) _ _
    · cases notice with
      | none => exact .refl _
      | some item => exact adds_write (.item _ _ _ item) _
  exact hbegun.trans (.of_record_eq hstored.record)

end World

end Cascade
