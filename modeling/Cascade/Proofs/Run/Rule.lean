import Cascade.Run.Job

/-!
Rules for the functions that change a state, one for each: what holds before it and is kept by its steps
holds after it. The rule for code that runs until it waits or ends: what holds at the turn of
a thread and is kept by every answer, every initializer and every execution that is complete at the end
of its call leads to what holds when the thread gives up its turn.
-/

namespace Cascade

variable {α β : Type}

namespace Action

theorem run_induction {scope : Scope} {holds : World α → Prop}
    (answer : ∀ query world, holds world → holds (world.answer scope query).1)
    (action : Action β) {world : World α} (h : holds world) :
    holds (action.run scope world).1 := by
  induction action generalizing world with
  | finish value => exact h
  | fail fault => exact h
  | ask query next ih => exact ih _ (answer query world h)

end Action

namespace World

section Operations

variable {holds kept : World α → Prop} {strand number : Nat} {world : World α}

theorem settle_induction {happening : Happening} {outcome : Outcome} (h : holds world)
    (told : ∀ command, holds (world.tell strand number command happening))
    (ignored : ∀ other command, holds other →
      holds (other.tell strand number command (.ignored outcome)))
    (settled : ∀ other, holds other → holds (other.modifyCell strand number fun cell =>
      { cell with state := .settled outcome }))
    (woken : ∀ other thread, holds other → holds (other.wake strand thread (some number))) :
    holds (world.settle strand number happening outcome) := by
  rw [settle]
  split
  · exact h
  · rename_i cell _
    cases cell.state with
    | dropped => exact told _
    | settled first => exact ignored _ _ (told _)
    | pending => exact woken _ _ (settled _ (told _))

theorem complete_induction {result : Except Fault Value} (h : holds world)
    (settled : ∀ outcome, holds (world.settle strand number (.completed result) outcome)) :
    holds (world.complete strand number result) := by
  rw [complete]
  split
  · exact h
  · exact settled _

theorem signal_induction {event : String}
    (happened : ∀ waiters, holds { world with
      happened := event :: world.happened
      waiters := waiters })
    (woken : ∀ other strand thread, holds other → holds (other.wake strand thread none)) :
    holds (world.signal event) := by
  have hfold : ∀ (waiters : List (String × Nat × ThreadId)) (start : World α), holds start →
      holds (waiters.foldl (fun world waiter => world.wake waiter.2.1 waiter.2.2 none) start) := by
    intro waiters
    induction waiters with
    | nil => exact fun _ hstart => hstart
    | cons waiter rest ih => exact fun start hstart => ih _ (woken start _ _ hstart)
  exact hfold _ _ (happened _)

theorem drop_induction (h : holds world)
    (dropped : ∀ command, holds ((world.tell strand number command .dropped).modifyCell strand number
      fun cell => { cell with state := .dropped })) :
    holds (world.drop strand number) := by
  rw [drop]
  split
  · exact h
  · split
    · exact dropped _
    · exact h

theorem cancel_induction {thread : ThreadId} (h : kept world)
    (dropped : ∀ number, kept (world.drop strand number))
    (given : ∀ other, kept other → holds (((other.forget strand thread).modifyThread strand thread
      (Thread.mark .cancelled)).enqueue (.resume strand thread)))
    (marked : holds (world.modifyThread strand thread (Thread.mark .cancelled))) :
    holds (world.cancel strand thread) := by
  rw [cancel]
  split
  · dsimp only
    split
    · exact given _ (dropped _)
    · exact given _ h
  · exact marked

theorem unwind_induction {scope : Scope} {waiting : Waiting β}
    (left : ∀ notice, holds (world.leave scope notice))
    (cancelled : ∀ child, holds (world.cancel scope.strand (.child child))) :
    holds (world.unwind scope waiting) := by
  cases waiting with
  | turn notice next | timer notice next | event name notice next => exact left notice
  | cell number next =>
      rw [unwind]
      split
      · exact cancelled _
      · exact left none

theorem resumed_induction {scope : Scope} {waiting : Waiting β} (h : holds world)
    (yielded : ∀ step number command outcome, holds (world.noteExecution { scope with step := step }
      number command (.yielded outcome))) :
    holds (world.resumed scope waiting).1 := by
  cases waiting with
  | turn notice next | timer notice next | event name notice next => exact h
  | cell number next =>
      simp only [resumed]
      split
      · exact yielded ..
      · exact h

theorem turn_induction {scope : Scope} {waiting : Waiting β} {isCancelled : Bool}
    (unwound : holds (world.unwind scope waiting)) (resumed : holds (world.resumed scope waiting).1)
    (ran : ∀ other (routine : Routine β), holds other → holds (routine.run scope other).1) :
    holds (world.turn scope waiting isCancelled).1 := by
  cases isCancelled with
  | true => exact unwound
  | false =>
      have hran := ran _ (world.resumed scope waiting).2 resumed
      simp only [turn, Bool.false_eq_true, if_false]
      rcases hend : (world.resumed scope waiting).2.run scope (world.resumed scope waiting).1 with
        ⟨after, result | ⟨wait, wake⟩⟩ <;> exact congrArg Prod.fst hend ▸ hran

theorem deliver_induction {child : Nat} (h : holds world)
    (settled : ∀ number result outcome,
      holds (world.settle strand number (.ended result) outcome)) :
    holds (world.deliver strand child) := by
  rw [deliver]
  split
  · exact h
  · split
    · split
      · exact settled ..
      · exact h
    · exact h

end Operations

section Execution

variable {holds : World α → Prop} {scope : Scope} {number : Nat} {command : Command}
  {arguments : Arguments} {world : World α}

theorem takeReply_induction {reply : Reply}
    (promised : ∀ started, holds (world.tell scope.strand number command (.promised started)))
    (returned : ∀ value, holds (world.tell scope.strand number command (.returned value)))
    (spawned : ∀ other body, holds other → holds (other.spawn scope number false body))
    (adopted : ∀ other body, holds other → holds (other.adopt scope number body))
    (settled : ∀ value, holds (world.settle scope.strand number (.returned value)
      (.success command.name value))) :
    holds (world.takeReply scope command number reply) := by
  unfold takeReply
  split
  · split
    · exact spawned _ _ (promised _)
    · exact promised _
  · exact adopted _ _ (promised _)
  · exact returned _
  · split
    · exact returned _
    · exact settled _

theorem call_induction
    (ran : holds ((command.run arguments).run { scope with cell := some number } world).1)
    (replied : ∀ other reply, (command.run arguments).run { scope with cell := some number } world =
      (other, .ok reply) → holds other → holds (other.takeReply scope command number reply))
    (escaped : ∀ other fault, holds other →
      holds (other.tell scope.strand number command (.escaped fault)))
    (failed : ∀ other fault, holds other → holds (other.settle scope.strand number (.raised fault)
      (.failure command.name fault))) :
    holds (world.call scope number command arguments).1 := by
  rcases hran : (command.run arguments).run { scope with cell := some number } world with
    ⟨other, result⟩
  rw [hran] at ran
  simp only [call, hran]
  cases result with
  | ok reply => exact replied other reply hran ran
  | error fault =>
      dsimp only
      split
      · exact escaped other fault ran
      · exact failed other fault ran

/-- What every way in which an execution can begin leads to. -/
theorem begin_induction
    (opened : ∀ state happening, holds ((world.openCell scope command state).noteExecution scope
      (world.cellCount scope.strand) command happening))
    (called : ∀ other, holds other →
      holds (other.call scope (world.cellCount scope.strand) command arguments).1)
    (yielded : ∀ other outcome, holds other → holds (other.noteExecution scope
      (world.cellCount scope.strand) command (.yielded outcome))) :
    holds (world.begin scope command arguments).1 := by
  have hentered : holds (world.enter scope (world.cellCount scope.strand) command arguments).1 := by
    rw [enter]
    split
    · exact called _ (opened _ _)
    · exact opened _ _
  rcases henter : world.enter scope (world.cellCount scope.strand) command arguments with
    ⟨entered, begun⟩
  rw [henter] at hentered
  simp only [begin, henter]
  cases begun with
  | complete outcome => exact yielded entered outcome hentered
  | waits number => exact hentered
  | cancelled fault => exact hentered

end Execution

/-- The commands that the code of a strand can have executed: those of its own steps and those that
are registered. -/
def Offers (world : World α) (strand : Nat) (command : Command) : Prop :=
  (∃ (current : Strand α) (index : Nat) (invocation : Invocation),
      world.strand? strand = some current ∧ current.invocations[index]? = some invocation ∧
        invocation.command = command) ∨
    ∃ name, world.surroundings.registry.lookup name = .ok command

end World

namespace Routine

/-- What every step of a routine keeps, and how it ends or waits. -/
structure Rule (scope : Scope) (holds : World α → Prop) (ends : Suspension β → World α → Prop) :
    Prop where
  ended : ∀ result world, holds world → ends (.ended result) world
  answer : ∀ query world, holds world → holds (world.answer scope query).1
  turn : ∀ notice next world, holds world → ends (.waits (.turn notice next) .woken)
    (world.enqueue (.resume scope.strand scope.thread))
  timer : ∀ seconds notice next world, holds world → seconds.isPositive = true →
    ends (.waits (.timer notice next) .asleep)
      (world.schedule scope.strand seconds (.wake scope.thread))
  moment : ∀ notice next world, holds world → ends (.waits (.timer notice next) .asleep)
    (world.enqueue (.fire scope.strand (.wake scope.thread)))
  event : ∀ name notice next world, holds world → ends (.waits (.event name notice next) .asleep)
    { world with waiters := world.waiters ++ [(name, scope.strand, scope.thread)] }
  prepared : ∀ index command initializer failure world, holds world →
    world.Offers scope.strand command → command.initializer = some initializer →
      holds ((initializer.run { scope with step := some index, cell := none } world).1.note scope
        (.prepared index failure))
  complete : ∀ step command arguments outcome world, holds world →
    world.Offers scope.strand command →
      (world.begin { scope with step := step } command arguments).2 = .complete outcome →
        holds (world.begin { scope with step := step } command arguments).1
  waits : ∀ step command arguments number next world, holds world →
    world.Offers scope.strand command →
      (world.begin { scope with step := step } command arguments).2 = .waits number →
        ends (.waits (.cell number next) .asleep)
          (world.begin { scope with step := step } command arguments).1
  cancelled : ∀ step command arguments fault world, holds world →
    world.Offers scope.strand command →
      (world.begin { scope with step := step } command arguments).2 = .cancelled fault →
        ends (.ended (.error fault)) (world.begin { scope with step := step } command arguments).1

theorem Rule.run {scope : Scope} {holds : World α → Prop} {ends : Suspension β → World α → Prop}
    (rule : Rule scope holds ends) (routine : Routine β) {world : World α} (h : holds world) :
    ends (routine.run scope world).2 (routine.run scope world).1 := by
  induction routine generalizing world with
  | finish value => exact rule.ended _ _ h
  | fail fault => exact rule.ended _ _ h
  | ask query next ih => exact ih _ (rule.answer query world h)
  | sleep seconds notice next ih =>
      simp only [Routine.run]
      split
      · exact rule.turn notice next world h
      · split
        · rename_i hpositive
          exact rule.timer seconds notice next world h hpositive
        · exact rule.moment notice next world h
  | await event notice next ih =>
      simp only [Routine.run]
      split
      · exact ih _ h
      · exact rule.event event notice next world h
  | invoke name given next ih =>
      simp only [Routine.run]
      split
      · exact rule.ended _ _ h
      · exact rule.ended _ _ h
      · rename_i command arguments hlookup _
        have hoffers : world.Offers scope.strand command := .inr ⟨name, hlookup⟩
        have hcomplete := rule.complete scope.step command arguments
        have hwaits := rule.waits scope.step command arguments
        have hcancelled := rule.cancelled scope.step command arguments
        rcases hbegun : world.begin scope command arguments with ⟨middle, begun⟩
        cases begun with
        | complete outcome =>
            have hmiddle := hcomplete outcome world h hoffers (congrArg Prod.snd hbegun)
            exact ih outcome (congrArg Prod.fst hbegun ▸ hmiddle)
        | waits number =>
            have hmiddle := hwaits number next world h hoffers (congrArg Prod.snd hbegun)
            exact congrArg Prod.fst hbegun ▸ hmiddle
        | cancelled fault =>
            have hmiddle := hcancelled fault world h hoffers (congrArg Prod.snd hbegun)
            exact congrArg Prod.fst hbegun ▸ hmiddle
  | prepare index next ih =>
      simp only [Routine.run]
      split
      · exact rule.ended _ _ h
      · rename_i invocation hinvocation
        obtain ⟨strand, hstrand, hindex⟩ := Option.bind_eq_some_iff.mp hinvocation
        have hoffers : world.Offers scope.strand invocation.command :=
          .inl ⟨strand, index, invocation, hstrand, hindex, rfl⟩
        split
        · exact ih _ h
        · rename_i initializer hinitializer
          have hprepared := fun failure =>
            rule.prepared index invocation.command initializer failure world h hoffers hinitializer
          rcases hran : initializer.run { scope with step := some index, cell := none } world with
            ⟨middle, result⟩
          rw [hran] at hprepared
          cases result with
          | ok value => exact ih _ (hprepared none)
          | error fault =>
              dsimp only
              split
              · exact rule.ended _ _ (hprepared (some fault))
              · exact ih _ (hprepared (some fault))
  | execute index next ih =>
      simp only [Routine.run]
      split
      · exact rule.ended _ _ h
      · rename_i invocation hinvocation
        obtain ⟨strand, hstrand, hindex⟩ := Option.bind_eq_some_iff.mp hinvocation
        have hoffers : world.Offers scope.strand invocation.command :=
          .inl ⟨strand, index, invocation, hstrand, hindex, rfl⟩
        have hcomplete := rule.complete (some index) invocation.command invocation.arguments
        have hwaits := rule.waits (some index) invocation.command invocation.arguments
        have hcancelled := rule.cancelled (some index) invocation.command invocation.arguments
        rcases hbegun : world.begin { scope with step := some index } invocation.command
          invocation.arguments with ⟨middle, begun⟩
        cases begun with
        | complete outcome =>
            have hmiddle := hcomplete outcome world h hoffers (congrArg Prod.snd hbegun)
            exact ih outcome (congrArg Prod.fst hbegun ▸ hmiddle)
        | waits number =>
            have hmiddle := hwaits number next world h hoffers (congrArg Prod.snd hbegun)
            exact congrArg Prod.fst hbegun ▸ hmiddle
        | cancelled fault =>
            have hmiddle := hcancelled fault world h hoffers (congrArg Prod.snd hbegun)
            exact congrArg Prod.fst hbegun ▸ hmiddle

end Routine

end Cascade
