import Cascade.Proofs.Run.Step

/-!
What the code of a run does, act by act. Every function that runs code has a companion here that lists
the acts of that code in the order of time, each with the place where the code runs and with the step
that the code sees as the current one at that moment.
-/

namespace Cascade

/-- What code does at one moment. -/
inductive Doing
  /-- Asks a question that is answered at once. -/
  | asks (query : Query) (answer : query.Answer)
  /-- Begins to wait for a time. -/
  | pauses (seconds : Binary64)
  /-- Begins to wait for an event. -/
  | awaits (event : String)
  /-- Has the initializer of a step run, if it has one, and learns how it failed. -/
  | prepares (index : Nat) (failure : Option Fault)
  /-- Begins to execute a command by name. -/
  | invokes (number : Nat) (command : Command) (arguments : Arguments)
  /-- Begins to execute a step of the chain. -/
  | executes (number index : Nat) (command : Command) (arguments : Arguments)
  /-- Gets the outcome of an execution. -/
  | gets (number : Nat) (outcome : Outcome)
  /-- Leaves a notice because its wait was cancelled. -/
  | leaves (notice : Item)

def Doing.question? : Doing → Option Query
  | .asks query _ => some query
  | _ => none

/-- The time that begins to be waited for. -/
def Doing.pause? : Doing → Option Binary64
  | .pauses seconds => some seconds
  | _ => none

/-- One act of code: where the code runs, what it sees as the current step, and what it does. -/
structure Act where
  scope : Scope
  sees : Option StepView
  doing : Doing

variable {α β : Type}

def World.act (scope : Scope) (doing : Doing) (world : World α) : Act :=
  ⟨scope, world.stepView? scope, doing⟩

/-- The acts of code that runs to its end at once. -/
def Action.acts (scope : Scope) : Action β → World α → List Act
  | finish _, _ => []
  | fail _, _ => []
  | ask query next, world =>
      let (after, answer) := world.answer scope query
      world.act scope (.asks query answer) :: (next answer).acts scope after

namespace World

/-- The state in which a command is called: its execution has a cell. -/
def opened (scope : Scope) (command : Command) (arguments : Arguments) (world : World α) : World α :=
  (world.openCell scope command .pending).noteExecution scope (world.cellCount scope.strand) command
    (.called arguments)

/-- The acts of a call at the beginning of an execution. -/
def actsOfBegin (scope : Scope) (command : Command) (arguments : Arguments) (world : World α) :
    List Act :=
  if command.accepts arguments.kind then
    (command.run arguments).acts { scope with cell := some (world.cellCount scope.strand) }
      (world.opened scope command arguments)
  else []

end World

/-- The acts of a routine until it waits or ends, with those of the calls that it makes. -/
def Routine.acts (scope : Scope) : Routine β → World α → List Act
  | finish _, _ => []
  | fail _, _ => []
  | ask query next, world =>
      let (after, answer) := world.answer scope query
      world.act scope (.asks query answer) :: (next answer).acts scope after
  | sleep seconds _ _, world => [world.act scope (.pauses seconds)]
  | await event _ next, world =>
      world.act scope (.awaits event) ::
        if world.happened.contains event then (next ()).acts scope world else []
  | prepare index next, world =>
      match (world.strand? scope.strand).bind fun strand => strand.invocations[index]? with
      | none => []
      | some invocation =>
          match invocation.command.initializer with
          | none => world.act scope (.prepares index none) :: (next none).acts scope world
          | some initializer =>
              let inner := { scope with step := some index, cell := none }
              let (after, result) := initializer.run inner world
              initializer.acts inner world ++
                match result with
                | .ok _ =>
                    let after := after.note scope (.prepared index none)
                    after.act scope (.prepares index none) :: (next none).acts scope after
                | .error fault =>
                    let after := after.note scope (.prepared index (some fault))
                    after.act scope (.prepares index (some fault)) ::
                      if fault.isCancellation then [] else (next (some fault)).acts scope after
  | execute index next, world =>
      match (world.strand? scope.strand).bind fun strand => strand.invocations[index]? with
      | none => []
      | some invocation =>
          let inner := { scope with step := some index }
          let number := world.cellCount scope.strand
          let (after, begun) := world.begin inner invocation.command invocation.arguments
          world.act scope (.executes number index invocation.command invocation.arguments) ::
            world.actsOfBegin inner invocation.command invocation.arguments ++
              match begun with
              | .complete outcome =>
                  after.act scope (.gets number outcome) :: (next outcome).acts scope after
              | _ => []
  | invoke name given next, world =>
      match world.surroundings.registry.lookup name, given.toArguments with
      | .ok command, .ok arguments =>
          let number := world.cellCount scope.strand
          let (after, begun) := world.begin scope command arguments
          world.act scope (.invokes number command arguments) ::
            world.actsOfBegin scope command arguments ++
              match begun with
              | .complete outcome =>
                  after.act scope (.gets number outcome) :: (next outcome).acts scope after
              | _ => []
      | _, _ => []

namespace World

/-- The acts with which a wait that was cancelled ends. -/
def actsOfUnwind (scope : Scope) (waiting : Waiting β) (world : World α) : List Act :=
  match waiting with
  | .turn notice _ | .timer notice _ | .event _ notice _ =>
      (notice.map fun item => world.act scope (.leaves item)).toList
  | .cell _ _ => []

/-- The acts with which a thread goes on after its wait. -/
def actsOfResumed (scope : Scope) (waiting : Waiting β) (world : World α) : List Act :=
  match waiting with
  | .turn _ _ | .timer _ _ | .event _ _ _ => []
  | .cell number _ =>
      ((world.outcome? scope.strand number).map fun outcome =>
        world.act scope (.gets number outcome)).toList

def actsOfTurn (scope : Scope) (waiting : Waiting β) (isCancelled : Bool) (world : World α) :
    List Act :=
  if isCancelled then world.actsOfUnwind scope waiting
  else
    let (after, routine) := world.resumed scope waiting
    world.actsOfResumed scope waiting ++ routine.acts scope after

/-- The acts of a thread that is given its turn. -/
def actsOfResume (strand : Nat) (id : ThreadId) (world : World α) : List Act :=
  match world.strand? strand, id with
  | none, _ => []
  | some current, .root =>
      match current.root.due? with
      | none => []
      | some (waiting, isCancelled) =>
          (world.modifyThread strand id Thread.begin).actsOfTurn
            ⟨strand, id, current.root.step, current.root.cell⟩ waiting isCancelled
  | some current, .child number =>
      match current.children[number]?.bind fun thread => thread.due?.map fun due => (thread, due) with
      | none => []
      | some (thread, waiting, isCancelled) =>
          (world.modifyThread strand id Thread.begin).actsOfTurn
            ⟨strand, id, thread.step, thread.cell⟩ waiting isCancelled

/-- The acts of a job. Only a thread at its turn runs code. -/
def actsOfJob (job : Job) (world : World α) : List Act :=
  match job with
  | .resume strand thread => world.actsOfResume strand thread
  | _ => []

/-- What it comes to that a thread is given its turn. Nothing happens if its turn has not come;
otherwise the thread has its turn in its own scope, and its new state is stored. -/
inductive Resumes (strand : Nat) (world : World α) : ThreadId → List Act → World α → Prop
  | idle (id : ThreadId) : Resumes strand world id [] world
  | root (current : Strand α) (waiting : Waiting α) (isCancelled : Bool) (after : World α)
      (status : ThreadStatus α) (found : world.strand? strand = some current)
      (due : current.root.due? = some (waiting, isCancelled))
      (turn : (world.modifyThread strand .root Thread.begin).turn
        ⟨strand, .root, current.root.step, current.root.cell⟩ waiting isCancelled =
          (after, status)) :
      Resumes strand world .root
        ((world.modifyThread strand .root Thread.begin).actsOfTurn
          ⟨strand, .root, current.root.step, current.root.cell⟩ waiting isCancelled)
        ((after.setRoot strand status).close (.announce strand) status)
  | child (current : Strand α) (number : Nat) (thread : Thread Value) (waiting : Waiting Value)
      (isCancelled : Bool) (after : World α) (status : ThreadStatus Value)
      (found : world.strand? strand = some current)
      (child : current.children[number]? = some thread)
      (due : thread.due? = some (waiting, isCancelled))
      (turn : (world.modifyThread strand (.child number) Thread.begin).turn
        ⟨strand, .child number, thread.step, thread.cell⟩ waiting isCancelled = (after, status)) :
      Resumes strand world (.child number)
        ((world.modifyThread strand (.child number) Thread.begin).actsOfTurn
          ⟨strand, .child number, thread.step, thread.cell⟩ waiting isCancelled)
        ((after.setChild strand number status).close (.deliver strand number) status)

theorem resumes (strand : Nat) (id : ThreadId) (world : World α) :
    Resumes strand world id (world.actsOfResume strand id) (world.resume strand id) := by
  cases hstrand : world.strand? strand with
  | none =>
      simp only [resume, actsOfResume, hstrand]
      exact .idle id
  | some current =>
      cases id with
      | root =>
          cases hdue : current.root.due? with
          | none =>
              simp only [resume, actsOfResume, hstrand, hdue]
              exact .idle .root
          | some due =>
              obtain ⟨waiting, isCancelled⟩ := due
              simp only [resume, actsOfResume, hstrand, hdue]
              exact .root current waiting isCancelled _ _ hstrand hdue rfl
      | child number =>
          cases hchild : current.children[number]? with
          | none =>
              simp only [resume, actsOfResume, hstrand, hchild, Option.bind_none]
              exact .idle (.child number)
          | some thread =>
              cases hdue : thread.due? with
              | none =>
                  simp only [resume, actsOfResume, hstrand, hchild, hdue, Option.bind_some,
                    Option.map_none]
                  exact .idle (.child number)
              | some due =>
                  obtain ⟨waiting, isCancelled⟩ := due
                  simp only [resume, actsOfResume, hstrand, hchild, hdue, Option.bind_some,
                    Option.map_some]
                  exact .child current number thread waiting isCancelled _ _ hstrand hchild hdue rfl

/-- One step of a run with its acts. Which step comes next is left open: any job of the queue may be
done, and any chain may be cancelled. -/
inductive Does (world : World α) : List Act → World α → Prop
  | perform (before after : List Job) (job : Job) (h : world.queue = before ++ job :: after) :
      Does world ({ world with queue := before ++ after }.actsOfJob job)
        ({ world with queue := before ++ after }.perform job)
  | advance (next : World α) (h : world.advance? = some next) : Does world [] next
  | cancel (strand : Nat) : Does world [] (world.cancel strand .root)
  | print (item : Item) : Does world [] (world.write ⟨none, none, none, .item item⟩)
  | notify : Does world [] (world.enqueue .supervise)

/-- Any number of steps with all their acts, in the order of time. -/
inductive Course (first : World α) : List Act → World α → Prop
  | start : Course first [] first
  | step {acts more : List Act} {world next : World α} (h : Course first acts world)
      (does : world.Does more next) : Course first (acts ++ more) next

variable {first middle last world next : World α} {acts more : List Act}

theorem Does.step (h : world.Does acts next) : world.Step next := by
  cases h with
  | perform before after job hqueue => exact .perform before after job hqueue
  | advance _ hnext => exact .advance _ hnext
  | cancel strand => exact .cancel strand .root
  | print item => exact .print item
  | notify => exact .notify

theorem Course.reaches (h : Course first acts last) : first.Reaches last := by
  induction h with
  | start => exact .refl
  | step _ does ih => exact .tail ih does.step

theorem Course.single (h : first.Does acts next) : Course first acts next := by
  simpa using Course.step .start h

theorem Course.trans (h : Course first acts middle) (k : Course middle more last) :
    Course first (acts ++ more) last := by
  induction k with
  | start => simpa using h
  | step _ does ih =>
      rw [← List.append_assoc]
      exact ih.step does

theorem Does.of_takeJob? {rest : World α} {job : Job} (h : world.takeJob? = some (job, rest)) :
    world.Does (rest.actsOfJob job) (rest.perform job) := by
  cases hqueue : world.queue with
  | nil => simp [takeJob?, hqueue] at h
  | cons other others =>
      simp only [takeJob?, hqueue, Option.some.injEq, Prod.mk.injEq] at h
      obtain ⟨rfl, rfl⟩ := h
      exact .perform [] others other (by simp [hqueue])

end World

namespace Batch

open World

theorem course_writeLines (lines : List Line) (world : World ChainResult) :
    Course world [] (writeLines lines world) := by
  induction lines generalizing world with
  | nil => exact .start
  | cons line rest ih => exact (Course.single (.print (.line line))).trans (ih _)

theorem course_abandon (strands : List Nat) (world : World ChainResult) :
    Course world [] (abandon strands world) := by
  induction strands generalizing world with
  | nil => exact .start
  | cons strand rest ih => exact (Course.single (.cancel strand)).trans (ih _)

theorem course_supervise (batch : Batch) (pending : List Nat) :
    Course batch.world [] (batch.supervise pending).world := by
  simp only [supervise]
  split
  · exact course_abandon ..
  · split
    · exact (course_abandon ..).trans (course_writeLines ..)
    · split
      · exact course_writeLines ..
      · exact .start
  · split
    · exact course_writeLines ..
    · exact .start

/-- The acts of the next step of a batch. -/
def actsOfStep (batch : Batch) : List Act :=
  match batch.world.takeJob? with
  | some (job, world) => world.actsOfJob job
  | none => []

/-- The acts of a batch until no step is left, or the fuel is used up. -/
def acts : Nat → Batch → List Act
  | 0, _ => []
  | fuel + 1, batch =>
      match batch.step? with
      | some next => batch.actsOfStep ++ acts fuel next
      | none => []

theorem course_step? {batch next : Batch} (h : batch.step? = some next) :
    Course batch.world batch.actsOfStep next.world := by
  cases htake : batch.world.takeJob? with
  | some taken =>
      obtain ⟨job, rest⟩ := taken
      have hdone := Course.single (Does.of_takeJob? htake)
      simp only [step?, htake, Option.some.injEq] at h
      simp only [actsOfStep, htake]
      subst h
      rw [Batch.perform.eq_def]
      split
      · split
        · exact List.append_nil (rest.actsOfJob _) ▸ hdone.step .notify
        · exact hdone
      · exact List.append_nil (rest.actsOfJob _) ▸
          hdone.trans (course_supervise { batch with world := rest } _)
      · exact hdone
  | none =>
      simp only [step?, htake] at h
      simp only [actsOfStep, htake]
      split at h
      · split at h
        · rename_i world hadvance
          obtain rfl := Option.some.inj h
          exact .single (.advance world hadvance)
        · obtain rfl := Option.some.inj h
          exact course_abandon ..
      · cases h

/-- A batch takes one of the courses that its run can take. -/
theorem course_settle (fuel : Nat) (batch : Batch) :
    Course batch.world (batch.acts fuel) (batch.settle fuel).world := by
  induction fuel generalizing batch with
  | zero => exact .start
  | succ fuel ih =>
      cases hstep : batch.step? with
      | none =>
          simp only [settle, acts, hstep]
          exact .start
      | some next =>
          simp only [settle, acts, hstep]
          exact (course_step? hstep).trans (ih next)

end Batch

end Cascade
