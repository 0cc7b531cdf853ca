import Cascade.Run.Execution

/-!
The jobs of a run: resuming threads, letting timers fire, delivering the ends of threads to their
executions, and moving the clock to the next timer when no job is left.
-/

namespace Cascade

namespace World

variable {α : Type}

/-- The cancellation of a thread by the one that waits for it. -/
def cancellation : Fault :=
  .raised .cancelled none

/-- Gives up an execution whose caller is cancelled. -/
def drop (strand number : Nat) (world : World α) : World α :=
  match world.cell? strand number with
  | none => world
  | some cell =>
      match cell.state with
      | .pending =>
          (world.tell strand number cell.command .dropped).modifyCell strand number fun cell =>
            { cell with state := .dropped }
      | _ => world

/-- Gives up the moments and events that a thread waits for. -/
def forget (strand : Nat) (thread : ThreadId) (world : World α) : World α :=
  { world with
    timers := world.timers.filter fun timer =>
      match timer.goal with
      | .wake other => !(timer.strand == strand && other = thread)
      | .complete _ _ => true
    waiters := world.waiters.filter fun waiter =>
      !(waiter.2.1 == strand && waiter.2.2 = thread) }

/-- Cancels a thread. What it waits for is given up at once, and the thread itself ends at its next
turn. -/
def cancel (strand : Nat) (thread : ThreadId) (world : World α) : World α :=
  if world.ofThread strand thread false Thread.isAsleep then
    let world :=
      match world.ofThread strand thread none Thread.awaitedCell? with
      | some cell => world.drop strand cell
      | none => world
    ((world.forget strand thread).modifyThread strand thread (Thread.mark .cancelled)).enqueue
      (.resume strand thread)
  else world.modifyThread strand thread (Thread.mark .cancelled)

/-- Leaves the notice of a wait that was cancelled. -/
def leave (scope : Scope) (notice : Option Item) (world : World α) : World α :=
  match notice with
  | some item => world.note scope (.item item)
  | none => world

/-- Ends a wait that was cancelled: leaves the notice, and cancels the thread that the awaited
execution had started. -/
def unwind {β : Type} (scope : Scope) (waiting : Waiting β) (world : World α) : World α :=
  match waiting with
  | .turn notice _ | .timer notice _ | .event _ notice _ => world.leave scope notice
  | .cell number _ =>
      match (world.cell? scope.strand number).bind Cell.child with
      | some child => world.cancel scope.strand (.child child)
      | none => world

/-- The rest of a routine after its wait. The outcome of an execution is reported before its thread
goes on. -/
def resumed {β : Type} (scope : Scope) (waiting : Waiting β) (world : World α) :
    World α × Routine β :=
  match waiting with
  | .turn _ next | .timer _ next | .event _ _ next => (world, next ())
  | .cell number next =>
      match world.cell? scope.strand number, world.outcome? scope.strand number with
      | some cell, some outcome =>
          (world.noteExecution { scope with step := cell.step } number cell.command
            (.yielded outcome), next outcome)
      | _, _ => (world, .fail cancellation)

/-- Gives a thread its turn after a wait, or ends it if it is cancelled. Gives its new state. -/
def turn {β : Type} (scope : Scope) (waiting : Waiting β) (isCancelled : Bool) (world : World α) :
    World α × ThreadStatus β :=
  if isCancelled then (world.unwind scope waiting, .finished (.error cancellation))
  else
    let (world, routine) := world.resumed scope waiting
    let (world, suspension) := routine.run scope world
    match suspension with
    | .ended result => (world, .finished result)
    | .waits waiting wake => (world, .waiting waiting wake)

/-- Stores the state of a strand's own thread. -/
def setRoot (strand : Nat) (status : ThreadStatus α) (world : World α) : World α :=
  world.modifyStrand strand fun strand =>
    { strand with root := { strand.root with status := status } }

/-- Stores the state of a thread that an execution started. -/
def setChild (strand number : Nat) (status : ThreadStatus Value) (world : World α) : World α :=
  world.modifyStrand strand fun strand =>
    { strand with
        children := strand.children.modify number fun child => { child with status := status } }

def close {β : Type} (job : Job) (status : ThreadStatus β) (world : World α) : World α :=
  match status with
  | .finished _ => world.enqueue job
  | _ => world

/-- Gives a thread its turn if it has come. The end of the thread is made known. -/
def resume (strand : Nat) (id : ThreadId) (world : World α) : World α :=
  match world.strand? strand, id with
  | none, _ => world
  | some current, .root =>
      match current.root.due? with
      | none => world
      | some (waiting, isCancelled) =>
          let (world, status) := (world.modifyThread strand id Thread.begin).turn
            ⟨strand, id, current.root.step, current.root.cell⟩ waiting isCancelled
          (world.setRoot strand status).close (.announce strand) status
  | some current, .child number =>
      match current.children[number]?.bind fun thread => thread.due?.map fun due => (thread, due) with
      | none => world
      | some (thread, waiting, isCancelled) =>
          let (world, status) := (world.modifyThread strand id Thread.begin).turn
            ⟨strand, id, thread.step, thread.cell⟩ waiting isCancelled
          (world.setChild strand number status).close (.deliver strand number) status

/-- Makes the end of a thread the outcome of the execution that started it. -/
def deliver (strand child : Nat) (world : World α) : World α :=
  match (world.strand? strand).bind fun strand => strand.children[child]? with
  | none => world
  | some thread =>
      match thread.delivers, thread.cell, thread.result? with
      | true, some number, some result =>
          match world.cell? strand number with
          | some cell =>
              world.settle strand number (.ended result) (outcomeOf cell.command.name result)
          | none => world
      | _, _, _ => world

def fire (strand : Nat) (goal : Goal) (world : World α) : World α :=
  match goal with
  | .wake thread => world.wake strand thread none
  | .complete cell result => world.complete strand cell result

def perform (job : Job) (world : World α) : World α :=
  match job with
  | .resume strand thread => world.resume strand thread
  | .fire strand goal => world.fire strand goal
  | .deliver strand child => world.deliver strand child
  | .announce _ | .supervise => world

/-- Takes the first job from the queue. -/
def takeJob? (world : World α) : Option (Job × World α) :=
  match world.queue with
  | [] => none
  | job :: rest => some (job, { world with queue := rest })

/-- The earliest time at which a timer is due; a timer at infinity never is. -/
def nextDue? (world : World α) : Option Binary64 :=
  world.timers.foldl (fun earliest timer =>
    match timer.due with
    | .finite _ _ =>
        match earliest with
        | none => some timer.due
        | some other => some (if timer.due.lt other then timer.due else other)
    | _ => earliest) none

/-- Moves the clock to the next timer and makes the timers that are due then ready. -/
def advance? (world : World α) : Option (World α) := do
  let due ← world.nextDue?
  let (ready, later) := world.timers.partition fun timer => timer.due = due
  return { world with
    clock := due
    timers := later
    queue := world.queue ++ ready.map fun timer => .fire timer.strand timer.goal }

/-- The state at the start of a run: every strand is ready to start, in order. -/
def start (surroundings : Surroundings) (calls : Entries Nat) (strands : List (Strand α)) :
    World α where
  surroundings := surroundings
  clock := .zero
  queue := (List.range strands.length).map fun strand => .resume strand .root
  timers := []
  strands := strands
  happened := []
  waiters := []
  calls := calls
  record := []

end World

def Strand.start {α : Type} (invocations : List Invocation) (routine : Routine α) : Strand α where
  invocations := invocations
  states := invocations.map fun _ => []
  root := Thread.start none none false routine
  children := []
  cells := []

end Cascade
