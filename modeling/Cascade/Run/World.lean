import Cascade.ErrorLog
import Cascade.Invocation
import Cascade.Run.Record

/-!
The state of a run. Every chain has a strand: its invocations, the scratch states of its steps, the
thread of the chain itself, the threads of the commands that it waits for, and a cell for each
execution, which takes the first outcome. All strands share a clock, the timers, the events, the
record and one queue of jobs, which are done in the order of their arrival.
-/

namespace Cascade

/-- What a thread waits for, and how it goes on. -/
inductive Waiting (α : Type)
  | turn (notice : Option Item) (next : Unit → Routine α)
  | timer (notice : Option Item) (next : Unit → Routine α)
  | event (name : String) (notice : Option Item) (next : Unit → Routine α)
  | cell (number : Nat) (next : Outcome → Routine α)

def Waiting.cell? {α : Type} : Waiting α → Option Nat
  | cell number _ => some number
  | _ => none

/-- Whether a waiting thread is to be resumed: not yet, to go on, or to be cancelled. -/
inductive Wake
  | asleep
  | woken
  | cancelled
  deriving DecidableEq

/-- The state of a thread. -/
inductive ThreadStatus (α : Type)
  | running
  | waiting (waiting : Waiting α) (wake : Wake)
  | finished (result : Except Fault α)

/-- A thread: the step and the execution that its code belongs to, whether its end is that of the
execution, and its state. -/
structure Thread (α : Type) where
  step : Option Nat
  cell : Option Nat
  delivers : Bool
  status : ThreadStatus α

/-- The state of an execution. -/
inductive CellState
  | pending
  | settled (outcome : Outcome)
  | dropped

/-- An execution of a command: the thread that asked for it, the step it belongs to, its state, and the
thread it started. -/
structure Cell where
  command : Command
  caller : ThreadId
  step : Option Nat
  state : CellState
  child : Option Nat

/-- A chain in a run. -/
structure Strand (α : Type) where
  invocations : List Invocation
  states : List StepState
  root : Thread α
  children : List (Thread Value)
  cells : List Cell

/-- What happens when a timer is due. -/
inductive Goal
  | wake (thread : ThreadId)
  | complete (cell : Nat) (result : Except Fault Value)

/-- A piece of work that is ready to be done. -/
inductive Job
  | resume (strand : Nat) (thread : ThreadId)
  | fire (strand : Nat) (goal : Goal)
  | deliver (strand : Nat) (child : Nat)
  | announce (strand : Nat)
  | supervise

/-- A goal of a strand and the time at which it is due. -/
structure Timer where
  due : Binary64
  strand : Nat
  goal : Goal

/-- What does not change during a run. The error log is the one before the run. -/
structure Surroundings where
  registry : Registry
  showHidden : Bool
  program : String
  silent : Bool
  errors : ErrorLog

/-- The state of a run; the record holds the newest occurrence first. -/
structure World (α : Type) where
  surroundings : Surroundings
  clock : Binary64
  queue : List Job
  timers : List Timer
  strands : List (Strand α)
  happened : List String
  waiters : List (String × Nat × ThreadId)
  calls : Entries Nat
  record : List Occurrence

/-- Where code runs: its strand and thread, and the step and execution that it belongs to. -/
structure Scope where
  strand : Nat
  thread : ThreadId
  step : Option Nat
  cell : Option Nat

namespace Thread

variable {α : Type}

/-- A thread that starts at its next turn. -/
def start (step cell : Option Nat) (delivers : Bool) (routine : Routine α) : Thread α :=
  ⟨step, cell, delivers, .waiting (.turn none fun _ => routine) .woken⟩

/-- Whether a thread waits and nothing has woken it. -/
def isAsleep (thread : Thread α) : Bool :=
  match thread.status with
  | .waiting _ .asleep => true
  | _ => false

/-- The execution that a thread waits for. -/
def awaitedCell? (thread : Thread α) : Option Nat :=
  match thread.status with
  | .waiting waiting _ => waiting.cell?
  | _ => none

/-- Whether a thread is asleep and waits for the execution of a number, or for a moment or an event if
there is no number. -/
def sleepsOn (cell : Option Nat) (thread : Thread α) : Bool :=
  thread.isAsleep && thread.awaitedCell? == cell

def mark (wake : Wake) (thread : Thread α) : Thread α :=
  match thread.status with
  | .waiting waiting _ => { thread with status := .waiting waiting wake }
  | _ => thread

def begin (thread : Thread α) : Thread α :=
  { thread with status := .running }

/-- What a thread whose turn has come waited for, and whether it is cancelled. -/
def due? (thread : Thread α) : Option (Waiting α × Bool) :=
  match thread.status with
  | .waiting waiting .woken => some (waiting, false)
  | .waiting waiting .cancelled => some (waiting, true)
  | _ => none

/-- The end of a thread, if it has come. -/
def result? (thread : Thread α) : Option (Except Fault α) :=
  match thread.status with
  | .finished result => some result
  | _ => none

end Thread

namespace World

variable {α : Type}

def strand? (world : World α) (number : Nat) : Option (Strand α) :=
  world.strands[number]?

def modifyStrand (number : Nat) (change : Strand α → Strand α) (world : World α) : World α :=
  { world with strands := world.strands.modify number change }

/-- Adds a job at the end of the queue. -/
def enqueue (job : Job) (world : World α) : World α :=
  { world with queue := world.queue ++ [job] }

def write (occurrence : Occurrence) (world : World α) : World α :=
  { world with record := occurrence :: world.record }

/-- Adds an event to the record that is the doing of the code of a scope. -/
def note (scope : Scope) (event : Event) (world : World α) : World α :=
  world.write ⟨some scope.strand, some scope.thread, scope.step, event⟩

/-- The error log: what was in it before the run, and what was added. -/
def errors (world : World α) : ErrorLog :=
  world.record.foldr (fun occurrence log =>
    match occurrence.event with
    | .logged command message => log.add command message
    | _ => log) world.surroundings.errors

def shown (world : World α) : List (Option Nat × Item) :=
  shownItems world.surroundings.silent world.record

def modifyThread (strand : Nat) (thread : ThreadId) (change : {β : Type} → Thread β → Thread β)
    (world : World α) : World α :=
  world.modifyStrand strand fun strand =>
    match thread with
    | .root => { strand with root := change strand.root }
    | .child number => { strand with children := strand.children.modify number change }

/-- A property of one thread of a strand, with a default for a thread that does not exist. -/
def ofThread {γ : Type} (world : World α) (strand : Nat) (thread : ThreadId) (default : γ)
    (property : {β : Type} → Thread β → γ) : γ :=
  match world.strand? strand with
  | none => default
  | some strand =>
      match thread with
      | .root => property strand.root
      | .child number => (strand.children[number]?.map property).getD default

def cell? (world : World α) (strand number : Nat) : Option Cell :=
  (world.strand? strand).bind fun strand => strand.cells[number]?

def modifyCell (strand number : Nat) (change : Cell → Cell) (world : World α) : World α :=
  world.modifyStrand strand fun strand => { strand with cells := strand.cells.modify number change }

/-- Adds an event of an execution to the record that comes from outside all code. -/
def tell (strand number : Nat) (command : Command) (happening : Happening) (world : World α) :
    World α :=
  world.write ⟨some strand, none, none, .execution number command happening⟩

/-- Wakes a thread that is asleep and waits for the execution of a number, or for a moment or an event
if there is no number; its turn comes after the jobs that are ready. -/
def wake (strand : Nat) (thread : ThreadId) (cell : Option Nat) (world : World α) : World α :=
  if world.ofThread strand thread false (Thread.sleepsOn cell) then
    (world.modifyThread strand thread (Thread.mark .woken)).enqueue (.resume strand thread)
  else world

/-- Completes an execution, because of something that happened to it. The first outcome counts; a later
one is only logged, and after the waiting thread was cancelled not even that. -/
def settle (strand number : Nat) (happening : Happening) (outcome : Outcome) (world : World α) :
    World α :=
  match world.cell? strand number with
  | none => world
  | some cell =>
      let world := world.tell strand number cell.command happening
      match cell.state with
      | .dropped => world
      | .settled _ => world.tell strand number cell.command (.ignored outcome)
      | .pending =>
          (world.modifyCell strand number fun cell => { cell with state := .settled outcome }).wake
            strand cell.caller (some number)

/-- Completes an execution with a result that its code reports. -/
def complete (strand number : Nat) (result : Except Fault Value) (world : World α) : World α :=
  match world.cell? strand number with
  | none => world
  | some cell => world.settle strand number (.completed result) ⟨cell.command.name, result⟩

def schedule (strand : Nat) (delay : Binary64) (goal : Goal) (world : World α) : World α :=
  { world with timers := world.timers ++ [⟨world.clock.add delay, strand, goal⟩] }

/-- Lets an event happen and wakes the threads that wait for it, in the order in which they came. -/
def signal (event : String) (world : World α) : World α :=
  let (woken, others) := world.waiters.partition fun waiter => waiter.1 = event
  let world := { world with happened := event :: world.happened, waiters := others }
  woken.foldl (fun world waiter => world.wake waiter.2.1 waiter.2.2 none) world

def stepContext? (world : World α) (strand index : Nat) : Option StepContext := do
  let strand ← world.strand? strand
  let invocation ← strand.invocations[index]?
  return {
    index := index
    names := strand.invocations.map Invocation.name
    arguments := invocation.arguments
    state := (strand.states[index]?).getD []
    steps := strand.states }

/-- What the code of a scope sees of its step. -/
def stepView? (world : World α) (scope : Scope) : Option StepView := do
  let index ← scope.step
  let context ← world.stepContext? scope.strand index
  context.view.toOption

def menuView (world : World α) : MenuView where
  commands := world.surroundings.registry.infos
  showHidden := world.surroundings.showHidden
  program := world.surroundings.program

/-- Answers a question of the code of a scope. -/
def answer (scope : Scope) (world : World α) : (query : Query) → World α × query.Answer
  | .emit item => (world.note scope (.item item), ())
  | .now => (world, world.clock)
  | .complete result =>
      match scope.cell with
      | some number => (world.complete scope.strand number result, ())
      | none => (world, ())
  | .completeLater delay result =>
      match scope.cell with
      | some number =>
          if delay.isPositive then
            (world.schedule scope.strand delay (.complete number result), ())
          else (world.enqueue (.fire scope.strand (.complete number result)), ())
      | none => (world, ())
  | .signal event => (world.signal event, ())
  | .countCall name =>
      let count := (world.calls.get? name).getD 0 + 1
      ({ world with calls := world.calls.put name count }, count)
  | .callCount name => (world, (world.calls.get? name).getD 0)
  | .step => (world, world.stepView? scope)
  | .setState name entry =>
      match scope.step with
      | none => (world, false)
      | some index =>
          (world.modifyStrand scope.strand fun strand =>
            { strand with states := strand.states.modify index (Entries.put name entry) }, true)
  | .menu => (world, world.menuView)
  | .record command message => (world.note scope (.logged command message), ())

end World

end Cascade
