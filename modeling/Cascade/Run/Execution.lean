import Cascade.Run.World

/-!
Executing commands, and running a thread until it waits or ends.

An execution takes the first outcome that reaches its cell: an answer of the call itself, a completion
by the code, or the end of what the call gave to wait for. Something to wait for is not looked at when
the execution was already complete at the end of the call.
-/

namespace Cascade

/-- The failure of a command that does not take the kind of its arguments. -/
def refusal (command : CommandInfo) (kind : ArgumentKind) : Fault :=
  let accepted := command.acceptedNames
  .because .type (command.name ++ " does not take " ++ kind.name ++ " arguments (accepts: " ++
    (if accepted.isEmpty then "nothing" else joined ", " accepted) ++ ")")

/-- The outcome of an execution that ends with the end of a thread. A thread that was cancelled makes
it fail. -/
def outcomeOf (command : String) (result : Except Fault Value) : Outcome :=
  match result with
  | .ok value => .success command value
  | .error fault =>
      if fault.isCancellation then
        .failure command (.because .cancelled (command ++ " was cancelled"))
      else .failure command fault

/-- How an execution stands at the end of its call: complete, to be waited for, or given up because
the call itself was cancelled. -/
inductive Begun
  | complete (outcome : Outcome)
  | waits (number : Nat)
  | cancelled (fault : Fault)

namespace Action

variable {α β : Type}

def run (scope : Scope) : Action β → World α → World α × Except Fault β
  | finish value, world => (world, .ok value)
  | fail fault, world => (world, .error fault)
  | ask query next, world =>
      let (world, answer) := world.answer scope query
      (next answer).run scope world

end Action

namespace World

variable {α : Type}

/-- Adds an event of an execution to the record that is the doing of the code of a scope. -/
def noteExecution (scope : Scope) (number : Nat) (command : Command) (happening : Happening)
    (world : World α) : World α :=
  world.note scope (.execution number command happening)

/-- The number of a strand's threads besides that of the chain. -/
def childCount (world : World α) (strand : Nat) : Nat :=
  ((world.strand? strand).map fun strand => strand.children.length).getD 0

/-- The number of a strand's executions. -/
def cellCount (world : World α) (strand : Nat) : Nat :=
  ((world.strand? strand).map fun strand => strand.cells.length).getD 0

/-- Starts a thread for what a call gave to wait for. -/
def spawn (scope : Scope) (cell : Nat) (delivers : Bool) (body : Routine Value) (world : World α) :
    World α :=
  let number := world.childCount scope.strand
  (world.modifyStrand scope.strand fun strand =>
    { strand with
        children := strand.children ++ [Thread.start scope.step (some cell) delivers body] }).enqueue
    (.resume scope.strand (.child number))

/-- Starts a thread whose end is that of an execution. -/
def adopt (scope : Scope) (cell : Nat) (body : Routine Value) (world : World α) : World α :=
  let number := world.childCount scope.strand
  (world.spawn scope cell true body).modifyCell scope.strand cell fun cell =>
    { cell with child := some number }

def outcome? (world : World α) (strand cell : Nat) : Option Outcome :=
  (world.cell? strand cell).bind fun cell =>
    match cell.state with
    | .settled outcome => some outcome
    | _ => none

/-- How an execution stands, by its cell. -/
def standing (world : World α) (strand cell : Nat) : Begun :=
  match world.outcome? strand cell with
  | some outcome => .complete outcome
  | none => .waits cell

/-- Takes the answer of a call that did not fail. -/
def takeReply (scope : Scope) (command : Command) (cell : Nat) (reply : Reply) (world : World α) :
    World α :=
  match reply, world.outcome? scope.strand cell with
  | .awaitable started body, some _ =>
      let world := world.tell scope.strand cell command (.promised started)
      if started then world.spawn scope cell false body else world
  | .awaitable started body, none =>
      (world.tell scope.strand cell command (.promised started)).adopt scope cell body
  | .value value, some _ => world.tell scope.strand cell command (.returned value)
  | .value value, none =>
      if command.convention = .callback then
        world.tell scope.strand cell command (.returned value)
      else world.settle scope.strand cell (.returned value) (.success command.name value)

/-- Adds a cell for an execution that the code of a scope asks for. -/
def openCell (scope : Scope) (command : Command) (state : CellState) (world : World α) : World α :=
  world.modifyStrand scope.strand fun strand =>
    { strand with cells := strand.cells ++ [⟨command, scope.thread, scope.step, state, none⟩] }

/-- Calls a command whose execution has a cell. -/
def call (scope : Scope) (number : Nat) (command : Command) (arguments : Arguments)
    (world : World α) : World α × Begun :=
  let (world, result) := (command.run arguments).run { scope with cell := some number } world
  match result with
  | .ok reply =>
      let world := world.takeReply scope command number reply
      (world, world.standing scope.strand number)
  | .error fault =>
      if fault.isCancellation then
        (world.tell scope.strand number command (.escaped fault), .cancelled fault)
      else
        let world :=
          world.settle scope.strand number (.raised fault) (.failure command.name fault)
        (world, world.standing scope.strand number)

/-- Opens a cell for the execution of a command and calls the command. Arguments of a kind that the
command does not take are refused without a call. -/
def enter (scope : Scope) (number : Nat) (command : Command) (arguments : Arguments)
    (world : World α) : World α × Begun :=
  if command.accepts arguments.kind then
    ((world.openCell scope command .pending).noteExecution scope number command
      (.called arguments)).call scope number command arguments
  else
    let outcome := Outcome.failure command.name (refusal command.info arguments.kind)
    ((world.openCell scope command (.settled outcome)).noteExecution scope number command
      (.refused arguments), .complete outcome)

/-- Begins the execution of a command in the step of a scope. An execution that is complete at the end
of its call gives the outcome to its caller at once. -/
def begin (scope : Scope) (command : Command) (arguments : Arguments) (world : World α) :
    World α × Begun :=
  let number := world.cellCount scope.strand
  let (world, begun) := world.enter scope number command arguments
  match begun with
  | .complete outcome =>
      (world.noteExecution scope number command (.yielded outcome), .complete outcome)
  | begun => (world, begun)

end World

/-- How far a thread got: to its end, or to a wait. -/
inductive Suspension (β : Type)
  | ended (result : Except Fault β)
  | waits (waiting : Waiting β) (wake : Wake)

namespace Routine

variable {α β : Type}

/-- The failure to find a step of the chain. -/
def noStep : Fault :=
  .because .index "no such step"

/-- Runs a routine in a scope until it waits or ends. -/
def run (scope : Scope) : Routine β → World α → World α × Suspension β
  | finish value, world => (world, .ended (.ok value))
  | fail fault, world => (world, .ended (.error fault))
  | ask query next, world =>
      let (world, answer) := world.answer scope query
      (next answer).run scope world
  | sleep seconds notice next, world =>
      if seconds.isAtMostZero then
        (world.enqueue (.resume scope.strand scope.thread), .waits (.turn notice next) .woken)
      else if seconds.isPositive then
        (world.schedule scope.strand seconds (.wake scope.thread),
          .waits (.timer notice next) .asleep)
      else
        (world.enqueue (.fire scope.strand (.wake scope.thread)),
          .waits (.timer notice next) .asleep)
  | await event notice next, world =>
      if world.happened.contains event then (next ()).run scope world
      else
        ({ world with waiters := world.waiters ++ [(event, scope.strand, scope.thread)] },
          .waits (.event event notice next) .asleep)
  | prepare index next, world =>
      match (world.strand? scope.strand).bind fun strand => strand.invocations[index]? with
      | none => (world, .ended (.error noStep))
      | some invocation =>
          match invocation.command.initializer with
          | none => (next none).run scope world
          | some initializer =>
              let (world, result) :=
                initializer.run { scope with step := some index, cell := none } world
              match result with
              | .ok _ => (next none).run scope (world.note scope (.prepared index none))
              | .error fault =>
                  let world := world.note scope (.prepared index (some fault))
                  if fault.isCancellation then (world, .ended (.error fault))
                  else (next (some fault)).run scope world
  | execute index next, world =>
      match (world.strand? scope.strand).bind fun strand => strand.invocations[index]? with
      | none => (world, .ended (.error noStep))
      | some invocation =>
          let (world, begun) := world.begin { scope with step := some index } invocation.command
            invocation.arguments
          match begun with
          | .cancelled fault => (world, .ended (.error fault))
          | .complete outcome => (next outcome).run scope world
          | .waits number => (world, .waits (.cell number next) .asleep)
  | invoke name given next, world =>
      match world.surroundings.registry.lookup name, given.toArguments with
      | .error fault, _ => (world, .ended (.error fault))
      | .ok _, .error fault => (world, .ended (.error fault))
      | .ok command, .ok arguments =>
          let (world, begun) := world.begin scope command arguments
          match begun with
          | .cancelled fault => (world, .ended (.error fault))
          | .complete outcome => (next outcome).run scope world
          | .waits number => (world, .waits (.cell number next) .asleep)

end Routine

end Cascade
