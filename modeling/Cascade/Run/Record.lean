import Cascade.Command.Basic
import Cascade.Outcome
import Cascade.Report.Chain

/-!
The record of a run: everything that happens, with the code whose doing it is. What is printed and
logged is the part of the record that is shown.
-/

namespace Cascade

/-- A thread of a strand: that of the chain, or one that an execution started. -/
inductive ThreadId
  | root
  | child (number : Nat)
  deriving DecidableEq

/-- Something that happens to one execution of a command. -/
inductive Happening
  /-- The code of the command is called. -/
  | called (arguments : Arguments)
  /-- Arguments of a kind that the command does not take are refused. -/
  | refused (arguments : Arguments)
  /-- The code reports the end, during the call or later. -/
  | completed (result : Except Fault Value)
  /-- The call fails. -/
  | raised (fault : Fault)
  /-- The call ends by a cancellation, which goes on to the caller. -/
  | escaped (fault : Fault)
  /-- The call gives a value. -/
  | returned (value : Value)
  /-- The call gives something to wait for, which may have been started. -/
  | promised (started : Bool)
  /-- What the call gave to wait for ends. -/
  | ended (result : Except Fault Value)
  /-- The caller is cancelled while it waits for an outcome. -/
  | dropped
  /-- An outcome comes after the first one. -/
  | ignored (outcome : Outcome)
  /-- The caller gets the outcome. -/
  | yielded (outcome : Outcome)

/-- Something that happens in a run. -/
inductive Event
  /-- Code prints a line, logs a warning or leaves a mark. -/
  | item (content : Item)
  /-- The initializer of a step was run; it may have failed. -/
  | prepared (step : Nat) (failure : Option Fault)
  /-- Something happens to the execution of a number. -/
  | execution (number : Nat) (command : Command) (happening : Happening)
  /-- A message is added to the error log. -/
  | logged (command message : String)

/-- An event, the strand it happens in, and the thread and step of the code whose doing it is. The
supervisor has no strand, and what comes from outside all code has no thread. -/
structure Occurrence where
  strand : Option Nat
  thread : Option ThreadId
  step : Option Nat
  event : Event

namespace Report

/-- The warning about an outcome that comes after the first one. -/
def repeated (outcome : Outcome) : Item :=
  .warning ("Command '" ++ outcome.command ++ "' completed more than once; ignoring " ++
    (if outcome.isSuccess then "result" else "error"))

/-- The feedback on an outcome. The success of a hidden command is not reported, and a silent run
prints nothing. -/
def feedback (silent hidden : Bool) (outcome : Outcome) : List Item :=
  match outcome.result with
  | .ok _ => if hidden || silent then [] else [.line (succeeded outcome.command)]
  | .error fault =>
      .warning ("Command '" ++ outcome.command ++ "' failed: " ++ fault.message) ::
        if silent then [] else [.line (failed outcome.command fault)]

end Report

/-- The items that a happening to an execution shows: a warning about an outcome that is ignored, and
the feedback on the outcome that the caller gets. -/
def Happening.shown (silent hidden : Bool) : Happening → List Item
  | ignored outcome => [Report.repeated outcome]
  | yielded outcome => Report.feedback silent hidden outcome
  | _ => []

def Event.shown (silent : Bool) : Event → List Item
  | .item content => [content]
  | .execution _ command happening => happening.shown silent command.hidden
  | _ => []

/-- The items of a record in the order of time, with their strands. -/
def shownItems (silent : Bool) (record : List Occurrence) : List (Option Nat × Item) :=
  record.reverse.flatMap fun occurrence =>
    (occurrence.event.shown silent).map fun item => (occurrence.strand, item)

end Cascade
