import Cascade.Invocation
import Cascade.Report.Chain

/-!
Chains: the program that runs the elements of one token in order. All elements are read first, then
every initializer is run, and then the elements are executed up to the first failure.
-/

namespace Cascade

/-- What a chain came to. -/
structure ChainResult where
  label : String
  invocations : List Invocation
  outcome : Option Outcome
  failure : Option Fault
  elapsed : Binary64

def ChainResult.isSuccess (result : ChainResult) : Bool :=
  result.failure.isNone

/-- A chain before its run: its elements and what reading them gave. -/
structure Chain where
  text : String
  elements : List String
  reading : Except Fault (List Invocation)

namespace Chain

def ofToken (registry : Registry) (token : String) : Chain :=
  let elements := cascadeElements token
  ⟨token, elements, Invocation.readAll registry elements⟩

/-- Whether a chain has several elements. -/
def isBatch (chain : Chain) : Bool :=
  1 < chain.elements.length

/-- The name of a chain in reports: the whole token for several elements, or the only element. -/
def label (chain : Chain) : String :=
  if chain.isBatch then trimmed chain.text else chain.elements.head?.getD ""

/-- The invocations of a chain, none when it cannot be read. -/
def invocations (chain : Chain) : List Invocation :=
  chain.reading.toOption.getD []

/-- Whether a chain is a single hidden command. -/
def isHidden (chain : Chain) : Bool :=
  !chain.isBatch && (chain.invocations.head?.map fun invocation => invocation.command.hidden).getD false

/-- The name under which the failure to read a call is recorded. -/
def recordName : Fault → String
  | .malformed _ name token | .unterminated token name _ | .unknownCommand name token =>
      if name.isEmpty then token else name
  | .emptyName token => token
  | _ => ""

def emitLines (lines : List Line) : Routine Unit :=
  Routine.ofAction (Action.emitAll (lines.map Item.line))

/-- Ends a chain: gives its result after the banner and the time. -/
def finish (chain : Chain) (start : Binary64) (invocations : List Invocation)
    (outcome : Option Outcome) (failure : Option Fault) (hidden : Bool) : Routine ChainResult :=
  .ask .now fun now => do
    let elapsed := now.sub start
    emitLines (Report.summary chain.label (failure.map Fault.underlying) elapsed hidden)
    return ⟨chain.label, invocations, outcome, failure, elapsed⟩

/-- Runs the initializers of the steps with the given indexes, up to the first that fails. -/
def prepareSteps : List Nat → Routine (Option (Nat × Fault))
  | [] => .finish none
  | index :: rest => .prepare index fun failure =>
      match failure with
      | none => prepareSteps rest
      | some fault => .finish (some (index, fault))

/-- Executes the steps with the given indexes, up to the first that fails. Gives the last outcome. -/
def executeSteps (last : Option Outcome) : List Nat → Routine (Option Outcome)
  | [] => .finish last
  | index :: rest => .execute index fun outcome =>
      if outcome.isSuccess then executeSteps (some outcome) rest else .finish (some outcome)

/-- Ends a chain of which an initializer failed. -/
def reject (chain : Chain) (start : Binary64) (invocations : List Invocation) (index : Nat)
    (cause : Fault) : Routine ChainResult := do
  let name := (invocations[index]?.map Invocation.name).getD ""
  let failure := Fault.initialization name cause
  emitLines [Line.of .error failure.message]
  Routine.ofAction (Action.query (.record name cause.message))
  chain.finish start invocations none (some failure) chain.isHidden

def conclude (chain : Chain) (start : Binary64) (invocations : List Invocation)
    (last : Option Outcome) : Routine ChainResult := do
  match last.bind fun outcome => outcome.fault?.map fun fault => (outcome, fault) with
  | none => chain.finish start invocations last none chain.isHidden
  | some (outcome, fault) =>
      Routine.ofAction (Action.query (.record outcome.command fault.message))
      chain.finish start invocations last (some (fault.ofCommand outcome.command)) chain.isHidden

/-- The initializers and the steps of a chain that could be read. -/
def runSteps (chain : Chain) (start : Binary64) (invocations : List Invocation) :
    Routine ChainResult := do
  let indexes := List.range invocations.length
  match ← prepareSteps indexes with
  | some (index, cause) => chain.reject start invocations index cause
  | none => chain.conclude start invocations (← executeSteps none indexes)

/-- The title of a chain of one command, unless the command is hidden. -/
def title (chain : Chain) (invocations : List Invocation) : List Line :=
  match invocations with
  | [invocation] =>
      if chain.isBatch || chain.isHidden then []
      else [Report.commandTitle invocation.name invocation.command.help]
  | _ => []

def routine (chain : Chain) : Routine ChainResult :=
  .ask .now fun start => do
    emitLines (if chain.isBatch then [Report.batchTitle chain.label] else [])
    match chain.reading with
    | .error fault =>
        emitLines [Line.of .error fault.message]
        Routine.ofAction (Action.query (.record (recordName fault) fault.message))
        chain.finish start [] none (some fault) false
    | .ok invocations =>
        emitLines (chain.title invocations)
        chain.runSteps start invocations

end Chain

end Cascade
