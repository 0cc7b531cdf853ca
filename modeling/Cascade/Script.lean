import Cascade.Command.Basic

/-!
Scripted commands: commands whose code is a list of instructions. An instruction is done at once, or it
waits; a plain script cannot hold one that waits.
-/

namespace Cascade.Script

/-- The failure to find a current step. -/
def noCurrentStep : Fault :=
  .because .lookup "no chain step is running"

/-- An instruction that is done at once. -/
inductive Immediate
  | trace (content : Value)
  | traceArguments
  | traceStep
  | traceTime
  | say (role : Role) (content : Value)
  | signal (event : String)
  | complete (result : Except Fault Value)
  | completeLater (delay : Binary64) (result : Except Fault Value)
  | raise (fault : Fault)
  | raiseAfter (calls : Int) (fault : Fault)
  | setState (name : String) (content : Value)
  | answer (result : Value)
  | answerArguments
  | answerCalls
  | answerState (name : String)

/-- An instruction of a script. -/
inductive Instruction
  | immediate (instruction : Immediate)
  | sleep (seconds : Binary64)
  | await (event : String)
  | call (name : String) (given : GivenArguments)

/-- The result that a completion means: a failure, or a true value in its place, is the failure, and
anything else leaves the value. -/
def completion (failure : Except Fault Value) (value : Value) : Except Fault Value :=
  match failure with
  | .error fault => .error fault
  | .ok error => if error.isTrue then .error (.because .execution error.toText) else .ok value

/-- What a script works with: the name of its command and the parameters of the call. -/
structure Frame where
  command : String
  parameters : List Value

/-- The value of an entry of a step's state; a reference to a step has none. -/
def entryValue : Option StateEntry → Value
  | some (.value content) => content
  | _ => .null

/-- Does an instruction. Gives the answer of the script if the instruction ends it. -/
def perform (frame : Frame) : Immediate → Action (Option Value)
  | .trace content => do
      Action.emit (.mark (.trace content))
      return none
  | .traceArguments => do
      Action.emit (.mark (.arguments frame.parameters))
      return none
  | .traceStep => .ask .step fun view => do
      Action.emit (.mark (.step view))
      return none
  | .traceTime => .ask .now fun seconds => do
      Action.emit (.mark (.time seconds))
      return none
  | .say role content => do
      Action.emit (.printed role content.toText)
      return none
  | .signal event => .ask (.signal event) fun _ => .finish none
  | .complete result => .ask (.complete result) fun _ => .finish none
  | .completeLater delay result => .ask (.completeLater delay result) fun _ => .finish none
  | .raise fault => .fail fault
  | .raiseAfter calls fault => .ask (.callCount frame.command) fun count =>
      if calls < count then .fail fault else .finish none
  | .setState name content => .ask (.setState name (.value content)) fun known =>
      if known then .finish none else .fail noCurrentStep
  | .answer result => .finish (some result)
  | .answerArguments => .finish (some (.list frame.parameters))
  | .answerCalls => .ask (.callCount frame.command) fun count => .finish (some (.integer count))
  | .answerState name => .ask .step fun view =>
      match view with
      | some view => .finish (some (entryValue (view.state.get? name)))
      | none => .fail noCurrentStep

/-- The failure of a plain script that would have to wait. -/
def cannotWait : Fault :=
  .because .execution "a plain script cannot wait"

/-- A script without waiting instructions as an action. -/
def toAction (frame : Frame) : List Instruction → Action Value
  | [] => .finish .null
  | .immediate instruction :: rest => do
      match ← perform frame instruction with
      | some answer => return answer
      | none => toAction frame rest
  | _ :: _ => .fail cannotWait

def toRoutine (frame : Frame) : List Instruction → Routine Value
  | [] => .finish .null
  | .immediate instruction :: rest => do
      match ← Routine.ofAction (perform frame instruction) with
      | some answer => return answer
      | none => toRoutine frame rest
  | .sleep seconds :: rest =>
      .sleep seconds (some (.mark (.cancelled frame.command))) fun _ => toRoutine frame rest
  | .await event :: rest =>
      .await event (some (.mark (.cancelled frame.command))) fun _ => toRoutine frame rest
  | .call name given :: rest => .invoke name given fun outcome => do
      let result ← Routine.ofExcept outcome.unwrap
      Routine.ofAction (Action.emit (.mark (.called result)))
      toRoutine frame rest

/-- How a scripted command is called: it runs at once, it only waits, or it runs at once and gives
something to wait for, started or not. -/
inductive Style
  | plain
  | waiting
  | awaitable (started : Bool)

/-- The code of a scripted command. -/
structure Body where
  style : Style
  first : List Instruction
  later : List Instruction

def countCall (name : String) : Action Unit :=
  .ask (.countCall name) fun _ => .finish ()

/-- The code of a scripted command of a name. Every call is counted before anything else. -/
def Body.code (name : String) (body : Body) : CommandCode where
  waits :=
    match body.style with
    | .waiting => true
    | _ => false
  run arguments :=
    let frame : Frame := ⟨name, arguments.parameters⟩
    match body.style with
    | .plain => do
        countCall name
        return .value (← toAction frame body.first)
    | .waiting =>
        return .awaitable false (do
          Routine.ofAction (countCall name)
          toRoutine frame body.first)
    | .awaitable started => do
        countCall name
        let _ ← toAction frame body.first
        return .awaitable started (toRoutine frame body.later)

/-- An instruction of a scripted initializer. -/
inductive Preparation
  | traceContext
  | trace (content : Value)
  | say (role : Role) (content : Value)
  | setState (name : String) (content : Value)
  | raise (fault : Fault)

/-- Does an instruction of an initializer, in the step that is prepared. -/
def prepareOne : Preparation → Action Unit
  | .traceContext => .ask .step fun view =>
      match view with
      | some view => Action.emit (.mark (.context view))
      | none => .fail noCurrentStep
  | .trace content => Action.emit (.mark (.trace content))
  | .say role content => Action.emit (.printed role content.toText)
  | .setState name content => .ask (.setState name (.value content)) fun known =>
      if known then .finish () else .fail noCurrentStep
  | .raise fault => .fail fault

def initializer : List Preparation → Action Unit
  | [] => .finish ()
  | preparation :: rest => do
      prepareOne preparation
      initializer rest

end Cascade.Script
