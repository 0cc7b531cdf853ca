import Cascade.Command.Signature
import Cascade.Number.Reading
import Cascade.Script

/-!
The built-in commands: a pause, the repetition of the step before, and help.
-/

namespace Cascade.Library.System

def say (role : Role) (text : String) : Action Unit :=
  Action.emit (.printed role text)

/-! ### Pause -/

def delaySignature : Signature := ⟨"setup.<locals>.delay", ["seconds"], 0⟩

def delayBody (seconds : String) : Routine Value := do
  Routine.ofAction (say .message ("delay " ++ seconds ++ " seconds..."))
  let pause ← Routine.ofExcept (binary64OfText seconds)
  .sleep pause none fun _ => .finish .null

def firstText (parameters : List Value) : String :=
  (parameters.head?.map Value.toText).getD ""

def delay : Draft :=
  { Draft.ofCode "delay" {
      waits := true
      run := fun arguments => do
        let parameters := arguments.parameters
        Action.ofExcept (delaySignature.check parameters.length)
        return .awaitable false (delayBody (firstText parameters)) } with
    help := "delay cmd execution, delay(seconds)"
    accepts := some fun kind => kind = .positional }

/-! ### Repetition -/

def repeatName : String := "repeat"

/-- The name under which a repetition keeps the step that it repeats. -/
def previousName : String := "previous"

def repeatSignature : Signature := ⟨"setup.<locals>.repeat", ["count"], 1⟩

def checkCount : Arguments → Except Fault Unit
  | .positional (count :: _) =>
      match Decimal.readInt? count.toList with
      | none => .error (.because .value ("repeat's count must be an integer: " ++ quoted count))
      | some number =>
          if number < 1 then .error (.because .value "repeat's count must be >= 1") else .ok ()
  | _ => .error (.because .value "usage: repeat(count, [interval=0])")

/-- Prepares a repetition: notes the step before. A repetition cannot be repeated, and at the beginning
of a chain there is nothing to repeat. -/
def prepareRepeat : Action Unit :=
  .ask .step fun view =>
    match view with
    | none => .fail Script.noCurrentStep
    | some view => do
        Action.ofExcept (checkCount view.arguments)
        match view.previous with
        | none => say .warning "no previous cmd, repeat ignored."
        | some name =>
            if name = repeatName then
              .fail (.because .value "repeat cannot repeat another repeat")
            else .finish ()
        let entry :=
          match view.previousStep with
          | some (index, _) => StateEntry.step index
          | none => .value .null
        .ask (.setState previousName entry) fun _ => .finish ()

/-- Executes a step a number of times, after a pause each time if the pause is positive. -/
def rerun (index : Nat) (pause : Binary64) : Nat → Routine Unit
  | 0 => .finish ()
  | remaining + 1 =>
      let again : Routine Unit := .execute index fun outcome =>
        match outcome.unwrap with
        | .ok _ => rerun index pause remaining
        | .error fault => .fail fault
      if pause.isPositive then .sleep pause none fun _ => again else again

/-- Executes the step before again until it has run as often as the count says. The chain itself has
run it once. -/
def repeatBody (count interval : String) : Routine Value :=
  .ask .step fun view =>
    match (view.bind fun view => view.state.get? previousName) with
    | none | some (.value .null) => .finish (.integer 0)
    | some (.value other) => .fail (.because .attribute
        ("'" ++ other.kindName ++ "' object has no attribute 'invocation'"))
    | some (.step index) => do
        let pause ← Routine.ofExcept (binary64OfText interval)
        let total ← Routine.ofExcept (integerOfText count)
        let remaining := total - 1
        rerun index pause remaining.toNat
        return .integer remaining

def repetition : Draft :=
  { Draft.ofCode repeatName {
      waits := true
      run := fun arguments => do
        let parameters := arguments.parameters
        Action.ofExcept (repeatSignature.check parameters.length)
        let interval := ((parameters.drop 1).head?.map Value.toText).getD "0"
        return .awaitable false (repeatBody (firstText parameters) interval) } with
    help := "repeat cmd execution, repeat(count, [interval=0])"
    accepts := some fun kind => kind = .positional
    initializer := some prepareRepeat }

/-! ### Help -/

def helpSignature : Signature := ⟨"setup.<locals>.help_", [], 1⟩

def askedGroup (parameters : List Value) : Value :=
  match parameters with
  | .map entries :: _ => (Entries.get? entries "group").getD .null
  | group :: _ => group
  | [] => .null

/-- The lines of help: the menu when no group is asked for, or the section of the group. -/
def helpLines (group : Value) (view : MenuView) : List Line :=
  if group.isTrue then
    let name := group.toText
    let commands :=
      match group with
      | .text _ => view.commands.filter fun command => command.group = name
      | _ => []
    if commands.isEmpty then [Line.of .message "no cmdlet in this group"]
    else Menu.groupLines true name commands
  else Menu.lines view

/-- Shows the menu, or the commands of a group. -/
def help : Draft :=
  { Draft.ofCode "help" {
      waits := false
      run := fun arguments => do
        let parameters := arguments.parameters
        Action.ofExcept (helpSignature.check parameters.length)
        .ask .menu fun view => do
          Action.emitAll ((helpLines (askedGroup parameters) view).map Item.line)
          return .value .null } with
    help := "show sub-menu of a group, show top menu if no group specified. ex: help([grp_name])" }

/-- The built-in commands in the order of their registration. -/
def drafts : List Draft :=
  [delay, repetition, help]

end Cascade.Library.System
