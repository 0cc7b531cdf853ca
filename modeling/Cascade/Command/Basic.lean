import Cascade.Command.Routine

/-!
Commands and their drafts. A draft is what is handed in for registration; it becomes a command when
it has a name and can be called.
-/

namespace Cascade

/-- A command that can be executed. -/
structure Command where
  name : String
  help : String
  group : String
  hidden : Bool
  convention : Convention
  accepts : ArgumentKind → Bool
  initializer : Option (Action Unit)
  run : Arguments → Action Reply

/-- What is known about a command besides its code. -/
def Command.info (command : Command) : CommandInfo where
  name := command.name
  help := command.help
  group := command.group
  hidden := command.hidden
  convention := command.convention
  accepts := command.accepts
  hasInitializer := command.initializer.isSome

/-- A command stands for what is known about it. -/
instance : Coe Command CommandInfo :=
  ⟨Command.info⟩

/-- A condition on what is known about commands is a condition on commands. -/
instance : Coe (CommandInfo → Bool) (Command → Bool) :=
  ⟨fun condition command => condition command.info⟩

/-- The code of a command: whether calling it only prepares something to wait for, and the call. -/
structure CommandCode where
  waits : Bool
  run : Arguments → Action Reply

/-- What is handed in for registration. The name may be any value and the code may be missing. -/
structure Draft where
  name : Value
  code : Option CommandCode
  help : String
  group : Option String
  hidden : Bool
  convention : Option Convention
  accepts : Option (ArgumentKind → Bool)
  initializer : Option (Action Unit)

namespace Draft

/-- A visible draft that takes every kind of arguments. -/
def ofCode (name : String) (code : CommandCode) : Draft where
  name := .text name
  code := some code
  help := ""
  group := none
  hidden := false
  convention := none
  accepts := none
  initializer := none

/-- The convention that holds when none is given. -/
def inferred (code : CommandCode) : Convention :=
  if code.waits then .awaited else .direct

/-- The command of a draft. Refused without a name that has a character other than blanks, and without
code. -/
def toCommand (defaultGroup : String) (draft : Draft) : Except Fault Command :=
  match draft.name with
  | .text name =>
      if Text.Blank.isAllBlank name.toList then
        .error (.descriptor ("command name must be a non-empty string: " ++ quoted name))
      else
        match draft.code with
        | none => .error (.descriptor ("command '" ++ name ++ "' has no callable implementation"))
        | some code =>
            .ok {
              name := name
              help := draft.help
              group := draft.group.getD defaultGroup
              hidden := draft.hidden
              convention := draft.convention.getD (inferred code)
              accepts := draft.accepts.getD fun _ => true
              initializer := draft.initializer
              run := code.run }
  | name => .error (.descriptor ("command name must be a non-empty string: " ++ name.shown))

/-- Whatever becomes a command has a text as its name and has code. -/
theorem exists_of_toCommand_eq_ok {defaultGroup : String} {draft : Draft} {command : Command}
    (h : draft.toCommand defaultGroup = .ok command) :
    ∃ name code, draft.name = .text name ∧ draft.code = some code ∧
      command = ⟨name, draft.help, draft.group.getD defaultGroup, draft.hidden,
        draft.convention.getD (inferred code), draft.accepts.getD fun _ => true,
        draft.initializer, code.run⟩ := by
  rw [toCommand] at h
  split at h
  · rename_i name hname
    split at h
    · cases h
    · split at h
      · cases h
      · rename_i code hcode
        exact ⟨name, code, hname, hcode, (Except.ok.inj h).symm⟩
  · cases h

end Draft

end Cascade
