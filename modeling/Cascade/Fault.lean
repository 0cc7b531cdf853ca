import Cascade.Value

/-!
What can go wrong, as causes, with one function for their wording.
-/

namespace Cascade

/-- A step towards a place inside a configuration. -/
inductive Locator
  | name (text : String)
  | index (position : Nat)
  deriving DecidableEq

/-- What is wrong with a part of a configuration. -/
inductive IssueKind
  | notBoolean
  | unreadableBoolean
  | notList
  | notText
  | notMapping
  | unknownName
  deriving DecidableEq

/-- A part of a configuration that is not as it should be. -/
structure Issue where
  location : List Locator
  kind : IssueKind
  deriving DecidableEq

/-- The general kinds of failure that code of a command can report. -/
inductive FailureKind
  | general
  | value
  | type
  | execution
  | key
  | system
  | lookup
  | index
  | zeroDivision
  | overflow
  | attribute
  | encoding
  | cancelled
  deriving DecidableEq

/-- A failure and its cause. -/
inductive Fault
  /-- A failure of a kind, with a detail or without. -/
  | raised (kind : FailureKind) (detail : Option String)
  /-- A failure of the engine that has no more to it than its message. -/
  | engine (message : String)
  /-- A configuration that cannot be read. -/
  | config (message : String)
  /-- A configuration that was read and is not valid. -/
  | invalidConfig (source : String) (issues : List Issue)
  /-- A module that cannot be loaded. -/
  | moduleLoad (message : String)
  /-- A command that cannot be registered. -/
  | descriptor (message : String)
  /-- A malformed call, recorded under a name. -/
  | malformed (message name token : String)
  /-- An argument list whose closing mark is not the last character of its token. -/
  | unterminated (token name closer : String)
  /-- A call that names no command. -/
  | emptyName (token : String)
  /-- A name under which no command is registered. -/
  | unknownCommand (name token : String)
  /-- An initializer that failed before its chain started. -/
  | initialization (command : String) (cause : Fault)
  /-- A command that failed. -/
  | commandFailed (command : String) (cause : Fault)
  /-- A run that was given up at its first failure. -/
  | aborted (failure : Fault) (exitCode : Int)
  deriving DecidableEq

namespace Fault

/-- The wording of a failure. A missing key is quoted. -/
def message : Fault → String
  | raised .key (some detail) => quoted detail
  | raised _ detail => detail.getD ""
  | engine text | config text | moduleLoad text | descriptor text | malformed text _ _ => text
  | invalidConfig source _ => "Config validation failed (" ++ source ++ ")"
  | unterminated token _ closer =>
      "parameter parsing error: no ending \"" ++ closer ++ "\" in \"" ++ token ++ "\""
  | emptyName token => "cmdlet name is empty: " ++ quoted token
  | unknownCommand name _ => "Invalid command: " ++ name
  | initialization command cause => command ++ ": initialization failed: " ++ cause.message
  | commandFailed command cause => command ++ ": " ++ cause.message
  | aborted failure _ => "run aborted: " ++ failure.message

def because (kind : FailureKind) (detail : String) : Fault :=
  raised kind (some detail)

/-- Whether a failure is the cancellation of the code that reports it, and not an ordinary one. -/
def isCancellation : Fault → Bool
  | raised .cancelled _ => true
  | _ => false

/-- Whether a failure is one of the engine's own. -/
def isOwn : Fault → Bool
  | raised _ _ => false
  | _ => true

/-- The failure of a command, unless the failure already is one. -/
def ofCommand (command : String) : Fault → Fault
  | commandFailed inner cause => commandFailed inner cause
  | cause => commandFailed command cause

/-- The failure to show: the cause of a failed command or initializer, and any other as it is. -/
def underlying : Fault → Fault
  | commandFailed _ cause | initialization _ cause => cause
  | fault => fault

end Fault

end Cascade
