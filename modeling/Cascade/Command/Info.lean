import Cascade.Step
import Cascade.Report.Line

/-!
What is known about a command besides its code, and the items of a run's record: lines, warnings and
the marks that commands leave.
-/

namespace Cascade

/-- How a command reports its end: it returns a value, it calls back, or it returns something to wait
for. -/
inductive Convention
  | direct
  | callback
  | awaited
  deriving DecidableEq

namespace Convention

def name : Convention → String
  | direct => "sync"
  | callback => "callback"
  | awaited => "async"

def ofName? (name : String) : Option Convention :=
  [direct, callback, awaited].find? fun convention => convention.name = name

end Convention

/-- A registered command without its code. -/
structure CommandInfo where
  name : String
  help : String
  group : String
  hidden : Bool
  convention : Convention
  accepts : ArgumentKind → Bool
  hasInitializer : Bool

/-- The names of the argument kinds that a command takes, sorted. -/
def CommandInfo.acceptedNames (info : CommandInfo) : List String :=
  (ArgumentKind.all.filter info.accepts).map ArgumentKind.name

/-- A mark that code leaves in the record of a run. -/
inductive Mark
  | trace (content : Value)
  | arguments (parameters : List Value)
  | step (view : Option StepView)
  | context (view : StepView)
  | time (seconds : Binary64)
  | called (result : Value)
  | cancelled (command : String)
  | added (command : CommandInfo)
  | setup (group : String) (config : Value)

/-- An item of a run's record: a printed line, a warning for the log, or a mark. -/
inductive Item
  | line (content : Line)
  | warning (message : String)
  | mark (content : Mark)

namespace Item

def printed (role : Role) (text : String) : Item :=
  .line (Line.of role text)

end Item

end Cascade
