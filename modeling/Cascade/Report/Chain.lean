import Cascade.ErrorLog
import Cascade.Fault
import Cascade.Report.Line

/-!
The lines about chains and commands: titles, feedback, summaries, timings and the list of recorded
errors.
-/

namespace Cascade.Report

/-- The title of a chain of several commands. -/
def batchTitle (label : String) : Line :=
  Line.of .preRunTitle ("Running Batch Serial Cmds [" ++ label ++ "]...")

/-- The title of a chain of one command. -/
def commandTitle (name help : String) : Line :=
  Line.of .preRunTitle ("[" ++ name ++ "]: " ++ help)

/-- The time that a chain took, in thousandths of a second. -/
def timing (label : String) (seconds : Binary64) : Line :=
  Line.of .timing (label ++ ": " ++ Decimal.threePlaces (seconds.scale 1000) ++ "ms")

/-- The banner at the end of a chain and its time. A success of a single hidden command is not
announced, and the time of such a chain is never shown. -/
def summary (label : String) (failure : Option Fault) (seconds : Binary64) (hidden : Bool) :
    List Line :=
  let banner :=
    match failure with
    | some fault => [Line.of .postRunTitle ("[" ++ label ++ "]: err = " ++ fault.message)]
    | none => if hidden then [] else [Line.of .postRunTitle ("[" ++ label ++ "]: OK")]
  banner ++ if hidden then [] else [timing label seconds]

/-- The lines of one command's recorded errors, counted from zero. -/
def recorded (name : String) (messages : List String) : List Line :=
  Line.of .error (name ++ ": errors [ " ++ Decimal.integerText messages.length ++ "]") ::
    messages.zipIdx.map fun (message, index) =>
      Line.of .error ("[" ++ Decimal.integerText index ++ "]: " ++ message)

def errorDump (log : ErrorLog) : List Line :=
  log.entries.flatMap fun entry => recorded entry.1 entry.2

/-- The feedback on a command that succeeded. -/
def succeeded (name : String) : Line :=
  Line.of .success (name ++ ": done!")

/-- The feedback on a command that failed. -/
def failed (name : String) (fault : Fault) : Line :=
  Line.of .error (name ++ ": error " ++ fault.message)

end Cascade.Report
