import Cascade.CommandLine.Options
import Cascade.Engine

/-!
A session of the command line: the configuration is loaded, the engine is made, and the invocations are
run. What is wrong with the configuration or a module ends the session before anything is run.
-/

namespace Cascade.CommandLine

/-- The exit code of a session in which every chain was run. -/
def successCode : Int := 0

/-- The exit code of a command line, a configuration or a module that cannot be used. -/
def misuseCode : Int := 2

/-- A session: the record in the order of time with the chain of each item, the number of chains, and the
exit code or what escaped; a session that stalled has neither. -/
structure Session where
  record : List (Option Nat × Item)
  chains : Nat
  result : Option (Except Fault Int)

namespace Session

def apart (items : List Item) : List (Option Nat × Item) :=
  items.map fun item => (none, item)

/-- Whether a failure to start is reported as misuse. -/
def isMisuse : Fault → Bool
  | .config _ | .invalidConfig _ _ | .moduleLoad _ => true
  | _ => false

/-- A session that ends before anything is run. -/
def refused (items : List Item) (fault : Fault) : Session :=
  if isMisuse fault then
    ⟨apart (items ++ [.printed .error ("Error: " ++ fault.message)]), 0, some (.ok misuseCode)⟩
  else ⟨apart items, 0, some (.error fault)⟩

/-- The configuration with what the command line asks for in its place. -/
def configured (options : Options) (config : Config) : Config :=
  { config with
      exitOnError := options.exitOnError.getD config.exitOnError
      showHidden := options.showHidden.getD config.showHidden }

def exitCode (result : Except Fault (List ChainResult)) : Except Fault Int :=
  match result with
  | .ok _ => .ok successCode
  | .error (.aborted _ code) => .ok code
  | .error fault => .error fault

/-- Runs a session. The fuel bounds the number of steps. -/
def run (fuel : Nat) (host : Config.Host) (options : Options) : Session :=
  let loaded := Config.load host options.config none
  let warnings := loaded.warnings.map Item.warning
  match loaded.result with
  | .error fault => refused warnings fault
  | .ok config =>
      let created := Engine.create host (configured options config) options.moduleDirectories
      match created.result with
      | .error fault => refused (warnings ++ created.items) fault
      | .ok () =>
          let ran := created.engine.run fuel options.invocations
          ⟨apart (warnings ++ created.items) ++ ran.record, ran.chains, ran.result.map exitCode⟩

end Session

end Cascade.CommandLine
