import Cascade.Call
import Cascade.Registry

/-!
Invocations: calls whose command is known.
-/

namespace Cascade

/-- A command, its arguments, and the text of the call. -/
structure Invocation where
  command : Command
  arguments : Arguments
  token : String

namespace Invocation

def name (invocation : Invocation) : String :=
  invocation.command.name

/-- Reads a call of a registered command. -/
def read (registry : Registry) (token : String) : Except Fault Invocation := do
  let call ← Call.read token
  match registry.get? call.name with
  | some command => return ⟨command, call.arguments, trimmed token⟩
  | none => throw (.unknownCommand call.name (if token.isEmpty then call.name else token))

/-- Reads calls from left to right, up to the first that cannot be read. -/
def readAll (registry : Registry) : List String → Except Fault (List Invocation)
  | [] => .ok []
  | token :: rest => do
      let invocation ← read registry token
      let invocations ← readAll registry rest
      return invocation :: invocations

def readChain (registry : Registry) (text : String) : Except Fault (List Invocation) :=
  readAll registry (cascadeElements text)

end Invocation

end Cascade
