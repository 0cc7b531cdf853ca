import Cascade.Library.Arithmetic
import Cascade.Registry

/-!
Command modules: named units whose setup registers commands. A setup is the list of what it does, for
the group it is loaded under and the settings of that group.
-/

namespace Cascade

/-- What a setup does at one point. -/
inductive SetupStep
  | emit (item : Item)
  | register (draft : Draft)
  | fail (fault : Fault)

/-- What a setup is given: the group, and the group's settings. -/
structure Registrar where
  group : String
  config : Entries Value

/-- A command module. Without a setup it cannot be loaded; a fault on import comes before anything
else. -/
structure CommandModule where
  name : String
  importFault : Option Fault
  setup : Option (Registrar → List SetupStep)

namespace CommandModule

def ofDrafts (name : String) (drafts : Registrar → List Draft) : CommandModule where
  name := name
  importFault := none
  setup := some fun registrar => (drafts registrar).map SetupStep.register

/-- The module of the built-in commands. -/
def system : CommandModule :=
  ofDrafts "sys" fun _ => Library.System.drafts

def greeting : CommandModule :=
  ofDrafts "hello" fun registrar => Library.Greeting.drafts registrar.config

def arithmetic : CommandModule :=
  ofDrafts "math" fun _ => Library.Arithmetic.drafts

def withoutSetup (name : String) : CommandModule :=
  ⟨name, none, none⟩

/-- The part of a dotted name after its last point. -/
def lastPart (name : String) : String :=
  String.ofList ((Text.Pieces.split '.' name.toList).getLast?.getD [])

end CommandModule

end Cascade
