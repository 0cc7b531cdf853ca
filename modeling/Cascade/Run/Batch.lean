import Cascade.Chain
import Cascade.Run.Job

/-!
Running a batch of chains side by side, or one command outside any chain.

The supervisor of a batch waits until a chain ends. With exit-on-error it gives up the other chains at
the first failure that it sees. A run in which nothing can happen any more has stalled.
-/

namespace Cascade

/-- Where the supervisor of a batch stands. -/
inductive Supervision
  | watching (pending : List Nat) (notified : Bool)
  | ended (result : Except Fault (List ChainResult))
  | stalled

/-- A batch of chains in a run. -/
structure Batch where
  exitOnError : Bool
  world : World ChainResult
  supervision : Supervision

namespace Batch

/-- The result of a chain, if it has ended. -/
def result? (world : World ChainResult) (strand : Nat) : Option (Except Fault ChainResult) :=
  (world.strand? strand).bind fun strand => strand.root.result?

/-- Adds lines of no chain to the record. -/
def writeLines (lines : List Line) (world : World ChainResult) : World ChainResult :=
  lines.foldl (fun world line => world.write ⟨none, none, none, .item (.line line)⟩) world

def dumpErrors (world : World ChainResult) : World ChainResult :=
  writeLines (Report.errorDump world.errors) world

def abandon (strands : List Nat) (world : World ChainResult) : World ChainResult :=
  strands.foldl (fun world strand => world.cancel strand .root) world

/-- The results of all chains, in their order. -/
def results (world : World ChainResult) : Except Fault (List ChainResult) :=
  (List.range world.strands.length).mapM fun strand =>
    (result? world strand).getD (.error World.cancellation)

/-- The end of a batch whose chains have all ended. -/
def conclude (batch : Batch) (world : World ChainResult) : Batch :=
  let world := dumpErrors world
  { batch with world := world, supervision := .ended (results world) }

/-- The first of the chains that ended without success: the failure that escaped from it, or the
failure in its result. -/
def firstFailure (world : World ChainResult) : List Nat → Option (Except Fault Fault)
  | [] => none
  | strand :: rest =>
      match result? world strand with
      | some (.error fault) => some (.error fault)
      | some (.ok result) =>
          match result.failure with
          | some fault => some (.ok fault)
          | none => firstFailure world rest
      | none => firstFailure world rest

/-- The supervisor looks at the chains that have ended since it looked last. -/
def supervise (batch : Batch) (pending : List Nat) : Batch :=
  let (done, rest) := pending.partition fun strand => (result? batch.world strand).isSome
  match firstFailure batch.world done with
  | some (.error fault) =>
      { batch with world := abandon rest batch.world, supervision := .ended (.error fault) }
  | some (.ok fault) =>
      if batch.exitOnError then
        { batch with
            world := dumpErrors (abandon rest batch.world)
            supervision := .ended (.error (.aborted fault 1)) }
      else if rest.isEmpty then batch.conclude batch.world
      else { batch with supervision := .watching rest false }
  | none =>
      if rest.isEmpty then batch.conclude batch.world
      else { batch with supervision := .watching rest false }

def perform (job : Job) (batch : Batch) : Batch :=
  match job, batch.supervision with
  | .announce strand, .watching pending false =>
      if pending.contains strand then
        { batch with
            world := batch.world.enqueue .supervise
            supervision := .watching pending true }
      else batch
  | .supervise, .watching pending _ => batch.supervise pending
  | job, _ => { batch with world := batch.world.perform job }

/-- One step: a job, or else the next timer while the supervisor watches, or else the discovery that
nothing can happen any more. After the end of the batch only the jobs that are ready are done. -/
def step? (batch : Batch) : Option Batch :=
  match batch.world.takeJob? with
  | some (job, world) => some ({ batch with world := world }.perform job)
  | none =>
      match batch.supervision with
      | .watching pending _ =>
          match batch.world.advance? with
          | some world => some { batch with world := world }
          | none =>
              some { batch with world := abandon pending batch.world, supervision := .stalled }
      | _ => none

/-- Takes steps until none is left, or the fuel is used up. -/
def settle : Nat → Batch → Batch
  | 0, batch => batch
  | fuel + 1, batch =>
      match batch.step? with
      | some next => settle fuel next
      | none => batch

/-- A batch at its start. Without a chain it ends at once. -/
def start (surroundings : Surroundings) (exitOnError : Bool) (calls : Entries Nat)
    (chains : List Chain) : Batch :=
  let strands := chains.map fun chain => Strand.start chain.invocations chain.routine
  let world := World.start surroundings calls strands
  let batch : Batch := ⟨exitOnError, world, .watching (List.range chains.length) false⟩
  if chains.isEmpty then batch.conclude world else batch

end Batch

/-- A command that runs outside any chain. -/
structure SingleRun where
  world : World Value
  stalled : Bool

namespace SingleRun

/-- The program that executes one command and gives its value. -/
def routine (name : String) (given : GivenArguments) : Routine Value :=
  .invoke name given fun outcome => Routine.ofExcept outcome.unwrap

/-- The run of one command at its start. -/
def start (surroundings : Surroundings) (calls : Entries Nat) (name : String)
    (given : GivenArguments) : SingleRun :=
  ⟨World.start surroundings calls [Strand.start [] (routine name given)], false⟩

/-- The value or failure of the run, if it has ended. -/
def result? (run : SingleRun) : Option (Except Fault Value) :=
  (run.world.strand? 0).bind fun strand => strand.root.result?

/-- One step: a job, or else the next timer before the end of the run, or else the discovery that
nothing can happen any more. -/
def step? (run : SingleRun) : Option SingleRun :=
  match run.world.takeJob? with
  | some (job, world) => some { run with world := world.perform job }
  | none =>
      if run.stalled || run.result?.isSome then none
      else
        match run.world.advance? with
        | some world => some { run with world := world }
        | none => some ⟨run.world.cancel 0 .root, true⟩

/-- Takes steps until none is left, or the fuel is used up. -/
def settle : Nat → SingleRun → SingleRun
  | 0, run => run
  | fuel + 1, run =>
      match run.step? with
      | some next => settle fuel next
      | none => run

end SingleRun

end Cascade
