import Cascade.Run.Batch
import Cascade.Proofs.Run.Queue
import Mathlib.Logic.Relation

/-!
The steps of a run in any order: any job of the queue is done, the clock moves, threads are cancelled,
lines are written, and whoever holds on to an execution completes it. The batches of chains and the
runs of one command take these steps.
-/

namespace Cascade

namespace World

variable {α : Type}

/-- One step of a run. Which one comes next is left open. -/
inductive Step (world : World α) : World α → Prop
  | perform (before after : List Job) (job : Job) (h : world.queue = before ++ job :: after) :
      Step world ({ world with queue := before ++ after }.perform job)
  | advance (next : World α) (h : world.advance? = some next) : Step world next
  | cancel (strand : Nat) (thread : ThreadId) : Step world (world.cancel strand thread)
  | print (item : Item) : Step world (world.write ⟨none, none, none, .item item⟩)
  | notify : Step world (world.enqueue .supervise)
  | complete (strand number : Nat) (result : Except Fault Value) :
      Step world (world.complete strand number result)

/-- Any number of steps. -/
abbrev Reaches : World α → World α → Prop :=
  Relation.ReflTransGen Step

theorem Step.keeps {world next : World α} (h : Step world next) : Keeps world next := by
  cases h with
  | perform before after job hqueue =>
      have htaken : Keeps world { world with queue := before ++ after } := .of_eq fun _ _ => rfl
      exact htaken.trans (keeps_perform job _)
  | advance next hnext =>
      obtain ⟨due, -, heq⟩ := Option.bind_eq_some_iff.mp hnext
      obtain rfl := Option.some.inj heq
      exact .of_eq fun _ _ => rfl
  | cancel strand thread => exact (frame_cancel strand thread world).keeps
  | print item => exact .of_eq fun _ _ => rfl
  | notify => exact .of_eq fun _ _ => rfl
  | complete strand number result => exact (frame_complete strand number result world).keeps

theorem Step.adds {world next : World α} (h : Step world next) :
    Adds (fun _ => True) world next := by
  cases h with
  | perform before after job hqueue =>
      have htaken : Adds (fun _ => True) world { world with queue := before ++ after } :=
        .of_record_eq rfl
      refine htaken.trans ?_
      cases job with
      | resume strand thread => exact (within_resume strand thread _).mono fun _ _ => trivial
      | fire strand goal => exact (told_fire strand goal _).mono fun _ _ => trivial
      | deliver strand child => exact (told_deliver strand child _).mono fun _ _ => trivial
      | announce | supervise => exact .refl _
  | advance next hnext =>
      obtain ⟨due, -, heq⟩ := Option.bind_eq_some_iff.mp hnext
      obtain rfl := Option.some.inj heq
      exact .of_record_eq rfl
  | cancel strand thread => exact adds_cancel (fun _ _ => trivial) thread world
  | print item => exact adds_write trivial world
  | notify => exact .of_record_eq rfl
  | complete strand number result =>
      exact (told_fire strand (.complete number result) world).mono fun _ _ => trivial

theorem Reaches.keeps {world later : World α} (h : Reaches world later) : Keeps world later := by
  induction h with
  | refl => exact .refl world
  | tail _ hstep ih => exact ih.trans hstep.keeps

theorem Reaches.adds {world later : World α} (h : Reaches world later) :
    Adds (fun _ => True) world later := by
  induction h with
  | refl => exact .refl world
  | tail _ hstep ih => exact ih.trans hstep.adds

theorem Ready.step {world next : World α} (h : world.Ready) (hstep : Step world next) :
    next.Ready := by
  cases hstep with
  | perform before after job hqueue => exact h.perform hqueue
  | advance next hnext => exact h.advance hnext
  | cancel strand thread => exact h.of_enqueues (enqueues_cancel ..)
  | print item => exact h.of_enqueues (.of_same (fun _ _ => rfl) rfl)
  | notify => exact h.of_enqueues (.of_eq (fun _ _ => rfl) rfl)
  | complete strand number result => exact h.of_enqueues (enqueues_complete ..)

theorem Ready.reaches {world later : World α} (h : world.Ready) (hreach : Reaches world later) :
    later.Ready := by
  induction hreach with
  | refl => exact h
  | tail _ hstep ih => exact ih.step hstep

theorem Step.of_takeJob? {world rest : World α} {job : Job}
    (h : world.takeJob? = some (job, rest)) : Step world (rest.perform job) := by
  cases hqueue : world.queue with
  | nil => simp [takeJob?, hqueue] at h
  | cons first others =>
      simp only [takeJob?, hqueue, Option.some.injEq, Prod.mk.injEq] at h
      obtain ⟨rfl, rfl⟩ := h
      exact .perform [] others first (by simp [hqueue])

end World

namespace Batch

open World

theorem reaches_writeLines (lines : List Line) (world : World ChainResult) :
    world.Reaches (writeLines lines world) := by
  induction lines generalizing world with
  | nil => exact .refl
  | cons line rest ih => exact .head (.print (.line line)) (ih _)

theorem reaches_abandon (strands : List Nat) (world : World ChainResult) :
    world.Reaches (abandon strands world) := by
  induction strands generalizing world with
  | nil => exact .refl
  | cons strand rest ih => exact .head (.cancel strand .root) (ih _)

theorem reaches_supervise (batch : Batch) (pending : List Nat) :
    batch.world.Reaches (batch.supervise pending).world := by
  simp only [supervise]
  split
  · exact reaches_abandon ..
  · split
    · exact (reaches_abandon ..).trans (reaches_writeLines ..)
    · split
      · exact reaches_writeLines ..
      · exact .refl
  · split
    · exact reaches_writeLines ..
    · exact .refl

theorem reaches_step? {batch next : Batch} (h : batch.step? = some next) :
    batch.world.Reaches next.world := by
  rw [step?] at h
  split at h
  · rename_i job rest htake
    obtain rfl := Option.some.inj h
    have hdone := Step.of_takeJob? htake
    rw [Batch.perform.eq_def]
    split
    · split
      · exact .tail (.single hdone) .notify
      · exact .single hdone
    · exact .trans (.single hdone) (reaches_supervise { batch with world := rest } _)
    · exact .single hdone
  · split at h
    · split at h
      · rename_i world hadvance
        obtain rfl := Option.some.inj h
        exact .single (.advance world hadvance)
      · obtain rfl := Option.some.inj h
        exact reaches_abandon ..
    · cases h

theorem reaches_settle (fuel : Nat) (batch : Batch) :
    batch.world.Reaches (batch.settle fuel).world := by
  induction fuel generalizing batch with
  | zero => exact .refl
  | succ fuel ih =>
      rw [settle]
      split
      · rename_i next hstep
        exact (reaches_step? hstep).trans (ih next)
      · exact .refl

/-- Everything that a batch can come to is reached from the state before anything has happened. -/
theorem reaches_start (surroundings : Surroundings) (exitOnError : Bool) (calls : Entries Nat)
    (chains : List Chain) :
    World.Reaches (World.start surroundings calls
        (chains.map fun chain => Strand.start chain.invocations chain.routine))
      (Batch.start surroundings exitOnError calls chains).world := by
  simp only [Batch.start]
  split
  · exact reaches_writeLines ..
  · exact .refl

end Batch

namespace SingleRun

open World

theorem reaches_step? {run next : SingleRun} (h : run.step? = some next) :
    run.world.Reaches next.world := by
  rw [step?] at h
  split at h
  · rename_i job rest htake
    obtain rfl := Option.some.inj h
    exact .single (Step.of_takeJob? htake)
  · split at h
    · cases h
    · split at h
      · rename_i world hadvance
        obtain rfl := Option.some.inj h
        exact .single (.advance world hadvance)
      · obtain rfl := Option.some.inj h
        exact .single (.cancel 0 .root)

theorem reaches_settle (fuel : Nat) (run : SingleRun) :
    run.world.Reaches (run.settle fuel).world := by
  induction fuel generalizing run with
  | zero => exact .refl
  | succ fuel ih =>
      rw [settle]
      split
      · rename_i next hstep
        exact (reaches_step? hstep).trans (ih next)
      · exact .refl

end SingleRun

end Cascade
