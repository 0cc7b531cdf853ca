import Cascade.Proofs.Batch.Containment
import Cascade.Proofs.Outside.Level

/-!
The batch of one chain beside the run of the same command outside any chain. After any number of steps both
wait for the execution of the command, or both have come to the same end, or nothing can happen any more
in either.
-/

namespace Cascade

namespace World

variable {α : Type} {world : World α} {result : Except Fault α}

theorem end?_eq_outline (world : World α) :
    world.end? = (world.outline? 0).bind fun outline => outline.2.result? := by
  rw [end?, outline?, shape?]
  cases world.strand? 0 with
  | none => rfl
  | some strand => rcases strand with ⟨_, _, ⟨_, _, _, _ | _ | _⟩, _, _⟩ <;> rfl

theorem end?_of_outline {after : World α} (h : after.outline? 0 = world.outline? 0) :
    after.end? = world.end? := by
  rw [end?_eq_outline, h, end?_eq_outline]

theorem end?_perform (h : world.end? = some result) (job : Job) :
    (world.perform job).end? = some result := by
  rcases world.perform_cases job with ⟨place, rfl⟩ | ⟨-, -, houtline⟩
  · cases place with
    | zero =>
        obtain ⟨strand, hstrand, hresult⟩ := Option.bind_eq_some_iff.mp h
        have hdue : strand.root.due? = none := by
          rw [Thread.result?] at hresult
          rw [Thread.due?]
          split at hresult
          · rename_i hstatus
            rw [hstatus]
          · cases hresult
        simpa [perform, World.resume, hstrand, hdue] using h
    | succ place =>
        refine (end?_of_outline ?_).trans h
        rw [outline?, perform, shape?_resume_root (Nat.succ_ne_zero place).symm, outline?]
  · exact (end?_of_outline (houtline 0)).trans h

theorem Poised.end?_eq_none {waiting : Waiting α} (h : world.Poised (.waiting waiting .asleep)) :
    world.end? = none := by
  obtain ⟨strand, wake, hstrand, hroot⟩ := h.exists_waiting
  rw [end?, hstrand]
  simp [hroot, Thread.result?]

end World

/-! ### Steps of the command -/

namespace SingleRun

variable {run : SingleRun}

theorem settle_succ (steps : Nat) (run : SingleRun) :
    settle (steps + 1) run = (settle steps run).step?.getD (settle steps run) := by
  induction steps generalizing run with
  | zero =>
      rw [settle]
      cases hstep : run.step? with
      | none => simp [settle, hstep]
      | some next => simp [settle, hstep]
  | succ steps ih =>
      rw [settle]
      cases hstep : run.step? with
      | none => simp [settle, hstep]
      | some next =>
          rw [settle, hstep]
          exact ih next

theorem step?_of_queue {job : Job} {rest : List Job} (hqueue : run.world.queue = job :: rest) :
    run.step? = some { run with world := World.perform job { run.world with queue := rest } } := by
  simp only [step?, World.takeJob?, hqueue]

theorem step_of_end {result : Except Fault Value} (hend : run.world.end? = some result)
    (hgoing : run.stalled = false) :
    (run.step?.getD run).world.end? = some result ∧ (run.step?.getD run).stalled = false := by
  cases hqueue : run.world.queue with
  | nil =>
      have hresult : run.result? = some result := hend
      simp [step?, World.takeJob?, hqueue, hresult, hend, hgoing]
  | cons job rest =>
      have hrest : ({ run.world with queue := rest } : World Value).end? = some result := hend
      rw [step?_of_queue hqueue]
      exact ⟨World.end?_perform hrest job, hgoing⟩

theorem step_of_stalled (h : run.stalled = true) : (run.step?.getD run).stalled = true := by
  cases hqueue : run.world.queue with
  | nil => simp [step?, World.takeJob?, hqueue, h]
  | cons job rest =>
      rw [step?_of_queue hqueue]
      exact h

end SingleRun

/-! ### Side by side -/

/-- How the batch and the command stand after the same number of steps. -/
inductive Paces (family : String → Prop) (batch : Batch) (run : SingleRun) : Prop
  | level {pending : List Nat} {notified : Bool}
      (watching : batch.supervision = .watching pending notified) (going : run.stalled = false)
      (level : World.Level family batch.world run.world)
  | ended {first : Except Fault ChainResult} {second : Except Fault Value}
      (same : SameEnd first second) (chain : batch.world.end? = some first)
      (alive : batch.supervision ≠ .stalled) (going : run.stalled = false)
      (command : run.world.end? = some second)
  | stalled (chain : batch.supervision = .stalled) (command : run.stalled = true)

variable {family : String → Prop} {batch : Batch} {run : SingleRun}

theorem Paces.of_follows {pending : List Nat} {notified : Bool}
    (watching : batch.supervision = .watching pending notified) (going : run.stalled = false)
    (h : World.Follows family batch.world run.world) : Paces family batch run := by
  cases h with
  | level h => exact .level watching going h
  | ended same chain command =>
      exact .ended same chain (fun h => by cases watching.symm.trans h) going command

namespace Batch

theorem step?_of_inner {job : Job} {rest : List Job} (hqueue : batch.world.queue = job :: rest)
    (hjob : job.IsInner) :
    batch.step? = some { batch with world := World.perform job { batch.world with queue := rest } } := by
  simp only [step?, World.takeJob?, hqueue]
  cases job with
  | announce place => exact hjob.elim
  | supervise => exact hjob.elim
  | _ => rfl

theorem Contained.step_of_end (h : Contained 1 batch) {next : Batch} (hstep : batch.step? = some next)
    {result : Except Fault ChainResult} (hend : batch.world.end? = some result)
    (halive : batch.supervision ≠ .stalled) :
    next.world.end? = some result ∧ next.supervision ≠ .stalled := by
  cases h with
  | watched pending notified h =>
      obtain ⟨after, hafter, hgoes⟩ := h.step
      obtain rfl := Option.some.inj (hstep.symm.trans hafter)
      cases hgoes with
      | on others told watched job rest queue performs =>
          refine ⟨?_, fun h => by cases watched.supervision.symm.trans h⟩
          rcases performs.announces 0 with hsame | ⟨hnone, -⟩
          · exact hsame.trans hend
          · cases hnone.symm.trans hend
      | waits others told watched queue results =>
          exact ⟨(results 0).trans hend, fun h => by cases watched.supervision.symm.trans h⟩
      | returns results ended length each spent same =>
          exact ⟨(same 0).trans hend, fun h => by cases ended.symm.trans h⟩
      | aborts place failed failure exits placed hfailed cause ended spent record results =>
          exact ⟨(results 0).trans hend, fun h => by cases ended.symm.trans h⟩
      | stalls ended queue => exact absurd queue (h.queue_ne_nil h.mem_of_single hend)
  | returned results ended =>
      obtain ⟨hsame, hresults⟩ := stays_of_not_watching hstep fun _ _ h => by cases ended.symm.trans h
      exact ⟨hresults 0 _ hend, fun h => halive (hsame.symm.trans h)⟩
  | aborted failure exits ended =>
      obtain ⟨hsame, hresults⟩ := stays_of_not_watching hstep fun _ _ h => by cases ended.symm.trans h
      exact ⟨hresults 0 _ hend, fun h => halive (hsame.symm.trans h)⟩
  | stalled ended => exact absurd ended halive

end Batch

/-- A step on both sides. -/
theorem Paces.step (h : Paces family batch run) (hcontained : Batch.Contained 1 batch) :
    Paces family (batch.step?.getD batch) (run.step?.getD run) := by
  cases h with
  | @level pending notified watching going level =>
      have hsame := level.twins.queue_eq
      cases hqueue : run.world.queue with
      | cons job rest =>
          have hinner := level.twins.inner job (hqueue ▸ List.mem_cons_self)
          rw [hqueue] at hsame
          rw [Batch.step?_of_inner hsame hinner, SingleRun.step?_of_queue hqueue]
          exact .of_follows watching going ((level.takeJob hqueue).perform job)
      | nil =>
          obtain ⟨number, next, -, -, hcommand⟩ := level.waits
          have hnone : run.result? = none := hcommand.end?_eq_none
          have hoption := level.advance
          rw [hqueue] at hsame
          simp only [Batch.step?, World.takeJob?, hsame, watching, SingleRun.step?, hqueue, going,
            hnone, Option.isSome_none, Bool.or_false, Bool.false_eq_true, if_false]
          generalize batch.world.advance? = first at hoption
          generalize run.world.advance? = second at hoption
          cases hoption with
          | none => exact .stalled rfl rfl
          | some hlevel => exact .level rfl rfl hlevel
  | @ended first second same chain alive going command =>
      have hchain : (batch.step?.getD batch).world.end? = some first ∧
          (batch.step?.getD batch).supervision ≠ .stalled := by
        cases hstep : batch.step? with
        | none => exact ⟨chain, alive⟩
        | some next => exact hcontained.step_of_end hstep chain alive
      obtain ⟨hcommand, hgoing⟩ := SingleRun.step_of_end command going
      exact .ended same hchain.1 hchain.2 hgoing hcommand
  | stalled chain command =>
      refine .stalled ?_ (SingleRun.step_of_stalled command)
      cases hstep : batch.step? with
      | none => exact chain
      | some next =>
          have hover : ∀ pending notified, batch.supervision ≠ .watching pending notified :=
            fun _ _ h => by cases chain.symm.trans h
          exact (Batch.stays_of_not_watching hstep hover).1.trans chain

theorem Paces.settle {first : Nat} (h : Paces family (batch.settle first) (run.settle first))
    (hcontained : ∀ steps, Batch.Contained 1 (batch.settle steps)) (steps : Nat) :
    Paces family (batch.settle (first + steps)) (run.settle (first + steps)) := by
  induction steps with
  | zero => exact h
  | succ steps ih =>
      rw [← Nat.add_assoc, Batch.settle_succ, SingleRun.settle_succ]
      exact ih.step (hcontained _)

/-! ### The start -/

section Start

variable {surroundings : Surroundings} {chain : Chain} {invocation : Invocation} {name : String}
  {given : GivenArguments}

theorem Paces.first (calls : Entries Nat) (hname : family name)
    (hstepless : surroundings.registry.Stepless family)
    (hreading : chain.reading = .ok [invocation])
    (hinitializer : invocation.command.initializer = none)
    (hget : surroundings.registry.get? name = some invocation.command)
    (hgiven : given.toArguments = .ok invocation.arguments) :
    Paces family ((Batch.start surroundings false calls [chain]).settle 1)
      ((SingleRun.start surroundings calls name given).settle 1) := by
  let left : World ChainResult :=
    { World.start surroundings calls [Strand.start chain.invocations chain.routine] with queue := [] }
  let right : World Value :=
    { World.start surroundings calls [Strand.start [] (SingleRun.routine name given)] with queue := [] }
  have htwins : left.Twins family right := {
    same := rfl
    registry := hstepless
    children := by
      intro strand hmem child hchild
      obtain rfl := List.mem_singleton.mp hmem
      cases hchild
    inner := fun _ hmem => by cases hmem }
  have hfirst : left.Poised (.waiting (.turn none fun _ => chain.routine) .asleep) := rfl
  have hsecond : right.Poised
      (.waiting (.turn none fun _ => SingleRun.routine name given) .asleep) := rfl
  let begun := left.modifyThread 0 .root Thread.begin
  have hinvocation : ((begun.strand? 0).bind fun strand => strand.invocations[0]?) =
      some invocation := by
    change chain.invocations[0]? = some invocation
    rw [Chain.invocations, hreading]
    rfl
  obtain ⟨record, hrun⟩ := @Chain.exists_run_routine chain invocation hreading hinitializer
    ⟨0, .root, none, none⟩ begun hinvocation
  have hbegun := htwins.start 0 .root
  have hwritten : World.Twins family { begun with record := record }
      (right.modifyThread 0 .root Thread.begin) :=
    ⟨hbegun.same, hbegun.registry, hbegun.children, hbegun.inner⟩
  have hturn : SameTurn family
      (begun.turn ⟨0, .root, none, none⟩ (.turn none fun _ => chain.routine) false)
      ((right.modifyThread 0 .root Thread.begin).turn ⟨0, .root, none, none⟩
        (.turn none fun _ => SingleRun.routine name given) false) := by
    rw [World.turn_of_not_cancelled, World.turn_of_not_cancelled]
    simp only [World.resumed, hrun]
    exact .of_execute hwritten hname hget hgiven hinvocation (chain.closes_afterStep _)
  have hchain := (hfirst.setRoot .running).turn (.turn none fun _ => chain.routine) false
  have hcommand := (hsecond.setRoot .running).turn
    (.turn none fun _ => SingleRun.routine name given) false
  have hfollows := hturn.follows (World.length_turn _ _ _) hchain hcommand
  have hleft := @World.resume_of_woken _ left (Strand.start chain.invocations chain.routine) rfl
    (.turn none fun _ => chain.routine) .woken false rfl rfl
  have hright := @World.resume_of_woken _ right (Strand.start [] (SingleRun.routine name given)) rfl
    (.turn none fun _ => SingleRun.routine name given) .woken false rfl rfl
  have hwatching : ((Batch.start surroundings false calls [chain]).settle 1).supervision =
      .watching [0] false := rfl
  refine .of_follows hwatching rfl ?_
  rw [← hleft, ← hright] at hfollows
  exact hfollows

end Start

end Cascade
