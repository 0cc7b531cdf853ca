import Cascade.Proofs.Outside.Twins

/-!
Cancellations, turns and jobs in twin worlds. Whatever is not the turn of a strand's own thread keeps two
worlds twins.
-/

namespace Cascade

variable {α β γ : Type} {family : String → Prop}

namespace World

namespace Twins

variable {left : World α} {right : World β}

/-! ### Cancellations -/

theorem drop (h : Twins family left right) (place number : Nat) :
    Twins family (left.drop place number) (right.drop place number) := by
  have hcell := h.cell?_rel place number
  rw [World.drop, World.drop]
  generalize left.cell? place number = first at hcell
  generalize right.cell? place number = second at hcell
  cases hcell with
  | none => exact h
  | @some cell other hstep =>
      obtain ⟨step, rfl⟩ := hstep
      dsimp only
      split
      · exact (h.tell place number cell.command .dropped).modifyCell place number
          (fun cell => { cell with state := .dropped }) fun _ => rfl
      · exact h

theorem cancel (h : Twins family left right) (place : Nat) (id : ThreadId) :
    Twins family (left.cancel place id) (right.cancel place id) := by
  rw [World.cancel, h.isAsleep_eq, h.awaitedCell?_eq, World.cancel]
  split
  · dsimp only
    split
    · rename_i number _
      exact (((h.drop place number).forget place id).mark place id .cancelled).enqueue trivial
    · exact ((h.forget place id).mark place id .cancelled).enqueue trivial
  · exact h.mark place id .cancelled

/-! ### Turns -/

section Turn

variable (place : Nat) (id : ThreadId) (own first second : Option Nat)

theorem leave (h : Twins family left right) (notice : Option Item) :
    Twins family (left.leave ⟨place, id, first, own⟩ notice)
      (right.leave ⟨place, id, second, own⟩ notice) := by
  cases notice with
  | none => exact h
  | some item => exact h.write _ _

theorem unwind (h : Twins family left right) (waiting : Waiting γ) :
    Twins family (left.unwind ⟨place, id, first, own⟩ waiting)
      (right.unwind ⟨place, id, second, own⟩ waiting) := by
  cases waiting with
  | turn notice next => exact h.leave place id own first second notice
  | timer notice next => exact h.leave place id own first second notice
  | event name notice next => exact h.leave place id own first second notice
  | cell number next =>
      have hcell := h.cell?_rel place number
      simp only [World.unwind]
      generalize left.cell? place number = former at hcell
      generalize right.cell? place number = latter at hcell
      cases hcell with
      | none => exact h
      | @some cell other hstep =>
          obtain ⟨step, rfl⟩ := hstep
          simp only [Option.bind_some]
          cases cell.child with
          | none => exact h
          | some child => exact h.cancel place (.child child)

theorem resumed (h : Twins family left right) {waiting : Waiting γ}
    (hwaiting : waiting.IsStepless family) :
    TwinsWith family (Routine.IsStepless family) (left.resumed ⟨place, id, first, own⟩ waiting)
      (right.resumed ⟨place, id, second, own⟩ waiting) := by
  cases waiting with
  | turn notice next => exact ⟨h, rfl, hwaiting⟩
  | timer notice next => exact ⟨h, rfl, hwaiting⟩
  | event name notice next => exact ⟨h, rfl, hwaiting⟩
  | cell number next =>
      have hcell := h.cell?_rel place number
      simp only [World.resumed, h.outcome?_eq]
      generalize left.cell? place number = former at hcell
      generalize right.cell? place number = latter at hcell
      cases hcell with
      | none => exact ⟨h, rfl, trivial⟩
      | some _ =>
          cases right.outcome? place number with
          | none => exact ⟨h, rfl, trivial⟩
          | some outcome => exact ⟨h.write _ _, rfl, hwaiting outcome⟩

theorem turn (h : Twins family left right) {waiting : Waiting γ}
    (hwaiting : waiting.IsStepless family) (isCancelled : Bool) :
    TwinsWith family (ThreadStatus.IsStepless family)
      (left.turn ⟨place, id, first, own⟩ waiting isCancelled)
      (right.turn ⟨place, id, second, own⟩ waiting isCancelled) := by
  cases isCancelled with
  | true => exact ⟨h.unwind place id own first second waiting, rfl, trivial⟩
  | false =>
      have hresumed := h.resumed place id own first second hwaiting
      rw [turn_of_not_cancelled, turn_of_not_cancelled]
      rcases hfirst : left.resumed ⟨place, id, first, own⟩ waiting with ⟨middle, routine⟩
      rcases hsecond : right.resumed ⟨place, id, second, own⟩ waiting with ⟨other, program⟩
      rw [hfirst, hsecond] at hresumed
      obtain ⟨hworlds, hsame, hstepless⟩ := hresumed
      obtain rfl : routine = program := hsame
      obtain ⟨hafter, hpause, hproper⟩ :=
        Routine.twins_run hstepless hworlds place id own first second
      refine ⟨hafter, congrArg Suspension.status hpause, ?_⟩
      rcases hstop : routine.run ⟨place, id, second, own⟩ other with ⟨last, pause⟩
      rw [hstop] at hproper
      cases pause with
      | ended result => trivial
      | waits waiting wake => exact hproper

end Turn

/-! ### Jobs -/

theorem setChild (h : Twins family left right) (place number : Nat) {status : ThreadStatus Value}
    (hstatus : status.IsStepless family) :
    Twins family (left.setChild place number status) (right.setChild place number status) := by
  let change : Thread Value → Thread Value := fun child => { child with status := status }
  have hunplaced : ∀ thread : Thread Value, (change thread).unplaced = change thread.unplaced :=
    fun _ => rfl
  refine h.modifyStrand
    (fun strand => { strand with children := strand.children.modify number change })
    (fun strand => ?_) (fun strand => ?_) ?_ place
  · simp only [Strand.bare, map_modify hunplaced, change]
  · simp only [Strand.bare, map_modify hunplaced, change]
  · refine fun _ hchildren => forall_mem_modify ?_ hchildren number
    exact fun _ _ => hstatus

theorem close (h : Twins family left right) {job : Job} (hjob : job.IsInner)
    (status : ThreadStatus γ) : Twins family (left.close job status) (right.close job status) := by
  cases status with
  | finished result => exact h.enqueue hjob
  | running => exact h
  | waiting wait wake => exact h

theorem turn_child (h : Twins family left right) (place number : Nat) (own first second : Option Nat)
    {waiting : Waiting Value} (hwaiting : waiting.IsStepless family) (isCancelled : Bool) :
    let former := (left.modifyThread place (.child number) Thread.begin).turn
      ⟨place, .child number, first, own⟩ waiting isCancelled
    let latter := (right.modifyThread place (.child number) Thread.begin).turn
      ⟨place, .child number, second, own⟩ waiting isCancelled
    Twins family ((former.1.setChild place number former.2).close (.deliver place number) former.2)
      ((latter.1.setChild place number latter.2).close (.deliver place number) latter.2) := by
  intro former latter
  obtain ⟨hworlds, hsame, hstatus⟩ := (h.start place (.child number)).turn place (.child number) own
    first second hwaiting isCancelled
  have hjob : (Job.deliver place number).IsInner := trivial
  rw [show former.2 = latter.2 from hsame]
  exact (hworlds.setChild place number hstatus).close hjob latter.2

theorem resume_child (h : Twins family left right) (place number : Nat) :
    Twins family (left.resume place (.child number)) (right.resume place (.child number)) := by
  have hstrand := h.strand?_rel place
  have hchild := h.child?_rel place number
  simp only [World.resume]
  cases hfirst : left.strand? place with
  | none =>
      rw [hfirst] at hstrand
      generalize right.strand? place = latter at hstrand
      cases hstrand
      exact h
  | some current =>
      cases hsecond : right.strand? place with
      | none =>
          rw [hfirst, hsecond] at hstrand
          cases hstrand
      | some other =>
          rw [hfirst, hsecond] at hchild
          simp only [Option.bind_some] at hchild ⊢
          have hstepless : ∀ thread, other.children[number]? = some thread →
              thread.IsStepless family :=
            fun thread hget => h.children other (List.mem_of_getElem? hsecond) thread
              (List.mem_of_getElem? hget)
          generalize current.children[number]? = former at hchild
          generalize other.children[number]? = latter at hchild hstepless
          cases hchild with
          | none => exact h
          | @some thread _ hstep =>
              obtain ⟨step, rfl⟩ := hstep
              have hdue : Thread.due? { thread with step := step } = thread.due? := rfl
              simp only [Option.bind_some, hdue]
              cases hwaits : thread.due? with
              | none => exact h
              | some due =>
                  have hwaiting := (hstepless _ rfl).of_due? (hdue.trans hwaits)
                  exact h.turn_child place number thread.cell thread.step step hwaiting due.2

theorem deliver (h : Twins family left right) (place child : Nat) :
    Twins family (left.deliver place child) (right.deliver place child) := by
  have hchild := h.child?_rel place child
  rw [World.deliver, World.deliver]
  generalize (left.strand? place).bind (fun strand => strand.children[child]?) = former at hchild
  generalize (right.strand? place).bind (fun strand => strand.children[child]?) = latter at hchild
  cases hchild with
  | none => exact h
  | @some thread _ hstep =>
      obtain ⟨step, rfl⟩ := hstep
      have hresult : Thread.result? { thread with step := step } = thread.result? := rfl
      simp only [hresult]
      split
      · rename_i number result _ _ _
        have hcell := h.cell?_rel place number
        generalize left.cell? place number = first at hcell
        generalize right.cell? place number = second at hcell
        cases hcell with
        | none => exact h
        | @some cell _ hstep =>
            obtain ⟨step, rfl⟩ := hstep
            exact h.settle place number (.ended result) (outcomeOf cell.command.name result)
      · exact h

theorem fire (h : Twins family left right) (place : Nat) (goal : Goal) :
    Twins family (left.fire place goal) (right.fire place goal) := by
  cases goal with
  | wake id => exact h.wake place id none
  | complete number result => exact h.complete place number result

/-- A job that is not the turn of a strand's own thread. -/
theorem perform (h : Twins family left right) {job : Job}
    (hjob : ∀ place, job ≠ .resume place .root) :
    Twins family (left.perform job) (right.perform job) := by
  cases job with
  | resume place id =>
      cases id with
      | root => exact absurd rfl (hjob place)
      | child number => exact h.resume_child place number
  | fire place goal => exact h.fire place goal
  | deliver place child => exact h.deliver place child
  | announce place => exact h
  | supervise => exact h

end Twins

end World

end Cascade
