import Cascade.Proofs.Run.Observation
import Cascade.Proofs.Siblings.Isolated
import Cascade.Proofs.Siblings.Time

/-!
What a world is for one of its strands: a world in which the strand is the only one. Two worlds mirror
each other in a strand of each if they are the same for the two.
-/

namespace Cascade

/-- The strand that a job belongs to; the supervisor's job belongs to none. -/
def Job.strand? : Job → Option Nat
  | .resume strand _ | .fire strand _ | .deliver strand _ | .announce strand => some strand
  | .supervise => none

def Job.move (place : Nat) : Job → Job
  | .resume _ thread => .resume place thread
  | .fire _ goal => .fire place goal
  | .deliver _ child => .deliver place child
  | .announce _ => .announce place
  | .supervise => .supervise

@[simp]
theorem Job.strand?_move (place : Nat) {strand : Nat} {job : Job} (h : job.strand? = some strand) :
    (job.move place).strand? = some place := by
  cases job with
  | supervise => cases h
  | _ => rfl

theorem Job.move_move (place other : Nat) (job : Job) :
    (job.move place).move other = job.move other := by
  cases job <;> rfl

namespace World

variable {α : Type}

/-- The world of one strand, which is the first there. Events and counts of calls are not part of it. -/
def view (place : Nat) (world : World α) : World α where
  surroundings := world.surroundings
  clock := world.clock
  queue := (world.queue.filter fun job => job.strand? = some place).map (Job.move 0)
  timers := (world.timers.filter fun timer => timer.strand = place).map fun timer =>
    { timer with strand := 0 }
  strands := (world.strand? place).toList
  happened := []
  waiters := []
  calls := []
  record := (world.record.filter fun occurrence => occurrence.strand = some place).map
    fun occurrence => { occurrence with strand := some 0 }

variable (place : Nat) (world : World α)

theorem strand?_view : (world.view place).strand? 0 = world.strand? place := by
  rw [strand?, view]
  cases world.strand? place <;> rfl

theorem view_view : (world.view place).view 0 = world.view place := by
  have hstrand := congrArg Option.toList (strand?_view place world)
  rw [view, hstrand]
  simp only [view, World.mk.injEq, true_and]
  refine ⟨?_, ?_, ?_⟩
  · rw [List.filter_eq_self.mpr, List.map_map]
    · exact List.map_congr_left fun job _ => Job.move_move 0 0 job
    · intro job hmem
      obtain ⟨other, hother, rfl⟩ := List.mem_map.mp hmem
      have hstrand := of_decide_eq_true (List.mem_filter.mp hother).2
      exact decide_eq_true (Job.strand?_move 0 hstrand)
  · rw [List.filter_eq_self.mpr, List.map_map]
    · rfl
    · intro timer hmem
      obtain ⟨other, -, rfl⟩ := List.mem_map.mp hmem
      rfl
  · rw [List.filter_eq_self.mpr, List.map_map]
    · rfl
    · intro occurrence hmem
      obtain ⟨other, -, rfl⟩ := List.mem_map.mp hmem
      rfl

theorem view_enqueue (job : Job) : (world.enqueue job).view place =
    { world.view place with
        queue := (world.view place).queue ++
          if job.strand? = some place then [job.move 0] else [] } := by
  simp only [view, enqueue, List.filter_append, List.map_append]
  split <;> simp [*, strand?]

theorem view_write (occurrence : Occurrence) : (world.write occurrence).view place =
    { world.view place with
        record := if occurrence.strand = some place then
            { occurrence with strand := some 0 } :: (world.view place).record
          else (world.view place).record } := by
  by_cases h : occurrence.strand = some place <;> simp [view, write, h, strand?]

theorem view_schedule (strand : Nat) (delay : Binary64) (goal : Goal) :
    (world.schedule strand delay goal).view place =
      { world.view place with
          timers := (world.view place).timers ++
            if strand = place then [⟨world.clock.add delay, 0, goal⟩] else [] } := by
  simp only [view, schedule, List.filter_append, List.map_append]
  split <;> simp [*, strand?]

theorem view_modifyStrand (number : Nat) (change : Strand α → Strand α) :
    (world.modifyStrand number change).view place =
      { world.view place with
          strands := if number = place then (world.view place).strands.map change
            else (world.view place).strands } := by
  rw [view, strand?_modifyStrand]
  split
  · simp only [view, modifyStrand, World.mk.injEq, true_and]
    cases world.strand? place <;> simp
  · rfl

theorem view_forget (thread : ThreadId) :
    (world.forget place thread).view place = (world.view place).forget 0 thread := by
  simp only [view, forget, World.mk.injEq, true_and, and_true, List.filter_filter, List.filter_map,
    List.filter_nil]
  refine ⟨congrArg _ (List.filter_congr fun timer _ => ?_), rfl⟩
  rcases timer with ⟨due, strand, goal⟩
  cases goal <;> by_cases hstrand : strand = place <;> simp [hstrand]

theorem view_forget_of_ne {place other : Nat} (h : other ≠ place) (thread : ThreadId)
    (world : World α) : (world.forget place thread).view other = world.view other := by
  simp only [view, forget, World.mk.injEq, true_and, and_true, List.filter_filter]
  refine ⟨congrArg _ (List.filter_congr fun timer _ => ?_), rfl⟩
  rcases timer with ⟨due, strand, goal⟩
  cases goal <;> by_cases hstrand : strand = other <;> simp [hstrand, h]

/-- A world all code of which is isolated and all times of which are proper. -/
structure Secluded (world : World α) : Prop where
  commands : ∀ command ∈ world.surroundings.registry.commands, command.IsIsolated
  strands : ∀ strand ∈ world.strands, strand.IsIsolated
  clock : world.clock.IsTime
  timers : ∀ timer ∈ world.timers, timer.due.IsTime

/-- A strand of a world mirrors the first strand of another, and the strands beside it are as they were
in the base. -/
structure Mirrors (place : Nat) (base world lone : World α) : Prop where
  own : world.view place = lone.view 0
  others : ∀ other, other ≠ place → world.view other = base.view other
  secluded : lone.Secluded

namespace Mirrors

variable {place : Nat} {base world lone : World α}

/-! ### What the code of the strand can see -/

theorem strand?_eq (h : Mirrors place base world lone) :
    world.strand? place = lone.strand? 0 :=
  ((strand?_view place world).symm.trans (congrArg (strand? · 0) h.own)).trans (strand?_view 0 lone)

theorem clock_eq (h : Mirrors place base world lone) : world.clock = lone.clock := by
  have hclock := congrArg World.clock h.own
  exact hclock

theorem surroundings_eq (h : Mirrors place base world lone) :
    world.surroundings = lone.surroundings := by
  have hsurroundings := congrArg World.surroundings h.own
  exact hsurroundings

theorem cell?_eq (h : Mirrors place base world lone) (number : Nat) :
    world.cell? place number = lone.cell? 0 number := by
  rw [cell?, h.strand?_eq, cell?]

theorem ofThread_eq (h : Mirrors place base world lone) {γ : Type} (thread : ThreadId)
    (default : γ) (property : {β : Type} → Thread β → γ) :
    world.ofThread place thread default property = lone.ofThread 0 thread default property := by
  rw [ofThread, h.strand?_eq, ofThread]

theorem outcome?_eq (h : Mirrors place base world lone) (number : Nat) :
    world.outcome? place number = lone.outcome? 0 number := by
  rw [outcome?, h.cell?_eq, outcome?]

theorem standing_eq (h : Mirrors place base world lone) (number : Nat) :
    world.standing place number = lone.standing 0 number := by
  rw [standing, h.outcome?_eq, standing]

theorem childCount_eq (h : Mirrors place base world lone) :
    world.childCount place = lone.childCount 0 := by
  rw [childCount, h.strand?_eq, childCount]

theorem cellCount_eq (h : Mirrors place base world lone) :
    world.cellCount place = lone.cellCount 0 := by
  rw [cellCount, h.strand?_eq, cellCount]

theorem stepView?_eq (h : Mirrors place base world lone) (thread : ThreadId)
    (step cell : Option Nat) :
    world.stepView? ⟨place, thread, step, cell⟩ = lone.stepView? ⟨0, thread, step, cell⟩ := by
  simp only [stepView?, stepContext?, h.strand?_eq]

theorem menuView_eq (h : Mirrors place base world lone) : world.menuView = lone.menuView := by
  rw [menuView, h.surroundings_eq, menuView]

/-- The steps of the strand have isolated commands. -/
theorem isolated_invocation (h : Mirrors place base world lone) {index : Nat}
    {invocation : Invocation}
    (hget : ((lone.strand? 0).bind fun strand => strand.invocations[index]?) = some invocation) :
    invocation.command.IsIsolated := by
  obtain ⟨strand, hstrand, hindex⟩ := Option.bind_eq_some_iff.mp hget
  exact (h.secluded.strands strand (List.mem_of_getElem? hstrand)).invocations invocation
    (List.mem_of_getElem? hindex)

/-- The registered commands are isolated. -/
theorem isolated_lookup (h : Mirrors place base world lone) {name : String} {command : Command}
    (hlookup : lone.surroundings.registry.lookup name = .ok command) : command.IsIsolated := by
  refine h.secluded.commands command ?_
  rw [Registry.lookup] at hlookup
  split at hlookup
  · rename_i found hfound
    obtain rfl := Except.ok.inj hlookup
    exact List.mem_of_find?_eq_some hfound
  · cases hlookup

/-! ### Changes of the strand -/

theorem enqueue (h : Mirrors place base world lone) (job : Job) (hjob : job.strand? = some place) :
    Mirrors place base (world.enqueue job) (lone.enqueue (job.move 0)) where
  own := by
    rw [view_enqueue, view_enqueue, h.own, if_pos hjob, if_pos (Job.strand?_move 0 hjob),
      Job.move_move]
  others := by
    intro other hne
    rw [view_enqueue, if_neg fun heq => hne (Option.some.inj (heq.symm.trans hjob)),
      List.append_nil]
    exact h.others other hne
  secluded := ⟨h.secluded.commands, h.secluded.strands, h.secluded.clock, h.secluded.timers⟩

theorem write (h : Mirrors place base world lone) (thread : Option ThreadId) (step : Option Nat)
    (event : Event) : Mirrors place base (world.write ⟨some place, thread, step, event⟩)
      (lone.write ⟨some 0, thread, step, event⟩) where
  own := by
    rw [view_write, view_write, h.own, if_pos rfl, if_pos rfl]
  others := by
    intro other hne
    rw [view_write, if_neg fun heq => hne (Option.some.inj heq).symm]
    exact h.others other hne
  secluded := ⟨h.secluded.commands, h.secluded.strands, h.secluded.clock, h.secluded.timers⟩

theorem schedule (h : Mirrors place base world lone) {delay : Binary64}
    (hdelay : delay.isPositive = true) (goal : Goal) :
    Mirrors place base (world.schedule place delay goal) (lone.schedule 0 delay goal) where
  own := by
    rw [view_schedule, view_schedule, h.own, h.clock_eq, if_pos rfl, if_pos rfl]
  others := by
    intro other hne
    rw [view_schedule, if_neg hne.symm, List.append_nil]
    exact h.others other hne
  secluded := {
    commands := h.secluded.commands
    strands := h.secluded.strands
    clock := h.secluded.clock
    timers := List.forall_mem_append.mpr ⟨h.secluded.timers,
      List.forall_mem_singleton.mpr (h.secluded.clock.add_isPositive hdelay)⟩ }

theorem modifyStrand (h : Mirrors place base world lone) {change : Strand α → Strand α}
    (hchange : ∀ strand, lone.strand? 0 = some strand → strand.IsIsolated →
      (change strand).IsIsolated) :
    Mirrors place base (world.modifyStrand place change) (lone.modifyStrand 0 change) where
  own := by
    rw [view_modifyStrand, view_modifyStrand, h.own, if_pos rfl, if_pos rfl]
  others := by
    intro other hne
    rw [view_modifyStrand, if_neg hne.symm]
    exact h.others other hne
  secluded := by
    refine ⟨h.secluded.commands, fun strand hmem => ?_, h.secluded.clock, h.secluded.timers⟩
    obtain ⟨number, hnumber⟩ := List.mem_iff_getElem?.mp hmem
    change (lone.modifyStrand 0 change).strand? number = some strand at hnumber
    rw [strand?_modifyStrand] at hnumber
    split at hnumber
    · rename_i hzero
      subst hzero
      obtain ⟨before, hbefore, rfl⟩ := Option.map_eq_some_iff.mp hnumber
      exact hchange before hbefore (h.secluded.strands before (List.mem_of_getElem? hbefore))
    · exact h.secluded.strands strand (List.mem_of_getElem? hnumber)

end Mirrors

end World

end Cascade
