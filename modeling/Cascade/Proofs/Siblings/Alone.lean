import Cascade.Proofs.Siblings.Mirror
import Mathlib.Logic.Relation

/-!
A strand beside others goes the way that it goes alone. A job of it does what it does alone, the jobs of
the others leave it as it is, and time goes on to the next timer of any strand, which need not be one of
its own.
-/

namespace Cascade

namespace World

variable {α : Type} {place other : Nat} {world : World α}

/-! ### The strands of a world -/

theorem Secluded.view (h : world.Secluded) (place : Nat) : (world.view place).Secluded where
  commands := h.commands
  strands := by
    intro strand hmem
    rw [World.view, Option.mem_toList] at hmem
    exact h.strands strand (List.mem_of_getElem? hmem)
  clock := h.clock
  timers := by
    intro timer hmem
    obtain ⟨own, hown, rfl⟩ := List.mem_map.mp hmem
    exact h.timers own (List.mem_filter.mp hown).1

theorem Secluded.of_views (h : ∀ place, (world.view place).Secluded) : world.Secluded where
  commands := (h 0).commands
  strands := by
    intro strand hmem
    obtain ⟨place, hplace⟩ := List.mem_iff_getElem?.mp hmem
    refine (h place).strands strand ?_
    rw [World.view, Option.mem_toList]
    exact hplace
  clock := (h 0).clock
  timers := by
    intro timer hmem
    refine (h timer.strand).timers { timer with strand := 0 } (List.mem_map.mpr ⟨timer, ?_, rfl⟩)
    exact List.mem_filter.mpr ⟨hmem, decide_eq_true rfl⟩

theorem Secluded.mirrors (h : world.Secluded) (place : Nat) :
    Mirrors place world world (world.view place) :=
  ⟨(view_view place world).symm, fun _ _ => rfl, h.view place⟩

theorem view_perform (h : world.Secluded) {job : Job} (hjob : job.strand? = some place) :
    (world.perform job).view place = ((world.view place).perform (job.move 0)).view 0 :=
  ((h.mirrors place).perform hjob).own

theorem view_perform_of_ne (h : world.Secluded) {job : Job} (hjob : job.strand? ≠ some place) :
    (world.perform job).view place = world.view place := by
  cases hstrand : job.strand? with
  | none =>
      cases job with
      | supervise => rfl
      | _ => cases hstrand
  | some strand =>
      refine ((h.mirrors strand).perform hstrand).others place fun heq => ?_
      rw [hstrand, heq] at hjob
      exact hjob rfl

theorem Secluded.perform (h : world.Secluded) (job : Job) : (world.perform job).Secluded := by
  refine .of_views fun place => ?_
  by_cases hjob : job.strand? = some place
  · rw [view_perform h hjob]
    exact ((h.mirrors place).perform hjob).secluded.view 0
  · rw [view_perform_of_ne h hjob]
    exact h.view place

/-! ### Time -/

/-- A world at a later time: what is due then is ready. -/
def reach (due : Binary64) (world : World α) : World α :=
  { world with
    clock := due
    timers := world.timers.filter fun timer => !decide (timer.due = due)
    queue := world.queue ++ (world.timers.filter fun timer => timer.due = due).map fun timer =>
      .fire timer.strand timer.goal }

theorem advance?_eq (world : World α) :
    world.advance? = world.nextDue?.map fun due => world.reach due := by
  rw [advance?]
  cases world.nextDue? with
  | none => rfl
  | some due =>
      simp only [List.partition_eq_filter_filter]
      rfl

theorem view_reach (due : Binary64) (place : Nat) (world : World α) :
    (world.reach due).view place = (world.view place).reach due := by
  simp only [view, reach, World.mk.injEq, true_and, and_true]
  refine ⟨?_, ?_, rfl⟩
  · rw [List.filter_append, List.map_append, List.filter_map, List.map_map, List.filter_map,
      List.map_map, List.filter_filter, List.filter_filter]
    refine congrArg _ (congrArg _ (List.filter_congr fun timer _ => ?_))
    simp [Job.strand?, Bool.and_comm]
  · rw [List.filter_map, List.filter_filter, List.filter_filter]
    refine congrArg _ (List.filter_congr fun timer _ => ?_)
    simp [Bool.and_comm]

/-- The next state of a strand alone: its first job is done, or else time goes on to its next timer. -/
def next? (world : World α) : Option (World α) :=
  match world.takeJob? with
  | some (job, rest) => some ((rest.perform job).view 0)
  | none => world.advance?

/-- One state of a strand alone leads to another. -/
abbrev Leads : World α → World α → Prop :=
  Relation.ReflTransGen fun before after => before.next? = some after

/-- The world of a strand is a state of the strand alone, at a time that may be later if the strand has
nothing to do. -/
structure Matches (place : Nat) (world lone : World α) : Prop where
  view : world.view place = { lone with clock := world.clock }
  clock : lone.queue ≠ [] → world.clock = lone.clock

theorem advance?_eq_some {next : World α} (h : world.advance? = some next) :
    world.nextDue? = some next.clock ∧ next = world.reach next.clock ∧
      next.clock.IsFinite ∧ ∃ timer ∈ world.timers, timer.due = next.clock := by
  rw [advance?_eq] at h
  obtain ⟨due, hdue, rfl⟩ := Option.map_eq_some_iff.mp h
  have hearliest := world.earliest_nextDue?
  rw [hdue] at hearliest
  exact ⟨hdue, rfl, hearliest.1, hearliest.2.1⟩

theorem Secluded.advance (h : world.Secluded) {next : World α} (hnext : world.advance? = some next) :
    next.Secluded := by
  obtain ⟨-, heq, -, timer, hmem, hdue⟩ := advance?_eq_some hnext
  rw [heq]
  exact {
    commands := h.commands
    strands := h.strands
    clock := hdue ▸ h.timers timer hmem
    timers := fun other hother => h.timers other (List.mem_filter.mp hother).1 }

namespace Matches

variable {lone : World α}

theorem of_view_eq (h : world.view place = lone) : Matches place world lone := by
  subst h
  exact ⟨rfl, fun _ => rfl⟩

theorem congr (h : Matches place world lone) {after : World α}
    (hview : after.view place = world.view place) : Matches place after lone := by
  have hclock := congrArg World.clock hview
  change after.clock = world.clock at hclock
  refine ⟨?_, fun hne => ?_⟩
  · rw [hview, hclock]
    exact h.view
  · rw [hclock]
    exact h.clock hne

theorem queue_eq (h : Matches place world lone) : (world.view place).queue = lone.queue := by
  rw [h.view]

theorem timers_eq (h : Matches place world lone) : (world.view place).timers = lone.timers := by
  rw [h.view]

theorem view_eq (h : Matches place world lone) (hne : lone.queue ≠ []) :
    world.view place = lone := by
  rw [h.view, h.clock hne]

/-- A job of the strand is the next one of the strand alone. -/
theorem perform (h : Matches place world lone) (hsecluded : world.Secluded) {job : Job}
    {rest : List Job} (hqueue : world.queue = job :: rest) (hjob : job.strand? = some place) :
    ∃ next, lone.next? = some next ∧
      Matches place ({ world with queue := rest }.perform job) next := by
  let taken : World α := { world with queue := rest }
  have htaken : taken.Secluded :=
    ⟨hsecluded.commands, hsecluded.strands, hsecluded.clock, hsecluded.timers⟩
  have hhead : (world.view place).queue = job.move 0 :: (taken.view place).queue := by
    simp [World.view, taken, hqueue, hjob]
  have hlone : lone.queue = job.move 0 :: (taken.view place).queue := h.queue_eq.symm.trans hhead
  have hsame := h.view_eq (hlone ▸ List.cons_ne_nil _ _)
  have hview : taken.view place = { lone with queue := (taken.view place).queue } := by
    rw [← hsame]
    rfl
  refine ⟨(World.perform (job.move 0) (taken.view place)).view 0, ?_, ?_⟩
  · rw [next?, takeJob?, hlone]
    dsimp only
    rw [← hview]
  · exact .of_view_eq (view_perform htaken hjob)

theorem perform_of_ne (h : Matches place world lone) (hsecluded : world.Secluded) {job : Job}
    {rest : List Job} (hqueue : world.queue = job :: rest) (hjob : job.strand? ≠ some place) :
    Matches place ({ world with queue := rest }.perform job) lone := by
  let taken : World α := { world with queue := rest }
  have htaken : taken.Secluded :=
    ⟨hsecluded.commands, hsecluded.strands, hsecluded.clock, hsecluded.timers⟩
  refine h.congr ((view_perform_of_ne htaken hjob).trans ?_)
  have hrest : (taken.view place).queue = (world.view place).queue := by
    simp [World.view, taken, hqueue, hjob]
  change { world.view place with queue := (taken.view place).queue } = world.view place
  rw [hrest]

theorem advance (h : Matches place world lone) (hsecluded : world.Secluded)
    (hqueue : world.queue = []) {next : World α} (hnext : world.advance? = some next) :
    (∃ later, lone.next? = some later ∧ Matches place next later) ∨
      (∀ timer ∈ world.timers, timer.due = next.clock → timer.strand ≠ place) ∧
        Matches place next lone := by
  obtain ⟨hdue, heq, hfinite, -⟩ := advance?_eq_some hnext
  have hview : next.view place = (world.view place).reach next.clock :=
    (congrArg (World.view place) heq).trans (view_reach next.clock place world)
  have hempty : lone.queue = [] := by
    rw [← h.queue_eq, World.view, hqueue]
    rfl
  by_cases hown : ∃ timer ∈ world.timers, timer.due = next.clock ∧ timer.strand = place
  · obtain ⟨timer, hmem, htimer, hstrand⟩ := hown
    refine .inl ⟨lone.reach next.clock, ?_, .of_view_eq ?_⟩
    · have hlone : lone.nextDue? = some next.clock := by
        have hsub : ∀ other ∈ lone.timers, ∃ own ∈ world.timers, own.due = other.due := by
          intro other hother
          rw [← h.timers_eq] at hother
          obtain ⟨own, hfound, rfl⟩ := List.mem_map.mp hother
          exact ⟨own, (List.mem_filter.mp hfound).1, rfl⟩
        have hearliest := world.earliest_nextDue?
        rw [hdue] at hearliest
        refine nextDue?_eq_some ?_ ⟨hfinite, ⟨{ timer with strand := 0 }, ?_, htimer⟩, ?_⟩
        · intro other hother
          obtain ⟨own, hfound, hsame⟩ := hsub other hother
          exact hsame ▸ hsecluded.timers own hfound
        · rw [← h.timers_eq]
          exact List.mem_map.mpr ⟨timer, List.mem_filter.mpr ⟨hmem, decide_eq_true hstrand⟩, rfl⟩
        · intro other hother
          obtain ⟨own, hfound, hsame⟩ := hsub other hother
          exact hsame ▸ hearliest.2.2 own hfound
      rw [next?, takeJob?, hempty]
      dsimp only
      rw [advance?_eq, hlone]
      rfl
    · rw [hview, h.view]
      rfl
  · have hnone : ∀ timer ∈ world.timers, timer.due = next.clock → timer.strand ≠ place :=
      fun timer hmem htimer hstrand => hown ⟨timer, hmem, htimer, hstrand⟩
    have hothers : ∀ timer ∈ lone.timers, timer.due ≠ next.clock := by
      intro timer hmem htimer
      rw [← h.timers_eq] at hmem
      obtain ⟨own, hfound, rfl⟩ := List.mem_map.mp hmem
      obtain ⟨hmem, hstrand⟩ := List.mem_filter.mp hfound
      exact hnone own hmem htimer (of_decide_eq_true hstrand)
    refine .inr ⟨hnone, ⟨?_, fun hne => absurd hempty hne⟩⟩
    rw [hview, h.view]
    have hkept : (lone.timers.filter fun timer => !decide (timer.due = next.clock)) =
        lone.timers :=
      List.filter_eq_self.mpr fun timer hmem => by simp [hothers timer hmem]
    have hready : (lone.timers.filter fun timer => timer.due = next.clock) = [] :=
      List.filter_eq_nil_iff.mpr fun timer hmem => by simp [hothers timer hmem]
    simp [reach, hkept, hready]

theorem next?_eq_none (h : Matches place world lone) (hqueue : world.queue = [])
    (hnext : world.advance? = none) : lone.next? = none := by
  have hempty : lone.queue = [] := by
    rw [← h.queue_eq, World.view, hqueue]
    rfl
  have hdue : lone.nextDue? = none := by
    rw [advance?_eq, Option.map_eq_none_iff, nextDue?_eq_none_iff] at hnext
    rw [nextDue?_eq_none_iff]
    intro timer hmem
    rw [← h.timers_eq] at hmem
    obtain ⟨own, hfound, rfl⟩ := List.mem_map.mp hmem
    exact hnext own (List.mem_filter.mp hfound).1
  rw [next?, takeJob?, hempty]
  dsimp only
  rw [advance?_eq, hdue]
  rfl

end Matches

end World

end Cascade
