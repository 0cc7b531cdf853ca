import Cascade.Proofs.Outside.Stepless
import Cascade.Proofs.Run.Locality
import Mathlib.Data.Option.Basic

/-!
What a world is without its record and without its steps: the invocations and the scratch states of its
strands, the step to which each thread and each execution belongs, and the program of each strand's own
thread are left out. Two worlds are twins if they are the same without these and the second does not read
the current step.
-/

namespace Cascade

variable {α β γ : Type}

/-! ### Leaving out the steps -/

/-- A wait without what comes after it. -/
def Waiting.bare : Waiting α → Waiting Unit
  | .turn notice _ => .turn notice .finish
  | .timer notice _ => .timer notice .finish
  | .event name notice _ => .event name notice .finish
  | .cell number _ => .cell number fun _ => .finish ()

/-- The state of a thread without its program. -/
def ThreadStatus.bare : ThreadStatus α → ThreadStatus Unit
  | .running => .running
  | .waiting wait wake => .waiting wait.bare wake
  | .finished result => .finished (result.map fun _ => ())

/-- A thread without its step and its program. -/
def Thread.bare (thread : Thread α) : Thread Unit :=
  ⟨none, thread.cell, thread.delivers, thread.status.bare⟩

def Thread.unplaced (thread : Thread α) : Thread α :=
  { thread with step := none }

def Cell.unplaced (cell : Cell) : Cell :=
  { cell with step := none }

theorem Thread.exists_of_unplaced {first second : Thread α} (h : first.unplaced = second.unplaced) :
    ∃ step, second = { first with step := step } := by
  rcases first with ⟨_, _, _, _⟩
  rcases second with ⟨step, _, _, _⟩
  cases h
  exact ⟨step, rfl⟩

theorem Cell.exists_of_unplaced {first second : Cell} (h : first.unplaced = second.unplaced) :
    ∃ step, second = { first with step := step } := by
  rcases first with ⟨_, _, _, _, _⟩
  rcases second with ⟨_, _, step, _, _⟩
  cases h
  exact ⟨step, rfl⟩

/-- A strand without its steps and its program. -/
def Strand.bare (strand : Strand α) : Strand Unit where
  invocations := []
  states := []
  root := strand.root.bare
  children := strand.children.map Thread.unplaced
  cells := strand.cells.map Cell.unplaced

namespace Thread

theorem bare_mark (wake : Wake) (thread : Thread α) :
    (thread.mark wake).bare = thread.bare.mark wake := by
  rcases thread with ⟨_, _, _, _ | _ | _⟩ <;> rfl

theorem unplaced_mark (wake : Wake) (thread : Thread α) :
    (thread.mark wake).unplaced = thread.unplaced.mark wake := by
  rcases thread with ⟨_, _, _, _ | _ | _⟩ <;> rfl

theorem isAsleep_bare (thread : Thread α) : thread.bare.isAsleep = thread.isAsleep := by
  rcases thread with ⟨_, _, _, _ | ⟨_, _ | _ | _⟩ | _⟩ <;> rfl

theorem awaitedCell?_bare (thread : Thread α) : thread.bare.awaitedCell? = thread.awaitedCell? := by
  rcases thread with ⟨_, _, _, _ | ⟨_ | _ | _ | _, _⟩ | _⟩ <;> rfl

theorem sleepsOn_bare (cell : Option Nat) (thread : Thread α) :
    thread.bare.sleepsOn cell = thread.sleepsOn cell := by
  rw [sleepsOn, isAsleep_bare, awaitedCell?_bare, sleepsOn]

end Thread

theorem map_modify {view : β → γ} {change : β → β} {other : γ → γ}
    (h : ∀ item, view (change item) = other (view item)) (items : List β) (index : Nat) :
    (items.modify index change).map view = (items.map view).modify index other := by
  refine List.ext_getElem? fun place => ?_
  rw [List.getElem?_map, List.getElem?_modify, List.getElem?_modify, List.getElem?_map]
  split <;> cases items[place]? <;> simp [h]

theorem rel_of_map_eq {δ : Type} {view : β → δ} {other : γ → δ} {relation : β → γ → Prop}
    (hrelation : ∀ left right, view left = other right → relation left right) {first : Option β}
    {second : Option γ} (h : first.map view = second.map other) :
    Option.Rel relation first second := by
  cases first with
  | none =>
      cases second with
      | none => exact .none
      | some right => cases h
  | some left =>
      cases second with
      | none => cases h
      | some right => exact .some (hrelation left right (Option.some.inj h))

namespace World

/-- A world without its record, its steps and the programs of its strands. -/
def bare (world : World α) : World Unit where
  surroundings := world.surroundings
  clock := world.clock
  queue := world.queue
  timers := world.timers
  strands := world.strands.map Strand.bare
  happened := world.happened
  waiters := world.waiters
  calls := world.calls
  record := []

variable (world : World α)

theorem strand?_bare (place : Nat) :
    world.bare.strand? place = (world.strand? place).map Strand.bare := by
  rw [strand?, bare, List.getElem?_map, strand?]

theorem cell?_bare (place number : Nat) :
    world.bare.cell? place number = (world.cell? place number).map Cell.unplaced := by
  rw [cell?, strand?_bare, cell?]
  cases world.strand? place with
  | none => rfl
  | some strand => exact List.getElem?_map ..

theorem outcome?_bare (place number : Nat) :
    world.bare.outcome? place number = world.outcome? place number := by
  rw [outcome?, cell?_bare, outcome?]
  cases world.cell? place number <;> rfl

theorem childCount_bare (place : Nat) : world.bare.childCount place = world.childCount place := by
  rw [childCount, strand?_bare, childCount, Option.map_map]
  exact congrArg (fun count => Option.getD count 0)
    (Option.map_congr fun strand _ => List.length_map _)

theorem cellCount_bare (place : Nat) : world.bare.cellCount place = world.cellCount place := by
  rw [cellCount, strand?_bare, cellCount, Option.map_map]
  exact congrArg (fun count => Option.getD count 0)
    (Option.map_congr fun strand _ => List.length_map _)

theorem ofThread_bare (place : Nat) (id : ThreadId) (default : γ)
    (property : {δ : Type} → Thread δ → γ)
    (hbare : ∀ thread : Thread α, property thread.bare = property thread)
    (hunplaced : ∀ thread : Thread Value, property thread.unplaced = property thread) :
    world.bare.ofThread place id default property = world.ofThread place id default property := by
  rw [ofThread, strand?_bare, ofThread]
  cases world.strand? place with
  | none => rfl
  | some strand =>
      cases id with
      | root => exact hbare strand.root
      | child number =>
          change ((strand.children.map Thread.unplaced)[number]?.map property).getD default = _
          rw [List.getElem?_map, Option.map_map]
          exact congrArg (fun value => Option.getD value default)
            (Option.map_congr fun thread _ => hunplaced thread)

theorem bare_modifyStrand {change : Strand α → Strand α} {other : Strand Unit → Strand Unit}
    (h : ∀ strand, (change strand).bare = other strand.bare) (place : Nat) :
    (world.modifyStrand place change).bare = world.bare.modifyStrand place other := by
  have hstrands : (world.strands.modify place change).map Strand.bare =
      (world.strands.map Strand.bare).modify place other := map_modify h _ _
  simp only [bare, modifyStrand, hstrands]

end World

/-! ### Twins -/

/-- Jobs that are neither the supervisor's nor for the supervisor. -/
def Job.IsInner : Job → Prop
  | .announce _ | .supervise => False
  | _ => True

namespace World

/-- Two worlds that are the same but for their records, their steps and the programs of their strands. No
strand of the second has ended, and the commands of a family and the threads that executions started do not
read the current step. -/
structure Twins (family : String → Prop) (left : World α) (right : World β) : Prop where
  same : left.bare = right.bare
  registry : right.surroundings.registry.Stepless family
  children : ∀ strand ∈ right.strands, ∀ child ∈ strand.children, child.IsStepless family
  inner : ∀ job ∈ right.queue, job.IsInner

namespace Twins

variable {family : String → Prop} {left : World α} {right : World β}

/-! ### What the code can see -/

theorem surroundings_eq (h : Twins family left right) : left.surroundings = right.surroundings := by
  have hsame := congrArg World.surroundings h.same
  exact hsame

theorem clock_eq (h : Twins family left right) : left.clock = right.clock := by
  have hsame := congrArg World.clock h.same
  exact hsame

theorem queue_eq (h : Twins family left right) : left.queue = right.queue := by
  have hsame := congrArg World.queue h.same
  exact hsame

theorem timers_eq (h : Twins family left right) : left.timers = right.timers := by
  have hsame := congrArg World.timers h.same
  exact hsame

theorem happened_eq (h : Twins family left right) : left.happened = right.happened := by
  have hsame := congrArg World.happened h.same
  exact hsame

theorem waiters_eq (h : Twins family left right) : left.waiters = right.waiters := by
  have hsame := congrArg World.waiters h.same
  exact hsame

theorem calls_eq (h : Twins family left right) : left.calls = right.calls := by
  have hsame := congrArg World.calls h.same
  exact hsame

theorem menuView_eq (h : Twins family left right) : left.menuView = right.menuView := by
  rw [menuView, h.surroundings_eq, menuView]

theorem outcome?_eq (h : Twins family left right) (place number : Nat) :
    left.outcome? place number = right.outcome? place number := by
  rw [← outcome?_bare, h.same, outcome?_bare]

theorem standing_eq (h : Twins family left right) (place number : Nat) :
    left.standing place number = right.standing place number := by
  rw [standing, h.outcome?_eq, standing]

theorem childCount_eq (h : Twins family left right) (place : Nat) :
    left.childCount place = right.childCount place := by
  rw [← childCount_bare, h.same, childCount_bare]

theorem cellCount_eq (h : Twins family left right) (place : Nat) :
    left.cellCount place = right.cellCount place := by
  rw [← cellCount_bare, h.same, cellCount_bare]

theorem isAsleep_eq (h : Twins family left right) (place : Nat) (id : ThreadId) :
    left.ofThread place id false Thread.isAsleep = right.ofThread place id false Thread.isAsleep := by
  rw [← ofThread_bare left place id false _ Thread.isAsleep_bare fun _ => rfl, h.same]
  exact ofThread_bare right place id false _ Thread.isAsleep_bare fun _ => rfl

theorem awaitedCell?_eq (h : Twins family left right) (place : Nat) (id : ThreadId) :
    left.ofThread place id none Thread.awaitedCell? =
      right.ofThread place id none Thread.awaitedCell? := by
  rw [← ofThread_bare left place id none _ Thread.awaitedCell?_bare fun _ => rfl, h.same]
  exact ofThread_bare right place id none _ Thread.awaitedCell?_bare fun _ => rfl

theorem sleepsOn_eq (h : Twins family left right) (place : Nat) (id : ThreadId) (cell : Option Nat) :
    left.ofThread place id false (Thread.sleepsOn cell) =
      right.ofThread place id false (Thread.sleepsOn cell) := by
  rw [← ofThread_bare left place id false _ (Thread.sleepsOn_bare cell) fun _ => rfl, h.same]
  exact ofThread_bare right place id false _ (Thread.sleepsOn_bare cell) fun _ => rfl

theorem strand?_rel (h : Twins family left right) (place : Nat) :
    Option.Rel (fun first second => first.bare = second.bare) (left.strand? place)
      (right.strand? place) := by
  refine rel_of_map_eq (fun _ _ hsame => hsame) ?_
  rw [← strand?_bare, h.same, strand?_bare]

/-- The threads that executions started differ in their steps only. -/
theorem child?_rel (h : Twins family left right) (place number : Nat) :
    Option.Rel (fun first second => ∃ step, second = { first with step := step })
      ((left.strand? place).bind fun strand => strand.children[number]?)
      ((right.strand? place).bind fun strand => strand.children[number]?) := by
  have hstrand := h.strand?_rel place
  generalize left.strand? place = former at hstrand
  generalize right.strand? place = latter at hstrand
  cases hstrand with
  | none => exact .none
  | some hsame =>
      refine rel_of_map_eq (fun _ _ => Thread.exists_of_unplaced) ?_
      have hchildren := congrArg (fun strand => strand.children[number]?) hsame
      simp only [Strand.bare, List.getElem?_map] at hchildren
      exact hchildren

theorem cell?_rel (h : Twins family left right) (place number : Nat) :
    Option.Rel (fun first second => ∃ step, second = { first with step := step })
      (left.cell? place number) (right.cell? place number) := by
  refine rel_of_map_eq (fun _ _ => Cell.exists_of_unplaced) ?_
  rw [← cell?_bare, h.same, cell?_bare]

/-! ### Simple changes -/

theorem write (h : Twins family left right) (first second : Occurrence) :
    Twins family (left.write first) (right.write second) :=
  ⟨h.same, h.registry, h.children, h.inner⟩

theorem enqueue (h : Twins family left right) {job : Job} (hjob : job.IsInner) :
    Twins family (left.enqueue job) (right.enqueue job) where
  same := by
    have hsame := congrArg (World.enqueue job) h.same
    exact hsame
  registry := h.registry
  children := h.children
  inner := List.forall_mem_append.mpr ⟨h.inner, List.forall_mem_singleton.mpr hjob⟩

theorem schedule (h : Twins family left right) (place : Nat) (delay : Binary64) (goal : Goal) :
    Twins family (left.schedule place delay goal) (right.schedule place delay goal) where
  same := by
    have hsame := congrArg (World.schedule place delay goal) h.same
    exact hsame
  registry := h.registry
  children := h.children
  inner := h.inner

theorem forget (h : Twins family left right) (place : Nat) (id : ThreadId) :
    Twins family (left.forget place id) (right.forget place id) where
  same := by
    have hsame := congrArg (World.forget place id) h.same
    exact hsame
  registry := h.registry
  children := h.children
  inner := h.inner

theorem modifyStrand (h : Twins family left right) {first : Strand α → Strand α}
    {second : Strand β → Strand β} (change : Strand Unit → Strand Unit)
    (hfirst : ∀ strand, (first strand).bare = change strand.bare)
    (hsecond : ∀ strand, (second strand).bare = change strand.bare)
    (hchildren : ∀ strand : Strand β, (∀ child ∈ strand.children, child.IsStepless family) →
      ∀ child ∈ (second strand).children, child.IsStepless family) (place : Nat) :
    Twins family (left.modifyStrand place first) (right.modifyStrand place second) where
  same := by rw [bare_modifyStrand left hfirst, h.same, bare_modifyStrand right hsecond]
  registry := h.registry
  children := forall_mem_modify hchildren h.children place
  inner := h.inner

theorem modifyCell (h : Twins family left right) (place number : Nat) (change : Cell → Cell)
    (hchange : ∀ cell, (change cell).unplaced = change cell.unplaced) :
    Twins family (left.modifyCell place number change) (right.modifyCell place number change) := by
  refine h.modifyStrand (fun strand => { strand with cells := strand.cells.modify number change })
    (fun strand => ?_) (fun strand => ?_) ?_ place
  · simp only [Strand.bare, map_modify hchange]
  · simp only [Strand.bare, map_modify hchange]
  · exact fun _ hchildren => hchildren

/-- A change of one thread that depends neither on its step nor on its program. -/
theorem modifyThread (h : Twins family left right) (place : Nat) (id : ThreadId)
    {change : {δ : Type} → Thread δ → Thread δ}
    (hbare : ∀ {δ : Type} (thread : Thread δ), (change thread).bare = change thread.bare)
    (hunplaced : ∀ thread : Thread Value, (change thread).unplaced = change thread.unplaced)
    (hchildren : ∀ thread : Thread Value, thread.IsStepless family →
      (change thread).IsStepless family) :
    Twins family (left.modifyThread place id change) (right.modifyThread place id change) := by
  cases id with
  | root =>
      refine h.modifyStrand (fun strand => { strand with root := change strand.root })
        (fun strand => ?_) (fun strand => ?_) ?_ place
      · simp only [Strand.bare, hbare]
      · simp only [Strand.bare, hbare]
      · exact fun _ hall => hall
  | child number =>
      refine h.modifyStrand
        (fun strand => { strand with children := strand.children.modify number change })
        (fun strand => ?_) (fun strand => ?_) ?_ place
      · simp only [Strand.bare, map_modify hunplaced]
      · simp only [Strand.bare, map_modify hunplaced]
      · exact fun _ hall => forall_mem_modify hchildren hall number

theorem mark (h : Twins family left right) (place : Nat) (id : ThreadId) (wake : Wake) :
    Twins family (left.modifyThread place id (Thread.mark wake))
      (right.modifyThread place id (Thread.mark wake)) :=
  h.modifyThread place id (Thread.bare_mark wake) (Thread.unplaced_mark wake)
    fun _ hthread => hthread.mark wake

theorem start (h : Twins family left right) (place : Nat) (id : ThreadId) :
    Twins family (left.modifyThread place id Thread.begin)
      (right.modifyThread place id Thread.begin) :=
  h.modifyThread place id (fun _ => rfl) (fun _ => rfl) fun _ _ => trivial

end Twins

end World

end Cascade
