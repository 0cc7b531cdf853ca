import Cascade.Run.Job

/-!
What can be seen of a state without its code: how each thread stands, the cell of each execution, the
execution that each started thread belongs to, and the past of each execution. Every operation has
its equations for these four views here, so that laws about executions never open an operation.
-/

namespace Cascade

/-- How a thread stands: at its turn, waiting for an execution or for something else, or at its end. -/
inductive Posture
  | running
  | waits (cell : Option Nat) (wake : Wake)
  | finished (isCancelled : Bool)
  deriving DecidableEq

namespace Posture

def mark (wake : Wake) : Posture → Posture
  | waits cell _ => waits cell wake
  | posture => posture

/-- Whether a thread waits and nothing has woken it. -/
def isAsleep : Posture → Bool
  | waits _ .asleep => true
  | _ => false

/-- The execution that a thread waits for. -/
def awaitedCell? : Posture → Option Nat
  | waits cell _ => cell
  | _ => none

/-- The posture of a thread that has ended with a result. -/
def ofResult {β : Type} : Except Fault β → Posture
  | .error fault => finished (fault = World.cancellation)
  | .ok _ => finished false

end Posture

def ThreadStatus.posture {β : Type} : ThreadStatus β → Posture
  | .running => .running
  | .waiting wait wake => .waits wait.cell? wake
  | .finished result => Posture.ofResult result

namespace Thread

variable {β : Type}

def posture (thread : Thread β) : Posture :=
  thread.status.posture

theorem isAsleep_eq (thread : Thread β) : thread.isAsleep = thread.posture.isAsleep := by
  rcases thread with ⟨_, _, _, _ | ⟨_, _ | _ | _⟩ | _ | _⟩ <;> rfl

theorem awaitedCell?_eq (thread : Thread β) :
    thread.awaitedCell? = thread.posture.awaitedCell? := by
  rcases thread with ⟨_, _, _, _ | _ | _ | _⟩ <;> rfl

theorem sleepsOn_eq (cell : Option Nat) (thread : Thread β) :
    thread.sleepsOn cell = decide (thread.posture = .waits cell .asleep) := by
  rcases thread with ⟨_, _, _, _ | ⟨_, _ | _ | _⟩ | _ | _⟩ <;>
    simp [sleepsOn, isAsleep, awaitedCell?, posture, ThreadStatus.posture, Posture.ofResult]
  exact Bool.beq_eq_decide_eq _ _

theorem posture_mark (wake : Wake) (thread : Thread β) :
    (thread.mark wake).posture = thread.posture.mark wake := by
  rcases thread with ⟨_, _, _, _ | _ | _ | _⟩ <;> rfl

theorem due?_eq_some {thread : Thread β} {waiting : Waiting β} {isCancelled : Bool}
    (h : thread.due? = some (waiting, isCancelled)) :
    thread.posture =
      .waits waiting.cell? (if isCancelled then .cancelled else .woken) := by
  rcases thread with ⟨_, _, _, _ | ⟨_, _ | _ | _⟩ | _⟩ <;> simp [due?] at h
  all_goals
    obtain ⟨rfl, rfl⟩ := h
    rfl

end Thread

def Strand.posture? {α : Type} (strand : Strand α) : ThreadId → Option Posture
  | .root => some strand.root.posture
  | .child number => strand.children[number]?.map Thread.posture

/-- The happening of an occurrence that is one of the execution of a number in a strand. -/
def Occurrence.happening? (strand number : Nat) (occurrence : Occurrence) : Option Happening :=
  match occurrence.strand, occurrence.event with
  | some place, .execution execution _ happening =>
      if place = strand ∧ execution = number then some happening else none
  | _, _ => none

namespace World

variable {α : Type}

def posture? (world : World α) (strand : Nat) (thread : ThreadId) : Option Posture :=
  (world.strand? strand).bind fun strand => strand.posture? thread

/-- What has happened to an execution, the newest first. -/
def past (world : World α) (strand number : Nat) : List Happening :=
  world.record.filterMap (Occurrence.happening? strand number)

/-- The execution that a started thread belongs to, and whether its end is that of the execution. -/
def errand? (world : World α) (strand child : Nat) : Option (Nat × Bool) :=
  (world.strand? strand).bind fun strand =>
    strand.children[child]?.bind fun thread => thread.cell.map fun cell => (cell, thread.delivers)

theorem ofThread_eq {γ : Type} (world : World α) (strand : Nat) (thread : ThreadId) (default : γ)
    {property : {β : Type} → Thread β → γ} (view : Posture → γ)
    (h : ∀ {β : Type} (thread : Thread β), property thread = view thread.posture) :
    world.ofThread strand thread default property =
      ((world.posture? strand thread).map view).getD default := by
  unfold ofThread posture?
  cases hstrand : world.strand? strand with
  | none => rfl
  | some current =>
      cases thread with
      | root => simp [Strand.posture?, h]
      | child number =>
          cases hchild : current.children[number]? <;> simp [Strand.posture?, hchild, h]

theorem ofThread_sleepsOn (world : World α) (strand : Nat) (thread : ThreadId)
    (cell : Option Nat) :
    world.ofThread strand thread false (Thread.sleepsOn cell) =
      decide (world.posture? strand thread = some (.waits cell .asleep)) := by
  rw [ofThread_eq world strand thread false
    (fun posture => decide (posture = .waits cell .asleep)) fun thread => thread.sleepsOn_eq cell]
  cases world.posture? strand thread <;> simp

theorem ofThread_isAsleep (world : World α) (strand : Nat) (thread : ThreadId) :
    world.ofThread strand thread false Thread.isAsleep =
      ((world.posture? strand thread).map Posture.isAsleep).getD false :=
  ofThread_eq world strand thread false Posture.isAsleep Thread.isAsleep_eq

theorem ofThread_awaitedCell? (world : World α) (strand : Nat) (thread : ThreadId) :
    world.ofThread strand thread none Thread.awaitedCell? =
      (world.posture? strand thread).bind Posture.awaitedCell? := by
  rw [ofThread_eq world strand thread none Posture.awaitedCell? Thread.awaitedCell?_eq]
  cases world.posture? strand thread <;> rfl

/-! ### Changes of one strand -/

theorem strand?_modifyStrand (number place : Nat) (change : Strand α → Strand α)
    (world : World α) :
    (world.modifyStrand number change).strand? place =
      if number = place then (world.strand? place).map change else world.strand? place := by
  simp only [modifyStrand, strand?, List.getElem?_modify]
  split <;> cases world.strands[place]? <;> simp

/-- A change of strands that keeps how their threads stand. -/
theorem posture?_modifyStrand {change : Strand α → Strand α}
    (h : ∀ strand thread, (change strand).posture? thread = strand.posture? thread)
    (number : Nat) (world : World α) (place : Nat) (thread : ThreadId) :
    (world.modifyStrand number change).posture? place thread = world.posture? place thread := by
  rw [posture?, strand?_modifyStrand, posture?]
  split <;> cases world.strand? place <;> simp [h]

/-- A change of strands that keeps their cells. -/
theorem cell?_modifyStrand {change : Strand α → Strand α}
    (h : ∀ strand, (change strand).cells = strand.cells) (number : Nat) (world : World α)
    (place execution : Nat) :
    (world.modifyStrand number change).cell? place execution = world.cell? place execution := by
  rw [cell?, strand?_modifyStrand, cell?]
  split <;> cases world.strand? place <;> simp [h]

theorem errand?_modifyStrand {change : Strand α → Strand α}
    (h : ∀ strand, (change strand).children = strand.children) (number : Nat) (world : World α)
    (place child : Nat) :
    (world.modifyStrand number change).errand? place child = world.errand? place child := by
  rw [errand?, strand?_modifyStrand, errand?]
  split <;> cases world.strand? place <;> simp [h]

theorem posture?_modifyCell (strand number : Nat) (change : Cell → Cell) (world : World α)
    (place : Nat) (thread : ThreadId) :
    (world.modifyCell strand number change).posture? place thread =
      world.posture? place thread :=
  posture?_modifyStrand (fun _ thread => by cases thread <;> rfl) _ _ _ _

theorem errand?_modifyCell (strand number : Nat) (change : Cell → Cell) (world : World α)
    (place child : Nat) :
    (world.modifyCell strand number change).errand? place child =
      world.errand? place child := by
  unfold modifyCell
  refine errand?_modifyStrand ?_ _ _ _ _
  exact fun _ => rfl

theorem cell?_modifyCell (strand number : Nat) (change : Cell → Cell) (world : World α)
    (place execution : Nat) :
    (world.modifyCell strand number change).cell? place execution =
      if strand = place ∧ number = execution then (world.cell? place execution).map change
      else world.cell? place execution := by
  rw [modifyCell, cell?, strand?_modifyStrand, cell?]
  by_cases hplace : strand = place
  · cases world.strand? place with
    | none => simp [hplace]
    | some current =>
        simp only [hplace, if_true, Option.map_some, Option.bind_some, List.getElem?_modify,
          true_and]
        split <;> cases current.cells[execution]? <;> simp
  · simp [hplace]

theorem posture?_modifyThread {change : {β : Type} → Thread β → Thread β}
    {view : Posture → Posture}
    (h : ∀ {β : Type} (thread : Thread β), (change thread).posture = view thread.posture)
    (strand : Nat) (thread : ThreadId) (world : World α) (place : Nat) (other : ThreadId) :
    (world.modifyThread strand thread change).posture? place other =
      if strand = place ∧ thread = other then (world.posture? place other).map view
      else world.posture? place other := by
  rw [modifyThread, posture?, strand?_modifyStrand, posture?]
  by_cases hplace : strand = place
  · cases world.strand? place with
    | none => simp [hplace]
    | some current =>
        cases thread with
        | root => cases other <;> simp [hplace, Strand.posture?, h]
        | child number =>
            cases other with
            | root => simp [hplace, Strand.posture?]
            | child index =>
                simp only [hplace, if_true, Option.map_some, Option.bind_some, Strand.posture?,
                  List.getElem?_modify, true_and, ThreadId.child.injEq]
                split <;> cases current.children[index]? <;> simp [h]
  · simp [hplace]

theorem cell?_modifyThread (strand : Nat) (thread : ThreadId)
    (change : {β : Type} → Thread β → Thread β) (world : World α) (place execution : Nat) :
    (world.modifyThread strand thread change).cell? place execution =
      world.cell? place execution :=
  cell?_modifyStrand (fun _ => by cases thread <;> rfl) _ _ _ _

theorem errand?_modifyThread {change : {β : Type} → Thread β → Thread β}
    (h : ∀ {β : Type} (thread : Thread β),
      (change thread).cell = thread.cell ∧ (change thread).delivers = thread.delivers)
    (strand : Nat) (thread : ThreadId) (world : World α) (place child : Nat) :
    (world.modifyThread strand thread change).errand? place child =
      world.errand? place child := by
  rw [modifyThread, errand?, strand?_modifyStrand, errand?]
  split
  · cases world.strand? place with
    | none => rfl
    | some current =>
        cases thread with
        | root => rfl
        | child number =>
            simp only [Option.map_some, Option.bind_some, List.getElem?_modify]
            split <;> cases current.children[child]? <;> simp [h]
  · rfl

/-! ### Threads -/

theorem posture?_mark (wake : Wake) (strand : Nat) (thread : ThreadId) (world : World α)
    (place : Nat) (other : ThreadId) :
    (world.modifyThread strand thread (Thread.mark wake)).posture? place other =
      if strand = place ∧ thread = other then
        (world.posture? place other).map (Posture.mark wake)
      else world.posture? place other :=
  posture?_modifyThread (Thread.posture_mark wake) _ _ _ _ _

theorem errand?_mark (wake : Wake) (strand : Nat) (thread : ThreadId) (world : World α)
    (place child : Nat) :
    (world.modifyThread strand thread (Thread.mark wake)).errand? place child =
      world.errand? place child :=
  errand?_modifyThread (fun thread => by
    rcases thread with ⟨_, _, _, _ | _ | _⟩ <;> exact ⟨rfl, rfl⟩) _ _ _ _ _

theorem posture?_begin (strand : Nat) (thread : ThreadId) (world : World α) (place : Nat)
    (other : ThreadId) :
    (world.modifyThread strand thread Thread.begin).posture? place other =
      if strand = place ∧ thread = other then (world.posture? place other).map fun _ => .running
      else world.posture? place other :=
  posture?_modifyThread (fun _ => rfl) _ _ _ _ _

theorem errand?_begin (strand : Nat) (thread : ThreadId) (world : World α) (place child : Nat) :
    (world.modifyThread strand thread Thread.begin).errand? place child =
      world.errand? place child := by
  refine errand?_modifyThread ?_ _ _ _ _ _
  exact fun _ => ⟨rfl, rfl⟩

theorem posture?_wake (strand : Nat) (thread : ThreadId) (cell : Option Nat) (world : World α)
    (place : Nat) (other : ThreadId) :
    (world.wake strand thread cell).posture? place other =
      if strand = place ∧ thread = other ∧
          world.posture? strand thread = some (.waits cell .asleep) then
        some (.waits cell .woken)
      else world.posture? place other := by
  rw [wake, ofThread_sleepsOn]
  by_cases h : world.posture? strand thread = some (.waits cell .asleep)
  · simp only [h, decide_true, if_true]
    change (world.modifyThread strand thread (Thread.mark .woken)).posture? place other = _
    rw [posture?_mark]
    by_cases hsame : strand = place ∧ thread = other
    · obtain ⟨rfl, rfl⟩ := hsame
      simp [h, Posture.mark]
    · rw [if_neg hsame, if_neg fun hall => hsame ⟨hall.1, hall.2.1⟩]
  · simp [h]

theorem cell?_wake (strand : Nat) (thread : ThreadId) (cell : Option Nat) (world : World α)
    (place execution : Nat) :
    (world.wake strand thread cell).cell? place execution = world.cell? place execution := by
  rw [wake]
  split
  · exact cell?_modifyThread strand thread (Thread.mark .woken) world place execution
  · rfl

theorem errand?_wake (strand : Nat) (thread : ThreadId) (cell : Option Nat) (world : World α)
    (place child : Nat) :
    (world.wake strand thread cell).errand? place child = world.errand? place child := by
  rw [wake]
  split
  · exact errand?_mark _ _ _ _ _ _
  · rfl

theorem past_wake (strand : Nat) (thread : ThreadId) (cell : Option Nat) (world : World α)
    (place execution : Nat) :
    (world.wake strand thread cell).past place execution = world.past place execution := by
  rw [wake]
  split <;> rfl

/-- A thread goes on with the outcome that it waited for. -/
theorem resumed_cell {β : Type} {scope : Scope} {world : World α} {number : Nat} {cell : Cell}
    {outcome : Outcome} (hcell : world.cell? scope.strand number = some cell)
    (houtcome : world.outcome? scope.strand number = some outcome) (next : Outcome → Routine β) :
    world.resumed scope (.cell number next) =
      (world.noteExecution { scope with step := cell.step } number cell.command
        (.yielded outcome), next outcome) := by
  simp only [resumed, hcell, houtcome]

/-! ### The record -/

theorem past_write (occurrence : Occurrence) (world : World α) (place execution : Nat) :
    (world.write occurrence).past place execution =
      (occurrence.happening? place execution).toList ++ world.past place execution := by
  unfold past write
  cases h : occurrence.happening? place execution <;> simp [h]

theorem past_noteExecution (scope : Scope) (number : Nat) (command : Command)
    (happening : Happening) (world : World α) (place execution : Nat) :
    (world.noteExecution scope number command happening).past place execution =
      if scope.strand = place ∧ number = execution then happening :: world.past place execution
      else world.past place execution := by
  rw [noteExecution, note, past_write]
  simp only [Occurrence.happening?]
  split <;> simp

theorem past_tell (strand number : Nat) (command : Command) (happening : Happening)
    (world : World α) (place execution : Nat) :
    (world.tell strand number command happening).past place execution =
      if strand = place ∧ number = execution then happening :: world.past place execution
      else world.past place execution := by
  rw [tell, past_write]
  simp only [Occurrence.happening?]
  split <;> simp

/-! ### Opening cells and starting threads -/

theorem cellCount_eq_of_strand? {world : World α} {place : Nat} {strand : Strand α}
    (h : world.strand? place = some strand) : world.cellCount place = strand.cells.length := by
  simp [cellCount, h]

theorem cell?_cellCount (world : World α) (place : Nat) :
    world.cell? place (world.cellCount place) = none := by
  unfold cell? cellCount
  cases world.strand? place <;> simp

theorem cell?_openCell {scope : Scope} {world : World α} {strand : Strand α}
    (h : world.strand? scope.strand = some strand) (command : Command) (state : CellState)
    (place execution : Nat) :
    (world.openCell scope command state).cell? place execution =
      if scope.strand = place ∧ execution = world.cellCount scope.strand then
        some ⟨command, scope.thread, scope.step, state, none⟩
      else world.cell? place execution := by
  rw [openCell, cell?, strand?_modifyStrand, cell?, cellCount_eq_of_strand? h]
  by_cases hplace : scope.strand = place
  · subst hplace
    simp only [h, if_true, Option.map_some, Option.bind_some, true_and]
    rw [List.getElem?_append]
    split
    · rw [if_neg (by omega)]
    · split
      · simp_all
      · rw [List.getElem?_eq_none (by simp; omega), List.getElem?_eq_none (by omega)]
  · simp [hplace]

theorem posture?_openCell (scope : Scope) (command : Command) (state : CellState)
    (world : World α) (place : Nat) (thread : ThreadId) :
    (world.openCell scope command state).posture? place thread = world.posture? place thread :=
  posture?_modifyStrand (fun _ thread => by cases thread <;> rfl) _ _ _ _

theorem errand?_openCell (scope : Scope) (command : Command) (state : CellState)
    (world : World α) (place child : Nat) :
    (world.openCell scope command state).errand? place child =
      world.errand? place child := by
  unfold openCell
  refine errand?_modifyStrand ?_ _ _ _ _
  exact fun _ => rfl

theorem cell?_spawn (scope : Scope) (cell : Nat) (delivers : Bool) (body : Routine Value)
    (world : World α) (place execution : Nat) :
    (world.spawn scope cell delivers body).cell? place execution =
      world.cell? place execution := by
  unfold spawn
  refine Eq.trans rfl (cell?_modifyStrand ?_ _ _ _ _)
  exact fun _ => rfl

theorem childCount_eq_of_strand? {world : World α} {place : Nat} {strand : Strand α}
    (h : world.strand? place = some strand) : world.childCount place = strand.children.length := by
  simp [childCount, h]

theorem posture?_childCount (world : World α) (place : Nat) :
    world.posture? place (.child (world.childCount place)) = none := by
  unfold posture? childCount
  cases world.strand? place <;> simp [Strand.posture?]

theorem posture?_spawn {scope : Scope} {world : World α} {strand : Strand α}
    (h : world.strand? scope.strand = some strand) (cell : Nat) (delivers : Bool)
    (body : Routine Value) (place : Nat) (thread : ThreadId) :
    (world.spawn scope cell delivers body).posture? place thread =
      if scope.strand = place ∧ thread = .child (world.childCount scope.strand) then
        some (.waits none .woken)
      else world.posture? place thread := by
  change (World.modifyStrand scope.strand _ world).posture? place thread = _
  rw [posture?, strand?_modifyStrand, posture?, childCount_eq_of_strand? h]
  by_cases hplace : scope.strand = place
  · subst hplace
    cases thread with
    | root => simp [h, Strand.posture?]
    | child number =>
        simp only [h, if_true, Option.map_some, Option.bind_some, Strand.posture?, true_and,
          ThreadId.child.injEq, List.getElem?_append]
        rcases Nat.lt_trichotomy number strand.children.length with hlt | heq | hgt
        · rw [if_pos hlt, if_neg (by omega)]
        · subst heq
          simp [Thread.start, Thread.posture, ThreadStatus.posture, Waiting.cell?]
        · rw [if_neg (by omega), if_neg (by omega), List.getElem?_eq_none (by simp; omega),
            List.getElem?_eq_none (by omega)]
  · simp [hplace]

theorem errand?_spawn {scope : Scope} {world : World α} {strand : Strand α}
    (h : world.strand? scope.strand = some strand) (cell : Nat) (delivers : Bool)
    (body : Routine Value) (place child : Nat) :
    (world.spawn scope cell delivers body).errand? place child =
      if scope.strand = place ∧ child = world.childCount scope.strand then some (cell, delivers)
      else world.errand? place child := by
  change (World.modifyStrand scope.strand _ world).errand? place child = _
  rw [errand?, strand?_modifyStrand, errand?, childCount_eq_of_strand? h]
  by_cases hplace : scope.strand = place
  · subst hplace
    simp only [h, if_true, Option.map_some, Option.bind_some, true_and, List.getElem?_append]
    rcases Nat.lt_trichotomy child strand.children.length with hlt | heq | hgt
    · rw [if_pos hlt, if_neg (by omega)]
    · subst heq
      simp [Thread.start]
    · rw [if_neg (by omega), if_neg (by omega), List.getElem?_eq_none (by simp; omega),
        List.getElem?_eq_none (by omega)]
  · simp [hplace]

/-! ### Storing the state of a thread -/

theorem posture?_setRoot (strand : Nat) (status : ThreadStatus α) (world : World α) (place : Nat)
    (thread : ThreadId) :
    (world.setRoot strand status).posture? place thread =
      if strand = place ∧ .root = thread then
        (world.posture? place thread).map fun _ => status.posture
      else world.posture? place thread := by
  rw [setRoot, posture?, strand?_modifyStrand, posture?]
  by_cases hplace : strand = place
  · cases world.strand? place with
    | none => simp [hplace]
    | some current => cases thread <;> simp [hplace, Strand.posture?, Thread.posture]
  · simp [hplace]

theorem cell?_setRoot (strand : Nat) (status : ThreadStatus α) (world : World α)
    (place execution : Nat) :
    (world.setRoot strand status).cell? place execution = world.cell? place execution := by
  unfold setRoot
  refine cell?_modifyStrand ?_ _ _ _ _
  exact fun _ => rfl

theorem errand?_setRoot (strand : Nat) (status : ThreadStatus α) (world : World α)
    (place child : Nat) :
    (world.setRoot strand status).errand? place child = world.errand? place child := by
  unfold setRoot
  refine errand?_modifyStrand ?_ _ _ _ _
  exact fun _ => rfl

theorem posture?_setChild (strand number : Nat) (status : ThreadStatus Value) (world : World α)
    (place : Nat) (thread : ThreadId) :
    (world.setChild strand number status).posture? place thread =
      if strand = place ∧ .child number = thread then
        (world.posture? place thread).map fun _ => status.posture
      else world.posture? place thread := by
  rw [setChild, posture?, strand?_modifyStrand, posture?]
  by_cases hplace : strand = place
  · cases world.strand? place with
    | none => simp [hplace]
    | some current =>
        cases thread with
        | root => simp [hplace, Strand.posture?]
        | child index =>
            simp only [hplace, if_true, Option.map_some, Option.bind_some, Strand.posture?,
              List.getElem?_modify, true_and, ThreadId.child.injEq]
            split <;> cases current.children[index]? <;> simp [Thread.posture]
  · simp [hplace]

theorem cell?_setChild (strand number : Nat) (status : ThreadStatus Value) (world : World α)
    (place execution : Nat) :
    (world.setChild strand number status).cell? place execution =
      world.cell? place execution := by
  unfold setChild
  refine cell?_modifyStrand ?_ _ _ _ _
  exact fun _ => rfl

theorem errand?_setChild (strand number : Nat) (status : ThreadStatus Value) (world : World α)
    (place child : Nat) :
    (world.setChild strand number status).errand? place child = world.errand? place child := by
  rw [setChild, errand?, strand?_modifyStrand, errand?]
  split
  · cases world.strand? place with
    | none => rfl
    | some current =>
        simp only [Option.map_some, Option.bind_some, List.getElem?_modify]
        split <;> cases current.children[child]? <;> rfl
  · rfl

/-- A state after the new posture of a thread was stored in it. -/
structure Stored (strand : Nat) (thread : ThreadId) (posture : Posture) (before after : World α) :
    Prop where
  posture : ∀ place id, after.posture? place id =
    if strand = place ∧ thread = id then (before.posture? place id).map fun _ => posture
    else before.posture? place id
  cell : ∀ place number, after.cell? place number = before.cell? place number
  errand : ∀ place child, after.errand? place child = before.errand? place child
  record : after.record = before.record
  queue : ∃ jobs, after.queue = before.queue ++ jobs
  clock : after.clock = before.clock

theorem stored_setRoot (strand : Nat) (status : ThreadStatus α) (world : World α) :
    Stored strand .root status.posture world (world.setRoot strand status) :=
  ⟨posture?_setRoot strand status world, cell?_setRoot strand status world,
    errand?_setRoot strand status world, rfl, ⟨[], (List.append_nil _).symm⟩, rfl⟩

theorem stored_setChild (strand number : Nat) (status : ThreadStatus Value) (world : World α) :
    Stored strand (.child number) status.posture world (world.setChild strand number status) :=
  ⟨posture?_setChild strand number status world, cell?_setChild strand number status world,
    errand?_setChild strand number status world, rfl, ⟨[], (List.append_nil _).symm⟩, rfl⟩

theorem stored_close {β : Type} {strand : Nat} {thread : ThreadId} {posture : Posture}
    {before after : World α} (h : Stored strand thread posture before after)
    (hqueue : after.queue = before.queue) (job : Job) (status : ThreadStatus β) :
    Stored strand thread posture before (after.close job status) := by
  cases status with
  | finished result =>
      exact ⟨h.posture, h.cell, h.errand, h.record, ⟨[job], by rw [← hqueue]; rfl⟩, h.clock⟩
  | running => exact h
  | waiting wait wake => exact h

/-- Resuming a thread whose turn has not come changes nothing. Otherwise the thread has its turn, and
its new state is stored. -/
theorem resume_cases (strand : Nat) (thread : ThreadId) (world : World α) :
    (world.resume strand thread = world ∧
      ∀ cell wake, world.posture? strand thread = some (.waits cell wake) → wake = .asleep) ∨
    ∃ (β : Type) (step cell : Option Nat) (waiting : Waiting β) (isCancelled : Bool)
      (after : World α) (status : ThreadStatus β),
      world.posture? strand thread =
        some (.waits waiting.cell? (if isCancelled then .cancelled else .woken)) ∧
      (world.modifyThread strand thread Thread.begin).turn ⟨strand, thread, step, cell⟩ waiting
        isCancelled = (after, status) ∧
      Stored strand thread status.posture after (world.resume strand thread) := by
  have hrest : ∀ {β : Type} {other : Thread β}, other.due? = none →
      ∀ cell wake, other.posture = .waits cell wake → wake = .asleep := by
    intro β other hdue cell wake hstands
    rcases other with ⟨_, _, _, _ | ⟨waiting, mark⟩ | result⟩
    · cases hstands
    · cases mark with
      | asleep => exact (Posture.waits.inj hstands).2.symm
      | woken => cases hdue
      | cancelled => cases hdue
    · rcases result with _ | _ <;> cases hstands
  cases hstrand : world.strand? strand with
  | none =>
      left
      simp [World.resume, posture?, hstrand]
  | some current =>
      cases thread with
      | root =>
          have hroot : world.posture? strand .root = some current.root.posture := by
            rw [posture?, hstrand]
            rfl
          cases hdue : current.root.due? with
          | none =>
              refine .inl ⟨by simp [World.resume, hstrand, hdue], fun cell wake hstands => ?_⟩
              exact hrest hdue cell wake (Option.some.inj (hroot.symm.trans hstands))
          | some due =>
              obtain ⟨waiting, isCancelled⟩ := due
              rcases hturn : (world.modifyThread strand .root Thread.begin).turn
                ⟨strand, .root, current.root.step, current.root.cell⟩ waiting isCancelled with
                ⟨after, status⟩
              refine .inr ⟨α, current.root.step, current.root.cell, waiting, isCancelled, after,
                status, ?_, hturn, ?_⟩
              · rw [hroot, Thread.due?_eq_some hdue]
              · simp only [World.resume, hstrand, hdue, hturn]
                exact stored_close (stored_setRoot strand status after) rfl _ _
      | child number =>
          have hchild : world.posture? strand (.child number) =
              current.children[number]?.map Thread.posture := by
            rw [posture?, hstrand]
            rfl
          cases hfound : current.children[number]? with
          | none =>
              rw [hfound] at hchild
              refine .inl ⟨by simp [World.resume, hstrand, hfound], fun cell wake hstands => ?_⟩
              rw [hchild] at hstands
              cases hstands
          | some other =>
              rw [hfound, Option.map_some] at hchild
              cases hdue : other.due? with
              | none =>
                  refine .inl ⟨by simp [World.resume, hstrand, hfound, hdue],
                    fun cell wake hstands => ?_⟩
                  exact hrest hdue cell wake (Option.some.inj (hchild.symm.trans hstands))
              | some due =>
                  obtain ⟨waiting, isCancelled⟩ := due
                  rcases hturn : (world.modifyThread strand (.child number) Thread.begin).turn
                    ⟨strand, .child number, other.step, other.cell⟩ waiting isCancelled with
                    ⟨after, status⟩
                  refine .inr ⟨Value, other.step, other.cell, waiting, isCancelled, after, status,
                    ?_, hturn, ?_⟩
                  · rw [hchild, Thread.due?_eq_some hdue]
                  · simp only [World.resume, hstrand, hfound, hdue, hturn, Option.bind_some,
                      Option.map_some]
                    exact stored_close (stored_setChild strand number status after) rfl _ _

end World

end Cascade
