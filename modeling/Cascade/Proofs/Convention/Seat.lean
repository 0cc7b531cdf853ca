import Cascade.Proofs.Convention.Face
import Cascade.Proofs.Siblings.Time

/-!
The turns of threads in a run of one strand in which never more than one thing can happen next. A seat is
the place of a thread in the strand; between two of its turns the thread waits for a time or for an
execution, and then everything goes on from where it was.
-/

namespace Cascade

variable {α β : Type}

/-! ### Passing on -/

namespace World

/-- The next thing to happen in a run whose supervisor does nothing: a job, or the next timer. -/
def pass? (world : World α) : Option (World α) :=
  match world.queue with
  | [] => world.advance?
  | .announce _ :: _ | .supervise :: _ => none
  | job :: rest => some ({ world with queue := rest }.perform job)

/-- A number of things happen, one after the other. -/
def passes : Nat → World α → Option (World α)
  | 0, world => some world
  | count + 1, world => world.pass?.bind (passes count)

variable {world middle last : World α}

theorem passes_add (first second : Nat) (world : World α) :
    world.passes (first + second) = (world.passes first).bind (passes second) := by
  induction first generalizing world with
  | zero => rw [Nat.zero_add]; rfl
  | succ first ih =>
      rw [Nat.succ_add, passes, passes, Option.bind_assoc]
      exact congrArg world.pass?.bind (funext ih)

theorem passes_trans {first second : Nat} (h : world.passes first = some middle)
    (k : middle.passes second = some last) : world.passes (first + second) = some last := by
  rw [passes_add, h]
  exact k

/-- A run comes to its end after a number of passes: only the supervisor is left. -/
structure Ends (count : Nat) (world last : World α) : Prop where
  passes : world.passes count = some last
  rests : last.pass? = none
  announced : last.queue ≠ []

/-- A timer whose time is too large for a number keeps a run from going on. -/
def Overflows (world : World α) : Prop :=
  ∃ count last, world.passes count = some last ∧ last.pass? = none ∧ last.queue = [] ∧
    ∃ timer ∈ last.timers, ¬ timer.due.IsFinite

/-- Every timer of a run is due at a finite time. -/
def Timely (world : World α) : Prop :=
  ∀ count later, world.passes count = some later → ∀ timer ∈ later.timers, timer.due.IsFinite

theorem Timely.passes (h : world.Timely) {count : Nat} (hpasses : world.passes count = some middle) :
    middle.Timely :=
  fun _ later hlater => h _ later (passes_trans hpasses hlater)

theorem Overflows.of_passes {count : Nat} (hpasses : world.passes count = some middle)
    (h : middle.Overflows) : world.Overflows := by
  obtain ⟨more, last, hmore, hlast⟩ := h
  exact ⟨count + more, last, passes_trans hpasses hmore, hlast⟩

theorem passes_of_le {first second : Nat} (hle : first ≤ second)
    (h : world.passes first = some middle) (k : world.passes second = some last) :
    middle.passes (second - first) = some last := by
  have hsum : world.passes (first + (second - first)) = some last := by
    rwa [Nat.add_sub_of_le hle]
  rwa [passes_add, h] at hsum

theorem eq_of_rests {first second : Nat} (h : world.passes first = some middle)
    (hrests : middle.pass? = none) (hle : first ≤ second) (k : world.passes second = some last) :
    first = second ∧ middle = last := by
  have hrest := passes_of_le hle h k
  cases hcount : second - first with
  | zero =>
      rw [hcount] at hrest
      exact ⟨by omega, Option.some.inj hrest⟩
  | succ count =>
      rw [hcount, World.passes, hrests] at hrest
      cases hrest

/-- What passes in a run that comes to its end is a part of what leads to the end. -/
theorem Ends.rest {count first : Nat} (h : Ends count world last)
    (hpasses : world.passes first = some middle) :
    first ≤ count ∧ Ends (count - first) middle last := by
  have hle : first ≤ count := by
    rcases Nat.le_total first count with hle | hge
    · exact hle
    · exact Nat.le_of_eq (eq_of_rests h.passes h.rests hge hpasses).1.symm
  exact ⟨hle, passes_of_le hle hpasses h.passes, h.rests, h.announced⟩

end World

/-! ### Seats -/

/-- The place of a thread in a strand, with the type of its result. -/
inductive Seat (α : Type) : Type → Type 1
  | root : Seat α α
  | child (number : Nat) : Seat α Value

namespace Seat

def thread : Seat α β → ThreadId
  | root => .root
  | child number => .child number

def job : Seat α β → Job
  | root => .announce 0
  | child number => .deliver 0 number

def put : Seat α β → ThreadStatus β → Strand α → Strand α
  | root, status, strand => { strand with root := { strand.root with status := status } }
  | child number, status, strand =>
      { strand with
          children := strand.children.modify number fun child => { child with status := status } }

/-- The thread is in a state, and its code runs in a scope. -/
def Stands : Seat α β → ThreadStatus β → Scope → Strand α → Prop
  | root, status, scope, strand =>
      strand.root.status = status ∧ scope = ⟨0, .root, strand.root.step, strand.root.cell⟩
  | child number, status, scope, strand => ∃ thread, strand.children[number]? = some thread ∧
      thread.status = status ∧ scope = ⟨0, .child number, thread.step, thread.cell⟩

/-- The thread has its turn. -/
abbrev Runs (seat : Seat α β) : Scope → Strand α → Prop :=
  seat.Stands .running

/-- The end of a turn: the state of the thread is stored, and its end is made known. -/
def leave (seat : Seat α β) (turn : World α × Suspension β) : World α :=
  (turn.1.modifyStrand 0 (seat.put turn.2.status)).close seat.job turn.2.status

variable {seat : Seat α β} {scope : Scope} {strand : Strand α} {world : World α}
  {status : ThreadStatus β} {waiting : Waiting β}

theorem Stands.strand_eq (h : seat.Stands status scope strand) : scope.strand = 0 := by
  cases seat with
  | root => exact congrArg Scope.strand h.2
  | child number =>
      obtain ⟨thread, -, -, rfl⟩ := h
      rfl

theorem Stands.thread_eq (h : seat.Stands status scope strand) : scope.thread = seat.thread := by
  cases seat with
  | root => exact congrArg Scope.thread h.2
  | child number =>
      obtain ⟨thread, -, -, rfl⟩ := h
      rfl

@[simp]
theorem put_put (seat : Seat α β) (first second : ThreadStatus β) (strand : Strand α) :
    seat.put second (seat.put first strand) = seat.put second strand := by
  cases seat with
  | root => rfl
  | child number => simp only [put, List.modify_modify_eq]; rfl

theorem put_of_stands (h : seat.Stands status scope strand) : seat.put status strand = strand := by
  cases seat with
  | root =>
      obtain ⟨rfl, -⟩ := h
      rfl
  | child number =>
      obtain ⟨thread, hthread, rfl, -⟩ := h
      have hsame : strand.children.modify number (fun child => { child with status := thread.status }) =
          strand.children := by
        refine List.ext_getElem? fun index => ?_
        rw [List.getElem?_modify]
        split
        · rename_i heq
          subst heq
          rw [hthread]
          rfl
        · exact Option.map_id'
      rw [put, hsame]

/-- Storing a state changes nothing else about the thread. -/
theorem Stands.put (h : seat.Stands status scope strand) (other : ThreadStatus β) :
    seat.Stands other scope (seat.put other strand) := by
  cases seat with
  | root => exact ⟨rfl, h.2⟩
  | child number =>
      obtain ⟨thread, hthread, -, rfl⟩ := h
      refine ⟨{ thread with status := other }, ?_, rfl, rfl⟩
      rw [Seat.put, List.getElem?_modify_eq, hthread]
      rfl

theorem Stands.put_other {γ : Type} (h : seat.Stands status scope strand) {other : Seat α γ}
    (hne : other.thread ≠ seat.thread) (changed : ThreadStatus γ) :
    seat.Stands status scope (other.put changed strand) := by
  cases seat with
  | root =>
      cases other with
      | root => exact absurd rfl hne
      | child number => exact h
  | child number =>
      cases other with
      | root => exact h
      | child place =>
          obtain ⟨thread, hthread, hrest⟩ := h
          refine ⟨thread, ?_, hrest⟩
          have hplace : place ≠ number := fun heq => hne (heq ▸ rfl)
          rw [Seat.put, List.getElem?_modify_ne _ _ hplace, hthread]

theorem Stands.congr {other : Strand α} (h : seat.Stands status scope strand)
    (hroot : other.root = strand.root) (hchildren : strand.children <+: other.children) :
    seat.Stands status scope other := by
  cases seat with
  | root =>
      rw [Stands, hroot]
      exact h
  | child number =>
      obtain ⟨thread, hthread, hrest⟩ := h
      refine ⟨thread, ?_, hrest⟩
      obtain ⟨rest, hrest⟩ := hchildren
      rw [← hrest, List.getElem?_append_left (List.getElem?_eq_some_iff.mp hthread).1, hthread]

theorem modifyThread_put {change : {γ : Type} → Thread γ → Thread γ} {result : ThreadStatus β}
    (hchange : ∀ thread : Thread β,
      change { thread with status := status } = { thread with status := result })
    (hstrands : world.strands = [seat.put status strand]) :
    world.modifyThread 0 seat.thread change = { world with strands := [seat.put result strand] } := by
  rw [World.modifyThread, World.modifyStrand, hstrands, List.modify_zero_cons]
  cases seat with
  | root => simp only [thread, put, hchange]
  | child number =>
      simp only [thread, put, List.modify_modify_eq]
      rw [show (change ∘ fun child => { child with status := status }) =
        fun child : Thread Value => { child with status := result } from funext hchange]

theorem ofThread_put {γ : Type} {default : γ} {property : {δ : Type} → Thread δ → γ} {value : γ}
    (h : seat.Runs scope strand)
    (hproperty : ∀ thread : Thread β, property { thread with status := status } = value)
    (hstrands : world.strands = [seat.put status strand]) :
    world.ofThread 0 seat.thread default property = value := by
  rw [World.ofThread, World.strand?, hstrands]
  cases seat with
  | root => exact hproperty strand.root
  | child number =>
      obtain ⟨thread, hthread, -, -⟩ := h
      change ((strand.children.modify number fun child =>
        { child with status := status })[number]?.map property).getD default = value
      rw [List.getElem?_modify_eq, hthread]
      exact hproperty thread

theorem wake_of_runs (h : seat.Runs scope strand) (hstrands : world.strands = [strand])
    (cell : Option Nat) : world.wake 0 seat.thread cell = world := by
  rw [← put_of_stands h] at hstrands
  have hnot : world.ofThread 0 seat.thread false (Thread.sleepsOn cell) = false :=
    ofThread_put h (fun thread => rfl) hstrands
  rw [World.wake, hnot]
  rfl

theorem wake_of_asleep (h : seat.Runs scope strand)
    (hstrands : world.strands = [seat.put (.waiting waiting .asleep) strand]) :
    world.wake 0 seat.thread waiting.cell? = { world with
      strands := [seat.put (.waiting waiting .woken) strand]
      queue := world.queue ++ [.resume 0 seat.thread] } := by
  have hasleep : world.ofThread 0 seat.thread false (Thread.sleepsOn waiting.cell?) = true :=
    ofThread_put h (fun thread => show Thread.sleepsOn waiting.cell?
      { thread with status := .waiting waiting .asleep } = true from
        beq_self_eq_true waiting.cell?) hstrands
  have hmark : world.modifyThread 0 seat.thread (Thread.mark .woken) =
      { world with strands := [seat.put (.waiting waiting .woken) strand] } :=
    modifyThread_put (fun thread => rfl) hstrands
  rw [World.wake, if_pos hasleep, hmark]
  rfl

theorem resume_of_woken (h : seat.Runs scope strand)
    (hstrands : world.strands = [seat.put (.waiting waiting .woken) strand]) :
    world.resume 0 seat.thread =
      seat.leave (((World.resumed scope waiting { world with strands := [strand] }).2).run scope
        (World.resumed scope waiting { world with strands := [strand] }).1) := by
  have hbegin : world.modifyThread 0 seat.thread Thread.begin =
      { world with strands := [strand] } := by
    have hput : world.modifyThread 0 seat.thread Thread.begin =
        { world with strands := [seat.put .running strand] } :=
      modifyThread_put (fun thread => rfl) hstrands
    rwa [put_of_stands h] at hput
  have hstrand : world.strand? 0 = some (seat.put (.waiting waiting .woken) strand) := by
    rw [World.strand?, hstrands]
    rfl
  rw [leave, World.resume.eq_def, hstrand, hbegin]
  cases seat with
  | root =>
      obtain ⟨-, rfl⟩ := h
      simp only [thread, put, Thread.due?, World.turn_of_not_cancelled]
      rfl
  | child number =>
      obtain ⟨thread, hthread, -, rfl⟩ := h
      simp only [Seat.thread, put, List.getElem?_modify_eq, hthread, Option.map_eq_map, Option.map_some,
        Option.bind_some, Thread.due?, World.turn_of_not_cancelled]
      rfl

theorem leave_ended (hstrands : world.strands = [strand]) (result : Except Fault β) :
    seat.leave (world, .ended result) = { world with
      strands := [seat.put (.finished result) strand]
      queue := world.queue ++ [seat.job] } := by
  simp only [leave, Suspension.status, World.close, World.modifyStrand, hstrands, List.modify_zero_cons]
  rfl

end Seat

/-! ### One thing at a time -/

/-- The thread of a seat has its turn in a run of one strand, and nothing else can happen. -/
structure Midway (seat : Seat α β) (scope : Scope) (strand : Strand α) (world : World α) : Prop where
  strands : world.strands = [strand]
  queue : world.queue = []
  timers : world.timers = []
  waiters : world.waiters = []
  runs : seat.Runs scope strand

namespace World

variable {seat : Seat α β} {scope : Scope} {strand : Strand α} {world : World α} {waiting : Waiting β}

theorem pass?_resume (h : Midway seat scope strand world) (waiting : Waiting β) :
    ({ world with
        strands := [seat.put (.waiting waiting .woken) strand]
        queue := [.resume 0 seat.thread] } : World α).pass? =
      some (seat.leave ((world.resumed scope waiting).2.run scope (world.resumed scope waiting).1)) := by
  have hworld : ({ world with strands := [strand], queue := [] } : World α) = world := by
    rw [← h.strands, ← h.queue]
  have hturn : World.resume 0 seat.thread
      { world with strands := [seat.put (.waiting waiting .woken) strand], queue := [] } = _ :=
    Seat.resume_of_woken h.runs rfl
  rw [hworld] at hturn
  exact congrArg some hturn

theorem passes_of_pass? {middle last : World α} (h : world.pass? = some middle) {count : Nat}
    (k : middle.passes count = some last) : world.passes (count + 1) = some last := by
  rw [passes, h]
  exact k

end World

end Cascade
