import Cascade.Proofs.Convention.Begin

/-!
How executions come to their end. An outcome that comes later, or the end of the thread that was started,
gives the caller its turn again, and everything goes on as if the call had given the outcome itself.
-/

namespace Cascade

theorem prefix_modify {γ : Type} {items more : List γ} (h : items <+: more) (index : Nat)
    (change : γ → γ) : items.modify index change <+: more.modify index change := by
  obtain ⟨rest, rfl⟩ := h
  induction items generalizing index with
  | nil =>
      rw [List.modify_nil]
      exact List.nil_prefix
  | cons item items ih =>
      cases index with
      | zero => exact List.prefix_append _ _
      | succ index => exact List.cons_prefix_cons.mpr ⟨rfl, ih index⟩

theorem prefix_modify_of_le {γ : Type} {items more : List γ} (h : items <+: more) {index : Nat}
    (hle : items.length ≤ index) (change : γ → γ) : items <+: more.modify index change := by
  have hmodify := prefix_modify h index change
  rwa [List.modify_eq_self hle] at hmodify

theorem getElem?_of_prefix {γ : Type} {items more : List γ} (h : items <+: more) {index : Nat} {item : γ}
    (hitem : items[index]? = some item) : more[index]? = some item := by
  obtain ⟨rest, rfl⟩ := h
  rw [List.getElem?_append_left (List.getElem?_eq_some_iff.mp hitem).1, hitem]

variable {α β : Type}

/-! ### Strands while a thread waits -/

namespace Seat

variable {seat : Seat α β}

theorem put_comm {γ : Type} {other : Seat α γ} (hne : other.thread ≠ seat.thread)
    (status : ThreadStatus β) (changed : ThreadStatus γ) (strand : Strand α) :
    seat.put status (other.put changed strand) = other.put changed (seat.put status strand) := by
  cases seat with
  | root =>
      cases other with
      | root => exact absurd rfl hne
      | child number => rfl
  | child number =>
      cases other with
      | root => rfl
      | child place =>
          have hplace : place ≠ number := fun heq => hne (heq ▸ rfl)
          simp only [put, List.modify_modify_ne _ _ _ hplace]

theorem put_cells (seat : Seat α β) (status : ThreadStatus β) (strand : Strand α) :
    (seat.put status strand).cells = strand.cells := by
  cases seat <;> rfl

theorem put_modifyCells (seat : Seat α β) (status : ThreadStatus β) (strand : Strand α)
    (cells : List Cell) :
    seat.put status { strand with cells := cells } = { seat.put status strand with cells := cells } := by
  cases seat <;> rfl

theorem put_states (seat : Seat α β) (status : ThreadStatus β) (strand : Strand α) :
    (seat.put status strand).states = strand.states := by
  cases seat <;> rfl

theorem put_invocations (seat : Seat α β) (status : ThreadStatus β) (strand : Strand α) :
    (seat.put status strand).invocations = strand.invocations := by
  cases seat <;> rfl

theorem getElem?_put_self (number : Nat) (status : ThreadStatus Value) (strand : Strand α) :
    ((child number).put status strand).children[number]? =
      strand.children[number]?.map fun child => { child with status := status } :=
  List.getElem?_modify_eq _ _ _

end Seat

namespace World.Enlarges

variable {strand other : Strand α} {world after : World α}

theorem put (h : Enlarges strand world other after) (seat : Seat α β) (status : ThreadStatus β) :
    Enlarges (seat.put status strand) world (seat.put status other) after := by
  cases seat with
  | root => exact ⟨h.surroundings, h.invocations, by simp only [Seat.put, h.root], h.children, h.cells⟩
  | child number =>
      exact ⟨h.surroundings, h.invocations, h.root, prefix_modify h.children _ _, h.cells⟩

theorem put_child (h : Enlarges strand world other after) {number : Nat}
    (hle : strand.children.length ≤ number) (status : ThreadStatus Value) :
    Enlarges strand world ((Seat.child number).put status other) after :=
  ⟨h.surroundings, h.invocations, h.root, prefix_modify_of_le h.children hle _, h.cells⟩

/-- What happens to an execution that was added does not count. -/
theorem modifyCell (h : Enlarges strand world other after) {number : Nat}
    (hle : strand.cells.length ≤ number) (change : Cell → Cell) :
    Enlarges strand world { other with cells := other.cells.modify number change } after :=
  ⟨h.surroundings, h.invocations, h.root, h.children, prefix_modify_of_le h.cells hle _⟩


end World.Enlarges

/-- An execution of a strand has got its outcome. -/
def Strand.settled (number : Nat) (outcome : Outcome) (strand : Strand α) : Strand α :=
  { strand with cells := strand.cells.modify number fun cell => { cell with state := .settled outcome } }

/-- The thread of a seat waits for an execution that was added. -/
structure Awaiting (seat : Seat α β) (own : Scope) (number : Nat) (next : Outcome → Routine β)
    (command : Command) (base : Strand α) (start : World α) (strand : Strand α) (world : World α) :
    Prop where
  stands : seat.Stands (.waiting (.cell number next) .asleep) own strand
  cell : ∃ step child, strand.cells[number]? = some ⟨command, seat.thread, step, .pending, child⟩
  grows : World.Enlarges base start (seat.put .running strand) world
  new : base.cells.length ≤ number

namespace Awaiting

open World

variable {seat : Seat α β} {own : Scope} {number : Nat} {next : Outcome → Routine β} {command : Command}
  {base strand other : Strand α} {start world after : World α}

theorem grow (h : Awaiting seat own number next command base start strand world)
    (k : Enlarges strand world other after) :
    Awaiting seat own number next command base start other after := by
  obtain ⟨step, child, hcell⟩ := h.cell
  exact ⟨h.stands.congr k.root k.children, ⟨step, child, getElem?_of_prefix k.cells hcell⟩,
    h.grows.trans (k.put seat .running), h.new⟩

theorem stands_settled (h : Awaiting seat own number next command base start strand world)
    (outcome : Outcome) :
    seat.Stands (.waiting (.cell number next) .asleep) own (strand.settled number outcome) :=
  h.stands.congr rfl (List.prefix_refl _)

theorem put_child (h : Awaiting seat own number next command base start strand world) {child : Nat}
    (hle : base.children.length ≤ child) (hne : (Seat.child child : Seat α Value).thread ≠ seat.thread)
    (status : ThreadStatus Value) :
    Awaiting seat own number next command base start ((Seat.child child).put status strand) world := by
  obtain ⟨step, own, hcell⟩ := h.cell
  refine ⟨h.stands.put_other hne status, ⟨step, own, hcell⟩, ?_, h.new⟩
  rw [Seat.put_comm hne]
  exact h.grows.put_child hle status

end Awaiting

namespace World

variable {seat : Seat α β} {own scope : Scope} {base strand : Strand α} {start world : World α}
  {command : Command} {number : Nat} {next : Outcome → Routine β}

/-- A run comes to where the thread of a seat has its turn and goes on with a routine. -/
def Continues (seat : Seat α β) (own : Scope) (base : Strand α) (start : World α) (routine : Routine β)
    (face : Face) (world : World α) : Prop :=
  ∃ count other after, world.passes count = some (seat.leave (routine.run own after)) ∧
    Midway seat own other after ∧ Enlarges base start other after ∧ after.face = face

theorem Continues.here (h : Midway seat own strand world) (routine : Routine β) :
    Continues seat own strand world routine world.face (seat.leave (routine.run own world)) :=
  ⟨0, strand, world, rfl, h, .refl _ _, rfl⟩

theorem Continues.of_passes {middle : World α} {routine : Routine β} {face : Face} {count : Nat}
    (hpasses : world.passes count = some middle)
    (h : Continues seat own base start routine face middle) :
    Continues seat own base start routine face world := by
  obtain ⟨more, other, after, hmore, hrest⟩ := h
  exact ⟨count + more, other, after, passes_trans hpasses hmore, hrest⟩

theorem Continues.of_pass? {middle : World α} {routine : Routine β} {face : Face}
    (hpass : world.pass? = some middle) (h : Continues seat own base start routine face middle) :
    Continues seat own base start routine face world :=
  have hone : world.passes 1 = some middle := passes_of_pass? hpass rfl
  h.of_passes hone

theorem settle_of_awaiting (h : Awaiting seat own number next command base start strand world)
    (hstrands : world.strands = [strand]) (hqueue : world.queue = []) (happening : Happening)
    (outcome : Outcome) :
    world.settle 0 number happening outcome = { world.tell 0 number command happening with
      strands := [seat.put (.waiting (.cell number next) .woken)
        (seat.put .running (strand.settled number outcome))]
      queue := [.resume 0 seat.thread] } := by
  obtain ⟨step, child, hcell⟩ := h.cell
  have hworld : world.cell? 0 number = some ⟨command, seat.thread, step, .pending, child⟩ := by
    rw [cell?, strand?, hstrands]
    exact hcell
  let told := world.tell 0 number command happening
  let settled : World α := { told with strands := [strand.settled number outcome] }
  have hmodify : told.modifyCell 0 number (fun cell => { cell with state := .settled outcome }) =
      settled := by
    simp only [modifyCell, modifyStrand, told, settled, tell, write, hstrands, List.modify_zero_cons,
      Strand.settled]
  have hstands := h.stands_settled outcome
  have hasleep : settled.strands = [seat.put (.waiting (.cell number next) .asleep)
      (seat.put .running (strand.settled number outcome))] := by
    rw [Seat.put_put, Seat.put_of_stands hstands]
  have hwake : settled.wake 0 seat.thread (some number) = { settled with
      strands := [seat.put (.waiting (.cell number next) .woken)
        (seat.put .running (strand.settled number outcome))]
      queue := settled.queue ++ [.resume 0 seat.thread] } :=
    Seat.wake_of_asleep (hstands.put .running) hasleep
  rw [show settled.queue = [] from hqueue] at hwake
  rw [settle, hworld]
  exact (congrArg (World.wake 0 seat.thread (some number)) hmodify).trans hwake

theorem continues_settle (h : Awaiting seat own number next command base start strand world)
    (hstrands : world.strands = [strand]) (hqueue : world.queue = []) (htimers : world.timers = [])
    (hwaiters : world.waiters = []) {happening : Happening}
    (hshown : ∀ silent hidden, happening.shown silent hidden = []) (outcome : Outcome) :
    Continues seat own base start (next outcome)
      (world.face.note (some 0) (.execution 0 command (.yielded outcome)))
      (world.settle 0 number happening outcome) := by
  have hsettle := settle_of_awaiting h hstrands hqueue happening outcome
  have hstands := h.stands_settled outcome
  obtain ⟨-, ⟨step, child, hcell⟩, hgrows, hnew⟩ := h
  let told := world.tell 0 number command happening
  let other := seat.put .running (strand.settled number outcome)
  let after : World α := { told with strands := [other] }
  have hmidway : Midway seat own other after :=
    ⟨rfl, hqueue, htimers, hwaiters, hstands.put .running⟩
  have hafter : after.cell? own.strand number =
      some ⟨command, seat.thread, step, .settled outcome, child⟩ := by
    rw [hmidway.runs.strand_eq, cell?, strand?]
    change other.cells[number]? = _
    rw [Seat.put_cells, Strand.settled, List.getElem?_modify_eq, hcell]
    rfl
  have houtcome : after.outcome? own.strand number = some outcome := by
    rw [outcome?, hafter]
    rfl
  have hpass := pass?_resume hmidway (.cell number next)
  rw [resumed_cell hafter houtcome] at hpass
  refine ⟨1, other, after.noteExecution { own with step := step } number command (.yielded outcome), ?_,
    ⟨rfl, hqueue, htimers, hwaiters, hmidway.runs⟩, ?_, ?_⟩
  · rw [hsettle]
    exact passes_of_pass? hpass rfl
  · have hlater := hgrows.modifyCell hnew fun cell => { cell with state := .settled outcome }
    rw [Seat.put_cells, ← Seat.put_modifyCells] at hlater
    exact ⟨hlater.surroundings, hlater.invocations, hlater.root, hlater.children, hlater.cells⟩
  · have htold : told.strands = [strand] := hstrands
    have hface : after.face = told.face :=
      face_congr htold rfl (Seat.put_states seat _ _) (Seat.put_invocations seat _ _) rfl rfl rfl rfl
    rw [noteExecution, face_note, hface, face_tell hshown, hmidway.runs.strand_eq]
    rfl

/-- A thread runs for the execution that the thread of a seat waits for. -/
structure Serving (seat : Seat α β) (own : Scope) (number : Nat) (next : Outcome → Routine β)
    (command : Command) (base : Strand α) (start : World α) (child : Nat) (step : Option Nat)
    (strand : Strand α) (world : World α) : Prop where
  midway : Midway (.child child) ⟨0, .child child, step, some number⟩ strand world
  awaiting : Awaiting seat own number next command base start strand world
  thread : strand.children[child]? = some ⟨step, some number, true, .running⟩
  fresh : base.children.length ≤ child
  apart : (Seat.child child : Seat α Value).thread ≠ seat.thread

variable {child : Nat} {step : Option Nat}

theorem Serving.grow (h : Serving seat own number next command base start child step strand world)
    {other : Strand α} {after : World α} (hgrows : Enlarges strand world other after)
    (hmidway : Midway (.child child) ⟨0, .child child, step, some number⟩ other after) :
    Serving seat own number next command base start child step other after :=
  ⟨hmidway, h.awaiting.grow hgrows, getElem?_of_prefix hgrows.children h.thread, h.fresh, h.apart⟩

theorem continues_return (h : Serving seat own number next command base start child step strand world)
    (result : Except Fault Value) :
    Continues seat own base start (next (outcomeOf command.name result))
      (world.face.note (some 0) (.execution 0 command (.yielded (outcomeOf command.name result))))
      ((Seat.child child).leave (world, .ended result)) := by
  obtain ⟨hmidway, hawaiting, hthread, hfresh, hapart⟩ := h
  let ended := (Seat.child child).put (.finished result) strand
  let quiet : World α := { world with strands := [ended], queue := [] }
  have hgrown : Awaiting seat own number next command base start strand quiet := by
    obtain ⟨hstands, hcell, hgrows, hnew⟩ := hawaiting
    exact ⟨hstands, hcell, ⟨hgrows.surroundings, hgrows.invocations, hgrows.root, hgrows.children,
      hgrows.cells⟩, hnew⟩
  have hnext := hgrown.put_child hfresh hapart (.finished result)
  have hquiet : ∀ silent hidden, (Happening.ended result).shown silent hidden = [] := fun _ _ => rfl
  have hsettle :=
    continues_settle hnext rfl rfl hmidway.timers hmidway.waiters hquiet (outcomeOf command.name result)
  have hdeliver : quiet.deliver 0 child =
      quiet.settle 0 number (.ended result) (outcomeOf command.name result) := by
    have hended : ((quiet.strand? 0).bind fun strand => strand.children[child]?) =
        some ⟨step, some number, true, .finished result⟩ := by
      change ended.children[child]? = _
      rw [Seat.getElem?_put_self, hthread]
      rfl
    obtain ⟨place, own, hcell⟩ := hgrown.cell
    have hcell? : quiet.cell? 0 number = some ⟨command, seat.thread, place, .pending, own⟩ := hcell
    rw [deliver, hended]
    simp only [Thread.result?, hcell?]
  have hsame : quiet.face = world.face :=
    face_congr hmidway.strands rfl rfl rfl rfl rfl rfl rfl
  rw [hsame, ← hdeliver] at hsettle
  rw [Seat.leave_ended hmidway.strands, hmidway.queue]
  exact hsettle.of_pass? rfl

/-- When the thread has done its work, the caller goes on with the outcome. -/
theorem Serving.continues (h : Serving seat own number next command base start child step strand world)
    {result : Except Fault Value} {face : Face} {within : World α}
    (hends : Continues (.child child) ⟨0, .child child, step, some number⟩ strand world
      (Routine.ofExcept result) face within) :
    Continues seat own base start (next (outcomeOf command.name result))
      (face.note (some 0) (.execution 0 command (.yielded (outcomeOf command.name result)))) within := by
  obtain ⟨count, other, after, hpasses, hmidway, hgrows, rfl⟩ := hends
  have hended : (Routine.ofExcept result).run ⟨0, .child child, step, some number⟩ after =
      (after, .ended result) := by
    cases result <;> rfl
  rw [hended] at hpasses
  exact (continues_return (h.grow hgrows hmidway) result).of_passes hpasses

/-! ### Implementations of a common body -/

theorem Untouched.midway {after : World α} (h : Untouched strand world after)
    (hmidway : Midway seat own strand world) :
    ∃ later, Midway seat own later after ∧ Enlarges strand world later after := by
  obtain ⟨states, happened, calls, record, rfl⟩ := h
  have hgrows : Enlarges strand world { strand with states := states } { world with
      strands := [{ strand with states := states }]
      happened := happened
      calls := calls
      record := record } :=
    ⟨rfl, rfl, rfl, List.prefix_refl _, List.prefix_refl _⟩
  exact ⟨_, ⟨rfl, hmidway.queue, hmidway.timers, hmidway.waiters, hgrows.runs hmidway.runs⟩, hgrows⟩

theorem Continues.grow {middle : Strand α} {between : World α} (hgrows : Enlarges base start middle between)
    {routine : Routine β} {face : Face} (h : Continues seat own middle between routine face world) :
    Continues seat own base start routine face world := by
  obtain ⟨count, other, after, hpasses, hmidway, hlater, hface⟩ := h
  exact ⟨count, other, after, hpasses, hmidway, hgrows.trans hlater, hface⟩

end World

end Cascade
