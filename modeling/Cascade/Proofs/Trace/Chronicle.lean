import Cascade.Proofs.Context.Placed
import Cascade.Proofs.Trace.Program
import Cascade.Proofs.Trace.Quiet

/-!
What the acts of a run and its states have to do with each other. The acts of a thread are moves of its
program; a thread was started by the call of a command; and everything that completes an execution is
the doing of its own code: a report, the end of its call, or the end of the thread that it started.
-/

namespace Cascade

/-- The end that code reports, at once or for later. -/
def Doing.report? : Doing → Option (Except Fault Value)
  | .asks (.complete result) _ | .asks (.completeLater _ result) _ => some result
  | _ => none

/-- The execution that begins, and its arguments. -/
def Doing.beginning? : Doing → Option (Nat × Arguments)
  | .invokes number _ arguments | .executes number _ _ arguments => some (number, arguments)
  | _ => none

/-- What the code of a scope and the initializers do that it has run. -/
def Scope.labels (scope : Scope) (acts : List Act) : List Label :=
  acts.filterMap fun act =>
    if act.scope.strand = scope.strand ∧ act.scope.thread = scope.thread ∧
        (act.scope.cell = none ∨ act.scope.cell = scope.cell) then
      some (act.scope.step, act.doing)
    else none

theorem Scope.labels_append (scope : Scope) (acts more : List Act) :
    scope.labels (acts ++ more) = scope.labels acts ++ scope.labels more :=
  List.filterMap_append

theorem Scope.labels_of_ne {scope : Scope} {acts : List Act}
    (h : ∀ act ∈ acts, ¬ (act.scope.strand = scope.strand ∧ act.scope.thread = scope.thread)) :
    scope.labels acts = [] := by
  refine List.filterMap_eq_nil_iff.mpr fun act hmem => if_neg fun hown => ?_
  exact h act hmem ⟨hown.1, hown.2.1⟩

/-- The code of an execution has reported an end. -/
def Reports (acts : List Act) (place number : Nat) (result : Except Fault Value) : Prop :=
  ∃ act ∈ acts, act.scope.strand = place ∧ act.scope.cell = some number ∧
    act.doing.report? = some result

theorem Reports.mono {acts others : List Act} {place number : Nat} {result : Except Fault Value}
    (h : Reports acts place number result) (hmem : ∀ act ∈ acts, act ∈ others) :
    Reports others place number result := by
  obtain ⟨act, hact, hall⟩ := h
  exact ⟨act, hmem act hact, hall⟩

namespace Stance

variable {β : Type} {invocations : List Invocation} {own : Option Nat} {initial : Stance β}
  {labels : List Label}

/-- How a thread stands by what it has done since its beginning. Of a thread that has its turn only
that is said which is known otherwise. -/
def Tale (known : Prop) (invocations : List Invocation) (own : Option Nat) (initial : Stance β)
    (labels : List Label) (status : ThreadStatus β) : Prop :=
  (status = .running ∧ known) ∨ Moves invocations own initial labels (.rests status)

theorem Tale.known {known : Prop} {routine : Routine β}
    (h : Tale known invocations own (.starts routine) labels .running) : known := by
  rcases h with ⟨-, hknown⟩ | hpath
  · exact hknown
  · cases hpath.of_running rfl

theorem Tale.moves {known : Prop} {status : ThreadStatus β}
    (h : Tale known invocations own initial labels status) (hstatus : status ≠ .running) :
    Moves invocations own initial labels (.rests status) :=
  h.resolve_left fun hrunning => hstatus hrunning.1

end Stance

namespace World

variable {α : Type}

/-- The call of a command by the execution of a number ended with a result. -/
def Called (world : World α) (place number : Nat) (result : Except Fault Reply) : Prop :=
  ∃ shape command caller step arguments doings, world.shape? place = some shape ∧
    shape.cells[number]? = some (command, caller, step) ∧
    .called arguments ∈ world.past place number ∧ (command.run arguments).Plays doings result

end World

/-- What completes an execution is the doing of its own code. -/
def Happening.Grounded {α : Type} (acts : List Act) (world : World α) (place number : Nat) :
    Happening → Prop
  | .completed result => Reports acts place number result
  | .raised fault => world.Called place number (.error fault)
  | .escaped fault => fault.isCancellation = true ∧ world.Called place number (.error fault)
  | .returned value => world.Called place number (.ok (.value value))
  | .ended result => ∃ (shape : Shape α) (child : Nat) (thread : Thread Value),
      world.shape? place = some shape ∧
      shape.children[child]? = some thread ∧ thread.cell = some number ∧
      thread.status = .finished result
  | _ => True

namespace World

variable {α : Type}

/-- Every happening that an occurrence tells of has its grounds. -/
def Grounds (acts : List Act) (world : World α) (occurrence : Occurrence) : Prop :=
  ∀ place number happening, occurrence.happening? place number = some happening →
    happening.Grounded acts world place number

/-- A thread is given up: it ended because it was cancelled, or it is about to. -/
def IsLost (ending : Nat → ThreadId → Prop) (world : World α) (place : Nat) (thread : ThreadId) :
    Prop :=
  ending place thread ∨ world.posture? place thread = some (.finished true)

/-- A thread that the call of a command has started. It is cancelled only when the thread is given up
that asked for the execution; otherwise what it has done are moves of its program. -/
structure Descends (held : Scope → Routine Value → Prop) (ending : Nat → ThreadId → Prop) (acts : List Act) (world : World α) (place : Nat)
    (shape : Shape α) (child : Nat) (thread : Thread Value) (number : Nat) (command : Command)
    (caller : ThreadId) : Prop where
  cell : thread.cell = some number
  origin : shape.cells[number]? = some (command, caller, thread.step)
  spared : ∀ cell, world.posture? place (.child child) = some (.waits cell .cancelled) →
    world.IsLost ending place caller
  tale : ∃ arguments doings started body, .called arguments ∈ world.past place number ∧
    (command.run arguments).Plays doings (.ok (.awaitable started body)) ∧
    (∃ earlier later, acts = earlier ++ later ∧
      (∃ act ∈ earlier, act.scope.strand = place ∧
        act.doing.beginning? = some (number, arguments)) ∧
      Scope.labels ⟨place, .child child, thread.step, thread.cell⟩ earlier = []) ∧
    (world.IsLost ending place caller ∨
      Stance.Tale (held ⟨place, .child child, thread.step, thread.cell⟩ body) shape.invocations
        thread.step (.starts body) (Scope.labels ⟨place, .child child, thread.step, thread.cell⟩ acts) thread.status)

/-- The acts of a run so far fit a state of the run. -/
structure Chronicle (programs : List (Routine α))
    (held : Scope → Routine Value → Prop) (ending : Nat → ThreadId → Prop)
    (acts : List Act) (world : World α) : Prop where
  known : ∀ act ∈ acts, ∃ posture,
    world.posture? act.scope.strand act.scope.thread = some posture
  begun : ∀ act ∈ acts, ∀ number arguments, act.doing.beginning? = some (number, arguments) →
    .called arguments ∈ world.past act.scope.strand number ∨
      .refused arguments ∈ world.past act.scope.strand number
  got : ∀ act ∈ acts, ∀ number outcome, act.doing = .gets number outcome →
    .yielded outcome ∈ world.past act.scope.strand number
  grounded : ∀ place number, ∀ happening ∈ world.past place number,
    happening.Grounded acts world place number
  pledged : ∀ place number result, world.Pledges place number result →
    Reports acts place number result
  adopted : ∀ place number cell child, world.cell? place number = some cell →
    cell.child = some child → ∃ (shape : Shape α) (thread : Thread Value), world.shape? place = some shape ∧
      shape.children[child]? = some thread ∧ thread.cell = some number
  sole : ∀ place (shape : Shape α) (first second : Nat) (one other : Thread Value),
    world.shape? place = some shape → shape.children[first]? = some one → shape.children[second]? = some other →
      one.cell = other.cell → first = second
  root : ∀ place shape, world.shape? place = some shape →
    shape.root.step = none ∧ shape.root.cell = none ∧
      ∃ routine, programs[place]? = some routine ∧
        (world.IsLost ending place .root ∨
          Stance.Tale True shape.invocations none (.starts routine)
            (Scope.labels ⟨place, .root, none, none⟩ acts) shape.root.status)
  children : ∀ place shape child thread, world.shape? place = some shape →
    shape.children[child]? = some thread → ∃ number command caller,
      world.Descends held ending acts place shape child thread number command caller

/-- Whatever is there stays there. -/
structure Carries (before after : World α) : Prop where
  grows : Grows before after
  posture : ∀ place thread posture, before.posture? place thread = some posture →
    ∃ later, after.posture? place thread = some later ∧
      ∀ isCancelled, posture = .finished isCancelled → later = posture
  past : ∀ place number, ∀ happening ∈ before.past place number, happening ∈ after.past place number
  done : ∀ place (shape : Shape α) (child : Nat) (thread : Thread Value) result,
    before.shape? place = some shape → shape.children[child]? = some thread →
      thread.status = .finished result →
      ∃ later, after.shape? place = some later ∧ later.children[child]? = some thread

section Carries

variable {ending others : Nat → ThreadId → Prop} {acts more : List Act}
  {before middle after world other : World α}

theorem Carries.called (h : Carries before after) {place number : Nat} {result : Except Fault Reply}
    (hcalled : before.Called place number result) : after.Called place number result := by
  obtain ⟨shape, command, caller, step, arguments, doings, hshape, horigin, hpast, hplays⟩ := hcalled
  obtain ⟨later, hlater, hgrows⟩ := h.grows place shape hshape
  exact ⟨later, command, caller, step, arguments, doings, hlater, hgrows.cells _ _ horigin,
    h.past _ _ _ hpast, hplays⟩

theorem Carries.grounded (h : Carries before after) (hmem : ∀ act ∈ acts, act ∈ more)
    {place number : Nat} {happening : Happening}
    (hgrounded : happening.Grounded acts before place number) :
    happening.Grounded more after place number := by
  cases happening with
  | completed result => exact Reports.mono hgrounded hmem
  | raised fault => exact h.called hgrounded
  | escaped fault => exact ⟨hgrounded.1, h.called hgrounded.2⟩
  | returned value => exact h.called hgrounded
  | ended result =>
      obtain ⟨shape, child, thread, hshape, hchild, hcell, hstatus⟩ := hgrounded
      obtain ⟨later, hlater, hsame⟩ := h.done place shape child thread result hshape hchild hstatus
      exact ⟨later, child, thread, hlater, hsame, hcell, hstatus⟩
  | _ => trivial

theorem Carries.isLost (h : Carries before after) {place : Nat} {thread : ThreadId}
    (hlost : before.IsLost ending place thread) : after.IsLost ending place thread := by
  refine hlost.imp_right fun hposture => ?_
  obtain ⟨later, hlater, hsame⟩ := h.posture place thread _ hposture
  rw [hlater, hsame true rfl]

theorem Quiet.carries {grounds : Occurrence → Prop}
    {reports : Nat → Nat → Except Fault Value → Prop} (h : Quiet grounds reports before after) :
    Carries before after := by
  refine ⟨.of_sameShape h.shape, fun place thread posture hposture => ?_,
    fun place number happening hmem => ?_, fun place shape child thread result hshape hchild _ =>
      ⟨shape, (congrFun h.shape place).trans hshape, hchild⟩⟩
  · rcases h.posture place thread posture hposture with hsame | ⟨cell, rfl, hwoken⟩
    · exact ⟨posture, hsame, fun _ _ => rfl⟩
    · exact ⟨_, hwoken, (fun _ h => by cases h)⟩
  · obtain ⟨later, hpast, -⟩ := h.adds.past place number
    rw [hpast]
    exact List.mem_append_right _ hmem

theorem exists_posture_of_shape? {place : Nat} {shape : Shape α} {child : Nat} {thread : Thread Value}
    (hshape : world.shape? place = some shape) (hchild : shape.children[child]? = some thread) :
    ∃ posture, world.posture? place (.child child) = some posture := by
  obtain ⟨strand, hstrand, rfl⟩ := Option.map_eq_some_iff.mp hshape
  rw [Strand.shape, List.getElem?_map] at hchild
  obtain ⟨found, hfound, -⟩ := Option.map_eq_some_iff.mp hchild
  exact ⟨found.posture, by simp [posture?, hstrand, Strand.posture?, hfound]⟩

theorem status_of_running {β : Type} {thread : Thread β} (h : thread.posture = .running) :
    thread.calm.status = .running := by
  rcases thread with ⟨_, _, _, _ | _ | result⟩
  · rfl
  · cases h
  · rcases result with _ | _ <;> cases h

theorem root_status_of_running {place : Nat} {shape : Shape α}
    (hshape : world.shape? place = some shape)
    (hrunning : world.posture? place .root = some .running) : shape.root.status = .running := by
  obtain ⟨strand, hstrand, rfl⟩ := Option.map_eq_some_iff.mp hshape
  rw [posture?, hstrand] at hrunning
  exact status_of_running (Option.some.inj hrunning)

theorem child_status_of_running {place : Nat} {shape : Shape α} {child : Nat} {thread : Thread Value}
    (hshape : world.shape? place = some shape) (hchild : shape.children[child]? = some thread)
    (hrunning : world.posture? place (.child child) = some .running) : thread.status = .running := by
  obtain ⟨strand, hstrand, rfl⟩ := Option.map_eq_some_iff.mp hshape
  rw [Strand.shape, List.getElem?_map] at hchild
  obtain ⟨found, hfound, rfl⟩ := Option.map_eq_some_iff.mp hchild
  refine status_of_running (Option.some.inj ?_)
  rw [← hrunning]
  simp [posture?, hstrand, Strand.posture?, hfound]

end Carries

section Chronicle

variable {programs : List (Routine α)} {held : Scope → Routine Value → Prop}
  {ending others : Nat → ThreadId → Prop}
  {acts more : List Act} {world other : World α}

/-- A change after which the threads still fit the acts. -/
theorem Chronicle.change (h : world.Chronicle programs held ending acts) (carries : Carries world other)
    (adds : Adds (world.Grounds acts) world other)
    (pledges : ∀ place number result, other.Pledges place number result →
      world.Pledges place number result ∨ Reports acts place number result)
    (adopted : ∀ place number cell child, other.cell? place number = some cell →
      cell.child = some child → ∃ (shape : Shape α) (thread : Thread Value), other.shape? place = some shape ∧
        shape.children[child]? = some thread ∧ thread.cell = some number)
    (sole : ∀ place (shape : Shape α) (first second : Nat) (one two : Thread Value),
      other.shape? place = some shape → shape.children[first]? = some one → shape.children[second]? = some two →
        one.cell = two.cell → first = second)
    (root : ∀ place shape, other.shape? place = some shape →
      shape.root.step = none ∧ shape.root.cell = none ∧
        ∃ routine, programs[place]? = some routine ∧
          (other.IsLost ending place .root ∨
            Stance.Tale True shape.invocations none (.starts routine)
              (Scope.labels ⟨place, .root, none, none⟩ acts) shape.root.status))
    (children : ∀ place shape child thread, other.shape? place = some shape →
      shape.children[child]? = some thread → ∃ number command caller,
        other.Descends held ending acts place shape child thread number command caller) :
    other.Chronicle programs held ending acts := by
  refine ⟨fun act hmem => ?_, fun act hmem number arguments hbegins => ?_,
    fun act hmem number outcome hgets => carries.past _ _ _ (h.got act hmem number outcome hgets),
    fun place number happening hmem => ?_, fun place number result hpledges => ?_, adopted, sole,
    root, children⟩
  · obtain ⟨posture, hposture⟩ := h.known act hmem
    obtain ⟨later, hlater, -⟩ := carries.posture _ _ posture hposture
    exact ⟨later, hlater⟩
  · exact (h.begun act hmem number arguments hbegins).imp (carries.past _ _ _) (carries.past _ _ _)
  · obtain ⟨later, hpast, hadded⟩ := adds.past place number
    rw [hpast] at hmem
    rcases List.mem_append.mp hmem with hnew | hold
    · obtain ⟨occurrence, hgrounds, hhappening⟩ := hadded happening hnew
      exact carries.grounded (fun _ h => h) (hgrounds place number happening hhappening)
    · exact carries.grounded (fun _ h => h) (h.grounded place number happening hold)
  · exact (pledges place number result hpledges).elim (h.pledged place number result) id

theorem Descends.carry {place : Nat} {shape later : Shape α} {child : Nat} {thread : Thread Value}
    {number : Nat} {command : Command} {caller : ThreadId}
    (h : world.Descends held ending acts place shape child thread number command caller)
    (carries : Carries world other) (hgrows : shape.Grows later)
    (hspared : ∀ cell, other.posture? place (.child child) = some (.waits cell .cancelled) →
      world.posture? place (.child child) = some (.waits cell .cancelled)) :
    other.Descends held ending acts place later child thread number command caller := by
  obtain ⟨arguments, doings, started, body, hpast, hplays, hbirth, htale⟩ := h.tale
  exact ⟨h.cell, hgrows.cells _ _ h.origin, fun cell hcancelled =>
    carries.isLost (h.spared cell (hspared cell hcancelled)), arguments, doings, started, body,
    carries.past _ _ _ hpast, hplays, hbirth,
    htale.imp carries.isLost fun htale => hgrows.invocations ▸ htale⟩

section Later

variable {place : Nat} {shape later : Shape α}

theorem Chronicle.adopted_later (h : world.Chronicle programs held ending acts)
    (carries : Carries world other) {number child : Nat} {cell : Cell}
    (hcell : world.cell? place number = some cell) (hchild : cell.child = some child) :
    ∃ (shape : Shape α) (thread : Thread Value), other.shape? place = some shape ∧
      shape.children[child]? = some thread ∧ thread.cell = some number := by
  obtain ⟨shape, thread, hshape, hthread, hown⟩ := h.adopted place number cell child hcell hchild
  obtain ⟨later, hlater, hmore⟩ := carries.grows place shape hshape
  obtain ⟨same, hsame, -, hkept⟩ := hmore.children child thread hthread
  exact ⟨later, same, hlater, hsame, hkept.trans hown⟩

theorem Chronicle.root_later (h : world.Chronicle programs held ending acts)
    (carries : Carries world other) (hshape : world.shape? place = some shape)
    (hroot : later.root = shape.root) (hinvocations : later.invocations = shape.invocations) :
    later.root.step = none ∧ later.root.cell = none ∧
      ∃ routine, programs[place]? = some routine ∧
        (other.IsLost ending place .root ∨
          Stance.Tale True later.invocations none (.starts routine)
            (Scope.labels ⟨place, .root, none, none⟩ acts) later.root.status) := by
  obtain ⟨hstep, hcell, routine, hprogram, htale⟩ := h.root place shape hshape
  rw [hroot, hinvocations]
  exact ⟨hstep, hcell, routine, hprogram, htale.imp_left carries.isLost⟩

theorem Chronicle.child_later (h : world.Chronicle programs held ending acts)
    (carries : Carries world other) (hshape : world.shape? place = some shape)
    (hgrows : shape.Grows later) {child : Nat} {thread : Thread Value}
    (hchild : shape.children[child]? = some thread)
    (hspared : ∀ cell, other.posture? place (.child child) = some (.waits cell .cancelled) →
      world.posture? place (.child child) = some (.waits cell .cancelled)) :
    ∃ number command caller,
      other.Descends held ending acts place later child thread number command caller := by
  obtain ⟨number, command, caller, hdescends⟩ := h.children place shape child thread hshape hchild
  exact ⟨number, command, caller, hdescends.carry carries hgrows hspared⟩

end Later

theorem Chronicle.quiet (h : world.Chronicle programs held ending acts)
    (hquiet : Quiet (world.Grounds acts) (Reports acts) world other) :
    other.Chronicle programs held ending acts := by
  have hcarries := hquiet.carries
  have hshape : ∀ {place shape}, other.shape? place = some shape → world.shape? place = some shape :=
    fun {place shape} hsome => (congrFun hquiet.shape place).symm.trans hsome
  have hspared : ∀ {place shape child thread}, world.shape? place = some shape →
      shape.children[child]? = some thread →
      ∀ cell, other.posture? place (.child child) = some (.waits cell .cancelled) →
        world.posture? place (.child child) = some (.waits cell .cancelled) := by
    intro place shape child thread hsome hchild cell hcancelled
    obtain ⟨posture, hposture⟩ := exists_posture_of_shape? hsome hchild
    rcases hquiet.posture place _ posture hposture with hsame | ⟨awaited, -, hwoken⟩
    · rw [hposture, ← hsame, hcancelled]
    · rw [hwoken] at hcancelled
      cases hcancelled
  refine h.change hcarries hquiet.adds hquiet.pledges (fun place number cell child hcell hsome => ?_)
    (fun place shape first second one two hsome =>
      h.sole place shape first second one two (hshape hsome))
    (fun place shape hsome => ?_) fun place shape child thread hsome hchild => ?_
  · have hsame := hquiet.child place number
    rw [hcell, Option.map_some, hsome] at hsame
    obtain ⟨old, hold, hkept⟩ := Option.map_eq_some_iff.mp hsame.symm
    exact h.adopted_later hcarries hold hkept
  · exact h.root_later hcarries (hshape hsome) rfl rfl
  · exact h.child_later hcarries (hshape hsome) (.refl shape) hchild (hspared (hshape hsome) hchild)

theorem Chronicle.expect (h : world.Chronicle programs held ending acts)
    (hending : ∀ place thread, ending place thread → others place thread ∨
      world.posture? place thread = some (.finished true)) :
    world.Chronicle programs held others acts := by
  have hlost : ∀ {place thread}, world.IsLost ending place thread →
      world.IsLost others place thread := fun {place thread} hlost =>
    hlost.elim (hending place thread) .inr
  refine { h with root := fun place shape hsome => ?_, children := fun place shape child thread hsome hchild => ?_ }
  · obtain ⟨hstep, hcell, routine, hprogram, htale⟩ := h.root place shape hsome
    exact ⟨hstep, hcell, routine, hprogram, htale.imp_left hlost⟩
  · obtain ⟨number, command, caller, hdescends⟩ := h.children place shape child thread hsome hchild
    obtain ⟨arguments, doings, started, body, hpast, hplays, hbirth, htale⟩ := hdescends.tale
    exact ⟨number, command, caller, hdescends.cell, hdescends.origin,
      fun cell hcancelled => hlost (hdescends.spared cell hcancelled), arguments, doings, started,
      body, hpast, hplays, hbirth, htale.imp_left hlost⟩

theorem Chronicle.act {act : Act} (h : world.Chronicle programs held ending acts)
    (hrunning : world.posture? act.scope.strand act.scope.thread = some .running)
    (hbegun : ∀ number arguments, act.doing.beginning? = some (number, arguments) →
      .called arguments ∈ world.past act.scope.strand number ∨
        .refused arguments ∈ world.past act.scope.strand number)
    (hgot : ∀ number outcome, act.doing = .gets number outcome →
      .yielded outcome ∈ world.past act.scope.strand number) :
    world.Chronicle programs held ending (acts ++ [act]) := by
  have hmore : ∀ other ∈ acts, other ∈ acts ++ [act] := fun _ hmem => List.mem_append_left _ hmem
  have hstill : Carries world world :=
    ⟨.refl world, fun _ _ posture hposture => ⟨posture, hposture, fun _ _ => rfl⟩, fun _ _ _ h => h,
      fun _ shape _ _ _ hshape hchild _ => ⟨shape, hshape, hchild⟩⟩
  have hlabels : ∀ {scope : Scope}, ¬ (act.scope.strand = scope.strand ∧
      act.scope.thread = scope.thread) → scope.labels (acts ++ [act]) = scope.labels acts := by
    intro scope hne
    have hnone : scope.labels [act] = [] :=
      Scope.labels_of_ne fun other hmem => List.mem_singleton.mp hmem ▸ hne
    rw [Scope.labels_append, hnone, List.append_nil]
  refine ⟨fun other hmem => ?_, fun other hmem number arguments hbegins => ?_,
    fun other hmem number outcome hgets => ?_, fun place number happening hmem =>
      hstill.grounded hmore (h.grounded place number happening hmem),
    fun place number result hpledges => (h.pledged place number result hpledges).mono hmore,
    h.adopted, h.sole, fun place shape hsome => ?_, fun place shape child thread hsome hchild => ?_⟩
  · rcases List.mem_append.mp hmem with hold | hnew
    · exact h.known other hold
    · exact List.mem_singleton.mp hnew ▸ ⟨_, hrunning⟩
  · rcases List.mem_append.mp hmem with hold | hnew
    · exact h.begun other hold number arguments hbegins
    · obtain rfl := List.mem_singleton.mp hnew
      exact hbegun number arguments hbegins
  · rcases List.mem_append.mp hmem with hold | hnew
    · exact h.got other hold number outcome hgets
    · obtain rfl := List.mem_singleton.mp hnew
      exact hgot number outcome hgets
  · obtain ⟨hstep, hcell, routine, hprogram, htale⟩ := h.root place shape hsome
    refine ⟨hstep, hcell, routine, hprogram, htale.imp_right fun htale => ?_⟩
    by_cases hown : act.scope.strand = place ∧ act.scope.thread = .root
    · obtain ⟨rfl, hroot⟩ := hown
      exact .inl ⟨root_status_of_running hsome (hroot ▸ hrunning), trivial⟩
    · rwa [hlabels hown]
  · obtain ⟨number, command, caller, hdescends⟩ := h.children place shape child thread hsome hchild
    obtain ⟨arguments, doings, started, body, hpast, hplays, ⟨earlier, later, hsplit, hbirth⟩, htale⟩ :=
      hdescends.tale
    refine ⟨number, command, caller, hdescends.cell, hdescends.origin, hdescends.spared, arguments,
      doings, started, body, hpast, hplays,
      ⟨earlier, later ++ [act], by rw [hsplit, List.append_assoc], hbirth⟩,
      htale.imp_right fun htale => ?_⟩
    by_cases hown : act.scope.strand = place ∧ act.scope.thread = .child child
    · obtain ⟨rfl, hchild'⟩ := hown
      have hstatus := child_status_of_running hsome hchild (hchild' ▸ hrunning)
      rw [hstatus] at htale
      exact .inl ⟨hstatus, htale.known⟩
    · rwa [hlabels hown]

end Chronicle

end World

end Cascade
