import Cascade.Proofs.Execution.Beginning

/-!
The jobs of a run keep the law of executions: a thread gets its turn and gives it up, threads are
cancelled, their ends are delivered, and timers fire.
-/

namespace Cascade

open Past

namespace Suspension

variable {β : Type}

/-- The execution that a thread has to wait for when it gives up its turn. -/
def awaits? : Suspension β → Option Nat
  | ended _ => none
  | waits waiting _ => waiting.cell?

def posture : Suspension β → Posture
  | ended result => Posture.ofResult result
  | waits waiting wake => .waits waiting.cell? wake

/-- A thread is not cancelled at its own turn, and it cannot have an outcome already. -/
def IsFair (suspension : Suspension β) : Prop :=
  ∀ waiting wake, suspension = .waits waiting wake →
    wake ≠ .cancelled ∧ (waiting.cell? ≠ none → wake = .asleep)

end Suspension

theorem Routine.turn_run {α β : Type} {scope : Scope} (routine : Routine β) {world : World α}
    (h : world.Turn scope.strand scope.thread none) :
    World.Turn scope.strand scope.thread (routine.run scope world).2.awaits?
        (routine.run scope world).1 ∧
      (routine.run scope world).2.IsFair := by
  have hkeep : ∀ {other another : World α}, other.Turn scope.strand scope.thread none →
      another.strands = other.strands → another.record = other.record →
        another.Turn scope.strand scope.thread none := by
    intro other another hturn hstrands hrecord
    have hadds : World.Adds (fun _ => True) other another := .of_record_eq hrecord
    refine hturn.step (hturn.sound.of_eq hstrands hrecord) (.of_eq ?_ ?_) hadds
    · exact fun place thread => by simp only [World.posture?, World.strand?, hstrands]
    · exact fun place number => by simp only [World.cell?, World.strand?, hstrands]
  have hmoment : ∀ (waiting : Waiting β) (wake : Wake), waiting.cell? = none → wake ≠ .cancelled →
      (Suspension.waits waiting wake).IsFair := by
    intro waiting wake hcell hwake other mark heq
    cases heq
    exact ⟨hwake, fun hsome => absurd hcell hsome⟩
  have hrule : Rule scope (World.Turn scope.strand scope.thread none)
      fun (suspension : Suspension β) (other : World α) =>
        World.Turn scope.strand scope.thread suspension.awaits? other ∧ suspension.IsFair := {
    ended := fun _ _ h => ⟨h, fun _ _ h => by cases h⟩
    answer := fun query other h => h.step (h.sound.answer scope query)
      (World.frame_answer scope query other) (World.adds_answer scope query other)
    turn := fun _ _ _ h => ⟨hkeep h rfl rfl, hmoment _ _ rfl (fun h => by cases h)⟩
    timer := fun _ _ _ _ h _ => ⟨hkeep h rfl rfl, hmoment _ _ rfl (fun h => by cases h)⟩
    moment := fun _ _ _ h => ⟨hkeep h rfl rfl, hmoment _ _ rfl (fun h => by cases h)⟩
    event := fun _ _ _ _ h => ⟨hkeep h rfl rfl, hmoment _ _ rfl (fun h => by cases h)⟩
    prepared := by
      intro index _ initializer failure other h _ _
      let inner : Scope := { scope with step := some index, cell := none }
      have hran := h.step (initializer.sound_run inner h.sound) (initializer.frame_run inner other)
        (initializer.adds_run inner other)
      have hadds : World.Adds (fun _ => True) _ ((initializer.run inner other).1.note scope
        (.prepared index failure)) := World.adds_write trivial _
      exact hran.step (hran.sound.write fun _ _ => rfl) (.of_eq (fun _ _ => rfl) fun _ _ => rfl) hadds
    complete := by
      intro step command arguments outcome other h _ hbegun
      have hbegin := World.Turn.begin { scope with step := step } h command arguments
      rw [hbegun] at hbegin
      exact hbegin
    waits := by
      intro step command arguments number next other h _ hbegun
      have hbegin := World.Turn.begin { scope with step := step } h command arguments
      rw [hbegun] at hbegin
      refine ⟨hbegin, fun waiting wake heq => ?_⟩
      cases heq
      exact ⟨by simp, fun _ => rfl⟩
    cancelled := by
      intro step command arguments fault other h _ hbegun
      have hbegin := World.Turn.begin { scope with step := step } h command arguments
      rw [hbegun] at hbegin
      exact ⟨hbegin, fun _ _ h => by cases h⟩ }
  exact hrule.run routine h

namespace World

variable {α : Type}

/-! ### Cancelling -/

theorem Sound.mark {world : World α} (h : world.Sound) {place : Nat} {thread : ThreadId}
    (hawake : ∀ cell, world.posture? place thread ≠ some (.waits cell .asleep)) :
    (world.modifyThread place thread (Thread.mark .cancelled)).Sound := by
  have hposture : ∀ strand id,
      (world.modifyThread place thread (Thread.mark .cancelled)).posture? strand id =
        if place = strand ∧ thread = id then
          (world.posture? place thread).map (Posture.mark .cancelled)
        else world.posture? strand id := by
    intro strand id
    rw [posture?_mark]
    split
    · rename_i heq
      obtain ⟨rfl, rfl⟩ := heq
      rfl
    · rfl
  refine h.stand hposture (cell?_modifyThread _ _ _ _) (errand?_mark _ _ _ _) (fun _ _ => rfl) ?_ ?_
  · intro number cell hcell hcaller hopen
    have hattends := h.attended place number cell hcell hopen
    rw [hcaller] at hattends
    cases hstance : world.posture? place thread with
    | none =>
        rw [hstance] at hattends
        exact hattends.elim
    | some posture =>
        rw [hstance] at hattends
        rcases posture with _ | ⟨_ | awaited, _ | _ | _⟩ | isCancelled
        · trivial
        all_goals first | exact hattends | exact hattends.elim | skip
        · exact absurd hstance (hawake (some awaited))
        · obtain ⟨rfl, outcome, hsettled⟩ := hattends
          exact ⟨rfl, by simp [hsettled]⟩
  · intro number wake hwaits
    obtain ⟨posture, hstance, hmark⟩ := Option.map_eq_some_iff.mp hwaits
    rcases posture with _ | ⟨awaited, before⟩ | isCancelled
    · cases hmark
    · simp only [Posture.mark, Posture.waits.injEq] at hmark
      obtain ⟨rfl, -⟩ := hmark
      exact h.awaited place thread number before hstance
    · cases hmark

theorem cancel_of_awake {world : World α} {place : Nat} {thread : ThreadId}
    (hawake : ∀ cell, world.posture? place thread ≠ some (.waits cell .asleep)) :
    world.cancel place thread = world.modifyThread place thread (Thread.mark .cancelled) := by
  have hnot : ((world.posture? place thread).map Posture.isAsleep).getD false = false := by
    rcases hstance : world.posture? place thread with _ | _ | ⟨cell, _ | _ | _⟩ | _
    all_goals first | rfl | exact absurd hstance (hawake cell)
  rw [cancel, ofThread_isAsleep, hnot]
  rfl

theorem cancel_of_asleep {world : World α} {place : Nat} {thread : ThreadId} {cell : Option Nat}
    (hasleep : world.posture? place thread = some (.waits cell .asleep)) :
    world.cancel place thread =
      (((cell.elim world fun number => world.drop place number).forget place thread).modifyThread
        place thread (Thread.mark .cancelled)).enqueue (.resume place thread) := by
  rw [cancel, ofThread_isAsleep, ofThread_awaitedCell?, hasleep]
  cases cell <;> rfl

theorem Sound.cancel_moment {world : World α} (h : world.Sound) {place : Nat} {thread : ThreadId}
    (hasleep : world.posture? place thread = some (.waits none .asleep)) :
    (world.modifyThread place thread (Thread.mark .cancelled)).Sound := by
  have hposture : ∀ strand id,
      (world.modifyThread place thread (Thread.mark .cancelled)).posture? strand id =
        if place = strand ∧ thread = id then some (.waits none .cancelled)
        else world.posture? strand id := by
    intro strand id
    rw [posture?_mark]
    split
    · rename_i heq
      obtain ⟨rfl, rfl⟩ := heq
      rw [hasleep]
      rfl
    · rfl
  refine h.stand hposture (cell?_modifyThread _ _ _ _) (errand?_mark _ _ _ _) (fun _ _ => rfl) ?_ ?_
  · intro number cell hcell hcaller hopen
    have hattends := h.attended place number cell hcell hopen
    rw [hcaller, hasleep] at hattends
    exact hattends.elim
  · intro number wake hwaits
    cases hwaits

theorem Sound.cancel_caller {world : World α} (h : world.Sound) {place number : Nat}
    {thread : ThreadId}
    (hasleep : world.posture? place thread = some (.waits (some number) .asleep)) :
    ((world.drop place number).modifyThread place thread (Thread.mark .cancelled)).Sound := by
  obtain ⟨cell, hcell, rfl, hopen⟩ := h.awaited place thread number .asleep hasleep
  have hattends := h.attended place number cell hcell hopen
  rw [hasleep] at hattends
  obtain ⟨-, hpending⟩ := hattends
  have haccounts := h.accounts place number cell hcell
  rw [hpending] at haccounts
  simp only [World.drop, hcell, hpending]
  have hclosed : IsClosed (.dropped :: world.past place number) ↔
      IsClosed (world.past place number) := isClosed_cons_iff rfl fun _ h => by cases h
  refine h.change { cell with state := .dropped } [.dropped] (some (.waits (some number) .cancelled))
    hcell (fun strand execution => ?_) (fun strand execution => ?_) (fun strand child => ?_)
    (fun strand id => ?_) rfl rfl (by simp [Happening.isOpening]) haccounts.drop
    ((h.promise place number cell hcell).cons rfl fun _ h => by cases h) (fun _ => ⟨rfl, fun h => by cases h⟩)
    (.inr ⟨.asleep, hasleep⟩) fun execution wake hwaits => ?_
  · rw [cell?_modifyThread, cell?_modifyCell]
    split
    · rename_i heq
      obtain ⟨rfl, rfl⟩ := heq
      exact congrArg (Option.map _) hcell
    · rfl
  · refine Eq.trans (past_tell place number cell.command .dropped world strand execution) ?_
    split
    · rename_i heq
      obtain ⟨rfl, rfl⟩ := heq
      rfl
    · rfl
  · rw [errand?_mark, errand?_modifyCell]
    rfl
  · rw [posture?_mark, posture?_modifyCell]
    change (if _ then (world.posture? strand id).map _ else world.posture? strand id) = _
    split
    · rename_i heq
      obtain ⟨rfl, rfl⟩ := heq
      rw [hasleep]
      rfl
    · rfl
  · simp only [Option.some.injEq, Posture.waits.injEq] at hwaits
    obtain ⟨rfl, -⟩ := hwaits
    exact ⟨fun _ => mt hclosed.mp hopen, .asleep, hasleep⟩

theorem Sound.cancel {world : World α} (h : world.Sound) (place : Nat) (thread : ThreadId) :
    (world.cancel place thread).Sound := by
  by_cases hasleep : ∃ cell, world.posture? place thread = some (.waits cell .asleep)
  · obtain ⟨cell, hasleep⟩ := hasleep
    rw [cancel_of_asleep hasleep]
    cases cell with
    | none => exact (h.cancel_moment hasleep).of_eq rfl rfl
    | some number => exact (h.cancel_caller hasleep).of_eq rfl rfl
  · have hawake : ∀ cell, world.posture? place thread ≠ some (.waits cell .asleep) :=
      fun cell hwaits => hasleep ⟨cell, hwaits⟩
    rw [cancel_of_awake hawake]
    exact h.mark hawake

theorem Sound.unwind {world : World α} (h : world.Sound) {β : Type} (scope : Scope)
    (waiting : Waiting β) : (world.unwind scope waiting).Sound := by
  have hnotice : ∀ notice : Option Item, (world.leave scope notice).Sound := by
    intro notice
    cases notice with
    | some item => exact h.write fun _ _ => rfl
    | none => exact h
  exact unwind_induction hnotice fun _ => h.cancel ..

/-! ### Turns of threads -/

/-- A thread that is about to give up its turn and stand in a new way. -/
structure Leaves (place : Nat) (thread : ThreadId) (posture : Posture) (world : World α) :
    Prop where
  sound : world.Sound
  running : world.posture? place thread = some .running
  attended : ∀ number cell, world.cell? place number = some cell → cell.caller = thread →
    ¬ IsClosed (world.past place number) → Attends number cell.state (some posture)
  awaited : ∀ number wake, posture = .waits (some number) wake →
    ∃ cell, world.cell? place number = some cell ∧ cell.caller = thread ∧
      ¬ IsClosed (world.past place number)
  leaves : posture ≠ .running

theorem Leaves.sound_store {place : Nat} {thread : ThreadId} {posture : Posture}
    {world other : World α} (h : Leaves place thread posture world)
    (hposture : ∀ strand id, other.posture? strand id =
      if place = strand ∧ thread = id then some posture else world.posture? strand id)
    (hcell : ∀ strand number, other.cell? strand number = world.cell? strand number)
    (herrand : ∀ strand child, other.errand? strand child = world.errand? strand child)
    (hpast : ∀ strand number, other.past strand number = world.past strand number) :
    other.Sound :=
  h.sound.stand hposture hcell herrand hpast h.attended fun number wake hwaits =>
    h.awaited number wake (Option.some.inj hwaits)

theorem Turn.leaves {place : Nat} {thread : ThreadId} {β : Type} {suspension : Suspension β}
    {world : World α} (h : Turn place thread suspension.awaits? world) (hfair : suspension.IsFair) :
    Leaves place thread suspension.posture world := by
  refine ⟨h.sound, h.running, fun number cell hcell hcaller hopen => ?_,
    fun number wake hwaits => ?_, ?_⟩
  · have hawaits : suspension.awaits? = some number := by
      by_contra hne
      exact hopen (h.closed number cell hcell hcaller hne)
    obtain ⟨found, hfound, -, hpending, -⟩ := h.awaited number hawaits
    rw [hcell] at hfound
    obtain rfl := Option.some.inj hfound
    cases suspension with
    | ended result => cases hawaits
    | waits waiting wake =>
        change waiting.cell? = some number at hawaits
        obtain rfl := (hfair waiting wake rfl).2 (by simp [hawaits])
        rw [Suspension.posture, hawaits]
        exact ⟨rfl, hpending⟩
  · have hawaits : suspension.awaits? = some number := by
      cases suspension with
      | ended result => rcases result with _ | _ <;> cases hwaits
      | waits waiting mark =>
          simp only [Suspension.posture, Posture.waits.injEq] at hwaits
          exact hwaits.1
    obtain ⟨cell, hcell, hcaller, -, hopen⟩ := h.awaited number hawaits
    exact ⟨cell, hcell, hcaller, hopen⟩
  · cases suspension with
    | ended result => rcases result with _ | _ <;> exact fun h => by cases h
    | waits waiting wake => exact fun h => by cases h

/-- A thread whose turn begins. -/
theorem Sound.begin {world : World α} (h : world.Sound) {place : Nat} {thread : ThreadId}
    {posture : Posture} (hstands : world.posture? place thread = some posture) :
    (world.modifyThread place thread Thread.begin).Sound ∧
      (world.modifyThread place thread Thread.begin).posture? place thread = some .running := by
  have hposture : ∀ strand id,
      (world.modifyThread place thread Thread.begin).posture? strand id =
        if place = strand ∧ thread = id then some .running else world.posture? strand id := by
    intro strand id
    rw [posture?_begin]
    split
    · rename_i heq
      obtain ⟨rfl, rfl⟩ := heq
      rw [hstands]
      rfl
    · rfl
  refine ⟨?_, by rw [hposture, if_pos ⟨rfl, rfl⟩]⟩
  refine h.stand hposture (cell?_modifyThread _ _ _ _) (errand?_begin _ _ _) (fun _ _ => rfl) ?_ ?_
  · exact fun _ _ _ _ _ => trivial
  · intro number wake hwaits
    cases hwaits

theorem Sound.turn_cancelled {world : World α} (h : world.Sound) {scope : Scope} {β : Type}
    {waiting : Waiting β} (hstands : world.posture? scope.strand scope.thread =
      some (.waits waiting.cell? .cancelled)) :
    Leaves scope.strand scope.thread (.finished true)
      ((world.modifyThread scope.strand scope.thread Thread.begin).unwind scope waiting) := by
  obtain ⟨hsound, hrunning⟩ := h.begin hstands
  have hunwound := hsound.unwind scope waiting
  have hframe := frame_unwind scope waiting
    (world.modifyThread scope.strand scope.thread Thread.begin)
  have hadds : Adds (fun _ => True) (world.modifyThread scope.strand scope.thread Thread.begin)
      ((world.modifyThread scope.strand scope.thread Thread.begin).unwind scope waiting) :=
    adds_unwind (fun _ => trivial) (fun _ _ => trivial) waiting _
  refine ⟨hunwound, (hframe.running _ _).mpr hrunning, fun number cell hcell hcaller hopen => ?_,
    by simp, fun h => by cases h⟩
  obtain ⟨earlier, hearlier, horigin⟩ := hframe.cell_of_after hcell
  simp only [Cell.origin, Prod.mk.injEq] at horigin
  obtain ⟨later, hpast, -⟩ := hadds.past scope.strand number
  have hbefore : ¬ IsClosed (world.past scope.strand number) := fun hclosed =>
    hopen (hadds.isClosed hclosed)
  rw [cell?_modifyThread] at hearlier
  have hattends := h.attended _ number earlier hearlier hbefore
  rw [horigin.2.1, hcaller, hstands] at hattends
  -- the execution was complete or given up when the thread was cancelled
  have hstate : earlier.state ≠ .pending := by
    cases hwaited : waiting.cell? with
    | none =>
        rw [hwaited] at hattends
        exact hattends.elim
    | some awaited =>
        rw [hwaited] at hattends
        exact hattends.2
  have haccounts := h.accounts _ number earlier hearlier
  have hnow := hunwound.accounts _ number cell hcell
  rw [hpast, ← horigin.1] at hnow
  exact haccounts.not_pending_stays hstate hnow

theorem Sound.resumed {world : World α} (h : world.Sound) {scope : Scope} {β : Type}
    {waiting : Waiting β} (hstands : world.posture? scope.strand scope.thread =
      some (.waits waiting.cell? .woken)) :
    Turn scope.strand scope.thread none
      ((world.modifyThread scope.strand scope.thread Thread.begin).resumed scope waiting).1 := by
  obtain ⟨hsound, hrunning⟩ := h.begin hstands
  have hcells := cell?_modifyThread scope.strand scope.thread Thread.begin world
  let begun := world.modifyThread scope.strand scope.thread Thread.begin
  have hothers : ∀ number cell, begun.cell? scope.strand number = some cell →
      cell.caller = scope.thread → ¬ IsClosed (begun.past scope.strand number) →
        waiting.cell? = some number ∧ ∃ outcome, cell.state = .settled outcome := by
    intro number cell hcell hcaller hopen
    have hattends := h.attended _ number cell (hcells .. ▸ hcell) hopen
    rw [hcaller, hstands] at hattends
    cases hwaited : waiting.cell? with
    | none =>
        rw [hwaited] at hattends
        exact hattends.elim
    | some awaited =>
        rw [hwaited] at hattends
        obtain ⟨rfl, hsettled⟩ := hattends
        exact ⟨rfl, hsettled⟩
  have hmoment : waiting.cell? = none → Turn scope.strand scope.thread none begun := by
    intro hnone
    refine ⟨hsound, hrunning, fun number cell hcell hcaller _ => ?_, fun _ h => by cases h⟩
    by_contra hopen
    obtain ⟨hsome, -⟩ := hothers number cell hcell hcaller hopen
    rw [hnone] at hsome
    cases hsome
  cases waiting with
  | turn notice next => exact hmoment rfl
  | timer notice next => exact hmoment rfl
  | event name notice next => exact hmoment rfl
  | cell number next =>
      obtain ⟨cell, hcell, hcaller, hopen⟩ := h.awaited _ _ number .woken hstands
      have hbegun : begun.cell? scope.strand number = some cell := (hcells ..).trans hcell
      obtain ⟨-, outcome, hsettled⟩ := hothers number cell hbegun hcaller hopen
      have houtcome : begun.outcome? scope.strand number = some outcome := by
        simp [outcome?, hbegun, hsettled]
      have hgiven := hsound.give { scope with step := cell.step } hbegun hsettled hopen
        (hcaller ▸ hrunning)
      rw [resumed_cell hbegun houtcome]
      refine ⟨hgiven, hrunning, fun other found hfound hthread _ => ?_, fun _ h => by cases h⟩
      rw [past_noteExecution]
      split
      · exact .inl ⟨outcome, by simp⟩
      · rename_i hne
        by_contra hother
        obtain ⟨hsame, -⟩ := hothers other found hfound hthread hother
        exact hne ⟨rfl, Option.some.inj hsame⟩

theorem sameTurns_resumed {β : Type} (scope : Scope) (waiting : Waiting β) (world : World α) :
    SameTurns world (world.resumed scope waiting).1 :=
  resumed_induction (.refl world) fun _ _ _ _ => .of_eq fun _ _ => rfl

theorem Sound.turn {world : World α} (h : world.Sound) (scope : Scope) {β : Type}
    {waiting : Waiting β} {isCancelled : Bool}
    (hstands : world.posture? scope.strand scope.thread =
      some (.waits waiting.cell? (if isCancelled then .cancelled else .woken))) :
    Leaves scope.strand scope.thread
        ((world.modifyThread scope.strand scope.thread Thread.begin).turn scope waiting
          isCancelled).2.posture
        ((world.modifyThread scope.strand scope.thread Thread.begin).turn scope waiting
          isCancelled).1 ∧
      SameTurns (world.modifyThread scope.strand scope.thread Thread.begin)
        ((world.modifyThread scope.strand scope.thread Thread.begin).turn scope waiting
          isCancelled).1 := by
  cases isCancelled with
  | true => exact ⟨h.turn_cancelled hstands, (frame_unwind ..).running⟩
  | false =>
      have hresumed := h.resumed hstands
      have hturns := sameTurns_resumed scope waiting
        (world.modifyThread scope.strand scope.thread Thread.begin)
      simp only [World.turn, Bool.false_eq_true, if_false]
      rcases hrest : (world.modifyThread scope.strand scope.thread Thread.begin).resumed scope
        waiting with ⟨middle, routine⟩
      rw [hrest] at hresumed hturns
      obtain ⟨hturn, hfair⟩ := routine.turn_run hresumed
      have hleaves := hturn.leaves hfair
      have hran := hturns.trans (routine.sameTurns_run scope middle)
      rcases hend : routine.run scope middle with ⟨after, suspension⟩
      rw [hend] at hleaves hran
      cases suspension <;> exact ⟨hleaves, hran⟩

/-! ### Jobs -/

/-- No thread has its turn: the state between two jobs. -/
def IsIdle (world : World α) : Prop :=
  ∀ place thread, world.posture? place thread ≠ some .running

/-- The law of executions in a state between two jobs. -/
structure Lawful (world : World α) : Prop where
  sound : world.Sound
  idle : world.IsIdle

theorem Lawful.of_frame {world other : World α} (h : world.Lawful) (hsound : other.Sound)
    (hframe : Frame world other) : other.Lawful :=
  ⟨hsound, fun place thread hrunning => h.idle place thread ((hframe.running place thread).mp hrunning)⟩

theorem Lawful.of_eq {world other : World α} (h : world.Lawful)
    (hstrands : other.strands = world.strands) (hrecord : other.record = world.record) :
    other.Lawful := by
  refine ⟨h.sound.of_eq hstrands hrecord, fun place thread => ?_⟩
  have hidle := h.idle place thread
  simpa only [posture?, strand?, hstrands] using hidle

theorem Lawful.resume {world : World α} (h : world.Lawful) (strand : Nat) (thread : ThreadId) :
    (world.resume strand thread).Lawful := by
  rcases world.resume_cases strand thread with ⟨hsame, -⟩ |
    ⟨β, step, cell, waiting, isCancelled, after, status, hstands, hturn, hstored⟩
  · rw [hsame]
    exact h
  · let scope : Scope := ⟨strand, thread, step, cell⟩
    obtain ⟨hleaves, hturns⟩ := h.sound.turn scope hstands
    rw [hturn] at hleaves hturns
    have hposture : ∀ place id, (world.resume strand thread).posture? place id =
        if strand = place ∧ thread = id then some status.posture else after.posture? place id := by
      intro place id
      rw [hstored.posture]
      split
      · rename_i heq
        obtain ⟨rfl, rfl⟩ := heq
        rw [hleaves.running]
        rfl
      · rfl
    refine ⟨hleaves.sound_store hposture hstored.cell hstored.errand fun _ _ => ?_,
      fun place id hrunning => ?_⟩
    · rw [past, hstored.record]
      rfl
    · rw [hposture] at hrunning
      split at hrunning
      · exact hleaves.leaves (Option.some.inj hrunning)
      · rename_i hne
        have hbegun := (hturns place id).mp hrunning
        rw [posture?_begin, if_neg hne] at hbegun
        exact h.idle place id hbegun

theorem Lawful.deliver {world : World α} (h : world.Lawful) (strand child : Nat) :
    (world.deliver strand child).Lawful := by
  rw [World.deliver]
  split
  · exact h
  · rename_i thread hthread
    obtain ⟨current, hstrand, hchild⟩ := Option.bind_eq_some_iff.mp hthread
    split
    · rename_i number result hdelivers hnumber hresult
      split
      · rename_i cell hcell
        refine h.of_frame (h.sound.settle hcell rfl rfl ?_) (frame_settle ..)
        intro ended _
        have herrand : world.errand? strand child = some (number, true) := by
          rw [errand?, hstrand, Option.bind_some, hchild, Option.bind_some, hnumber, hdelivers]
          rfl
        obtain ⟨found, hfound, later, started, earlier, hpast, hkind⟩ :=
          h.sound.errand strand child number true herrand
        rw [hcell] at hfound
        obtain rfl := Option.some.inj hfound
        rcases hkind with hnone | ⟨-, hfalse⟩
        · exact ⟨later, started, earlier, hpast, hnone⟩
        · cases hfalse
      · exact h
    · exact h

theorem Lawful.perform {world : World α} (h : world.Lawful) (job : Job) :
    (world.perform job).Lawful := by
  cases job with
  | resume strand thread => exact h.resume strand thread
  | fire strand goal =>
      cases goal with
      | wake thread => exact h.of_frame (h.sound.wake strand thread) (frame_wake ..)
      | complete cell result =>
          exact h.of_frame (h.sound.complete strand cell result) (frame_complete ..)
  | deliver strand child => exact h.deliver strand child
  | announce strand => exact h
  | supervise => exact h

theorem Lawful.cancel {world : World α} (h : world.Lawful) (strand : Nat) (thread : ThreadId) :
    (world.cancel strand thread).Lawful :=
  h.of_frame (h.sound.cancel strand thread) (frame_cancel ..)

theorem Lawful.advance {world next : World α} (h : world.Lawful)
    (hnext : world.advance? = some next) : next.Lawful := by
  obtain ⟨due, -, heq⟩ := Option.bind_eq_some_iff.mp hnext
  obtain rfl := Option.some.inj heq
  exact h.of_eq rfl rfl

/-- The state before anything has happened. -/
theorem Lawful.start (surroundings : Surroundings) (calls : Entries Nat)
    {strands : List (Strand α)}
    (hfresh : ∀ strand ∈ strands, strand.cells = [] ∧ strand.children = [] ∧
      ∃ routine, strand.root = Thread.start none none false routine) :
    (World.start surroundings calls strands).Lawful := by
  have hstrand : ∀ place strand, (World.start surroundings calls strands).strand? place = some strand →
      strand.cells = [] ∧ strand.children = [] ∧
        ∃ routine, strand.root = Thread.start none none false routine :=
    fun place strand hfound => hfresh strand (List.mem_of_getElem? hfound)
  have hcell : ∀ place number, (World.start surroundings calls strands).cell? place number = none := by
    intro place number
    rw [cell?]
    cases hfound : (World.start surroundings calls strands).strand? place with
    | none => rfl
    | some strand =>
        obtain ⟨hcells, -⟩ := hstrand place strand hfound
        simp [hcells]
  have hposture : ∀ place thread posture,
      (World.start surroundings calls strands).posture? place thread = some posture →
        posture = .waits none .woken := by
    intro place thread posture hstands
    obtain ⟨strand, hfound, hthread⟩ := Option.bind_eq_some_iff.mp hstands
    obtain ⟨-, hchildren, routine, hroot⟩ := hstrand place strand hfound
    cases thread with
    | root =>
        rw [Strand.posture?, hroot] at hthread
        exact (Option.some.inj hthread).symm
    | child number => simp [Strand.posture?, hchildren] at hthread
  refine ⟨⟨fun _ _ _ => rfl, ?_, ?_, ?_, ?_, ?_, ?_⟩, ?_⟩
  · intro place number cell hfound
    rw [hcell] at hfound
    cases hfound
  · intro place number cell hfound
    rw [hcell] at hfound
    cases hfound
  · intro place number cell hfound
    rw [hcell] at hfound
    cases hfound
  · intro place child number delivers hchild
    obtain ⟨strand, hfound, hthread⟩ := Option.bind_eq_some_iff.mp hchild
    obtain ⟨-, hchildren, -⟩ := hstrand place strand hfound
    simp [hchildren] at hthread
  · intro place number cell hfound
    rw [hcell] at hfound
    cases hfound
  · intro place thread number wake hwaits
    cases hposture place thread _ hwaits
  · intro place thread hrunning
    cases hposture place thread _ hrunning

end World

end Cascade
