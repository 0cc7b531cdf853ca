import Cascade.Proofs.Chain.Discipline
import Cascade.Proofs.Chain.Steady
import Cascade.Proofs.Run.Still

/-!
A batch before anything is given up: the thread of every chain goes on steadily, none is cancelled, and
the end of each is announced. One job after the other keeps it so.
-/

namespace Cascade

/-- A state that leads to a result, in which a thread waits at its start or for a step. -/
def ThreadStatus.Steady {β : Type} (count : Nat) : ThreadStatus β → Prop
  | .waiting (.turn none next) _ => (next ()).Steady count
  | .waiting (.cell _ next) _ => ∀ outcome, (next outcome).Steady count
  | .finished (.ok _) => True
  | _ => False

theorem Suspension.Steady.status {β : Type} {count : Nat} {suspension : Suspension β}
    (h : suspension.Steady count) :
    suspension.status.calm.Steady count ∧
      ∀ cell, suspension.status.posture ≠ .waits cell .cancelled := by
  rcases suspension with (fault | value) | ⟨_ | _ | _ | _, _ | _ | _⟩
  case ended.ok => exact ⟨trivial, fun _ h => by cases h⟩
  case waits.cell.asleep => exact ⟨h, fun _ hcancelled => by cases hcancelled⟩
  all_goals exact h.elim

namespace World

theorem length_eq_of_outline {α : Type} {before after : World α}
    (h : ∀ place, (after.outline? place).isSome = (before.outline? place).isSome) :
    after.strands.length = before.strands.length := by
  have hsome : ∀ (world : World α) place,
      (world.outline? place).isSome = true ↔ place < world.strands.length := by
    intro world place
    rw [outline?, shape?, Option.isSome_map, Option.isSome_map, strand?]
    simp
  have hiff : ∀ place, place < after.strands.length ↔ place < before.strands.length :=
    fun place => by rw [← hsome after, ← hsome before, h]
  refine Nat.le_antisymm (Nat.le_of_not_lt fun hlt => ?_) (Nat.le_of_not_lt fun hlt => ?_)
  · exact Nat.lt_irrefl _ ((hiff _).mp hlt)
  · exact Nat.lt_irrefl _ ((hiff _).mpr hlt)

theorem isSome_outline?_modifyStrand {α : Type} (strand : Nat) (change : Strand α → Strand α)
    (world : World α) (place : Nat) :
    ((world.modifyStrand strand change).outline? place).isSome =
      (world.outline? place).isSome := by
  rw [outline?, shape?, strand?_modifyStrand, outline?, shape?]
  split <;> simp

theorem perform_cases {α : Type} (job : Job) (world : World α) :
    (∃ place, job = .resume place .root) ∨
      (∀ place, job ≠ .resume place .root) ∧ Still world (world.perform job) ∧
        ∀ place, (world.perform job).outline? place = world.outline? place := by
  have hsame : ∀ other : World α, SameShape world other →
      ∀ place, other.outline? place = world.outline? place :=
    fun other hshape place => by rw [outline?, congrFun hshape place, outline?]
  cases job with
  | resume strand thread =>
      cases thread with
      | root => exact .inl ⟨strand, rfl⟩
      | child number =>
          obtain ⟨hclock, hwakes⟩ := still_resume strand (.child number) world
          exact .inr ⟨by simp, ⟨hclock, fun place => hwakes place fun hall => by cases hall.2⟩,
            (world.inside_resume_child strand number).outline⟩
  | fire strand goal =>
      exact .inr ⟨by simp, still_fire .., hsame _ (sameShape_fire ..)⟩
  | deliver strand child =>
      exact .inr ⟨by simp, still_deliver .., hsame _ (sameShape_deliver ..)⟩
  | announce | supervise => exact .inr ⟨by simp, .refl world, fun _ => rfl⟩

theorem length_perform {α : Type} (job : Job) (world : World α) :
    (world.perform job).strands.length = world.strands.length := by
  rcases world.perform_cases job with ⟨place, rfl⟩ | ⟨-, -, houtline⟩
  · rcases world.resume_root_cases place with hsame |
      ⟨current, waiting, isCancelled, after, status, -, -, hturn, hresume⟩
    · exact congrArg (fun other => other.strands.length) hsame
    · refine length_eq_of_outline fun other => ?_
      have hafter := (inside_turn ⟨place, .root, current.root.step, current.root.cell⟩ waiting
        isCancelled (world.modifyThread place .root Thread.begin)).outline other
      rw [hturn] at hafter
      have hclose : ((after.setRoot place status).close (.announce place) status).outline? other =
          (after.setRoot place status).outline? other := by
        cases status <;> rfl
      rw [perform, hresume, hclose, setRoot, isSome_outline?_modifyStrand, hafter]
      exact isSome_outline?_modifyStrand ..
  · exact length_eq_of_outline fun place => by rw [houtline]

theorem queue_perform {α : Type} (job : Job) (world : World α) :
    ∃ jobs, (world.perform job).queue = world.queue ++ jobs := by
  cases job with
  | resume strand thread =>
      rcases world.resume_cases strand thread with ⟨hsame, -⟩ |
        ⟨β, step, cell, waiting, isCancelled, after, status, -, hturn, hstored⟩
      · rw [perform, hsame]
        exact ⟨[], (List.append_nil _).symm⟩
      · obtain ⟨jobs, hjobs⟩ := (enqueues_turn ⟨strand, thread, step, cell⟩ waiting isCancelled
          (world.modifyThread strand thread Thread.begin)).1.queue
        obtain ⟨more, hmore⟩ := hstored.queue
        rw [hturn] at hjobs
        exact ⟨jobs ++ more, by rw [perform, hmore, hjobs, List.append_assoc]; rfl⟩
  | fire strand goal =>
      cases goal with
      | wake thread => exact (enqueues_wake ..).queue
      | complete cell result => exact (enqueues_complete ..).queue
  | deliver strand child =>
      rw [perform, World.deliver]
      split
      · exact ⟨[], (List.append_nil _).symm⟩
      · split
        · split
          · exact (enqueues_settle ..).queue
          · exact ⟨[], (List.append_nil _).symm⟩
        · exact ⟨[], (List.append_nil _).symm⟩
  | announce | supervise => exact ⟨[], (List.append_nil _).symm⟩

end World

namespace Batch

/-- A chain that goes on steadily with ordinary commands, or has ended with a result. -/
def Dependable (place : Nat) (world : World ChainResult) : Prop :=
  ∃ invocations thread, world.outline? place = some (invocations, thread) ∧
    (∀ invocation ∈ invocations, invocation.command.IsOrdinary) ∧
    thread.status.Steady invocations.length

/-- The thread of no chain is cancelled. -/
def Uncancelled (world : World ChainResult) : Prop :=
  ∀ place cell, world.posture? place .root ≠ some (.waits cell .cancelled)

variable {world after : World ChainResult} {place : Nat}

theorem Dependable.of_outline (h : Dependable place world)
    (houtline : after.outline? place = world.outline? place) : Dependable place after := by
  rwa [Dependable, houtline]

theorem Uncancelled.of_wakes (h : Uncancelled world)
    (hwakes : ∀ place, World.Wakes (world.posture? place .root) (after.posture? place .root)) :
    Uncancelled after := by
  intro place cell hcancelled
  rcases hwakes place with hsame | ⟨other, -, hwoken⟩
  · exact h place cell (hsame.symm.trans hcancelled)
  · cases hwoken.symm.trans hcancelled

theorem result?_of_outline (houtline : after.outline? place = world.outline? place) :
    result? after place = result? world place := by
  rw [result?_eq_outline, houtline, result?_eq_outline]

/-- A thread whose turn has come goes on with the value that it waited for. -/
theorem Dependable.resumed {invocations : List Invocation} {waiting : Waiting ChainResult}
    {wake : Wake} (h : (ThreadStatus.waiting waiting wake).Steady invocations.length)
    (hlawful : world.Lawful)
    (hwoken : world.posture? place .root = some (.waits waiting.cell? .woken)) (scope : Scope)
    (hplace : scope.strand = place) :
    ((world.modifyThread place .root Thread.begin).resumed scope waiting).2.Steady
      invocations.length := by
  cases waiting with
  | turn notice next =>
      cases notice with
      | none => exact h
      | some item => exact h.elim
  | timer | event => exact h.elim
  | cell number next =>
      obtain ⟨cell, hcell, hcaller, hopen⟩ := hlawful.sound.awaited place .root number _ hwoken
      have hattends := hlawful.sound.attended place number cell hcell hopen
      rw [hcaller, hwoken] at hattends
      obtain ⟨-, outcome, hsettled⟩ := hattends
      have hbegun : (world.modifyThread place .root Thread.begin).cell? place number =
          some cell := (World.cell?_modifyThread place .root Thread.begin world place number).trans
            hcell
      have houtcome : (world.modifyThread place .root Thread.begin).outcome? place number =
          some outcome := by
        simp [World.outcome?, hbegun, hsettled]
      subst hplace
      simp only [World.resumed, hbegun, houtcome]
      exact h outcome

theorem Dependable.resume_root (h : Dependable place world) (huncancelled : Uncancelled world)
    (hlawful : world.Lawful) :
    Dependable place (world.resume place .root) ∧ ∀ cell,
      (world.resume place .root).posture? place .root ≠ some (.waits cell .cancelled) := by
  rcases world.resume_root_cases place with hsame |
    ⟨current, waiting, isCancelled, after, status, hstrand, hstatus, hturn, hresume⟩
  · rw [hsame]
    exact ⟨h, huncancelled place⟩
  obtain ⟨invocations, thread, hthread, hordinary, hsteady⟩ := h
  have hposture : world.posture? place .root =
      some (.waits waiting.cell? (if isCancelled then .cancelled else .woken)) := by
    rw [World.posture?, hstrand]
    change some current.root.status.posture = _
    rw [hstatus]
    rfl
  obtain rfl : isCancelled = false := by
    cases isCancelled
    · rfl
    · exact absurd hposture (huncancelled place _)
  have hcurrent : thread.status = .waiting waiting .asleep := by
    rw [World.outline?, World.shape?, hstrand] at hthread
    obtain ⟨-, rfl⟩ := Prod.mk.inj (Option.some.inj hthread)
    change current.root.status.calm = _
    rw [hstatus]
    rfl
  rw [hcurrent] at hsteady
  let scope : Scope := ⟨place, .root, current.root.step, current.root.cell⟩
  let begun := world.modifyThread place .root Thread.begin
  have hbegun : begun.outline? place = some (invocations, { thread with status := .running }) := by
    refine Chain.outline?_modifyStrand ?_ hthread
    exact fun _ => ⟨rfl, rfl⟩
  obtain ⟨last, hafter⟩ : ∃ last, after.outline? place = some (invocations, last) := by
    have hinside := (World.inside_turn scope waiting false begun).own
    rw [hturn] at hinside
    exact ⟨_, hinside.trans hbegun⟩
  have hend : status.calm.Steady invocations.length ∧
      ∀ cell, status.posture ≠ .waits cell .cancelled := by
    have hresumed := Dependable.resumed hsteady hlawful hposture scope rfl
    have hhere : ((begun.resumed scope waiting).1.outline? scope.strand).map Prod.fst =
        some invocations := by
      rw [(World.inside_resumed scope waiting begun).own, hbegun]
      rfl
    have hrun := hresumed.run hordinary hhere
    rw [World.turn_of_not_cancelled] at hturn
    obtain ⟨-, rfl⟩ := Prod.mk.inj hturn
    exact hrun.status
  have hstored : (after.setRoot place status).outline? place =
      some (invocations, { last with status := status.calm }) := by
    refine Chain.outline?_modifyStrand ?_ hafter
    exact fun _ => ⟨rfl, rfl⟩
  rw [hresume]
  refine ⟨⟨invocations, { last with status := status.calm }, ?_, hordinary, hend.1⟩,
    fun cell hcancelled => ?_⟩
  · cases status <;> exact hstored
  · have hset := World.posture?_setRoot place status after place .root
    rw [if_pos ⟨rfl, rfl⟩] at hset
    have hclose : ((after.setRoot place status).close (.announce place) status).posture? place
        .root = (after.setRoot place status).posture? place .root := by
      cases status <;> rfl
    rw [hclose, hset] at hcancelled
    obtain ⟨-, -, hstands⟩ := Option.map_eq_some_iff.mp hcancelled
    exact hend.2 cell hstands

/-! ### Jobs -/

/-- A batch before anything is given up. -/
structure Orderly (count : Nat) (world : World ChainResult) : Prop where
  length : world.strands.length = count
  dependable : ∀ place < count, Dependable place world
  uncancelled : Uncancelled world
  lawful : world.Lawful
  ready : world.Ready
  ownRecord : ∀ occurrence ∈ world.record, occurrence.strand ≠ none

/-- What a chain comes to during a job: it goes on as before, or it ends and that is announced. -/
def Announces (before after : World ChainResult) (place : Nat) : Prop :=
  result? after place = result? before place ∨
    result? before place = none ∧ .announce place ∈ after.queue

theorem announces_resume_root (place : Nat) (world : World ChainResult) (other : Nat) :
    Announces world (world.resume place .root) other := by
  by_cases hne : other = place
  · subst hne
    rcases world.resume_root_cases other with hsame |
      ⟨current, waiting, isCancelled, after, status, hstrand, hstatus, hturn, hresume⟩
    · exact .inl (by rw [hsame])
    · have hnone : result? world other = none := by
        rw [result?, hstrand]
        change current.root.result? = none
        rw [Thread.result?, hstatus]
      rw [Announces, hresume]
      cases status with
      | finished result => exact .inr ⟨hnone, List.mem_append_right _ (List.mem_singleton_self _)⟩
      | running | waiting =>
          refine .inl (Eq.trans ?_ hnone.symm)
          rw [result?]
          change (World.strand? (after.setRoot other _) other).bind _ = none
          rw [World.setRoot, World.strand?_modifyStrand, if_pos rfl]
          cases after.strand? other <;> rfl
  · refine .inl (result?_of_outline ?_)
    rw [World.outline?, World.shape?_resume_root hne, World.outline?]

/-- What a job leaves as it is. -/
structure Performs (before after : World ChainResult) : Prop where
  clock : after.clock = before.clock
  queue : ∃ jobs, after.queue = before.queue ++ jobs
  announces : ∀ place, Announces before after place

theorem performs_perform (job : Job) (world : World ChainResult) :
    Performs world (world.perform job) := by
  refine ⟨?_, World.queue_perform job world, fun place => ?_⟩
  · cases job with
    | resume strand thread => exact (World.still_resume strand thread world).1
    | fire strand goal => exact (World.still_fire ..).clock
    | deliver strand child => exact (World.still_deliver ..).clock
    | announce | supervise => rfl
  · have hshape : ∀ other : World ChainResult, World.SameShape world other →
        Announces world other place := fun other hsame =>
      .inl (result?_of_outline (by rw [World.outline?, congrFun hsame place, World.outline?]))
    cases job with
    | resume strand thread =>
        cases thread with
        | root => exact announces_resume_root strand world place
        | child number =>
            exact .inl (result?_of_outline ((world.inside_resume_child strand number).outline place))
    | fire strand goal => exact hshape _ (World.sameShape_fire ..)
    | deliver strand child => exact hshape _ (World.sameShape_deliver ..)
    | announce | supervise => exact .inl rfl

theorem owned_perform (job : Job) (world : World ChainResult) :
    World.Adds (fun occurrence => occurrence.strand ≠ none) world (world.perform job) := by
  have howned : ∀ {strand : Nat} {occurrence : Occurrence}, occurrence.strand = some strand →
      occurrence.strand ≠ none := fun hsome => hsome ▸ Option.some_ne_none _
  cases job with
  | resume strand thread => exact (world.within_resume strand thread).mono fun _ h => howned h.1
  | fire strand goal => exact (World.told_fire ..).mono fun _ h => howned h.1
  | deliver strand child => exact (World.told_deliver ..).mono fun _ h => howned h.1
  | announce | supervise => exact .refl world

theorem Orderly.perform {count : Nat} (h : Orderly count world) {job : Job} {rest : List Job}
    (hqueue : world.queue = job :: rest) :
    Orderly count ({ world with queue := rest }.perform job) := by
  let taken : World ChainResult := { world with queue := rest }
  have hreach : World.Step world (taken.perform job) := .perform [] rest job hqueue
  have hlawful : taken.Lawful := h.lawful.of_eq rfl rfl
  have hthreads : (∀ place < count, Dependable place (taken.perform job)) ∧
      Uncancelled (taken.perform job) := by
    rcases World.perform_cases job taken with ⟨strand, rfl⟩ | ⟨-, hstill, houtline⟩
    · have hturn : ∀ place < count, Dependable place (taken.resume place .root) ∧ ∀ cell,
          (taken.resume place .root).posture? place .root ≠ some (.waits cell .cancelled) :=
        fun place hplace => Dependable.resume_root ((h.dependable place hplace).of_outline rfl)
          h.uncancelled hlawful
      refine ⟨fun place hplace => ?_, fun place cell hcancelled => ?_⟩
      · by_cases hsame : place = strand
        · exact hsame ▸ (hturn place hplace).1
        · refine (h.dependable place hplace).of_outline ?_
          exact (congrArg _ (World.shape?_resume_root hsame taken)).trans rfl
      · by_cases hsame : strand = place
        · subst hsame
          by_cases hplace : strand < count
          · exact (hturn strand hplace).2 cell hcancelled
          · have hlength : (taken.perform (.resume strand .root)).strands.length = count :=
              (World.length_perform (.resume strand .root) taken).trans h.length
            have hnone : (taken.perform (.resume strand .root)).strands[strand]? = none :=
              List.getElem?_eq_none (by omega)
            rw [World.posture?, World.strand?, hnone] at hcancelled
            cases hcancelled
        · have hwakes := (World.still_resume strand .root taken).2 place fun hall => hsame hall.1
          rcases hwakes with heq | ⟨other, -, hwoken⟩
          · exact h.uncancelled place cell (heq.symm.trans hcancelled)
          · cases hwoken.symm.trans hcancelled
    · exact ⟨fun place hplace => (h.dependable place hplace).of_outline (houtline place),
        Uncancelled.of_wakes h.uncancelled hstill.root⟩
  refine {
    length := (World.length_perform job taken).trans h.length
    dependable := hthreads.1
    uncancelled := hthreads.2
    lawful := h.lawful.step hreach
    ready := h.ready.step hreach
    ownRecord := ?_ }
  · obtain ⟨added, hrecord, hadded⟩ := owned_perform job taken
    intro occurrence hmem
    rw [hrecord] at hmem
    rcases List.mem_append.mp hmem with hnew | hold
    · exact hadded occurrence hnew
    · exact h.ownRecord occurrence hold

end Batch

end Cascade
