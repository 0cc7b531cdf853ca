import Cascade.Proofs.Chain.Discipline

/-!
The title of a chain of several commands. Nothing of a chain is recorded before the first turn of its
thread, and that turn begins with the title, whether the chain can be read or not. So the title comes
before everything else that is shown of the chain, whatever its commands print and whatever happens to
it.
-/

namespace Cascade

/-- What a run has shown of one chain so far. -/
def World.shownOf {α : Type} (world : World α) (place : Nat) : List Item :=
  (world.shown.filter fun entry => entry.1 = some place).map Prod.snd

namespace Chain

/-- The occurrence by which the title of a chain of several commands is printed. -/
def titling (chain : Chain) (place : Nat) : Occurrence :=
  ⟨some place, some .root, none, .item (.line (Report.batchTitle chain.label))⟩

/-- Nothing of a chain is recorded: its thread has not had a turn, or it was cancelled before that. -/
structure Untouched (chain : Chain) (place : Nat) (world : World ChainResult) : Prop where
  bare : IsBare place world
  unrecorded : ∀ occurrence ∈ world.record, occurrence.strand ≠ some place
  thread : ∃ invocations thread, world.outline? place = some (invocations, thread) ∧
    thread.step = none ∧
      (thread.status = .waiting (.turn none fun _ => chain.routine) .asleep ∨
        ∃ result, thread.status = .finished result)

/-- Whatever is recorded of a chain comes after its title. -/
inductive IsTitled (chain : Chain) (place : Nat) (world : World ChainResult) : Prop
  | untouched (h : Untouched chain place world)
  | titled (later earlier : List Occurrence)
      (record : world.record = later ++ chain.titling place :: earlier)
      (unrecorded : ∀ occurrence ∈ earlier, occurrence.strand ≠ some place)

variable {chain : Chain} {place : Nat} {world next : World ChainResult}

/-! ### A strand without executions -/

theorem IsBare.cell?_eq_none (h : IsBare place world) (number : Nat) :
    world.cell? place number = none := by
  obtain ⟨shape, hshape, -, hnone⟩ := h
  obtain ⟨current, hstrand, rfl⟩ := Option.map_eq_some_iff.mp hshape
  have hempty : current.cells = [] := List.map_eq_nil_iff.mp hnone
  simp [World.cell?, hstrand, hempty]

theorem IsBare.record_fire (h : IsBare place world) (goal : Goal) :
    (world.fire place goal).record = world.record := by
  cases goal with
  | wake thread =>
      simp only [World.fire, World.wake]
      split <;> rfl
  | complete number result => simp only [World.fire, World.complete, h.cell?_eq_none number]

theorem IsBare.deliver (h : IsBare place world) (child : Nat) :
    world.deliver place child = world := by
  obtain ⟨shape, hshape, hnone, -⟩ := h
  obtain ⟨current, hstrand, rfl⟩ := Option.map_eq_some_iff.mp hshape
  have hempty : current.children = [] := List.map_eq_nil_iff.mp hnone
  simp [World.deliver, hstrand, hempty]

theorem IsBare.record_cancel (h : IsBare place world) (thread : ThreadId) :
    (world.cancel place thread).record = world.record := by
  have hdrop : ∀ number, world.drop place number = world := fun number => by
    rw [World.drop, h.cell?_eq_none number]
  simp only [World.cancel]
  split
  · split
    · rename_i number _
      rw [hdrop number]
      rfl
    · rfl
  · rfl

/-! ### One step -/

theorem Untouched.of_shape (h : Untouched chain place world)
    (hshape : next.shape? place = world.shape? place)
    (hadds : World.Adds (fun occurrence => occurrence.strand ≠ some place) world next) :
    Untouched chain place next := by
  obtain ⟨added, hrecord, hadded⟩ := hadds
  refine ⟨h.bare.of_shape hshape, fun occurrence hmem => ?_, ?_⟩
  · rw [hrecord] at hmem
    exact (List.mem_append.mp hmem).elim (hadded occurrence) (h.unrecorded occurrence)
  · rw [World.outline?, hshape, ← World.outline?]
    exact h.thread

theorem Untouched.of_other (h : Untouched chain place world) {strand : Nat} (hne : strand ≠ place)
    (hshape : next.shape? place = world.shape? place)
    (hadds : World.Adds (fun occurrence => occurrence.strand = some strand) world next) :
    Untouched chain place next :=
  h.of_shape hshape (hadds.mono fun _ hstrand heq => hne (Option.some.inj (hstrand.symm.trans heq)))

theorem exists_record_routine (hbatch : chain.isBatch = true) (place : Nat) (cell : Option Nat)
    (world : World ChainResult) : ∃ later,
      (chain.routine.run ⟨place, .root, none, cell⟩ world).1.record =
        later ++ chain.titling place :: world.record := by
  let scope : Scope := ⟨place, .root, none, cell⟩
  let titled : World ChainResult := { world with record := chain.titling place :: world.record }
  obtain ⟨rest, hroutine⟩ : ∃ rest : Binary64 → Unit → Routine ChainResult, chain.routine =
      .ask .now fun start => (emitLines
        (if chain.isBatch then [Report.batchTitle chain.label] else [])).bind (rest start) :=
    ⟨_, rfl⟩
  have hrun : chain.routine.run scope world = (rest world.clock ()).run scope titled := by
    rw [hroutine, if_pos hbatch]
    exact run_emitLines scope [Report.batchTitle chain.label] (rest world.clock) world
  obtain ⟨later, hrecord, -⟩ := (rest world.clock ()).within_run scope titled
  exact ⟨later, (congrArg (fun ended => ended.1.record) hrun).trans hrecord⟩

theorem Untouched.finish (h : Untouched chain place world) {result : Except Fault ChainResult} :
    Untouched chain place (((world.modifyThread place .root Thread.begin).setRoot place
      (.finished result)).close (.announce place) (ThreadStatus.finished result)) := by
  let begun := world.modifyThread place .root Thread.begin
  obtain ⟨invocations, thread, hthread, hstep, -⟩ := h.thread
  have hended : (begun.setRoot place (.finished result)).outline? place =
      some (invocations, { thread with status := .finished result }) := by
    have hbegun : begun.outline? place = some (invocations, { thread with status := .running }) := by
      refine outline?_modifyStrand ?_ hthread
      exact fun _ => ⟨rfl, rfl⟩
    refine (outline?_modifyStrand ?_ hbegun).trans rfl
    exact fun _ => ⟨rfl, rfl⟩
  have hbare : IsBare place (begun.setRoot place (.finished result)) := by
    refine (h.bare.modifyStrand ?_ place).modifyStrand ?_ place
    · exact fun _ => ⟨rfl, rfl⟩
    · exact fun _ => ⟨rfl, rfl⟩
  exact ⟨hbare.of_shape rfl, h.unrecorded, invocations, _, hended, hstep, .inr ⟨result, rfl⟩⟩

theorem Untouched.resume_root (hbatch : chain.isBatch = true) (h : Untouched chain place world) :
    IsTitled chain place (world.resume place .root) := by
  rcases world.resume_root_cases place with hsame |
    ⟨current, waiting, isCancelled, after, status, hstrand, hstatus, hturn, hresume⟩
  · rw [hsame]
    exact .untouched h
  obtain ⟨invocations, thread, hthread, hstep, hwaits | ⟨result, hended⟩⟩ := h.thread
  all_goals
    have hroot : thread = current.root.calm := by
      rw [World.outline?, World.shape?, hstrand] at hthread
      exact (Prod.mk.inj (Option.some.inj hthread)).2.symm
    have hcurrent : thread.status = .waiting waiting .asleep := by
      rw [hroot, Thread.calm, hstatus]
      rfl
  · obtain ⟨rfl, -⟩ := ThreadStatus.waiting.inj (hwaits.symm.trans hcurrent)
    have hnone : current.root.step = none := (congrArg Thread.step hroot.symm).trans hstep
    rw [hnone] at hturn
    let begun := world.modifyThread place .root Thread.begin
    have hclose : ∀ status : ThreadStatus ChainResult,
        ((after.setRoot place status).close (.announce place) status).record = after.record := by
      intro status
      cases status <;> rfl
    cases isCancelled with
    | true =>
        obtain ⟨rfl, rfl⟩ := Prod.mk.inj hturn
        rw [hresume]
        exact .untouched h.finish
    | false =>
        rw [World.turn_of_not_cancelled] at hturn
        obtain ⟨later, hrecord⟩ := exists_record_routine hbatch place current.root.cell begun
        have hafter : after.record = later ++ chain.titling place :: world.record :=
          (congrArg World.record (congrArg Prod.fst hturn).symm).trans hrecord
        rw [hresume]
        exact .titled later world.record ((hclose status).trans hafter) h.unrecorded
  · cases hended.symm.trans hcurrent

theorem Untouched.perform (hbatch : chain.isBatch = true) (h : Untouched chain place world)
    (job : Job) : IsTitled chain place (world.perform job) := by
  cases job with
  | resume strand thread =>
      by_cases hplace : strand = place
      · subst hplace
        cases thread with
        | root => exact h.resume_root hbatch
        | child number =>
            rw [World.perform, h.bare.resume_child number]
            exact .untouched h
      · have hadds := (world.within_resume strand thread).mono fun _ within => within.1
        refine .untouched (h.of_other hplace ?_ hadds)
        cases thread with
        | root => exact World.shape?_resume_root (Ne.symm hplace) world
        | child number => exact (world.inside_resume_child strand number).others place (Ne.symm hplace)
  | fire strand goal =>
      have hshape := congrFun (World.sameShape_fire strand goal world) place
      by_cases hplace : strand = place
      · subst hplace
        exact .untouched (h.of_shape hshape (.of_record_eq (h.bare.record_fire goal)))
      · exact .untouched (h.of_other hplace hshape
          ((World.told_fire strand goal world).mono fun _ told => told.1))
  | deliver strand child =>
      by_cases hplace : strand = place
      · subst hplace
        rw [World.perform, h.bare.deliver child]
        exact .untouched h
      · exact .untouched (h.of_other hplace
          (congrFun (World.sameShape_deliver strand child world) place)
          ((World.told_deliver strand child world).mono fun _ told => told.1))
  | announce | supervise => exact .untouched h

theorem Untouched.step (hbatch : chain.isBatch = true) (h : Untouched chain place world)
    (hstep : World.Step world next) : IsTitled chain place next := by
  cases hstep with
  | perform before after job hqueue =>
      have htaken : Untouched chain place { world with queue := before ++ after } :=
        h.of_shape rfl (.of_record_eq rfl)
      exact htaken.perform hbatch job
  | advance next hnext =>
      obtain ⟨due, -, heq⟩ := Option.bind_eq_some_iff.mp hnext
      obtain rfl := Option.some.inj heq
      exact .untouched (h.of_shape rfl (.of_record_eq rfl))
  | cancel strand thread =>
      have hshape := congrFun (World.sameShape_cancel strand thread world) place
      by_cases hplace : strand = place
      · subst hplace
        exact .untouched (h.of_shape hshape (.of_record_eq (h.bare.record_cancel thread)))
      · exact .untouched (h.of_other hplace hshape (World.adds_cancel (fun _ _ => rfl) thread world))
  | print item =>
      refine .untouched (h.of_shape rfl (World.adds_write ?_ world))
      exact fun h => by cases h
  | notify => exact .untouched (h.of_shape rfl (.of_record_eq rfl))
  | complete strand number result => exact h.perform hbatch (.fire strand (.complete number result))

/-! ### Every state of a run -/

theorem IsTitled.step (hbatch : chain.isBatch = true) (h : IsTitled chain place world)
    (hstep : World.Step world next) : IsTitled chain place next := by
  cases h with
  | untouched h => exact h.step hbatch hstep
  | titled later earlier record unrecorded =>
      obtain ⟨added, hrecord, -⟩ := hstep.adds
      exact .titled (added ++ later) earlier (by rw [hrecord, record, List.append_assoc]) unrecorded

theorem IsTitled.reaches (hbatch : chain.isBatch = true) (h : IsTitled chain place world)
    (hreach : World.Reaches world next) : IsTitled chain place next := by
  induction hreach with
  | refl => exact h
  | tail _ hstep ih => exact ih.step hbatch hstep

theorem Untouched.start {surroundings : Surroundings} {calls : Entries Nat}
    {programs : List (List Invocation × Routine ChainResult)} {invocations : List Invocation}
    (h : programs[place]? = some (invocations, chain.routine)) :
    Untouched chain place (World.start surroundings calls
      (programs.map fun program => Strand.start program.1 program.2)) := by
  have hshape : (World.start surroundings calls
      (programs.map fun program => Strand.start program.1 program.2)).shape? place =
        some (Strand.start invocations chain.routine).shape := by
    simp [World.shape?, World.strand?, World.start, h]
  refine ⟨⟨_, hshape, rfl, rfl⟩, (fun _ h => by cases h),
    invocations, (Strand.start invocations chain.routine).shape.root, ?_, rfl, .inl rfl⟩
  rw [World.outline?, hshape]
  rfl

/-- The first thing that is shown of a chain of several commands is its title. -/
theorem IsTitled.first (h : IsTitled chain place world) {item : Item} {rest : List Item}
    (hshown : world.shownOf place = item :: rest) : item = .line (Report.batchTitle chain.label) := by
  have hnone : ∀ record : List Occurrence,
      (∀ occurrence ∈ record, occurrence.strand ≠ some place) →
      (shownItems world.surroundings.silent record).filter (fun entry => entry.1 = some place) =
        [] := by
    intro record hall
    refine List.filter_eq_nil_iff.mpr fun entry hmem hplace => ?_
    obtain ⟨occurrence, hoccurrence, hitems⟩ := List.mem_flatMap.mp hmem
    obtain ⟨item, -, rfl⟩ := List.mem_map.mp hitems
    exact hall occurrence (List.mem_reverse.mp hoccurrence) (of_decide_eq_true hplace)
  cases h with
  | untouched h =>
      rw [World.shownOf, World.shown, hnone world.record h.unrecorded] at hshown
      cases hshown
  | titled later earlier record unrecorded =>
      have hsplit : ∀ front back : List Occurrence,
          shownItems world.surroundings.silent (front ++ back) =
            shownItems world.surroundings.silent back ++
              shownItems world.surroundings.silent front := fun front back => by
        simp [shownItems]
      have htitle : shownItems world.surroundings.silent [chain.titling place] =
          [(some place, .line (Report.batchTitle chain.label))] := rfl
      rw [World.shownOf, World.shown, record, hsplit, ← List.singleton_append, hsplit, htitle,
        List.filter_append, List.filter_append, hnone earlier unrecorded] at hshown
      simp only [List.nil_append, List.filter_cons, decide_true, if_true, List.filter_nil,
        List.singleton_append, List.map_cons] at hshown
      exact (List.cons.inj hshown).1.symm

end Chain

end Cascade
