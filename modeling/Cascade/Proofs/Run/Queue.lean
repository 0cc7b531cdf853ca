import Cascade.Proofs.Run.Growth

/-!
The queue of jobs only grows at its end while a job is done, and no thread is woken or cancelled
without a turn for it in the queue.
-/

namespace Cascade

namespace World

variable {α : Type}

/-- Whether the turn of a thread has to come: the thread waits, and it was woken or cancelled. -/
def IsCalled (world : World α) (place : Nat) (thread : ThreadId) : Prop :=
  ∃ cell wake, world.posture? place thread = some (.waits cell wake) ∧ wake ≠ .asleep

/-- Jobs are only added, and a turn for every thread that is called anew. -/
structure Enqueues (before after : World α) : Prop where
  queue : ∃ jobs, after.queue = before.queue ++ jobs
  called : ∀ place thread, after.IsCalled place thread →
    before.IsCalled place thread ∨ .resume place thread ∈ after.queue

/-- Every thread that is called has a turn in the queue. -/
def Ready (world : World α) : Prop :=
  ∀ place thread, world.IsCalled place thread → .resume place thread ∈ world.queue

section Enqueues

variable {before middle after : World α}

theorem Enqueues.mem_queue (h : Enqueues before after) {job : Job} (hjob : job ∈ before.queue) :
    job ∈ after.queue := by
  obtain ⟨jobs, hjobs⟩ := h.queue
  rw [hjobs]
  exact List.mem_append_left jobs hjob

theorem Enqueues.refl (world : World α) : Enqueues world world :=
  ⟨⟨[], (List.append_nil _).symm⟩, fun _ _ h => .inl h⟩

theorem Enqueues.trans (h : Enqueues before middle) (k : Enqueues middle after) :
    Enqueues before after := by
  obtain ⟨first, hfirst⟩ := h.queue
  obtain ⟨second, hsecond⟩ := k.queue
  refine ⟨⟨first ++ second, by rw [hsecond, hfirst, List.append_assoc]⟩, fun place thread hcalled => ?_⟩
  rcases k.called place thread hcalled with hmiddle | hafter
  · rcases h.called place thread hmiddle with hbefore | hqueue
    · exact .inl hbefore
    · exact .inr (k.mem_queue hqueue)
  · exact .inr hafter

theorem Enqueues.of_eq (hposture : ∀ place thread, after.posture? place thread =
      before.posture? place thread) {jobs : List Job} (hqueue : after.queue = before.queue ++ jobs) :
    Enqueues before after :=
  ⟨⟨jobs, hqueue⟩, fun place thread hcalled => .inl (by rwa [IsCalled, hposture] at hcalled)⟩

theorem Enqueues.of_same (hposture : ∀ place thread, after.posture? place thread =
      before.posture? place thread) (hqueue : after.queue = before.queue) : Enqueues before after :=
  .of_eq hposture (hqueue.trans (List.append_nil _).symm)

theorem Enqueues.of_call (strand : Nat) (thread : ThreadId)
    (hposture : ∀ place other, ¬ (strand = place ∧ thread = other) →
      after.posture? place other = before.posture? place other)
    (hqueue : after.queue = before.queue ++ [.resume strand thread]) : Enqueues before after := by
  refine ⟨⟨_, hqueue⟩, fun place other hcalled => ?_⟩
  by_cases hsame : strand = place ∧ thread = other
  · obtain ⟨rfl, rfl⟩ := hsame
    exact .inr (hqueue ▸ by simp)
  · rw [IsCalled, hposture place other hsame] at hcalled
    exact .inl hcalled

theorem Ready.of_enqueues (h : before.Ready) (k : Enqueues before after) : after.Ready := by
  intro place thread hcalled
  rcases k.called place thread hcalled with hbefore | hqueue
  · exact k.mem_queue (h place thread hbefore)
  · exact hqueue

end Enqueues

/-! ### Waking and completing -/

theorem enqueues_wake (strand : Nat) (thread : ThreadId) (cell : Option Nat) (world : World α) :
    Enqueues world (world.wake strand thread cell) := by
  by_cases hasleep : world.posture? strand thread = some (.waits cell .asleep)
  · refine .of_call strand thread (fun place other hne => ?_) ?_
    · rw [posture?_wake, if_neg fun hall => hne ⟨hall.1, hall.2.1⟩]
    · rw [wake, ofThread_sleepsOn, hasleep, decide_eq_true rfl]
      rfl
  · rw [wake, ofThread_sleepsOn, decide_eq_false hasleep]
    exact .refl world

theorem enqueues_settle (strand number : Nat) (happening : Happening) (outcome : Outcome)
    (world : World α) : Enqueues world (world.settle strand number happening outcome) := by
  refine settle_induction (.refl world) (fun _ => .of_same (fun _ _ => rfl) rfl)
    (fun _ _ h => h.trans (.of_same (fun _ _ => rfl) rfl))
    (fun other h => h.trans (.of_same (fun place thread => ?_) rfl))
    fun _ _ h => h.trans (enqueues_wake ..)
  exact posture?_modifyCell _ _ _ other _ _

theorem enqueues_complete (strand number : Nat) (result : Except Fault Value) (world : World α) :
    Enqueues world (world.complete strand number result) :=
  complete_induction (.refl world) fun _ => enqueues_settle ..

theorem enqueues_signal (event : String) (world : World α) :
    Enqueues world (world.signal event) :=
  signal_induction (fun _ => .of_same (fun _ _ => rfl) rfl) fun _ _ _ h => h.trans (enqueues_wake ..)

theorem enqueues_answer (scope : Scope) (query : Query) (world : World α) :
    Enqueues world (world.answer scope query).1 := by
  cases query with
  | complete result =>
      rw [answer]
      split
      · exact enqueues_complete ..
      · exact .refl world
  | completeLater delay result =>
      rw [answer]
      split
      · split
        · exact .of_same (fun _ _ => rfl) rfl
        · exact .of_eq (fun _ _ => rfl) rfl
      · exact .refl world
  | signal event => exact enqueues_signal event world
  | setState name entry =>
      rw [answer]
      split
      · exact .refl world
      · refine .of_same (posture?_modifyStrand ?_ _ _) rfl
        intro strand thread
        cases thread <;> rfl
  | _ => exact .of_same (fun _ _ => rfl) rfl

/-! ### Executions -/

theorem enqueues_spawn (scope : Scope) (cell : Nat) (delivers : Bool) (body : Routine Value)
    (world : World α) : Enqueues world (world.spawn scope cell delivers body) := by
  refine .of_call scope.strand (.child (world.childCount scope.strand))
    (fun place other hne => ?_) rfl
  cases hstrand : world.strand? scope.strand with
  | some strand => rw [posture?_spawn hstrand, if_neg fun hall => hne ⟨hall.1, hall.2.symm⟩]
  | none =>
      change (World.modifyStrand scope.strand _ world).posture? place other = _
      rw [posture?, strand?_modifyStrand, posture?]
      split
      · rename_i heq
        rw [← heq, hstrand]
        rfl
      · rfl

theorem enqueues_takeReply (scope : Scope) (command : Command) (cell : Nat) (reply : Reply)
    (world : World α) : Enqueues world (world.takeReply scope command cell reply) := by
  have htell : ∀ happening, Enqueues world (world.tell scope.strand cell command happening) :=
    fun _ => .of_same (fun _ _ => rfl) rfl
  refine takeReply_induction (fun _ => htell _) (fun _ => htell _)
    (fun _ _ h => h.trans (enqueues_spawn ..)) (fun _ _ h => ?_) fun _ => enqueues_settle ..
  refine (h.trans (enqueues_spawn ..)).trans (.of_same (fun place thread => ?_) rfl)
  exact posture?_modifyCell ..

end World

theorem Action.enqueues_run {α β : Type} (scope : Scope) (action : Action β) (world : World α) :
    World.Enqueues world (action.run scope world).1 :=
  action.run_induction (fun query other h => h.trans (World.enqueues_answer scope query other))
    (World.Enqueues.refl world)

namespace World

variable {α : Type}

theorem enqueues_call (scope : Scope) (number : Nat) (command : Command) (arguments : Arguments)
    (world : World α) : Enqueues world (world.call scope number command arguments).1 :=
  call_induction (Action.enqueues_run ..) (fun _ _ _ h => h.trans (enqueues_takeReply ..))
    (fun _ _ h => h.trans (.of_same (fun _ _ => rfl) rfl)) fun _ _ h => h.trans (enqueues_settle ..)

theorem enqueues_begin (scope : Scope) (command : Command) (arguments : Arguments)
    (world : World α) : Enqueues world (world.begin scope command arguments).1 :=
  begin_induction (fun state _ => .of_same (posture?_openCell scope command state world) rfl)
    (fun _ h => h.trans (enqueues_call ..)) fun _ _ h => h.trans (.of_same (fun _ _ => rfl) rfl)

end World

/-- Whether a thread gave up its turn with its next turn already in the queue. -/
def Suspension.IsWoken {β : Type} : Suspension β → Prop
  | .waits _ wake => wake ≠ .asleep
  | .ended _ => False

theorem Routine.enqueues_run {α β : Type} (scope : Scope) (routine : Routine β) (world : World α) :
    World.Enqueues world (routine.run scope world).1 ∧
      ((routine.run scope world).2.IsWoken →
        .resume scope.strand scope.thread ∈ (routine.run scope world).1.queue) := by
  have hrule : Rule scope (World.Enqueues world) fun (suspension : Suspension β) (other : World α) =>
      World.Enqueues world other ∧
        (suspension.IsWoken → .resume scope.strand scope.thread ∈ other.queue) := {
    ended := fun _ _ h => ⟨h, False.elim⟩
    answer := fun query other h => h.trans (World.enqueues_answer scope query other)
    turn := fun _ _ other h => by
      refine ⟨h.trans (.of_eq (fun _ _ => rfl) rfl), fun _ => ?_⟩
      exact List.mem_append_right other.queue (by simp)
    timer := fun _ _ _ _ h _ => ⟨h.trans (.of_same (fun _ _ => rfl) rfl), fun hne => absurd rfl hne⟩
    moment := fun _ _ _ h => ⟨h.trans (.of_eq (fun _ _ => rfl) rfl), fun hne => absurd rfl hne⟩
    event := fun _ _ _ _ h => ⟨h.trans (.of_same (fun _ _ => rfl) rfl), fun hne => absurd rfl hne⟩
    prepared := fun index _ initializer _ other h _ _ =>
      (h.trans (initializer.enqueues_run _ other)).trans (.of_same (fun _ _ => rfl) rfl)
    complete := fun _ _ _ _ _ h _ _ => h.trans (World.enqueues_begin _ _ _ _)
    waits := fun _ _ _ _ _ _ h _ _ =>
      ⟨h.trans (World.enqueues_begin _ _ _ _), fun hne => absurd rfl hne⟩
    cancelled := fun _ _ _ _ _ h _ _ => ⟨h.trans (World.enqueues_begin _ _ _ _), False.elim⟩ }
  exact hrule.run routine (.refl world)

namespace World

variable {α : Type}

/-! ### Cancelling -/

theorem enqueues_drop (strand number : Nat) (world : World α) :
    Enqueues world (world.drop strand number) := by
  refine drop_induction (.refl world) fun command => .of_same (fun place thread => ?_) rfl
  exact posture?_modifyCell _ _ _ (world.tell strand number command .dropped) _ _

theorem enqueues_cancel (strand : Nat) (thread : ThreadId) (world : World α) :
    Enqueues world (world.cancel strand thread) := by
  have hmark : ∀ other : World α, Enqueues world other → Enqueues world
      (((other.forget strand thread).modifyThread strand thread (Thread.mark .cancelled)).enqueue
        (.resume strand thread)) := by
    intro other hother
    refine hother.trans (.of_call strand thread (fun place id hne => ?_) rfl)
    exact (posture?_mark .cancelled strand thread (other.forget strand thread) place id).trans
      (if_neg hne)
  by_cases hasleep : ∃ cell, world.posture? strand thread = some (.waits cell .asleep)
  · obtain ⟨cell, hasleep⟩ := hasleep
    rw [cancel, ofThread_isAsleep, ofThread_awaitedCell?, hasleep]
    cases cell with
    | none => exact hmark _ (.refl world)
    | some number => exact hmark _ (enqueues_drop ..)
  · have hnot : ((world.posture? strand thread).map Posture.isAsleep).getD false = false := by
      rcases hstands : world.posture? strand thread with _ | _ | ⟨cell, _ | _ | _⟩ | _
      all_goals first | rfl | exact absurd ⟨cell, hstands⟩ hasleep
    rw [cancel, ofThread_isAsleep, hnot]
    refine ⟨⟨[], (List.append_nil _).symm⟩, fun place id hcalled => .inl ?_⟩
    obtain ⟨cell, wake, hwaits, hne⟩ := hcalled
    replace hwaits := (posture?_mark .cancelled strand thread world place id).symm.trans hwaits
    split at hwaits
    · rename_i hsame
      obtain ⟨rfl, rfl⟩ := hsame
      obtain ⟨posture, hstands, heq⟩ := Option.map_eq_some_iff.mp hwaits
      rcases posture with _ | ⟨before, mark⟩ | _
      · cases heq
      · exact ⟨before, mark, hstands, fun hmark => hasleep ⟨before, hmark ▸ hstands⟩⟩
      · cases heq
    · exact ⟨cell, wake, hwaits, hne⟩

theorem enqueues_unwind {β : Type} (scope : Scope) (waiting : Waiting β) (world : World α) :
    Enqueues world (world.unwind scope waiting) := by
  have hnotice : ∀ notice : Option Item, Enqueues world (world.leave scope notice) := by
    intro notice
    cases notice <;> exact .of_same (fun _ _ => rfl) rfl
  exact unwind_induction hnotice fun _ => enqueues_cancel ..

/-! ### Jobs -/

theorem enqueues_turn {β : Type} (scope : Scope) (waiting : Waiting β) (isCancelled : Bool)
    (world : World α) :
    Enqueues world (world.turn scope waiting isCancelled).1 ∧
      ∀ cell wake, (world.turn scope waiting isCancelled).2.posture = .waits cell wake →
        wake ≠ .asleep →
          .resume scope.strand scope.thread ∈ (world.turn scope waiting isCancelled).1.queue := by
  cases isCancelled with
  | true => exact ⟨enqueues_unwind .., fun cell wake hwaits => by cases hwaits⟩
  | false =>
      have hresumed : Enqueues world (world.resumed scope waiting).1 :=
        resumed_induction (.refl world) fun _ _ _ _ => .of_same (fun _ _ => rfl) rfl
      simp only [turn, Bool.false_eq_true, if_false]
      rcases hrest : world.resumed scope waiting with ⟨middle, routine⟩
      rw [hrest] at hresumed
      obtain ⟨hrun, hwoken⟩ := routine.enqueues_run scope middle
      rcases hend : routine.run scope middle with ⟨after, suspension⟩
      rw [hend] at hrun hwoken
      cases suspension with
      | ended result =>
          refine ⟨hresumed.trans hrun, fun cell wake hwaits => ?_⟩
          rcases result with _ | _ <;> cases hwaits
      | waits wait mark =>
          refine ⟨hresumed.trans hrun, fun cell wake hwaits hne => hwoken ?_⟩
          obtain ⟨-, rfl⟩ := Posture.waits.inj hwaits
          exact hne

/-- A turn is taken from the queue and done. -/
theorem Ready.resume {world : World α} {strand : Nat} {thread : ThreadId}
    (h : ∀ place id, world.IsCalled place id → ¬ (strand = place ∧ thread = id) →
      .resume place id ∈ world.queue) : (world.resume strand thread).Ready := by
  rcases world.resume_cases strand thread with ⟨hsame, hasleep⟩ |
    ⟨β, step, cell, waiting, isCancelled, after, status, hstands, hturn, hstored⟩
  · rw [hsame]
    intro place id hcalled
    by_cases heq : strand = place ∧ thread = id
    · obtain ⟨rfl, rfl⟩ := heq
      obtain ⟨cell, wake, hwaits, hne⟩ := hcalled
      exact absurd (hasleep cell wake hwaits) hne
    · exact h place id hcalled heq
  · obtain ⟨hrun, hwoken⟩ := enqueues_turn ⟨strand, thread, step, cell⟩ waiting isCancelled
      (world.modifyThread strand thread Thread.begin)
    rw [hturn] at hrun hwoken
    obtain ⟨jobs, hjobs⟩ := hstored.queue
    intro place id hcalled
    rw [hjobs]
    refine List.mem_append_left jobs ?_
    obtain ⟨other, wake, hwaits, hne⟩ := hcalled
    rw [hstored.posture] at hwaits
    split at hwaits
    · rename_i heq
      obtain ⟨rfl, rfl⟩ := heq
      obtain ⟨-, -, hposture⟩ := Option.map_eq_some_iff.mp hwaits
      exact hwoken other wake hposture hne
    · rename_i hother
      rcases hrun.called place id ⟨other, wake, hwaits, hne⟩ with hbegun | hqueue
      · refine hrun.mem_queue (h place id ?_ hother)
        obtain ⟨before, mark, hbefore, hmark⟩ := hbegun
        rw [posture?_begin, if_neg hother] at hbefore
        exact ⟨before, mark, hbefore, hmark⟩
      · exact hqueue

/-- A job is taken from any place of the queue and done. -/
theorem Ready.perform {world : World α} (h : world.Ready) {before after : List Job} {job : Job}
    (hqueue : world.queue = before ++ job :: after) :
    ({ world with queue := before ++ after }.perform job).Ready := by
  have hrest : ∀ place id, world.IsCalled place id → .resume place id ≠ job →
      .resume place id ∈ before ++ after := by
    intro place id hcalled hne
    have hmem := h place id hcalled
    rw [hqueue] at hmem
    rcases List.mem_append.mp hmem with hbefore | hjob
    · exact List.mem_append_left after hbefore
    · rcases List.mem_cons.mp hjob with heq | hafter
      · exact absurd heq hne
      · exact List.mem_append_right before hafter
  have hready : (∀ place id, .resume place id ≠ job) →
      Ready { world with queue := before ++ after } :=
    fun hne place id hcalled => hrest place id hcalled (hne place id)
  cases job with
  | resume strand thread =>
      refine Ready.resume fun place id hcalled hne => hrest place id hcalled ?_
      rintro heq
      obtain ⟨rfl, rfl⟩ := Job.resume.inj heq
      exact hne ⟨rfl, rfl⟩
  | fire strand goal =>
      refine (hready fun _ _ h => by cases h).of_enqueues ?_
      cases goal with
      | wake thread => exact enqueues_wake ..
      | complete cell result => exact enqueues_complete ..
  | deliver strand child =>
      refine (hready fun _ _ h => by cases h).of_enqueues ?_
      simp only [World.perform, World.deliver]
      split
      · exact .refl _
      · split
        · split
          · exact enqueues_settle ..
          · exact .refl _
        · exact .refl _
  | announce strand => exact hready fun _ _ h => by cases h
  | supervise => exact hready fun _ _ h => by cases h

theorem Ready.advance {world next : World α} (h : world.Ready) (hnext : world.advance? = some next) :
    next.Ready := by
  obtain ⟨due, -, heq⟩ := Option.bind_eq_some_iff.mp hnext
  obtain rfl := Option.some.inj heq
  exact h.of_enqueues (.of_eq (fun _ _ => rfl) rfl)

theorem Ready.start (surroundings : Surroundings) (calls : Entries Nat) {strands : List (Strand α)}
    (hfresh : ∀ strand ∈ strands, strand.children = []) :
    (World.start surroundings calls strands).Ready := by
  intro place thread hcalled
  obtain ⟨cell, wake, hwaits, -⟩ := hcalled
  obtain ⟨strand, hstrand, hthread⟩ := Option.bind_eq_some_iff.mp hwaits
  cases thread with
  | root =>
      have hplace : place < strands.length := (List.getElem?_eq_some_iff.mp hstrand).1
      exact List.mem_map_of_mem (List.mem_range.mpr hplace)
  | child number =>
      rw [Strand.posture?, hfresh strand (List.mem_of_getElem? hstrand)] at hthread
      simp at hthread

end World

end Cascade
