import Cascade.Proofs.Batch.Orderly

/-!
A batch after its chains were given up. The thread of a chain that had not ended is cancelled, and all
that is left for it is to end. Nothing of a chain's thread or of the supervisor is recorded any more.
-/

namespace Cascade

/-- Whether an occurrence is the doing of a chain's thread or of the supervisor. -/
def Occurrence.isMain (occurrence : Occurrence) : Bool :=
  occurrence.strand.isNone || occurrence.thread = some .root

theorem Occurrence.Told.isMain_eq_false {strand : Nat} {occurrence : Occurrence}
    (h : occurrence.Told strand) : occurrence.isMain = false := by
  rw [isMain, h.1, h.2]
  rfl

theorem Occurrence.Within.isMain_eq_false {strand number : Nat} {occurrence : Occurrence}
    (h : occurrence.Within strand (.child number)) : occurrence.isMain = false := by
  obtain ⟨hstrand, hnone | hthread⟩ := h
  · exact Told.isMain_eq_false ⟨hstrand, hnone⟩
  · rw [isMain, hstrand, hthread]
    rfl

namespace World

variable {α : Type}

/-- What the threads of the chains and the supervisor did, the newest first. -/
def mainRecord (world : World α) : List Occurrence :=
  world.record.filter Occurrence.isMain

theorem mainRecord_of_adds {before after : World α}
    (h : Adds (fun occurrence => occurrence.isMain = false) before after) :
    after.mainRecord = before.mainRecord := by
  obtain ⟨added, hrecord, hadded⟩ := h
  have hnone : added.filter Occurrence.isMain = [] := by
    rw [List.filter_eq_nil_iff]
    intro occurrence hmem hmain
    rw [hadded occurrence hmem] at hmain
    cases hmain
  rw [mainRecord, hrecord, List.filter_append, hnone]
  rfl

theorem posture?_drop (strand number : Nat) (world : World α) (place : Nat) (other : ThreadId) :
    (world.drop strand number).posture? place other = world.posture? place other := by
  rw [drop]
  split
  · rfl
  · rename_i cell _
    split
    · exact posture?_modifyCell _ _ _ (world.tell strand number cell.command .dropped) _ _
    · rfl

theorem posture?_cancel (strand : Nat) (thread : ThreadId) (world : World α) (place : Nat)
    (other : ThreadId) :
    (world.cancel strand thread).posture? place other =
      if strand = place ∧ thread = other then
        (world.posture? place other).map (Posture.mark .cancelled)
      else world.posture? place other := by
  have hmark : ∀ middle : World α, middle.posture? place other = world.posture? place other →
      (((middle.forget strand thread).modifyThread strand thread
        (Thread.mark .cancelled)).enqueue (.resume strand thread)).posture? place other =
          if strand = place ∧ thread = other then
            (world.posture? place other).map (Posture.mark .cancelled)
          else world.posture? place other := by
    intro middle hmiddle
    refine (posture?_mark .cancelled strand thread (middle.forget strand thread) place other).trans
      ?_
    change (if _ then (middle.posture? place other).map _ else middle.posture? place other) = _
    rw [hmiddle]
  rw [cancel]
  split
  · dsimp only
    split
    · exact hmark _ (posture?_drop ..)
    · exact hmark _ rfl
  · exact posture?_mark ..

end World

namespace Batch

variable {world : World ChainResult} {count place : Nat}

/-! ### Giving up -/

theorem outline?_abandon (strands : List Nat) (world : World ChainResult) (place : Nat) :
    (abandon strands world).outline? place = world.outline? place := by
  induction strands generalizing world with
  | nil => rfl
  | cons strand rest ih =>
      refine (ih (world.cancel strand .root)).trans ?_
      rw [World.outline?, congrFun (World.sameShape_cancel strand .root world) place,
        World.outline?]

theorem adds_abandon (strands : List Nat) (world : World ChainResult) :
    World.Adds (fun occurrence => ∃ strand number command, occurrence =
      ⟨some strand, none, none, .execution number command .dropped⟩) world
        (abandon strands world) := by
  induction strands generalizing world with
  | nil => exact .refl world
  | cons strand rest ih =>
      refine World.Adds.trans ?_ (ih (world.cancel strand .root))
      exact World.adds_cancel (fun number command => ⟨strand, number, command, rfl⟩) .root world

theorem posture?_abandon (strands : List Nat) (world : World ChainResult) (place : Nat) :
    (abandon strands world).posture? place .root =
      if place ∈ strands then (world.posture? place .root).map (Posture.mark .cancelled)
      else world.posture? place .root := by
  induction strands generalizing world with
  | nil => rfl
  | cons strand rest ih =>
      refine (ih (world.cancel strand .root)).trans ?_
      rw [World.posture?_cancel]
      by_cases hsame : strand = place
      · subst hsame
        rcases world.posture? strand .root with _ | _ | _ | _ <;> simp [Posture.mark]
      · have hne : place ≠ strand := Ne.symm hsame
        simp [hsame, hne]

theorem mainRecord_abandon (strands : List Nat) (world : World ChainResult) :
    (abandon strands world).mainRecord = world.mainRecord := by
  refine World.mainRecord_of_adds ((adds_abandon strands world).mono ?_)
  rintro occurrence ⟨strand, number, command, rfl⟩
  rfl

theorem surroundings_cancel (strand : Nat) (thread : ThreadId) :
    (world.cancel strand thread).surroundings = world.surroundings := by
  have hdrop : ∀ cell, (world.drop strand cell).surroundings = world.surroundings := by
    intro cell
    rw [World.drop]
    split
    · rfl
    · split <;> rfl
  rw [World.cancel]
  split
  · dsimp only
    split
    · exact hdrop _
    · rfl
  · rfl

theorem surroundings_abandon (strands : List Nat) (world : World ChainResult) :
    (abandon strands world).surroundings = world.surroundings := by
  induction strands generalizing world with
  | nil => rfl
  | cons strand rest ih =>
      exact (ih (world.cancel strand .root)).trans (surroundings_cancel strand .root)

theorem errors_abandon (strands : List Nat) (world : World ChainResult) :
    (abandon strands world).errors = world.errors := by
  obtain ⟨added, hrecord, hadded⟩ := adds_abandon strands world
  rw [World.errors, hrecord, List.foldr_append, surroundings_abandon, ← World.errors]
  clear hrecord
  induction added with
  | nil => rfl
  | cons occurrence rest ih =>
      obtain ⟨hfirst, hrest⟩ := List.forall_mem_cons.mp hadded
      obtain ⟨strand, number, command, rfl⟩ := hfirst
      exact ih hrest

/-! ### After giving up -/

/-- A chain that goes on steadily has ended with a result, or its thread waits. -/
theorem Dependable.cases (h : Dependable place world) :
    (∃ result, result? world place = some (.ok result)) ∧
        (∃ isCancelled, world.posture? place .root = some (.finished isCancelled)) ∨
      result? world place = none ∧
        ∃ cell wake, world.posture? place .root = some (.waits cell wake) := by
  obtain ⟨invocations, thread, hthread, -, hsteady⟩ := h
  rw [World.outline?, World.shape?] at hthread
  rw [result?, World.posture?]
  cases hstrand : world.strand? place with
  | none => simp [hstrand] at hthread
  | some current =>
      rw [hstrand] at hthread
      obtain ⟨-, rfl⟩ := Prod.mk.inj (Option.some.inj hthread)
      change (∃ result, current.root.result? = some (.ok result)) ∧
          (∃ isCancelled, some current.root.posture = some (Posture.finished isCancelled)) ∨
        current.root.result? = none ∧
          ∃ cell wake, some current.root.posture = some (.waits cell wake)
      change current.root.status.calm.Steady _ at hsteady
      rcases hroot : current.root with ⟨step, cell, delivers, _ | ⟨wait, wake⟩ | fault | result⟩
      all_goals rw [hroot] at hsteady
      · exact False.elim hsteady
      · exact .inr ⟨rfl, _, _, rfl⟩
      · exact False.elim hsteady
      · exact .inl ⟨⟨result, rfl⟩, _, rfl⟩

/-- Every chain has ended, or its thread is cancelled at its wait. -/
structure Spent (count : Nat) (world : World ChainResult) : Prop where
  length : world.strands.length = count
  threads : ∀ place < count,
    (∃ isCancelled, world.posture? place .root = some (.finished isCancelled)) ∨
      (∃ cell, world.posture? place .root = some (.waits cell .cancelled)) ∧ Dependable place world

theorem Spent.of_abandon (h : Orderly count world) {strands : List Nat}
    (hstrands : ∀ place < count, result? world place = none → place ∈ strands) :
    Spent count (abandon strands world) := by
  refine ⟨?_, fun place hplace => ?_⟩
  · rw [← h.length]
    exact World.length_eq_of_outline fun place => by rw [outline?_abandon]
  · have hdependable := h.dependable place hplace
    rw [posture?_abandon]
    rcases hdependable.cases with ⟨-, isCancelled, hended⟩ | ⟨hnone, cell, wake, hwaits⟩
    · left
      rw [hended]
      split <;> exact ⟨isCancelled, rfl⟩
    · right
      rw [if_pos (hstrands place hplace hnone), hwaits]
      exact ⟨⟨cell, rfl⟩, hdependable.of_outline (outline?_abandon strands world place)⟩

theorem Dependable.resume_cancelled (h : Dependable place world) {cell : Option Nat}
    (hcancelled : world.posture? place .root = some (.waits cell .cancelled)) :
    result? (world.resume place .root) place = some (.error World.cancellation) ∧
      (world.resume place .root).posture? place .root = some (.finished true) ∧
      World.Adds (fun occurrence => occurrence.isMain = false) world (world.resume place .root) := by
  obtain ⟨invocations, thread, hthread, -, hsteady⟩ := h
  rw [World.outline?, World.shape?] at hthread
  cases hstrand : world.strand? place with
  | none => simp [hstrand] at hthread
  | some current =>
      rw [hstrand] at hthread
      obtain ⟨-, rfl⟩ := Prod.mk.inj (Option.some.inj hthread)
      rw [World.posture?, hstrand] at hcancelled
      change some current.root.status.posture = _ at hcancelled
      change current.root.status.calm.Steady _ at hsteady
      obtain ⟨wait, hstatus⟩ : ∃ wait, current.root.status = .waiting wait .cancelled := by
        rcases hroot : current.root.status with _ | ⟨wait, wake⟩ | fault | result
        all_goals
          rw [hroot] at hcancelled
          cases hcancelled
        exact ⟨wait, rfl⟩
      let scope : Scope := ⟨place, .root, current.root.step, current.root.cell⟩
      let begun := world.modifyThread place .root Thread.begin
      let unwound := begun.unwind scope wait
      have hresume : world.resume place .root =
          (unwound.setRoot place (.finished (.error World.cancellation))).enqueue
            (.announce place) := by
        simp only [World.resume, hstrand, Thread.due?, hstatus]
        rfl
      have hadds : World.Adds (fun occurrence => occurrence.isMain = false) begun unwound := by
        rw [hstatus] at hsteady
        cases wait with
        | turn notice next =>
            cases notice with
            | none => exact .refl begun
            | some item => exact False.elim hsteady
        | timer | event => exact False.elim hsteady
        | cell number next =>
            change World.Adds _ begun (begun.unwind scope (.cell number next))
            rw [World.unwind]
            split
            · exact World.adds_cancel (fun _ _ => rfl) _ begun
            · exact .refl begun
      have hunwound : unwound.posture? place .root = some .running := by
        have hbegun : begun.posture? place .root = some .running := by
          rw [World.posture?_begin, if_pos ⟨rfl, rfl⟩, World.posture?, hstrand]
          rfl
        rcases (World.still_turn scope wait true begun).root place with hsame | ⟨_, hasleep, -⟩
        · exact hsame.trans hbegun
        · cases hbegun.symm.trans hasleep
      have hset : (unwound.setRoot place (.finished (.error World.cancellation))).posture? place
          .root = some (.finished true) := by
        rw [World.posture?_setRoot, if_pos ⟨rfl, rfl⟩, hunwound]
        rfl
      refine ⟨?_, by rw [hresume]; exact hset, ?_⟩
      · rw [hresume]
        change result? (unwound.setRoot place _) place = _
        rw [World.posture?] at hunwound
        rw [result?, World.setRoot, World.strand?_modifyStrand, if_pos rfl]
        cases hlast : unwound.strand? place with
        | none => simp [hlast] at hunwound
        | some last => rfl
      · rw [hresume]
        exact (World.Adds.of_record_eq rfl).trans (hadds.trans (.of_record_eq rfl))

theorem result?_ne_none_of_finished {isCancelled : Bool}
    (h : world.posture? place .root = some (.finished isCancelled)) :
    result? world place ≠ none := by
  rw [World.posture?] at h
  rw [result?]
  cases hstrand : world.strand? place with
  | none => simp [hstrand] at h
  | some current =>
      rw [hstrand] at h
      change some current.root.status.posture = _ at h
      change current.root.result? ≠ none
      rw [Thread.result?]
      rcases hstatus : current.root.status with _ | ⟨wait, wake⟩ | result
      · rw [hstatus] at h
        cases h
      · rw [hstatus] at h
        cases h
      · exact Option.some_ne_none result

theorem resume_of_finished {isCancelled : Bool}
    (h : world.posture? place .root = some (.finished isCancelled)) :
    world.resume place .root = world := by
  rcases world.resume_cases place .root with ⟨hsame, -⟩ |
    ⟨β, step, cell, waiting, mark, after, status, hwaits, -, -⟩
  · exact hsame
  · cases h.symm.trans hwaits

/-- What jobs do after the chains were given up: nothing of a chain's thread is recorded, and what was
given up ends without a result. -/
structure Dwindles (before after : World ChainResult) : Prop where
  mainRecord : after.mainRecord = before.mainRecord
  results : ∀ place, result? after place = result? before place ∨
    result? before place = none ∧ result? after place = some (.error World.cancellation)

theorem Dwindles.refl (world : World ChainResult) : Dwindles world world :=
  ⟨rfl, fun _ => .inl rfl⟩

theorem Dwindles.trans {before middle after : World ChainResult} (h : Dwindles before middle)
    (k : Dwindles middle after) : Dwindles before after := by
  refine ⟨k.mainRecord.trans h.mainRecord, fun place => ?_⟩
  rcases h.results place with hsame | ⟨hnone, hended⟩
  · rw [← hsame]
    exact k.results place
  · rcases k.results place with hstays | ⟨hagain, -⟩
    · exact .inr ⟨hnone, hstays.trans hended⟩
    · cases hagain.symm.trans hended

theorem Spent.thread_of_wakes {after : World ChainResult}
    (h : (∃ isCancelled, world.posture? place .root = some (.finished isCancelled)) ∨
      (∃ cell, world.posture? place .root = some (.waits cell .cancelled)) ∧ Dependable place world)
    (hwakes : World.Wakes (world.posture? place .root) (after.posture? place .root))
    (houtline : after.outline? place = world.outline? place) :
    (∃ isCancelled, after.posture? place .root = some (.finished isCancelled)) ∨
      (∃ cell, after.posture? place .root = some (.waits cell .cancelled)) ∧
        Dependable place after := by
  rcases hwakes with hsame | ⟨cell, hasleep, -⟩
  · rw [hsame]
    exact h.imp_right fun hcancelled => ⟨hcancelled.1, hcancelled.2.of_outline houtline⟩
  · rcases h with ⟨isCancelled, hended⟩ | ⟨⟨other, hcancelled⟩, -⟩
    · cases hended.symm.trans hasleep
    · cases hcancelled.symm.trans hasleep

theorem Spent.of_still {after : World ChainResult} (h : Spent count world)
    (hstill : World.Still world after)
    (houtline : ∀ place, after.outline? place = world.outline? place) : Spent count after :=
  ⟨(World.length_eq_of_outline fun place => by rw [houtline]).trans h.length,
    fun place hplace =>
      Spent.thread_of_wakes (h.threads place hplace) (hstill.root place) (houtline place)⟩

/-- The turn of a chain's thread after the chains were given up. -/
theorem Spent.resume_root (h : Spent count world) (strand : Nat) :
    Spent count (world.resume strand .root) ∧ Dwindles world (world.resume strand .root) := by
  by_cases hstrand : strand < count
  · rcases h.threads strand hstrand with ⟨isCancelled, hended⟩ | ⟨⟨cell, hcancelled⟩, hdependable⟩
    · rw [resume_of_finished hended]
      exact ⟨h, .refl world⟩
    · obtain ⟨hresult, hposture, hadds⟩ := hdependable.resume_cancelled hcancelled
      have hothers : ∀ place, place ≠ strand →
          (world.resume strand .root).outline? place = world.outline? place :=
        fun place hne => congrArg _ (World.shape?_resume_root hne world)
      refine ⟨⟨?_, fun place hplace => ?_⟩, World.mainRecord_of_adds hadds, fun place => ?_⟩
      · exact (World.length_perform (.resume strand .root) world).trans h.length
      · by_cases hsame : place = strand
        · exact .inl ⟨true, hsame ▸ hposture⟩
        · refine Spent.thread_of_wakes (h.threads place hplace) ?_ (hothers place hsame)
          exact (World.still_resume strand .root world).2 place fun hall => hsame hall.1.symm
      · by_cases hsame : place = strand
        · subst hsame
          rcases hdependable.cases with ⟨-, isCancelled, hended⟩ | ⟨hnone, -⟩
          · cases hended.symm.trans hcancelled
          · exact .inr ⟨hnone, hresult⟩
        · exact .inl (result?_of_outline (hothers place hsame))
  · have hnone : world.posture? strand .root = none := by
      rw [World.posture?, World.strand?, List.getElem?_eq_none (by rw [h.length]; omega)]
      rfl
    have hsame : world.resume strand .root = world := by
      rcases world.resume_cases strand .root with ⟨hsame, -⟩ |
        ⟨β, step, cell, waiting, mark, after, status, hwaits, -, -⟩
      · exact hsame
      · cases hnone.symm.trans hwaits
    rw [hsame]
    exact ⟨h, .refl world⟩

theorem Spent.perform (h : Spent count world) (job : Job) :
    Spent count (world.perform job) ∧ Dwindles world (world.perform job) := by
  rcases world.perform_cases job with ⟨strand, rfl⟩ | ⟨hne, hstill, houtline⟩
  · exact h.resume_root strand
  · refine ⟨h.of_still hstill houtline, ?_, fun place => .inl (result?_of_outline (houtline place))⟩
    refine World.mainRecord_of_adds ?_
    cases job with
    | resume strand thread =>
        cases thread with
        | root => exact absurd rfl (hne strand)
        | child number =>
            exact (world.within_resume strand (.child number)).mono fun _ h => h.isMain_eq_false
    | fire strand goal => exact (World.told_fire ..).mono fun _ h => h.isMain_eq_false
    | deliver strand child => exact (World.told_deliver ..).mono fun _ h => h.isMain_eq_false
    | announce | supervise => exact .refl world

end Batch

end Cascade
