import Cascade.Proofs.Batch.Course

/-!
Exit on error. A batch that gives up at the first failure returns results only if every chain
succeeded. If a chain fails, the batch is aborted with the failure of a chain that was among the first
to fail, and from then on nothing of any chain is recorded but the error dump, once.
-/

namespace Cascade

namespace Batch

theorem Spent.step {count : Nat} {batch : Batch} (h : Spent count batch.world)
    (hended : ∀ pending notified, batch.supervision ≠ .watching pending notified) :
    let next := batch.step?.getD batch
    next.supervision = batch.supervision ∧ Spent count next.world ∧
      Dwindles batch.world next.world := by
  rw [step?_of_not_watching hended]
  cases htake : batch.world.takeJob? with
  | none => exact ⟨rfl, h, .refl _⟩
  | some taken =>
      obtain ⟨job, rest⟩ := taken
      obtain ⟨-, hrest⟩ := eq_of_takeJob? htake
      have hstrands : rest.strands = batch.world.strands := by rw [hrest]
      have hspent : Spent count rest := h.of_strands_eq hstrands
      have htaken : Dwindles batch.world rest := by
        refine ⟨?_, fun place => .inl (result?_of_strands_eq hstrands place)⟩
        rw [World.mainRecord, hrest, World.mainRecord]
      obtain ⟨hperform, hdwindles⟩ := hspent.perform job
      exact ⟨rfl, hperform, htaken.trans hdwindles⟩

/-! ### Whole runs -/

/-- A chain has failed after so many steps. -/
def Fails (batch : Batch) (steps place : Nat) : Prop :=
  ∃ result, result? (batch.settle steps).world place = some (.ok result) ∧
    result.isSuccess = false

/-- The step at which the supervisor sees a failure and gives up the other chains. -/
structure Sees (count : Nat) (batch : Batch) (seen : Nat) (failure : Fault) : Prop where
  watched : ∃ pending notified, Watched count (batch.settle seen) pending notified
  failed : ∃ place < count, ∃ result,
    result? (batch.settle seen).world place = some (.ok result) ∧ result.failure = some failure
  ended : (batch.settle (seen + 1)).supervision = .ended (.error (.aborted failure 1))
  spent : Spent count (batch.settle (seen + 1)).world
  record : (batch.settle (seen + 1)).world.mainRecord =
    dump (batch.settle seen).world.errors ++ (batch.settle seen).world.mainRecord
  results : ∀ place, result? (batch.settle (seen + 1)).world place =
    result? (batch.settle seen).world place

/-- How a batch stands after so many steps. -/
inductive Standing (count : Nat) (batch : Batch) (steps : Nat) : Prop
  | watched (pending : List Nat) (notified : Bool)
      (h : Watched count (batch.settle steps) pending notified)
  | returned (results : List ChainResult)
      (ended : (batch.settle steps).supervision = .ended (.ok results))
      (length : results.length = count)
      (each : ∀ place result, results[place]? = some result →
        result? (batch.settle steps).world place = some (.ok result) ∧ result.isSuccess = true)
      (spent : Spent count (batch.settle steps).world)
  | aborted (seen : Nat) (failure : Fault) (before : seen < steps)
      (sees : Sees count batch seen failure)
      (ended : (batch.settle steps).supervision = .ended (.error (.aborted failure 1)))
      (spent : Spent count (batch.settle steps).world)
      (dwindles : Dwindles (batch.settle (seen + 1)).world (batch.settle steps).world)
  | stalled (ended : (batch.settle steps).supervision = .stalled)
      (spent : Spent count (batch.settle steps).world)
      (succeeded : ∀ place, ¬ Fails batch steps place)

variable {batch : Batch} {count : Nat}

theorem Fails.of_eq {steps later place : Nat} (h : Fails batch steps place)
    (hsame : result? (batch.settle later).world place = result? (batch.settle steps).world place) :
    Fails batch later place := by
  rwa [Fails, hsame]

theorem awaited_of_failure (hexit : batch.exitOnError = true) {result : ChainResult}
    (hfailed : result.isSuccess = false) (place : Nat) : Awaited count batch place (.ok result) := by
  intro steps pending notified h hresult
  have hplace : place < count := by
    rw [← h.orderly.length]
    obtain ⟨strand, hstrand, -⟩ := Option.bind_eq_some_iff.mp hresult
    exact (List.getElem?_eq_some_iff.mp hstrand).1
  by_contra hout
  obtain ⟨other, hother, hsuccess⟩ := h.looked place hplace hout
  rw [hresult] at hother
  cases hother
  rw [hsuccess ((exitOnError_settle steps batch).trans hexit)] at hfailed
  cases hfailed

theorem Watched.queue_ne_nil_of_fails {steps place : Nat} {pending : List Nat} {notified : Bool}
    (h : Watched count (batch.settle steps) pending notified) (hexit : batch.exitOnError = true)
    (hfails : Fails batch steps place) : (batch.settle steps).world.queue ≠ [] := by
  obtain ⟨result, hresult, hfailed⟩ := hfails
  exact h.queue_ne_nil (awaited_of_failure hexit hfailed place _ _ _ h hresult) hresult

theorem standing (hexit : batch.exitOnError = true) (hstart : Standing count batch 0)
    (steps : Nat) : Standing count batch steps := by
  induction steps with
  | zero => exact hstart
  | succ steps ih =>
      cases ih with
      | watched pending notified hwatched =>
          cases hwatched.goes with
          | on pending notified watched => exact .watched pending notified watched
          | waits pending notified watched => exact .watched pending notified watched
          | returns results ended length each spent =>
              refine .returned results ended length (fun place result hget => ?_) spent
              obtain ⟨hresult, hsuccess⟩ := each place result hget
              exact ⟨hresult, hsuccess ((exitOnError_settle steps batch).trans hexit)⟩
          | aborts place result failure exits placed failed cause ended spent record results =>
              exact .aborted steps failure (Nat.lt_succ_self steps)
                ⟨⟨pending, notified, hwatched⟩, ⟨place, placed, result, failed, cause⟩, ended, spent,
                  record, results⟩ ended spent (.refl _)
          | stalls ended queue spent results =>
              refine .stalled ended spent fun place hfails => ?_
              have hbefore : Fails batch steps place := hfails.of_eq (results place).symm
              exact hwatched.queue_ne_nil_of_fails hexit hbefore queue
      | returned results ended length each spent =>
          obtain ⟨hsame, hspent, hdwindles⟩ := spent.step fun _ _ hwatching => by
            cases ended.symm.trans hwatching
          rw [← settle_succ] at hsame hspent hdwindles
          refine .returned results (hsame.trans ended) length (fun place result hget => ?_) hspent
          obtain ⟨hresult, hsuccess⟩ := each place result hget
          rcases hdwindles.results place with hstays | ⟨hnone, -⟩
          · exact ⟨hstays.trans hresult, hsuccess⟩
          · cases hnone.symm.trans hresult
      | aborted seen failure before sees ended spent dwindles =>
          obtain ⟨hsame, hspent, hdwindles⟩ := spent.step fun _ _ hwatching => by
            cases ended.symm.trans hwatching
          rw [← settle_succ] at hsame hspent hdwindles
          exact .aborted seen failure (Nat.lt_succ_of_lt before) sees (hsame.trans ended) hspent
            (dwindles.trans hdwindles)
      | stalled ended spent succeeded =>
          obtain ⟨hsame, hspent, hdwindles⟩ := spent.step fun _ _ hwatching => by
            cases ended.symm.trans hwatching
          rw [← settle_succ] at hsame hspent hdwindles
          refine .stalled (hsame.trans ended) hspent fun place hfails => ?_
          rcases hdwindles.results place with hstays | ⟨-, herror⟩
          · exact succeeded place (hfails.of_eq hstays.symm)
          · obtain ⟨result, hresult, -⟩ := hfails
            cases herror.symm.trans hresult

/-! ### A failure is seen -/

theorem exists_sees {steps place : Nat} {pending : List Nat} {notified : Bool}
    (hexit : batch.exitOnError = true) (h : Watched count (batch.settle steps) pending notified)
    (hfails : Fails batch steps place) : ∃ seen failure, Sees count batch seen failure := by
  obtain ⟨result, hresult, hfailed⟩ := hfails
  obtain ⟨seen, ⟨pending, notified, hlast⟩, hstays, hends⟩ :=
    exists_stops (awaited_of_failure hexit hfailed place) h hresult
  have hstill : Fails batch seen place := ⟨result, hstays, hfailed⟩
  cases hlast.goes with
  | on others told watched => exact absurd ⟨others, told, watched.supervision⟩ hends
  | waits others told watched => exact absurd ⟨others, told, watched.supervision⟩ hends
  | returns results ended length each spent same =>
      have hplace := hlast.placed place
        (awaited_of_failure hexit hfailed place _ _ _ hlast hstays)
      obtain ⟨hother, hsuccess⟩ := each place _ (List.getElem?_eq_getElem (length.symm ▸ hplace))
      rw [same, hstays] at hother
      cases hother
      rw [hsuccess ((exitOnError_settle seen batch).trans hexit)] at hfailed
      cases hfailed
  | aborts other failed failure exits placed failedResult cause ended spent record results =>
      exact ⟨seen, failure, ⟨pending, notified, hlast⟩, ⟨other, placed, failed, failedResult, cause⟩,
        ended, spent, record, results⟩
  | stalls ended queue => exact absurd queue (hlast.queue_ne_nil_of_fails hexit hstill)

theorem watched_of_le (hexit : batch.exitOnError = true) (hstart : Standing count batch 0)
    {steps later : Nat} (hle : steps ≤ later) (hlater : Watches batch later) :
    ∃ pending notified, Watched count (batch.settle steps) pending notified := by
  have hnot : ∀ ended, (∀ pending notified, ended ≠ .watching pending notified) →
      (batch.settle steps).supervision ≠ ended := by
    intro ended hended hsteps
    obtain ⟨pending, notified, hwatching⟩ := hlater
    have hsame := supervision_settle_add hended hsteps (later - steps)
    rw [Nat.add_sub_cancel' hle] at hsame
    exact hended pending notified (hsame.symm.trans hwatching)
  cases standing hexit hstart steps with
  | watched pending notified h => exact ⟨pending, notified, h⟩
  | returned results ended => exact absurd ended (hnot _ fun _ _ h => by cases h)
  | aborted seen failure before sees ended => exact absurd ended (hnot _ fun _ _ h => by cases h)
  | stalled ended => exact absurd ended (hnot _ fun _ _ h => by cases h)

theorem clock_of_fails (hexit : batch.exitOnError = true) (hstart : Standing count batch 0)
    {place steps : Nat} (extra : Nat) (hlater : Watches batch (steps + extra))
    (hfails : Fails batch steps place) :
    (batch.settle (steps + extra)).world.clock = (batch.settle steps).world.clock ∧
      Fails batch (steps + extra) place := by
  induction extra with
  | zero => exact ⟨rfl, hfails⟩
  | succ extra ih =>
      obtain ⟨before, told, hwatched⟩ := watched_of_le hexit hstart (Nat.le_succ _) hlater
      obtain ⟨hclock, result, hresult, hfailed⟩ := ih ⟨before, told, hwatched.supervision⟩
      rcases hwatched.step_of_result (awaited_of_failure hexit hfailed place) hresult with hends |
        ⟨_, _, _, _, _, -, hstays, hsame, -⟩
      · exact absurd hlater hends
      · exact ⟨hsame.trans hclock, result, hstays, hfailed⟩

/-! ### The start -/

theorem Standing.start (surroundings : Surroundings) (calls : Entries Nat) {chains : List Chain}
    (hordinary : ∀ chain ∈ chains, ∀ invocation ∈ chain.invocations,
      invocation.command.IsOrdinary) :
    Standing chains.length (Batch.start surroundings true calls chains) 0 := by
  by_cases hne : chains = []
  · subst hne
    have hstrands := strands_dumpErrors (World.start surroundings calls [])
    refine .returned [] ?_ rfl (fun _ _ h => by cases h) ⟨congrArg List.length hstrands, fun _ h => by cases h⟩
    change Supervision.ended (results (dumpErrors _)) = _
    rw [results, strands_dumpErrors]
    rfl
  · exact .watched _ false (.start surroundings true calls hne hordinary)

/-! ### Exit on error -/

/-- What a failure that the supervisor sees leads to. -/
structure Aborts (count : Nat) (batch : Batch) (seen : Nat) (failure : Fault) : Prop where
  /-- The supervisor sees it at this step. -/
  watches : Watches batch seen
  /-- It is the failure of a chain. -/
  failed : ∃ place < count, ∃ result,
    result? (batch.settle seen).world place = some (.ok result) ∧ result.failure = some failure
  /-- No chain has failed at an earlier time. -/
  earliest : ∀ steps ≤ seen, ∀ place, Fails batch steps place →
    (batch.settle steps).world.clock = (batch.settle seen).world.clock
  /-- Before, the supervisor has written nothing. -/
  unwritten : ∀ steps ≤ seen, ∀ occurrence ∈ (batch.settle steps).world.record,
    occurrence.strand ≠ none
  /-- From the next step on the batch is aborted. -/
  ended : ∀ steps > seen, (batch.settle steps).supervision = .ended (.error (.aborted failure 1))
  /-- The errors are dumped once, and nothing else of the supervisor or of the thread of any chain is
  recorded. -/
  record : ∀ steps > seen, (batch.settle steps).world.mainRecord =
    dump (batch.settle seen).world.errors ++ (batch.settle seen).world.mainRecord
  /-- A chain that has not ended gets no result. -/
  abandoned : ∀ place, result? (batch.settle seen).world place = none → ∀ steps > seen,
    ∀ result, result? (batch.settle steps).world place ≠ some (.ok result)
  /-- When no job is left, each of these has ended by its cancellation. -/
  unwound : ∀ place < count, result? (batch.settle seen).world place = none → ∀ steps > seen,
    (batch.settle steps).step? = none →
      result? (batch.settle steps).world place = some (.error World.cancellation)

/-- What holds of every batch with exit-on-error. -/
structure ExitsOnError (count : Nat) (batch : Batch) : Prop where
  /-- It returns results only if every chain succeeded. -/
  returns : ∀ steps results, (batch.settle steps).supervision = .ended (.ok results) →
    results.length = count ∧ ∀ place result, results[place]? = some result →
      result? (batch.settle steps).world place = some (.ok result) ∧ result.isSuccess = true
  /-- It fails only by a failure that the supervisor saw. -/
  raises : ∀ steps fault, (batch.settle steps).supervision = .ended (.error fault) →
    ∃ seen < steps, ∃ failure, fault = .aborted failure 1 ∧ Aborts count batch seen failure
  /-- If a chain fails, the supervisor sees a failure. -/
  aborts : ∀ steps place, Fails batch steps place →
    ∃ seen failure, Aborts count batch seen failure

theorem Sees.aborts (hexit : batch.exitOnError = true) (hstart : Standing count batch 0)
    (hready : ∀ steps, (batch.settle steps).world.Ready) {seen : Nat} {failure : Fault}
    (h : Sees count batch seen failure) : Aborts count batch seen failure := by
  have hwatches : Watches batch seen := by
    obtain ⟨pending, notified, hwatched⟩ := h.watched
    exact ⟨pending, notified, hwatched.supervision⟩
  have hafter : ∀ extra, (batch.settle (seen + 1 + extra)).supervision =
        .ended (.error (.aborted failure 1)) ∧ Spent count (batch.settle (seen + 1 + extra)).world ∧
      Dwindles (batch.settle (seen + 1)).world (batch.settle (seen + 1 + extra)).world := by
    intro extra
    induction extra with
    | zero => exact ⟨h.ended, h.spent, .refl _⟩
    | succ extra ih =>
        obtain ⟨hended, hspent, hdwindles⟩ := ih
        obtain ⟨hsame, hnext, hstep⟩ := hspent.step fun _ _ hwatching => by
          cases hended.symm.trans hwatching
        rw [← settle_succ] at hsame hnext hstep
        exact ⟨hsame.trans hended, hnext, hdwindles.trans hstep⟩
  have hlater : ∀ steps > seen, (batch.settle steps).supervision =
        .ended (.error (.aborted failure 1)) ∧ Spent count (batch.settle steps).world ∧
      Dwindles (batch.settle (seen + 1)).world (batch.settle steps).world := by
    intro steps hlt
    have hextra := hafter (steps - (seen + 1))
    rwa [Nat.add_sub_cancel' hlt] at hextra
  exact {
    watches := hwatches
    failed := h.failed
    earliest := by
      intro steps hle place hfails
      have hsum : steps + (seen - steps) = seen := Nat.add_sub_cancel' hle
      have hclock := clock_of_fails hexit hstart (seen - steps) (hsum.symm ▸ hwatches) hfails
      rw [hsum] at hclock
      exact hclock.1.symm
    unwritten := by
      intro steps hle
      obtain ⟨pending, notified, hwatched⟩ := watched_of_le hexit hstart hle hwatches
      exact hwatched.orderly.ownRecord
    ended := fun steps hlt => (hlater steps hlt).1
    record := fun steps hlt => (hlater steps hlt).2.2.mainRecord.trans h.record
    abandoned := by
      intro place hnone steps hlt result hresult
      rcases (hlater steps hlt).2.2.results place with hsame | ⟨-, herror⟩
      · rw [h.results, hnone] at hsame
        cases hsame.symm.trans hresult
      · cases herror.symm.trans hresult
    unwound := by
      intro place hplace hnone steps hlt hrest
      obtain ⟨hended, hspent, hdwindles⟩ := hlater steps hlt
      have hqueue : (batch.settle steps).world.queue = [] := by
        rw [step?_of_not_watching fun _ _ hwatching => by cases hended.symm.trans hwatching] at hrest
        cases hqueue : (batch.settle steps).world.queue with
        | nil => rfl
        | cons job rest => simp [World.takeJob?, hqueue] at hrest
      rcases hspent.threads place hplace with ⟨isCancelled, hfinished⟩ | ⟨⟨cell, hcancelled⟩, -⟩
      · rcases hdwindles.results place with hsame | ⟨-, herror⟩
        · rw [h.results, hnone] at hsame
          exact absurd hsame (result?_ne_none_of_finished hfinished)
        · exact herror
      · have hturn := hready steps place .root ⟨cell, .cancelled, hcancelled, fun h => by cases h⟩
        rw [hqueue] at hturn
        cases hturn }

end Batch

namespace Batch

/-- Every batch of tokens with exit-on-error, whatever its commands do as long as they fail in the
ordinary way. -/
theorem exits_on_error (surroundings : Surroundings) (calls : Entries Nat) (tokens : List String)
    (hordinary : ∀ command ∈ surroundings.registry.commands, command.IsOrdinary) :
    ExitsOnError (Engine.chainsOf surroundings.registry tokens).length
      (Batch.start surroundings true calls (Engine.chainsOf surroundings.registry tokens)) := by
  let chains := Engine.chainsOf surroundings.registry tokens
  have hchains : ∀ chain ∈ chains, ∀ invocation ∈ chain.invocations,
      invocation.command.IsOrdinary := by
    intro chain hmem invocation hinvocation
    exact hordinary _ (Engine.command_mem_of_chainsOf hmem invocation hinvocation)
  have hstart := Standing.start surroundings calls hchains
  have hexit : (Batch.start surroundings true calls chains).exitOnError = true := by
    simp only [Batch.start]
    split <;> rfl
  have hready : ∀ steps, ((Batch.start surroundings true calls chains).settle steps).world.Ready := by
    intro steps
    refine (Orderly.start surroundings calls hchains).ready.reaches ?_
    exact (reaches_start surroundings true calls chains).trans (reaches_settle steps _)
  exact {
    returns := by
      intro steps results hended
      cases standing hexit hstart steps with
      | watched pending notified h => cases h.supervision.symm.trans hended
      | returned others ended length each =>
          cases ended.symm.trans hended
          exact ⟨length, each⟩
      | aborted seen failure before sees ended => cases ended.symm.trans hended
      | stalled ended => cases ended.symm.trans hended
    raises := by
      intro steps fault hended
      cases standing hexit hstart steps with
      | watched pending notified h => cases h.supervision.symm.trans hended
      | returned others ended => cases ended.symm.trans hended
      | aborted seen failure before sees ended =>
          cases ended.symm.trans hended
          exact ⟨seen, before, failure, rfl, sees.aborts hexit hstart hready⟩
      | stalled ended => cases ended.symm.trans hended
    aborts := by
      intro steps place hfails
      cases standing hexit hstart steps with
      | watched pending notified h =>
          obtain ⟨seen, failure, hsees⟩ := exists_sees hexit h hfails
          exact ⟨seen, failure, hsees.aborts hexit hstart hready⟩
      | returned results ended length each spent =>
          obtain ⟨result, hresult, hfailed⟩ := hfails
          obtain ⟨strand, hstrand, -⟩ := Option.bind_eq_some_iff.mp hresult
          have hplace := (List.getElem?_eq_some_iff.mp hstrand).1
          rw [spent.length, ← length] at hplace
          obtain ⟨hother, hsuccess⟩ := each place _ (List.getElem?_eq_getElem hplace)
          rw [hresult] at hother
          cases hother
          rw [hsuccess] at hfailed
          cases hfailed
      | aborted seen failure before sees =>
          exact ⟨seen, failure, sees.aborts hexit hstart hready⟩
      | stalled ended spent succeeded => exact absurd hfails (succeeded place) }

def pausingCommand : Command where
  name := "pausing"
  help := ""
  group := ""
  hidden := false
  convention := .awaited
  accepts := fun _ => true
  initializer := none
  run := fun _ => .finish (.awaitable false (.sleep (.ofNat 1) none fun _ => .finish .null))

def pausingSurroundings : Surroundings :=
  ⟨⟨[pausingCommand], []⟩, false, "", false, .empty⟩

/-- A batch there of two tokens, the second of which names no command. -/
def haltingBatch : Batch :=
  Batch.start pausingSurroundings true []
    (Engine.chainsOf pausingSurroundings.registry ["pausing", "nope"])

/-- The failure of the second chain is seen while the first one still waits. The batch is aborted with it,
its message is listed, and the first chain ends by its cancellation. -/
theorem haltingBatch_aborts :
    (∀ command ∈ pausingSurroundings.registry.commands, command.IsOrdinary) ∧
    Aborts 2 haltingBatch 4 (.unknownCommand "nope" "nope") ∧
    result? (haltingBatch.settle 4).world 0 = none ∧
    Report.errorDump (haltingBatch.settle 4).world.errors =
      [[⟨.error, "nope: errors [ 1]"⟩], [⟨.error, "[0]: Invalid command: nope"⟩]] ∧
    (haltingBatch.settle 9).step? = none ∧
    result? (haltingBatch.settle 9).world 0 = some (.error World.cancellation) := by
  have hordinary : ∀ command ∈ pausingSurroundings.registry.commands, command.IsOrdinary := by
    intro command hmem
    obtain rfl : command = pausingCommand := List.mem_singleton.mp hmem
    exact ⟨fun _ => trivial, fun _ h => by cases h⟩
  have hexits := exits_on_error pausingSurroundings [] ["pausing", "nope"] hordinary
  have hended : (haltingBatch.settle 5).supervision =
      .ended (.error (.aborted (.unknownCommand "nope" "nope") 1)) := ended_of_ending? (by decide +kernel)
  have hopen : (haltingBatch.settle 4).ending?.isNone = true := by decide +kernel
  have haborts : Aborts 2 haltingBatch 4 (.unknownCommand "nope" "nope") := by
    obtain ⟨seen, hlt, failure, hfailure, haborts⟩ := hexits.raises 5 _ hended
    obtain ⟨rfl, -⟩ := Fault.aborted.inj hfailure
    obtain rfl | hearlier : seen = 4 ∨ seen < 4 := by omega
    · exact haborts
    · have hearly : (haltingBatch.settle 4).supervision =
          .ended (.error (.aborted (.unknownCommand "nope" "nope") 1)) := haborts.ended 4 hearlier
      simp [ending?, hearly] at hopen
  have hnone : (result? (haltingBatch.settle 4).world 0).isNone = true := by decide +kernel
  have hrest : (haltingBatch.settle 9).step?.isNone = true := by decide +kernel
  have hwaiting := Option.isNone_iff_eq_none.mp hnone
  exact ⟨hordinary, haborts, hwaiting, by decide +kernel, Option.isNone_iff_eq_none.mp hrest,
    haborts.unwound 0 (by decide) hwaiting 9 (by decide) (Option.isNone_iff_eq_none.mp hrest)⟩

end Batch

end Cascade
