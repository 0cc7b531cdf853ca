import Cascade.Proofs.Siblings.Abreast

/-!
The end of a batch that goes on after failures. Every chain of it ends as it ends alone, and a chain that
ends beside others ends alone as well.
-/

namespace Cascade

def Chain.alone (surroundings : Surroundings) (chain : Chain) : World ChainResult :=
  World.start surroundings [] [Strand.start chain.invocations chain.routine]

namespace Batch

open World

/-- A batch that goes on after failures: its chains are abreast, and if it has ended, then with the
results of all of them. -/
inductive Proceeds (starts : List (World ChainResult)) (batch : Batch) : Prop
  | watched (pending : List Nat) (notified : Bool)
      (h : Watched starts.length batch pending notified) (abreast : Abreast starts batch.world)
  | returned (results : List ChainResult) (ended : batch.supervision = .ended (.ok results))
      (length : results.length = starts.length)
      (each : ∀ place result, results[place]? = some result →
        result? batch.world place = some (.ok result))
      (abreast : Abreast starts batch.world)
  | stalled (ended : batch.supervision = .stalled)

variable {starts : List (World ChainResult)} {batch : Batch}

/-- A step keeps the chains abreast. -/
theorem Abreast.step (h : Abreast starts batch.world) {next : Batch} (hstep : batch.step? = some next)
    (hstalled : next.supervision ≠ .stalled)
    (hraised : ∀ fault, next.supervision ≠ .ended (.error fault)) : Abreast starts next.world := by
  rcases step?_views hstep hstalled hraised with ⟨job, rest, hqueue, hviews⟩ | ⟨hqueue, hadvance⟩
  · exact (h.perform hqueue).of_views_eq hviews
  · exact h.advance hqueue hadvance

theorem Proceeds.step (h : Proceeds starts batch) (hexit : batch.exitOnError = false) :
    Proceeds starts (batch.step?.getD batch) := by
  cases h with
  | watched pending notified h abreast =>
      obtain ⟨next, hstep, hgoes⟩ := h.step
      rw [hstep]
      have hnext : ∀ {supervision : Supervision}, next.supervision = supervision →
          supervision ≠ .stalled → (∀ fault, supervision ≠ .ended (.error fault)) →
            Abreast starts next.world := by
        rintro _ rfl hstalled hraised
        exact abreast.step hstep hstalled hraised
      cases hgoes with
      | on others told watched =>
          exact .watched others told watched
            (hnext watched.supervision (fun h => by cases h) fun _ h => by cases h)
      | waits others told watched =>
          exact .watched others told watched
            (hnext watched.supervision (fun h => by cases h) fun _ h => by cases h)
      | returns results ended length each =>
          exact .returned results ended length (fun place result hget => (each place result hget).1)
            (hnext ended (fun h => by cases h) fun _ h => by cases h)
      | aborts place result failure exits => cases hexit.symm.trans exits
      | stalls ended => exact .stalled ended
  | returned results ended length each abreast =>
      have hover : ∀ pending notified, batch.supervision ≠ .watching pending notified := by
        intro pending notified hwatching
        cases ended.symm.trans hwatching
      cases hstep : batch.step? with
      | none => exact .returned results ended length each abreast
      | some next =>
          have hnext := hstep
          rw [step?_of_not_watching hover] at hnext
          obtain ⟨⟨job, rest⟩, htake, rfl⟩ := Option.map_eq_some_iff.mp hnext
          refine .returned results ended length (fun place result hget => ?_) ?_
          · obtain ⟨-, hrest⟩ := eq_of_takeJob? htake
            have hsame : result? rest place = result? batch.world place :=
              result?_of_strands_eq (by rw [hrest]) place
            rcases (performs_perform job rest).announces place with hstays | ⟨hnone, -⟩
            · exact (hstays.trans hsame).trans (each place result hget)
            · cases hnone.symm.trans (hsame.trans (each place result hget))
          · refine abreast.step hstep (fun h => ?_) fun fault h => ?_
            · cases ended.symm.trans h
            · cases ended.symm.trans h
  | stalled ended =>
      have hover : ∀ pending notified, batch.supervision ≠ .watching pending notified := by
        intro pending notified hwatching
        cases ended.symm.trans hwatching
      rw [step?_of_not_watching hover]
      cases batch.world.takeJob? <;> exact .stalled ended

theorem Proceeds.settle (h : Proceeds starts batch) (hexit : batch.exitOnError = false)
    (steps : Nat) : Proceeds starts (batch.settle steps) := by
  induction steps with
  | zero => exact h
  | succ steps ih =>
      rw [settle_succ]
      exact ih.step ((exitOnError_settle steps batch).trans hexit)

/-! ### The start -/

theorem view_alone (surroundings : Surroundings) (chain : Chain) :
    (chain.alone surroundings).view 0 = chain.alone surroundings :=
  rfl

theorem filter_range (place count : Nat) :
    ((List.range count).filter fun number => number = place) =
      if place < count then [place] else [] := by
  induction count with
  | zero => rfl
  | succ count ih =>
      rw [List.range_succ, List.filter_append, ih, List.filter_singleton]
      by_cases hlt : place < count
      · simp [hlt, Nat.lt_succ_of_lt hlt, Nat.ne_of_gt hlt]
      · by_cases heq : count = place
        · simp [heq]
        · simp [hlt, heq, show ¬ place < count + 1 by omega]

theorem view_start (surroundings : Surroundings) (calls : Entries Nat)
    (strands : List (Strand ChainResult)) (place : Nat) :
    (World.start surroundings calls strands).view place =
      World.start surroundings [] strands[place]?.toList := by
  have hqueue : ((World.start surroundings calls strands).view place).queue =
      ((List.range strands[place]?.toList.length).map fun strand => .resume strand .root) := by
    rw [World.view, World.start, List.filter_map]
    change (List.map _ ((List.range strands.length).filter fun number =>
      decide (some number = some place))).map _ = _
    simp only [Option.some.injEq, filter_range]
    split
    · rename_i hlt
      rw [List.getElem?_eq_getElem hlt]
      rfl
    · rename_i hge
      rw [List.getElem?_eq_none (by omega)]
      rfl
  have hview : (World.start surroundings calls strands).view place =
      { World.start surroundings [] strands[place]?.toList with
          queue := ((World.start surroundings calls strands).view place).queue } := rfl
  rw [hview, hqueue]
  rfl

theorem Abreast.start (surroundings : Surroundings) (calls : Entries Nat) {chains : List Chain}
    (hcommands : ∀ command ∈ surroundings.registry.commands, command.IsIsolated)
    (hchains : ∀ chain ∈ chains, ∀ invocation ∈ chain.invocations,
      invocation.command.IsIsolated) :
    Abreast (chains.map (Chain.alone surroundings)) (World.start surroundings calls
      (chains.map fun chain => Strand.start chain.invocations chain.routine)) where
  secluded := {
    commands := hcommands
    strands := by
      intro strand hmem
      obtain ⟨chain, hchain, rfl⟩ := List.mem_map.mp hmem
      exact ⟨hchains chain hchain, Chain.isolated_routine chain, fun _ h => by cases h⟩
    clock := Binary64.isTime_zero
    timers := fun _ h => by cases h }
  follows := by
    intro place start hstart
    rw [List.getElem?_map] at hstart
    obtain ⟨chain, hchain, rfl⟩ := Option.map_eq_some_iff.mp hstart
    refine ⟨chain.alone surroundings, .refl, .of_view_eq ?_⟩
    rw [view_start, List.getElem?_map, hchain]
    rfl
  idle := by
    intro place hnone
    rw [List.getElem?_map, Option.map_eq_none_iff] at hnone
    rw [view_start, List.getElem?_map, hnone]
    exact ⟨rfl, rfl⟩

theorem exitOnError_start (surroundings : Surroundings) (exitOnError : Bool) (calls : Entries Nat)
    (chains : List Chain) :
    (Batch.start surroundings exitOnError calls chains).exitOnError = exitOnError := by
  simp only [Batch.start]
  split <;> rfl

theorem Proceeds.start (surroundings : Surroundings) (calls : Entries Nat) {chains : List Chain}
    (hcommands : ∀ command ∈ surroundings.registry.commands, command.IsIsolated)
    (hchains : ∀ chain ∈ chains, ∀ invocation ∈ chain.invocations,
      invocation.command ∈ surroundings.registry.commands)
    (hordinary : ∀ command ∈ surroundings.registry.commands, command.IsOrdinary) :
    Proceeds (chains.map (Chain.alone surroundings))
      (Batch.start surroundings false calls chains) := by
  have habreast := Abreast.start surroundings calls hcommands fun chain hchain invocation hmem =>
    hcommands _ (hchains chain hchain invocation hmem)
  by_cases hne : chains = []
  · subst hne
    refine .returned [] ?_ rfl (fun _ _ h => by cases h) ?_
    · change Supervision.ended (results (dumpErrors _)) = _
      rw [results, strands_dumpErrors]
      rfl
    · exact habreast.of_views_eq fun place => view_dumpErrors place _
  · have hwatched := Watched.start surroundings false calls hne fun chain hchain invocation hmem =>
      hordinary _ (hchains chain hchain invocation hmem)
    rw [← List.length_map (Chain.alone surroundings)] at hwatched
    refine .watched _ false hwatched ?_
    simp only [Batch.start, List.isEmpty_iff, hne, if_false]
    exact habreast

/-! ### A chain alone -/

variable {start lone later final : World ChainResult} {pending : List Nat} {notified : Bool}

theorem Abreast.strand?_eq {world : World ChainResult} (h : Abreast [start] world) {job : Job}
    (hmem : job ∈ world.queue) : job.strand? = some 0 ∨ job = .supervise := by
  cases hstrand : job.strand? with
  | none =>
      cases job with
      | supervise => exact .inr rfl
      | _ => cases hstrand
  | some place =>
      cases place with
      | zero => exact .inl rfl
      | succ place =>
          have hempty := (h.idle (place + 1) rfl).1
          have hview : job.move 0 ∈ (world.view (place + 1)).queue :=
            List.mem_map.mpr ⟨job, List.mem_filter.mpr ⟨hmem, decide_eq_true hstrand⟩, rfl⟩
          rw [hempty] at hview
          cases hview

theorem Abreast.strand_eq {world : World ChainResult} (h : Abreast [start] world) {timer : Timer}
    (hmem : timer ∈ world.timers) : timer.strand = 0 := by
  cases hstrand : timer.strand with
  | zero => rfl
  | succ place =>
      have hempty := (h.idle (place + 1) rfl).2
      have hview : { timer with strand := 0 } ∈ (world.view (place + 1)).timers :=
        List.mem_map.mpr ⟨timer, List.mem_filter.mpr ⟨hmem, decide_eq_true hstrand⟩, rfl⟩
      rw [hempty] at hview
      cases hview

theorem Watched.step_alone (h : Watched 1 batch pending notified)
    (habreast : Abreast [start] batch.world) (hexit : batch.exitOnError = false)
    (hmatches : Matches 0 batch.world lone) (hlater : lone.next? = some later) :
    ∃ next, batch.step? = some next ∧ ((∃ results, next.supervision = .ended (.ok results)) ∨
      ∃ pending notified, Watched 1 next pending notified ∧ Abreast [start] next.world ∧
        (Matches 0 next.world later ∨
          Matches 0 next.world lone ∧ next.world.queue.length < batch.world.queue.length)) := by
  obtain ⟨next, hstep, hgoes⟩ := h.step
  refine ⟨next, hstep, ?_⟩
  have hviews : ∀ {pending : List Nat} {notified : Bool}, Watched 1 next pending notified →
      Abreast [start] next.world ∧
        ((∃ job rest, batch.world.queue = job :: rest ∧ ∀ place, next.world.view place =
            (World.perform job { batch.world with queue := rest }).view place) ∨
          batch.world.queue = [] ∧ batch.world.advance? = some next.world) := by
    intro pending notified hwatched
    have hstalled : next.supervision ≠ .stalled := fun h => by
      cases hwatched.supervision.symm.trans h
    have hraised : ∀ fault, next.supervision ≠ .ended (.error fault) := fun fault h => by
      cases hwatched.supervision.symm.trans h
    exact ⟨habreast.step hstep hstalled hraised, step?_views hstep hstalled hraised⟩
  cases hgoes with
  | on others told watched job rest queue performs told' looked quiet =>
      obtain ⟨hnext, ⟨first, remaining, hqueue, hsame⟩ | ⟨hempty, -⟩⟩ := hviews watched
      · obtain ⟨rfl, rfl⟩ := List.cons.inj (queue.symm.trans hqueue)
        refine .inr ⟨others, told, watched, hnext, ?_⟩
        rcases habreast.strand?_eq (hqueue ▸ List.mem_cons_self) with hown | rfl
        · obtain ⟨after, hafter, hperform⟩ := hmatches.perform habreast.secluded hqueue hown
          obtain rfl := Option.some.inj (hlater.symm.trans hafter)
          exact .inl (hperform.congr (hsame 0))
        · refine .inr ⟨?_, ?_⟩
          · have hkept := hmatches.perform_of_ne habreast.secluded hqueue fun h => by cases h
            exact hkept.congr (hsame 0)
          · rw [quiet rfl, hqueue, List.length_cons]
            exact Nat.lt_succ_self _
      · cases queue.symm.trans hempty
  | waits others told watched queue =>
      obtain ⟨hnext, ⟨first, remaining, hqueue, -⟩ | ⟨-, hadvance⟩⟩ := hviews watched
      · cases queue.symm.trans hqueue
      · refine .inr ⟨others, told, watched, hnext, .inl ?_⟩
        rcases hmatches.advance habreast.secluded queue hadvance with
          ⟨after, hafter, hnew⟩ | ⟨hnone, -⟩
        · obtain rfl := Option.some.inj (hlater.symm.trans hafter)
          exact hnew
        · obtain ⟨-, -, -, timer, hmem, hdue⟩ := advance?_eq_some hadvance
          exact absurd (habreast.strand_eq hmem) (hnone timer hmem hdue)
  | returns results ended => exact .inl ⟨results, ended⟩
  | aborts place result failure exits => cases hexit.symm.trans exits
  | stalls ended queue spent results timeless =>
      cases (hmatches.next?_eq_none queue timeless).symm.trans hlater

theorem result?_of_matches {world : World ChainResult} {place : Nat}
    (h : Matches place world lone) : result? world place = result? lone 0 := by
  rw [← result?_view, h.view]
  rfl

theorem Watched.exists_result (hexit : batch.exitOnError = false) (hleads : Leads lone final)
    (hended : (result? final 0).isSome) {steps : Nat}
    (h : Watched 1 (batch.settle steps) pending notified)
    (habreast : Abreast [start] (batch.settle steps).world)
    (hmatches : Matches 0 (batch.settle steps).world lone) :
    (∃ last results, (batch.settle last).supervision = .ended (.ok results)) ∨
      ∃ later pending notified, Watched 1 (batch.settle later) pending notified ∧
        (result? (batch.settle later).world 0).isSome := by
  induction hleads using Relation.ReflTransGen.head_induction_on
    generalizing steps pending notified with
  | refl =>
      refine .inr ⟨steps, pending, notified, h, ?_⟩
      rwa [result?_of_matches hmatches]
  | @head lone later hlater _ ih =>
      -- The supervisor's jobs come before the chain's next step, so the length of the queue falls.
      obtain ⟨length, hlength⟩ : ∃ length, (batch.settle steps).world.queue.length = length :=
        ⟨_, rfl⟩
      induction length using Nat.strongRecOn generalizing steps pending notified with
      | ind length hless =>
          obtain ⟨next, hstep, hnext⟩ := h.step_alone habreast
            ((exitOnError_settle steps batch).trans hexit) hmatches hlater
          have hsettle : batch.settle (steps + 1) = next := by
            rw [settle_succ, hstep]
            rfl
          subst hsettle
          rcases hnext with ⟨results, hreturned⟩ |
            ⟨others, told, hwatched, hafter, hgone | ⟨hstays, hshorter⟩⟩
          · exact .inl ⟨steps + 1, results, hreturned⟩
          · exact ih hwatched hafter hgone
          · exact hless _ (hlength ▸ hshorter) hwatched hafter hstays rfl

theorem Watched.exists_returned (h : Watched 1 batch pending notified)
    (habreast : Abreast [start] batch.world) (hexit : batch.exitOnError = false)
    (hmatches : Matches 0 batch.world start) (hleads : Leads start final)
    (hended : (result? final 0).isSome) :
    ∃ last results, (batch.settle last).supervision = .ended (.ok results) := by
  have hzero : Watched 1 (batch.settle 0) pending notified := h
  rcases hzero.exists_result hexit hleads hended habreast hmatches with
    hreturned | ⟨later, others, told, hlater, hresult⟩
  · exact hreturned
  · obtain ⟨result, hresult⟩ := Option.isSome_iff_exists.mp hresult
    have hawaited : Awaited 1 batch 0 result := .of_single
    obtain ⟨last, ⟨pending, notified, hlast⟩, hstays, hends⟩ :=
      exists_stops hawaited hlater hresult
    cases hlast.goes with
    | on others told watched => exact absurd ⟨others, told, watched.supervision⟩ hends
    | waits others told watched => exact absurd ⟨others, told, watched.supervision⟩ hends
    | returns results ended => exact ⟨last + 1, results, ended⟩
    | aborts place failed failure exits =>
        cases ((exitOnError_settle last batch).trans hexit).symm.trans exits
    | stalls ended queue =>
        exact absurd queue (hlast.queue_ne_nil (hawaited _ _ _ hlast hstays) hstays)

end Batch

end Cascade
