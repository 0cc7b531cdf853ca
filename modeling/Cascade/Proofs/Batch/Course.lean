import Cascade.Engine
import Cascade.Proofs.Batch.Watch

/-!
The course of a batch from its start. The jobs are done in their order, so a chain that has ended does
not wait for ever until the supervisor looks.
-/

namespace Cascade

namespace Batch

/-! ### Steps of a batch -/

theorem settle_succ (steps : Nat) (batch : Batch) :
    batch.settle (steps + 1) = (batch.settle steps).step?.getD (batch.settle steps) := by
  induction steps generalizing batch with
  | zero =>
      rw [settle]
      cases hstep : batch.step? with
      | none => simp [settle, hstep]
      | some next => simp [settle, hstep]
  | succ steps ih =>
      rw [settle]
      cases hstep : batch.step? with
      | none =>
          have hrest : batch.settle (steps + 1) = batch := by rw [settle, hstep]
          simp [hrest, hstep]
      | some next =>
          have hrest : batch.settle (steps + 1) = next.settle steps := by rw [settle, hstep]
          rw [hrest]
          exact ih next

theorem exitOnError_step? {batch next : Batch} (h : batch.step? = some next) :
    next.exitOnError = batch.exitOnError := by
  have hsupervise : ∀ (other : Batch) pending,
      (other.supervise pending).exitOnError = other.exitOnError := by
    intro other pending
    rw [Batch.supervise]
    dsimp only
    split
    · rfl
    · split
      · rfl
      · split <;> rfl
    · split <;> rfl
  rw [step?] at h
  split at h
  · obtain rfl := Option.some.inj h
    rw [Batch.perform.eq_def]
    split
    · split <;> rfl
    · exact hsupervise _ _
    · rfl
  · split at h
    · split at h <;> exact Option.some.inj h ▸ rfl
    · cases h

theorem exitOnError_settle (steps : Nat) (batch : Batch) :
    (batch.settle steps).exitOnError = batch.exitOnError := by
  induction steps with
  | zero => rfl
  | succ steps ih =>
      rw [settle_succ]
      cases hstep : (batch.settle steps).step? with
      | none => exact ih
      | some next => exact (exitOnError_step? hstep).trans ih

theorem eq_of_takeJob? {world rest : World ChainResult} {job : Job}
    (h : world.takeJob? = some (job, rest)) :
    world.queue = job :: rest.queue ∧ rest = { world with queue := rest.queue } := by
  rw [World.takeJob?] at h
  split at h
  · cases h
  · rename_i hqueue
    cases h
    exact ⟨hqueue, rfl⟩

theorem step?_of_not_watching {batch : Batch}
    (h : ∀ pending notified, batch.supervision ≠ .watching pending notified) :
    batch.step? = batch.world.takeJob?.map fun taken =>
      { batch with world := taken.2.perform taken.1 } := by
  rw [step?]
  cases htake : batch.world.takeJob? with
  | none =>
      dsimp only [Option.map_none]
      split
      · rename_i pending notified hwatching
        exact absurd hwatching (h pending notified)
      · rfl
  | some taken =>
      obtain ⟨job, rest⟩ := taken
      refine congrArg some ?_
      rw [Batch.perform.eq_def]
      split
      · rename_i strand pending hwatching
        exact absurd hwatching (h pending false)
      · rename_i pending notified hwatching
        exact absurd hwatching (h pending notified)
      · rfl

/-- The supervisor still watches after so many steps. -/
def Watches (batch : Batch) (steps : Nat) : Prop :=
  ∃ pending notified, (batch.settle steps).supervision = .watching pending notified

/-- The end of a batch, if it has come. -/
def ending? (batch : Batch) : Option (Except Fault (List ChainResult)) :=
  match batch.supervision with
  | .ended result => some result
  | _ => none

theorem ending?_eq_some {batch : Batch} {result : Except Fault (List ChainResult)}
    (h : batch.ending? = some result) : batch.supervision = .ended result := by
  rw [ending?] at h
  split at h
  · rename_i ended hended
    rw [hended, Option.some.inj h]
  · cases h

theorem ended_of_ending? {batch : Batch} {fault : Fault}
    (h : batch.ending?.map (Except.map fun _ => ()) = some (.error fault)) :
    batch.supervision = .ended (.error fault) := by
  obtain ⟨result, hresult, hmap⟩ := Option.map_eq_some_iff.mp h
  cases result with
  | ok results => cases hmap
  | error other => rw [ending?_eq_some hresult, Except.error.inj hmap]

/-! ### The end of a chain is noticed -/

variable {batch : Batch} {count place steps : Nat} {pending : List Nat} {notified : Bool}
  {result : Except Fault ChainResult}

theorem Watched.goes (h : Watched count (batch.settle steps) pending notified) :
    Goes count (batch.settle steps) (batch.settle (steps + 1)) := by
  obtain ⟨next, hstep, hgoes⟩ := h.step
  rw [settle_succ, hstep]
  exact hgoes

/-- The supervisor waits for a chain if it has ended with a result, as long as it watches. -/
def Awaited (count : Nat) (batch : Batch) (place : Nat) (result : Except Fault ChainResult) : Prop :=
  ∀ steps pending notified, Watched count (batch.settle steps) pending notified →
    result? (batch.settle steps).world place = some result → place ∈ pending

theorem Watched.mem_of_single (h : Watched 1 batch pending notified) : 0 ∈ pending := by
  obtain ⟨place, hmem⟩ := List.exists_mem_of_ne_nil _ h.waited
  obtain rfl : place = 0 := Nat.lt_one_iff.mp (h.placed place hmem)
  exact hmem

theorem Awaited.of_single : Awaited 1 batch 0 result :=
  fun _ _ _ hsteps _ => hsteps.mem_of_single

theorem Watched.queue_ne_nil (h : Watched count batch pending notified)
    (hmem : place ∈ pending) (hresult : result? batch.world place = some result) :
    batch.world.queue ≠ [] := by
  rcases h.announced place hmem (by rw [hresult]; rfl) with htrue | hold
  · exact List.ne_nil_of_mem (h.supervised htrue)
  · exact List.ne_nil_of_mem hold

theorem Watched.step_of_result (h : Watched count (batch.settle steps) pending notified)
    (hawaited : Awaited count batch place result)
    (hresult : result? (batch.settle steps).world place = some result) :
    ¬ Watches batch (steps + 1) ∨
      ∃ pending notified job rest more,
        Watched count (batch.settle (steps + 1)) pending notified ∧
        result? (batch.settle (steps + 1)).world place = some result ∧
        (batch.settle (steps + 1)).world.clock = (batch.settle steps).world.clock ∧
        (batch.settle steps).world.queue = job :: rest ∧
        (batch.settle (steps + 1)).world.queue = rest ++ more ∧ job ≠ .supervise ∧
        (job = .announce place → notified = true) := by
  have hqueue := h.queue_ne_nil (hawaited _ _ _ h hresult) hresult
  have hends : ∀ ended, (batch.settle (steps + 1)).supervision = ended →
      (∀ pending notified, ended ≠ .watching pending notified) → ¬ Watches batch (steps + 1) := by
    rintro ended hended hnot ⟨pending, notified, hwatching⟩
    exact hnot pending notified (hended.symm.trans hwatching)
  cases h.goes with
  | on pending notified watched job rest queue performs told looked =>
      obtain ⟨more, hmore⟩ := performs.queue
      have hstays : result? (batch.settle (steps + 1)).world place = some result := by
        rcases performs.announces place with hsame | ⟨hnone, -⟩
        · exact hsame.trans hresult
        · cases hnone.symm.trans hresult
      have hmem := hawaited _ _ _ watched hstays
      refine .inr ⟨pending, notified, job, rest, more, watched, hstays, performs.clock, queue,
        hmore, fun hsupervise => ?_, told place hmem⟩
      cases (looked hsupervise place hmem).symm.trans hstays
  | waits pending notified watched queue => exact absurd queue hqueue
  | returns results ended => exact .inl (hends _ ended fun _ _ h => by cases h)
  | aborts other failed failure exits placed failed cause ended =>
      exact .inl (hends _ ended fun _ _ h => by cases h)
  | stalls ended queue => exact absurd queue hqueue

/-- The last step of the watch, after a chain has ended. -/
def Stops (count : Nat) (batch : Batch) (place : Nat) (result : Except Fault ChainResult)
    (last : Nat) : Prop :=
  (∃ pending notified, Watched count (batch.settle last) pending notified) ∧
    result? (batch.settle last).world place = some result ∧ ¬ Watches batch (last + 1)

theorem exists_stops_or_head (hawaited : Awaited count batch place result) (target : Job)
    {after : List Job} (before : List Job)
    (h : Watched count (batch.settle steps) pending notified)
    (hresult : result? (batch.settle steps).world place = some result)
    (hqueue : (batch.settle steps).world.queue = before ++ target :: after) :
    (∃ last, Stops count batch place result last) ∨
      ∃ later pending notified rest, Watched count (batch.settle later) pending notified ∧
        result? (batch.settle later).world place = some result ∧
        (batch.settle later).world.queue = target :: rest := by
  induction before generalizing after steps pending notified with
  | nil => exact .inr ⟨steps, pending, notified, after, h, hresult, hqueue⟩
  | cons first before ih =>
      rcases h.step_of_result hawaited hresult with hends |
        ⟨later, told, job, rest, more, hnext, hstays, -, hold, hnew, -, -⟩
      · exact .inl ⟨steps, ⟨pending, notified, h⟩, hresult, hends⟩
      · rw [hqueue, List.cons_append] at hold
        obtain ⟨-, rfl⟩ := List.cons.inj hold
        rw [List.append_assoc, List.cons_append] at hnew
        exact ih hnext hstays hnew

theorem exists_stops (hawaited : Awaited count batch place result)
    (h : Watched count (batch.settle steps) pending notified)
    (hresult : result? (batch.settle steps).world place = some result) :
    ∃ last, Stops count batch place result last := by
  have hsupervise : ∀ {steps : Nat} {pending : List Nat} {notified : Bool},
      Watched count (batch.settle steps) pending notified →
      result? (batch.settle steps).world place = some result →
      .supervise ∈ (batch.settle steps).world.queue →
        ∃ last, Stops count batch place result last := by
    intro steps pending notified hwatched hended hmem
    obtain ⟨before, after, hqueue⟩ := List.append_of_mem hmem
    rcases exists_stops_or_head hawaited .supervise before hwatched hended hqueue with hstops |
      ⟨later, pending, notified, rest, hlater, hstays, hhead⟩
    · exact hstops
    · rcases hlater.step_of_result hawaited hstays with hends |
        ⟨_, _, job, _, _, -, -, -, hjob, -, hother, -⟩
      · exact ⟨later, ⟨pending, notified, hlater⟩, hstays, hends⟩
      · rw [hhead] at hjob
        exact absurd (List.cons.inj hjob).1.symm hother
  have hmem := hawaited _ _ _ h hresult
  rcases h.announced place hmem (by rw [hresult]; rfl) with htrue | hold
  · exact hsupervise h hresult (h.supervised htrue)
  · obtain ⟨before, after, hqueue⟩ := List.append_of_mem hold
    rcases exists_stops_or_head hawaited (.announce place) before h hresult hqueue with hstops |
      ⟨later, pending, notified, rest, hlater, hstays, hhead⟩
    · exact hstops
    · rcases hlater.step_of_result hawaited hstays with hends |
        ⟨others, told, job, rest, more, hnext, hended, -, hjob, -, -, htold⟩
      · exact ⟨later, ⟨pending, notified, hlater⟩, hstays, hends⟩
      · rw [hhead] at hjob
        exact hsupervise hnext hended (hnext.supervised (htold (List.cons.inj hjob).1.symm))

theorem supervision_settle_add {ended : Supervision}
    (hended : ∀ pending notified, ended ≠ .watching pending notified)
    (h : (batch.settle steps).supervision = ended) (extra : Nat) :
    (batch.settle (steps + extra)).supervision = ended := by
  induction extra with
  | zero => exact h
  | succ extra ih =>
      rw [← Nat.add_assoc, settle_succ, step?_of_not_watching (by rwa [ih])]
      cases (batch.settle (steps + extra)).world.takeJob? <;> exact ih

/-! ### The start -/

/-- The state before the first turn of each chain. -/
theorem Orderly.start (surroundings : Surroundings) (calls : Entries Nat) {chains : List Chain}
    (hordinary : ∀ chain ∈ chains, ∀ invocation ∈ chain.invocations,
      invocation.command.IsOrdinary) :
    Orderly chains.length (World.start surroundings calls
      (chains.map fun chain => Strand.start chain.invocations chain.routine)) := by
  have hfresh : ∀ strand ∈ chains.map (fun chain => Strand.start chain.invocations chain.routine),
      ∃ chain ∈ chains, strand = Strand.start chain.invocations chain.routine := by
    intro strand hmem
    obtain ⟨chain, hchain, rfl⟩ := List.mem_map.mp hmem
    exact ⟨chain, hchain, rfl⟩
  exact {
    length := List.length_map _
    dependable := by
      intro place hplace
      have hget : chains[place]? = some chains[place] := List.getElem?_eq_getElem hplace
      refine ⟨chains[place].invocations, (Thread.start none none false chains[place].routine).calm,
        ?_, hordinary _ (List.getElem_mem hplace), Chain.steady_routine _⟩
      rw [World.outline?, World.shape?, World.strand?, World.start, List.getElem?_map, hget]
      rfl
    uncancelled := by
      intro place cell hcancelled
      rw [World.posture?, World.strand?, World.start, List.getElem?_map] at hcancelled
      cases hget : chains[place]? with
      | none => simp [hget] at hcancelled
      | some chain =>
          rw [hget] at hcancelled
          cases hcancelled
    lawful := by
      refine World.Lawful.start surroundings calls fun strand hmem => ?_
      obtain ⟨chain, -, rfl⟩ := hfresh strand hmem
      exact ⟨rfl, rfl, chain.routine, rfl⟩
    ready := by
      refine World.Ready.start surroundings calls fun strand hmem => ?_
      obtain ⟨chain, -, rfl⟩ := hfresh strand hmem
      rfl
    ownRecord := fun _ h => by cases h }

theorem Watched.start (surroundings : Surroundings) (exitOnError : Bool) (calls : Entries Nat)
    {chains : List Chain} (hne : chains ≠ [])
    (hordinary : ∀ chain ∈ chains, ∀ invocation ∈ chain.invocations,
      invocation.command.IsOrdinary) :
    Watched chains.length (Batch.start surroundings exitOnError calls chains)
      (List.range chains.length) false := by
  have hstart : Batch.start surroundings exitOnError calls chains = ⟨exitOnError,
      World.start surroundings calls
        (chains.map fun chain => Strand.start chain.invocations chain.routine),
      .watching (List.range chains.length) false⟩ := by
    simp [Batch.start, hne]
  rw [hstart]
  exact {
    supervision := rfl
    orderly := Orderly.start surroundings calls hordinary
    waited := by simp [hne]
    placed := fun _ => List.mem_range.mp
    looked := fun place hplace hout => absurd (List.mem_range.mpr hplace) hout
    announced := by
      intro place hmem hsome
      rw [result?, World.strand?, World.start, List.getElem?_map] at hsome
      cases hget : chains[place]? with
      | none => simp [hget] at hsome
      | some chain =>
          rw [hget] at hsome
          cases hsome
    supervised := fun h => by cases h }

end Batch

namespace Invocation

theorem command_mem_of_readAll {registry : Registry} {elements : List String}
    {invocations : List Invocation} (h : readAll registry elements = .ok invocations) :
    ∀ invocation ∈ invocations, invocation.command ∈ registry.commands := by
  induction elements generalizing invocations with
  | nil =>
      cases h
      exact fun _ h => by cases h
  | cons element rest ih =>
      cases hread : read registry element with
      | error first => simp [readAll, hread, bind, Except.bind] at h
      | ok first =>
          cases hrest : readAll registry rest with
          | error fault => simp [readAll, hread, hrest, bind, Except.bind] at h
          | ok others =>
              simp only [readAll, hread, hrest, bind, Except.bind, pure, Except.pure,
                Except.ok.injEq] at h
              subst h
              refine List.forall_mem_cons.mpr ⟨?_, ih hrest⟩
              rw [read] at hread
              cases hcall : Call.read element with
              | error fault => simp [hcall, bind, Except.bind] at hread
              | ok call =>
                  simp only [hcall, bind, Except.bind] at hread
                  split at hread
                  · rename_i command hcommand
                    obtain rfl := Except.ok.inj hread
                    exact List.mem_of_find?_eq_some hcommand
                  · cases hread

end Invocation

theorem Engine.command_mem_of_chainsOf {registry : Registry} {tokens : List String} {chain : Chain}
    (hchain : chain ∈ Engine.chainsOf registry tokens) :
    ∀ invocation ∈ chain.invocations, invocation.command ∈ registry.commands := by
  obtain ⟨token, -, rfl⟩ := List.mem_map.mp hchain
  intro invocation hinvocation
  cases hreading : Invocation.readAll registry (cascadeElements token) with
  | error fault => simp [Chain.invocations, Chain.ofToken, hreading, Except.toOption] at hinvocation
  | ok invocations =>
      simp only [Chain.invocations, Chain.ofToken, hreading] at hinvocation
      exact Invocation.command_mem_of_readAll hreading invocation hinvocation

end Cascade
