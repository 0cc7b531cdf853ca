import Cascade.Proofs.Batch.Abandon

/-!
The supervisor of a batch. While it watches, it knows of every chain that has ended or will be told of
it, and a step goes on with that, or ends the batch, or finds that nothing can happen any more.
-/

namespace Cascade

namespace Batch

/-! ### What the supervisor looks at -/

variable {world : World ChainResult} {count : Nat}

theorem firstFailure_eq_none {strands : List Nat} (h : firstFailure world strands = none)
    {place : Nat} (hplace : place ∈ strands) {result : ChainResult}
    (hresult : result? world place = some (.ok result)) : result.failure = none := by
  induction strands with
  | nil => cases hplace
  | cons strand rest ih =>
      rw [firstFailure] at h
      split at h
      · cases h
      · rename_i other hother
        split at h
        · cases h
        · rename_i hnone
          rcases List.mem_cons.mp hplace with rfl | hmem
          · rw [hother] at hresult
            cases hresult
            exact hnone
          · exact ih h hmem
      · rename_i hother
        rcases List.mem_cons.mp hplace with rfl | hmem
        · cases hother.symm.trans hresult
        · exact ih h hmem

theorem exists_of_firstFailure_eq_some {strands : List Nat} {found : Except Fault Fault}
    (h : firstFailure world strands = some found) : ∃ place ∈ strands,
      (∃ fault, found = .error fault ∧ result? world place = some (.error fault)) ∨
        ∃ fault result, found = .ok fault ∧ result? world place = some (.ok result) ∧
          result.failure = some fault := by
  induction strands with
  | nil => cases h
  | cons strand rest ih =>
      rw [firstFailure] at h
      split at h
      · rename_i fault hresult
        obtain rfl := Option.some.inj h
        exact ⟨strand, List.mem_cons_self, .inl ⟨fault, rfl, hresult⟩⟩
      · rename_i result hresult
        split at h
        · rename_i fault hfault
          obtain rfl := Option.some.inj h
          exact ⟨strand, List.mem_cons_self, .inr ⟨fault, result, rfl, hresult, hfault⟩⟩
        · obtain ⟨place, hplace, hfound⟩ := ih h
          exact ⟨place, List.mem_cons_of_mem _ hplace, hfound⟩
      · obtain ⟨place, hplace, hfound⟩ := ih h
        exact ⟨place, List.mem_cons_of_mem _ hplace, hfound⟩

/-- The occurrences of the error dump, the newest first. -/
def dump (errors : ErrorLog) : List Occurrence :=
  ((Report.errorDump errors).map fun line => ⟨none, none, none, .item (.line line)⟩).reverse

theorem record_writeLines (lines : List Line) (world : World ChainResult) :
    (writeLines lines world).record =
      (lines.map fun line => (⟨none, none, none, .item (.line line)⟩ : Occurrence)).reverse ++
        world.record := by
  induction lines generalizing world with
  | nil => rfl
  | cons line rest ih =>
      refine (ih (world.write ⟨none, none, none, .item (.line line)⟩)).trans ?_
      simp [World.write]

theorem mainRecord_dumpErrors (world : World ChainResult) :
    (dumpErrors world).mainRecord = dump world.errors ++ world.mainRecord := by
  have hmain : ∀ occurrence ∈ dump world.errors, occurrence.isMain = true := by
    intro occurrence hmem
    obtain ⟨line, -, rfl⟩ := List.mem_map.mp (List.mem_reverse.mp hmem)
    rfl
  rw [World.mainRecord, dumpErrors, record_writeLines, List.filter_append, ← dump,
    List.filter_eq_self.mpr hmain]
  rfl

theorem writeLines_eq (lines : List Line) (world : World ChainResult) :
    writeLines lines world = { world with record := (writeLines lines world).record } := by
  induction lines generalizing world with
  | nil => rfl
  | cons line rest ih => exact ih (world.write ⟨none, none, none, .item (.line line)⟩)

theorem strands_dumpErrors (world : World ChainResult) :
    (dumpErrors world).strands = world.strands := by
  rw [dumpErrors, writeLines_eq]

theorem errors_writeLines (lines : List Line) (world : World ChainResult) :
    (writeLines lines world).errors = world.errors := by
  induction lines generalizing world with
  | nil => rfl
  | cons line rest ih => exact ih (world.write ⟨none, none, none, .item (.line line)⟩)

theorem result?_of_strands_eq {after : World ChainResult} (h : after.strands = world.strands)
    (place : Nat) : result? after place = result? world place := by
  rw [result?, World.strand?, h, result?, World.strand?]

theorem mapM_eq_ok {β γ : Type} {give : β → Except Fault γ} {items : List β}
    (h : ∀ item ∈ items, ∃ value, give item = .ok value) :
    ∃ values, items.mapM give = .ok values ∧ values.length = items.length ∧
      ∀ (index : Nat) (item : β) (value : γ), items[index]? = some item →
        values[index]? = some value → give item = .ok value := by
  induction items with
  | nil => exact ⟨[], rfl, rfl, fun index item value hitem => by simp at hitem⟩
  | cons first rest ih =>
      obtain ⟨hfirst, hrest⟩ := List.forall_mem_cons.mp h
      obtain ⟨value, hvalue⟩ := hfirst
      obtain ⟨values, hvalues, hlength, hall⟩ := ih hrest
      refine ⟨value :: values, ?_, by rw [List.length_cons, List.length_cons, hlength], ?_⟩
      · rw [List.mapM_cons, hvalue, hvalues]
        rfl
      · intro index item other hitem hother
        cases index with
        | zero =>
            obtain rfl := Option.some.inj hitem
            obtain rfl := Option.some.inj hother
            exact hvalue
        | succ index => exact hall index item other hitem hother

theorem results_eq_ok
    (h : ∀ place < world.strands.length, ∃ result, result? world place = some (.ok result)) :
    ∃ list, results world = .ok list ∧ list.length = world.strands.length ∧
      ∀ place result, list[place]? = some result → result? world place = some (.ok result) := by
  have hgive : ∀ place ∈ List.range world.strands.length, ∃ result,
      (result? world place).getD (.error World.cancellation) = .ok result := by
    intro place hplace
    obtain ⟨result, hresult⟩ := h place (List.mem_range.mp hplace)
    exact ⟨result, by rw [hresult]; rfl⟩
  obtain ⟨list, hlist, hlength, hall⟩ := mapM_eq_ok hgive
  rw [List.length_range] at hlength
  refine ⟨list, hlist, hlength, fun place result hresult => ?_⟩
  have hlt : place < world.strands.length := by
    rw [← hlength]
    exact (List.getElem?_eq_some_iff.mp hresult).1
  have hgiven := hall place place result (List.getElem?_range hlt) hresult
  obtain ⟨other, hother⟩ := h place hlt
  rw [hother] at hgiven ⊢
  obtain rfl := Except.ok.inj hgiven
  rfl

/-! ### The watch -/

/-- A batch that is watched. -/
structure Watched (count : Nat) (batch : Batch) (pending : List Nat) (notified : Bool) : Prop where
  supervision : batch.supervision = .watching pending notified
  orderly : Orderly count batch.world
  waited : pending ≠ []
  placed : ∀ place ∈ pending, place < count
  looked : ∀ place < count, place ∉ pending → ∃ result,
    result? batch.world place = some (.ok result) ∧
      (batch.exitOnError = true → result.isSuccess = true)
  announced : ∀ place ∈ pending, (result? batch.world place).isSome →
    notified = true ∨ .announce place ∈ batch.world.queue
  supervised : notified = true → .supervise ∈ batch.world.queue

/-- What a step of a watched batch comes to. -/
inductive Goes (count : Nat) (batch next : Batch) : Prop
  /-- The first job is done, and the watch goes on. -/
  | on (pending : List Nat) (notified : Bool) (watched : Watched count next pending notified)
      (job : Job) (rest : List Job) (queue : batch.world.queue = job :: rest)
      (performs : Performs { batch.world with queue := rest } next.world)
      (told : ∀ place ∈ pending, job = .announce place → notified = true)
      (looked : job = .supervise → ∀ place ∈ pending, result? next.world place = none)
      (quiet : job = .supervise → next.world.queue = rest)
  /-- No job is ready, and time goes on. -/
  | waits (pending : List Nat) (notified : Bool) (watched : Watched count next pending notified)
      (queue : batch.world.queue = [])
      (results : ∀ place, result? next.world place = result? batch.world place)
  /-- All chains have ended. -/
  | returns (results : List ChainResult) (ended : next.supervision = .ended (.ok results))
      (length : results.length = count)
      (each : ∀ place result, results[place]? = some result →
        result? next.world place = some (.ok result) ∧
          (batch.exitOnError = true → result.isSuccess = true))
      (spent : Spent count next.world)
      (same : ∀ place, result? next.world place = result? batch.world place)
      (record : next.world.mainRecord = dump batch.world.errors ++ batch.world.mainRecord)
      (errors : next.world.errors = batch.world.errors)
  /-- A chain has failed, and the others are given up. -/
  | aborts (place : Nat) (result : ChainResult) (failure : Fault)
      (exits : batch.exitOnError = true) (placed : place < count)
      (failed : result? batch.world place = some (.ok result))
      (cause : result.failure = some failure)
      (ended : next.supervision = .ended (.error (.aborted failure 1)))
      (spent : Spent count next.world)
      (record : next.world.mainRecord =
        dump batch.world.errors ++ batch.world.mainRecord)
      (results : ∀ place, result? next.world place = result? batch.world place)
      (errors : next.world.errors = batch.world.errors)
  /-- Nothing can happen any more. -/
  | stalls (ended : next.supervision = .stalled) (queue : batch.world.queue = [])
      (spent : Spent count next.world)
      (results : ∀ place, result? next.world place = result? batch.world place)
      (timeless : batch.world.advance? = none)
      (record : next.world.mainRecord = batch.world.mainRecord)

variable {batch : Batch} {pending : List Nat} {notified : Bool}

theorem Spent.of_strands_eq {after : World ChainResult} (h : Spent count world)
    (hstrands : after.strands = world.strands) : Spent count after := by
  refine ⟨(congrArg List.length hstrands).trans h.length, fun place hplace => ?_⟩
  have hposture : after.posture? place .root = world.posture? place .root := by
    rw [World.posture?, World.strand?, hstrands, World.posture?, World.strand?]
  have houtline : after.outline? place = world.outline? place := by
    rw [World.outline?, congrFun (World.SameShape.of_strands_eq hstrands) place, World.outline?]
  rw [hposture]
  exact (h.threads place hplace).imp_right fun hcancelled =>
    ⟨hcancelled.1, hcancelled.2.of_outline houtline⟩

theorem Watched.conclude {world : World ChainResult} (h : Orderly count world)
    (hlooked : ∀ place < count, ∃ result, result? world place = some (.ok result) ∧
      (batch.exitOnError = true → result.isSuccess = true))
    (hsame : world.strands = batch.world.strands)
    (hsurroundings : world.surroundings = batch.world.surroundings)
    (hrecord : world.record = batch.world.record) (other : Batch) :
    Goes count batch (Batch.conclude other world) := by
  have hstrands := strands_dumpErrors world
  have hresults := result?_of_strands_eq hstrands
  obtain ⟨list, hlist, hlength, hall⟩ := @results_eq_ok (dumpErrors world) (by
    intro place hplace
    rw [hstrands, h.length] at hplace
    obtain ⟨result, hresult, -⟩ := hlooked place hplace
    exact ⟨result, (hresults place).trans hresult⟩)
  rw [hstrands, h.length] at hlength
  have herrors : world.errors = batch.world.errors := by
    rw [World.errors, hrecord, hsurroundings, World.errors]
  have hmain : world.mainRecord = batch.world.mainRecord := by
    rw [World.mainRecord, hrecord, World.mainRecord]
  refine .returns list (congrArg Supervision.ended hlist) hlength (fun place result hget => ?_) ?_
    (result?_of_strands_eq (hstrands.trans hsame))
    (herrors ▸ hmain ▸ mainRecord_dumpErrors world) ((errors_writeLines _ world).trans herrors)
  · have hresult := hall place result hget
    refine ⟨hresult, fun hexit => ?_⟩
    obtain ⟨other, hother, hsuccess⟩ := hlooked place
      (hlength ▸ (List.getElem?_eq_some_iff.mp hget).1)
    rw [hresults, hother] at hresult
    cases hresult
    exact hsuccess hexit
  · have hspent : Spent count (abandon [] world) := by
      refine .of_abandon h fun place hplace hnone => ?_
      obtain ⟨result, hresult, -⟩ := hlooked place hplace
      cases hnone.symm.trans hresult
    exact hspent.of_strands_eq hstrands

section Looking

variable {rest : List Job} {taken : World ChainResult}

theorem Watched.mem_left (h : Watched count batch pending notified)
    (htaken : taken = { batch.world with queue := rest }) {place : Nat} (hplace : place < count)
    (hnone : result? taken place = none) :
    place ∈ pending.filter (not ∘ fun place => (result? taken place).isSome) := by
  by_cases hmem : place ∈ pending
  · exact List.mem_filter.mpr ⟨hmem, by simp [hnone]⟩
  · obtain ⟨result, hresult, -⟩ := h.looked place hplace hmem
    rw [htaken] at hnone
    cases hnone.symm.trans hresult

theorem Watched.look (h : Watched count batch pending notified)
    (hqueue : batch.world.queue = .supervise :: rest)
    (htaken : taken = { batch.world with queue := rest }) {done left : List Nat}
    (hdone : done = pending.filter fun place => (result? taken place).isSome)
    (hleft : left = pending.filter (not ∘ fun place => (result? taken place).isSome))
    (hnone : firstFailure taken done = none ∨ batch.exitOnError = false) :
    Goes count batch (if left.isEmpty then Batch.conclude { batch with world := taken } taken
      else { batch with world := taken, supervision := .watching left false }) := by
  have horderly : Orderly count taken := htaken ▸ h.orderly.perform hqueue
  have hlooked : ∀ place < count, place ∉ left → ∃ result, result? taken place = some (.ok result) ∧
      (batch.exitOnError = true → result.isSuccess = true) := by
    intro place hplace hout
    by_cases hmem : place ∈ pending
    · rcases (horderly.dependable place hplace).cases with ⟨⟨result, hresult⟩, -⟩ | ⟨hopen, -⟩
      · refine ⟨result, hresult, fun hexit => ?_⟩
        rcases hnone with hnone | hno
        · have hended : place ∈ done := hdone ▸ List.mem_filter.mpr ⟨hmem, by simp [hresult]⟩
          rw [ChainResult.isSuccess, firstFailure_eq_none hnone hended hresult]
          rfl
        · cases hno.symm.trans hexit
      · exact absurd (hleft ▸ h.mem_left htaken hplace hopen) hout
    · exact htaken ▸ h.looked place hplace hmem
  split
  · rename_i hempty
    subst htaken
    refine Watched.conclude horderly (fun place hplace => hlooked place hplace ?_) rfl rfl rfl _
    rw [List.isEmpty_iff.mp hempty]
    exact List.not_mem_nil
  · rename_i hsome
    have hmem : ∀ place ∈ left, place ∈ pending ∧ result? taken place = none := by
      intro place hmem
      obtain ⟨hpending, hopen⟩ := List.mem_filter.mp (hleft ▸ hmem)
      exact ⟨hpending, by simpa using hopen⟩
    have hwatched : Watched count
        { batch with world := taken, supervision := .watching left false } left false := {
      supervision := rfl
      orderly := horderly
      waited := fun hnil => hsome (List.isEmpty_iff.mpr hnil)
      placed := fun place hplace => h.placed place (hmem place hplace).1
      looked := hlooked
      announced := by
        intro place hplace hsome
        have hended : (result? taken place).isSome = true := hsome
        simp [(hmem place hplace).2] at hended
      supervised := fun h => by cases h }
    subst htaken
    exact .on left false hwatched .supervise rest hqueue
      ⟨rfl, ⟨[], (List.append_nil _).symm⟩, fun _ => .inl rfl⟩ (fun _ _ h => by cases h)
      (fun _ place hplace => (hmem place hplace).2) fun _ => rfl

end Looking

theorem Watched.supervise (h : Watched count batch pending notified) {rest : List Job}
    (hqueue : batch.world.queue = .supervise :: rest) :
    Goes count batch
      (Batch.supervise { batch with world := { batch.world with queue := rest } } pending) := by
  let taken : World ChainResult := { batch.world with queue := rest }
  let left := pending.filter (not ∘ fun place => (result? taken place).isSome)
  have htaken : Orderly count taken := h.orderly.perform hqueue
  rw [Batch.supervise, List.partition_eq_filter_filter]
  dsimp only
  split
  · rename_i fault hfound
    obtain ⟨place, hmem, ⟨other, hother, hfault⟩ | ⟨_, _, heq, -⟩⟩ :=
      exists_of_firstFailure_eq_some hfound
    · have hplace := h.placed place (List.mem_filter.mp hmem).1
      rcases (htaken.dependable place hplace).cases with ⟨⟨result, hresult⟩, -⟩ | ⟨hopen, -⟩
      · cases hfault.symm.trans hresult
      · cases hfault.symm.trans hopen
    · cases heq
  · rename_i fault hfound
    obtain ⟨place, hmem, ⟨_, heq, -⟩ | ⟨other, result, heq, hresult, hcause⟩⟩ :=
      exists_of_firstFailure_eq_some hfound
    · cases heq
    · obtain rfl := Except.ok.inj heq
      have hplace := h.placed place (List.mem_filter.mp hmem).1
      split
      · rename_i hexit
        have hstrands := strands_dumpErrors (abandon left taken)
        refine .aborts place result fault hexit hplace hresult hcause rfl ?_ ?_
          (fun other => ?_) ((errors_writeLines _ _).trans (errors_abandon left taken))
        · exact (Spent.of_abandon htaken fun _ => h.mem_left rfl).of_strands_eq hstrands
        · refine (mainRecord_dumpErrors (abandon left taken)).trans ?_
          rw [errors_abandon, mainRecord_abandon]
          rfl
        · refine (result?_of_strands_eq hstrands other).trans ?_
          exact result?_of_outline (outline?_abandon left taken other)
      · rename_i hexit
        exact h.look hqueue rfl rfl rfl (.inr (Bool.eq_false_iff.mpr hexit))
  · rename_i hfound
    exact h.look hqueue rfl rfl rfl (.inl hfound)

theorem Watched.job (h : Watched count batch pending notified) {job : Job} {rest : List Job}
    (hqueue : batch.world.queue = job :: rest) (hother : job ≠ .supervise)
    (htold : ∀ place ∈ pending, job = .announce place → notified = true) :
    Goes count batch
      { batch with world := World.perform job { batch.world with queue := rest } } := by
  let taken : World ChainResult := { batch.world with queue := rest }
  have hperforms := performs_perform job taken
  obtain ⟨jobs, hjobs⟩ := hperforms.queue
  have hkept : ∀ other ∈ batch.world.queue, other ≠ job → other ∈ (taken.perform job).queue := by
    intro other hmem hne
    rw [hqueue] at hmem
    rw [hjobs]
    exact List.mem_append_left jobs (List.mem_of_ne_of_mem hne hmem)
  refine .on pending notified ?_ job rest hqueue hperforms htold (fun heq => absurd heq hother)
    fun heq => absurd heq hother
  exact {
    supervision := h.supervision
    orderly := h.orderly.perform hqueue
    waited := h.waited
    placed := h.placed
    looked := by
      intro place hplace hout
      obtain ⟨result, hresult, hsuccess⟩ := h.looked place hplace hout
      refine ⟨result, ?_, hsuccess⟩
      rcases hperforms.announces place with hsame | ⟨hnone, -⟩
      · exact hsame.trans hresult
      · cases hnone.symm.trans hresult
    announced := by
      intro place hmem hsome
      rcases hperforms.announces place with hsame | ⟨-, hnew⟩
      · rw [hsame] at hsome
        rcases h.announced place hmem hsome with htrue | hold
        · exact .inl htrue
        · by_cases heq : job = .announce place
          · exact .inl (htold place hmem heq)
          · exact .inr (hkept _ hold (Ne.symm heq))
      · exact .inr hnew
    supervised := fun htrue => hkept _ (h.supervised htrue) (Ne.symm hother) }

theorem Watched.notify (h : Watched count batch pending false) {strand : Nat} {rest : List Job}
    (hqueue : batch.world.queue = .announce strand :: rest) :
    Goes count batch
      { batch with
          world := World.enqueue .supervise { batch.world with queue := rest }
          supervision := .watching pending true } := by
  have htaken : Orderly count { batch.world with queue := rest } := h.orderly.perform hqueue
  refine .on pending true ?_ (.announce strand) rest hqueue
    ⟨rfl, ⟨[.supervise], rfl⟩, fun _ => .inl rfl⟩ (fun _ _ _ => rfl) (fun h => by cases h)
    (fun h => by cases h)
  exact {
    supervision := rfl
    orderly := {
      length := htaken.length
      dependable := fun place hplace => (htaken.dependable place hplace).of_outline rfl
      uncancelled := htaken.uncancelled
      lawful := htaken.lawful.of_eq rfl rfl
      ready := htaken.ready.of_enqueues (.of_eq (fun _ _ => rfl) rfl)
      ownRecord := htaken.ownRecord }
    waited := h.waited
    placed := h.placed
    looked := h.looked
    announced := fun _ _ _ => .inl rfl
    supervised := fun _ => List.mem_append_right rest (List.mem_singleton_self _) }

theorem Watched.advance (h : Watched count batch pending notified)
    (hqueue : batch.world.queue = []) {next : World ChainResult}
    (hnext : batch.world.advance? = some next) : Goes count batch { batch with world := next } := by
  have hlawful : next.Lawful := h.orderly.lawful.step (.advance next hnext)
  have hready : next.Ready := h.orderly.ready.step (.advance next hnext)
  obtain ⟨due, -, heq⟩ := Option.bind_eq_some_iff.mp hnext
  obtain rfl := Option.some.inj heq
  refine .waits pending notified ?_ hqueue fun _ => rfl
  exact {
    supervision := h.supervision
    orderly := {
      length := h.orderly.length
      dependable := fun place hplace => (h.orderly.dependable place hplace).of_outline rfl
      uncancelled := h.orderly.uncancelled
      lawful := hlawful
      ready := hready
      ownRecord := h.orderly.ownRecord }
    waited := h.waited
    placed := h.placed
    looked := h.looked
    announced := fun place hmem hsome => .inl <| by
      rcases h.announced place hmem hsome with htrue | hold
      · exact htrue
      · rw [hqueue] at hold
        cases hold
    supervised := fun htrue => by
      have hsupervise := h.supervised htrue
      rw [hqueue] at hsupervise
      cases hsupervise }

/-- Every step of a watched batch. -/
theorem Watched.step (h : Watched count batch pending notified) :
    ∃ next, batch.step? = some next ∧ Goes count batch next := by
  cases hqueue : batch.world.queue with
  | nil =>
      have hnone : batch.world.takeJob? = none := by rw [World.takeJob?, hqueue]
      simp only [Batch.step?, hnone, h.supervision]
      cases hnext : batch.world.advance? with
      | some world =>
          refine ⟨_, rfl, ?_⟩
          rw [← h.supervision]
          exact h.advance hqueue hnext
      | none =>
          refine ⟨_, rfl, .stalls rfl hqueue (.of_abandon h.orderly fun place hplace hopen => ?_)
            (fun place => result?_of_outline (outline?_abandon pending batch.world place)) hnext
            (mainRecord_abandon pending batch.world)⟩
          by_contra hout
          obtain ⟨result, hresult, -⟩ := h.looked place hplace hout
          cases hopen.symm.trans hresult
  | cons job rest =>
      have htake : batch.world.takeJob? = some (job, { batch.world with queue := rest }) := by
        rw [World.takeJob?, hqueue]
      simp only [Batch.step?, htake]
      refine ⟨_, rfl, ?_⟩
      rw [Batch.perform.eq_def]
      split
      · rename_i strand pending' hwatching
        rw [h.supervision] at hwatching
        obtain ⟨rfl, rfl⟩ := Supervision.watching.inj hwatching
        split
        · exact h.notify hqueue
        · rename_i hout
          refine h.job hqueue (fun h => by cases h) fun place hmem heq => ?_
          obtain rfl := Job.announce.inj heq
          exact absurd (List.contains_iff_mem.mpr hmem) hout
      · rename_i pending' notified' hwatching
        rw [h.supervision] at hwatching
        obtain ⟨rfl, rfl⟩ := Supervision.watching.inj hwatching
        exact h.supervise hqueue
      · rename_i hannounce hsupervise
        refine h.job hqueue ?_ fun place hmem heq => ?_
        · rintro rfl
          exact hsupervise _ _ rfl h.supervision
        · subst heq
          cases notified with
          | true => rfl
          | false => exact absurd h.supervision (hannounce place pending rfl)

end Batch

end Cascade
