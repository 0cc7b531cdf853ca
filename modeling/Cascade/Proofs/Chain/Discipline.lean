import Cascade.Proofs.Chain.Phases
import Cascade.Proofs.Execution.FirstOutcome

/-!
The discipline of a chain, whatever its commands do and however its turns and those of other chains
alternate: no step of a run takes a chain out of its phases, so a chain that has ended went through
them.
-/

namespace Cascade

theorem Batch.result?_eq_outline (world : World ChainResult) (place : Nat) :
    result? world place = (world.outline? place).bind fun outline => outline.2.result? := by
  rw [result?, World.outline?, World.shape?]
  cases world.strand? place with
  | none => rfl
  | some current =>
      rcases current with ⟨_, _, ⟨_, _, _, _ | _ | _⟩, _, _⟩ <;> rfl

namespace Chain

variable {chain : Chain} {place : Nat} {world next : World ChainResult}

/-! ### One step -/

theorem InPhase.of_sameShape (h : InPhase chain place world) (hshape : World.SameShape world next)
    (htold : World.Adds (fun occurrence => occurrence.thread = none) world next)
    (hkeeps : World.Keeps world next) : InPhase chain place next := by
  have hsame := congrFun hshape place
  refine h.of_eq ?_ ?_ hkeeps fun hbare => hbare.of_shape hsame
  · rw [World.outline?, hsame, World.outline?]
  · exact World.deeds_of_adds
      (htold.mono fun occurrence hnone => occurrence.deed?_eq_none_of_thread hnone place)

theorem IsBare.resume_child (h : IsBare place world) (number : Nat) :
    world.resume place (.child number) = world := by
  obtain ⟨shape, hshape, hnone, -⟩ := h
  obtain ⟨current, hstrand, rfl⟩ := Option.map_eq_some_iff.mp hshape
  have hempty : current.children = [] := List.map_eq_nil_iff.mp hnone
  simp [World.resume, hstrand, hempty]

theorem InPhase.resume_other (h : InPhase chain place world) {strand : Nat} {thread : ThreadId}
    (hne : ¬ (strand = place ∧ thread = .root)) :
    InPhase chain place (world.resume strand thread) := by
  have hdeeds : (world.resume strand thread).deeds place = world.deeds place :=
    World.deeds_of_adds ((world.within_resume strand thread).mono fun _ h => h.deed?_eq_none hne)
  have hkeeps := world.keeps_resume strand thread
  cases thread with
  | root =>
      have hplace : place ≠ strand := fun heq => hne ⟨heq.symm, rfl⟩
      have hsame := World.shape?_resume_root hplace world
      refine h.of_eq ?_ hdeeds hkeeps fun hbare => hbare.of_shape hsame
      rw [World.outline?, hsame, World.outline?]
  | child number =>
      have hinside := world.inside_resume_child strand number
      refine h.of_eq (hinside.outline place) hdeeds hkeeps fun hbare => ?_
      by_cases hplace : place = strand
      · subst hplace
        rw [hbare.resume_child number]
        exact hbare
      · exact hbare.of_shape (hinside.others place hplace)

theorem InPhase.perform (h : InPhase chain place world) (job : Job) :
    InPhase chain place (world.perform job) := by
  cases job with
  | resume strand thread =>
      by_cases hroot : strand = place ∧ thread = .root
      · obtain ⟨rfl, rfl⟩ := hroot
        exact h.resume_root
      · exact h.resume_other hroot
  | fire strand goal =>
      exact h.of_sameShape (World.sameShape_fire ..)
        ((World.told_fire ..).mono fun _ told => told.2) (World.frame_fire ..).keeps
  | deliver strand child =>
      exact h.of_sameShape (World.sameShape_deliver ..)
        ((World.told_deliver ..).mono fun _ told => told.2) (World.frame_deliver ..).keeps
  | announce | supervise => exact h

theorem InPhase.step (h : InPhase chain place world) (hstep : World.Step world next) :
    InPhase chain place next := by
  cases hstep with
  | perform before after job hqueue =>
      have htaken : InPhase chain place { world with queue := before ++ after } :=
        h.of_sameShape (.of_strands_eq rfl) (.of_record_eq rfl) (.of_eq fun _ _ => rfl)
      exact htaken.perform job
  | advance next hnext =>
      obtain ⟨due, -, heq⟩ := Option.bind_eq_some_iff.mp hnext
      obtain rfl := Option.some.inj heq
      exact h.of_sameShape (.of_strands_eq rfl) (.of_record_eq rfl) (.of_eq fun _ _ => rfl)
  | cancel strand thread =>
      exact h.of_sameShape (World.sameShape_cancel ..)
        (World.adds_cancel (fun _ _ => rfl) thread world) (World.frame_cancel ..).keeps
  | print item =>
      refine h.of_sameShape (.of_strands_eq rfl) (World.adds_write ?_ world)
        (.of_eq fun _ _ => rfl)
      rfl
  | notify =>
      exact h.of_sameShape (.of_strands_eq rfl) (.of_record_eq rfl) (.of_eq fun _ _ => rfl)
  | complete strand number result =>
      exact h.of_sameShape (World.sameShape_complete ..)
        ((World.told_fire strand (.complete number result) world).mono fun _ told => told.2)
        (World.frame_complete ..).keeps

/-! ### Whole runs -/

theorem InPhase.start {surroundings : Surroundings} {calls : Entries Nat}
    {programs : List (List Invocation × Routine ChainResult)}
    (h : programs[place]? = some (chain.invocations, chain.routine)) :
    InPhase chain place (World.start surroundings calls
      (programs.map fun program => Strand.start program.1 program.2)) := by
  have hstrand : (World.start surroundings calls
      (programs.map fun program => Strand.start program.1 program.2)).strand? place =
        some (Strand.start chain.invocations chain.routine) := by
    simp [World.strand?, World.start, h]
  let first := Strand.start chain.invocations chain.routine
  have hshape : (World.start surroundings calls
      (programs.map fun program => Strand.start program.1 program.2)).shape? place =
        some first.shape := by
    rw [World.shape?, hstrand]
    rfl
  refine ⟨first.root.calm, ?_, Or.inl ⟨rfl, rfl, first.shape, hshape, rfl, rfl⟩⟩
  rw [World.outline?, hshape]
  rfl

theorem InPhase.reaches (h : InPhase chain place world) (hreach : World.Reaches world next) :
    InPhase chain place next := by
  induction hreach with
  | refl => exact h
  | tail _ hstep ih => exact ih.step hstep

theorem InPhase.phases (h : InPhase chain place world) {result : ChainResult}
    (hresult : Batch.result? world place = some (.ok result)) :
    Phases chain place result world := by
  obtain ⟨thread, hthread, hstage⟩ := h
  rw [Batch.result?_eq_outline, hthread, Option.bind_some] at hresult
  rcases thread with ⟨step, cell, delivers, _ | _ | ended⟩ <;> cases hresult
  exact hstage

/-! ### The discipline -/

/-- What holds of a chain that ended with a result. The deeds are those of the chain's own thread, in
the order of time: the initializers that were run, and the steps that were started and finished. -/
structure Discipline (registry : Registry) (token : String) (place : Nat) (result : ChainResult)
    (world : World ChainResult) : Prop where
  /-- If an element cannot be read, then the failure is that of the first such element, and nothing of
  the chain was called. -/
  unread : ∀ fault, Invocation.readChain registry token = .error fault →
    (∃ before element after earlier, cascadeElements token = before ++ element :: after ∧
        Invocation.readAll registry before = .ok earlier ∧
        Invocation.read registry element = .error fault) ∧
      result.failure = some fault ∧ result.invocations = [] ∧ result.outcome = none ∧
      world.deeds place = [] ∧ ∀ number, world.past place number = []
  /-- Otherwise the invocations are what was read. -/
  read : ∀ invocations, Invocation.readChain registry token = .ok invocations →
    result.invocations = invocations
  /-- The initializers are run in their order. Either one of them fails, and it is the last one and no
  command was called, or all are run, and then the steps are executed in their order up to the first
  that fails. -/
  phases : ∀ invocations, Invocation.readChain registry token = .ok invocations →
    (∃ before after index invocation cause, preparing invocations = before ++ index :: after ∧
        invocations[index]? = some invocation ∧
        result.failure = some (.initialization invocation.name cause) ∧ result.outcome = none ∧
        world.deeds place = before.map (.prepared · none) ++ [.prepared index (some cause)] ∧
        ∀ number, world.past place number = []) ∨
      ∃ outcomes, Ran invocations outcomes ∧ result.outcome = outcomes.getLast? ∧
        result.outcome ≠ none ∧
        result.failure = (result.outcome.bind fun outcome =>
          outcome.fault?.map (Fault.ofCommand outcome.command)) ∧
        world.deeds place = (preparing invocations).map (.prepared · none) ++
          blocks invocations outcomes
  /-- The chain succeeded exactly if its outcome is there and is a success. -/
  success : result.isSuccess = true ↔
    ∃ outcome, result.outcome = some outcome ∧ outcome.isSuccess = true
  /-- Then every element was executed, and with success. -/
  complete : result.isSuccess = true → ∃ outcomes,
    outcomes.length = (cascadeElements token).length ∧
      result.invocations.length = (cascadeElements token).length ∧
      (∀ outcome ∈ outcomes, outcome.isSuccess = true) ∧
      world.deeds place = (preparing result.invocations).map (.prepared · none) ++
        blocks result.invocations outcomes

end Chain

namespace Invocation

theorem exists_of_readAll_error {registry : Registry} {elements : List String} {fault : Fault}
    (h : readAll registry elements = .error fault) :
    ∃ before element after earlier, elements = before ++ element :: after ∧
      readAll registry before = .ok earlier ∧ read registry element = .error fault := by
  induction elements with
  | nil => cases h
  | cons element rest ih =>
      cases hread : read registry element with
      | error first =>
          simp only [readAll, hread, bind, Except.bind, Except.error.injEq] at h
          subst h
          exact ⟨[], element, rest, [], rfl, rfl, hread⟩
      | ok invocation =>
          cases hrest : readAll registry rest with
          | ok invocations =>
              simp [readAll, hread, hrest, bind, Except.bind, pure, Except.pure] at h
          | error first =>
              simp only [readAll, hread, hrest, bind, Except.bind, Except.error.injEq] at h
              subst h
              obtain ⟨before, bad, after, earlier, rfl, hbefore, hbad⟩ := ih hrest
              refine ⟨element :: before, bad, after, invocation :: earlier, rfl, ?_, hbad⟩
              simp [readAll, hread, hbefore, bind, Except.bind, pure, Except.pure]

theorem length_of_readAll {registry : Registry} {elements : List String}
    {invocations : List Invocation} (h : readAll registry elements = .ok invocations) :
    invocations.length = elements.length := by
  induction elements generalizing invocations with
  | nil =>
      cases h
      rfl
  | cons element rest ih =>
      cases hread : read registry element with
      | error first => simp [readAll, hread, bind, Except.bind] at h
      | ok invocation =>
          cases hrest : readAll registry rest with
          | error first => simp [readAll, hread, hrest, bind, Except.bind] at h
          | ok others =>
              simp only [readAll, hread, hrest, bind, Except.bind, pure, Except.pure,
                Except.ok.injEq] at h
              subst h
              simp [ih hrest]

end Invocation

namespace Chain

variable {place : Nat} {world : World ChainResult}

theorem past_eq_nil_of_isBare (h : IsBare place world) (hlawful : world.Lawful) (number : Nat) :
    world.past place number = [] := by
  refine hlawful.sound.unopened place number ?_
  obtain ⟨shape, hshape, -, hnone⟩ := h
  obtain ⟨current, hstrand, rfl⟩ := Option.map_eq_some_iff.mp hshape
  have hempty : current.cells = [] := List.map_eq_nil_iff.mp hnone
  simp [World.cell?, hstrand, hempty]

theorem Ran.ne_nil {invocations : List Invocation} {outcomes : List Outcome}
    (h : Ran invocations outcomes) (hne : invocations ≠ []) : outcomes ≠ [] := by
  rintro rfl
  rcases h.ended with hlength | ⟨outcome, hlast, -⟩
  · exact hne (List.eq_nil_of_length_eq_zero hlength.symm)
  · cases hlast

theorem Ran.of_success {invocations : List Invocation} {outcomes : List Outcome}
    (h : Ran invocations outcomes) {last : Outcome} (hlast : outcomes.getLast? = some last)
    (hsuccess : last.isSuccess = true) :
    outcomes.length = invocations.length ∧ ∀ outcome ∈ outcomes, outcome.isSuccess = true := by
  refine ⟨?_, ?_⟩
  · rcases h.ended with hlength | ⟨outcome, hother, hfailed⟩
    · exact hlength
    · rw [hlast, Option.some.injEq] at hother
      rw [← hother, hsuccess] at hfailed
      cases hfailed
  · obtain ⟨front, rfl⟩ := List.getLast?_eq_some_iff.mp hlast
    have hfront := h.succeeded
    rw [List.dropLast_concat] at hfront
    intro outcome hmem
    rcases List.mem_append.mp hmem with hold | hnew
    · exact hfront outcome hold
    · rw [List.mem_singleton.mp hnew, hsuccess]

theorem preparing_lt {invocations : List Invocation} {index : Nat}
    (h : index ∈ preparing invocations) : index < invocations.length :=
  List.mem_range.mp (List.mem_filter.mp h).1

/-- Every chain that ended with a result went through its phases in order, in every run and whatever
its commands and initializers do. -/
theorem discipline_of_result {surroundings : Surroundings} {calls : Entries Nat}
    {programs : List (List Invocation × Routine ChainResult)} {registry : Registry}
    {token : String} (hsome : cascadeElements token ≠ [])
    (hprogram : programs[place]? =
      some ((ofToken registry token).invocations, (ofToken registry token).routine))
    (hreach : World.Reaches (World.start surroundings calls
      (programs.map fun program => Strand.start program.1 program.2)) world)
    {result : ChainResult} (hresult : Batch.result? world place = some (.ok result)) :
    Discipline registry token place result world := by
  have hphases := ((InPhase.start hprogram).reaches hreach).phases hresult
  have hlawful : world.Lawful := by
    refine (World.Lawful.start surroundings calls ?_).reaches hreach
    intro strand hstrand
    obtain ⟨program, -, rfl⟩ := List.mem_map.mp hstrand
    exact ⟨rfl, rfl, program.2, rfl⟩
  have hempty : ∀ {invocations}, Invocation.readChain registry token = .ok invocations →
      invocations ≠ [] := by
    rintro _ hread rfl
    have hlength := Invocation.length_of_readAll hread
    exact hsome (List.eq_nil_of_length_eq_zero hlength.symm)
  cases hphases with
  | unread fault reading failure invocations outcome deeds bare =>
      have hreading : Invocation.readChain registry token = .error fault := reading
      exact {
        unread := by
          intro other hother
          obtain rfl : fault = other := Except.error.inj (hreading.symm.trans hother)
          exact ⟨Invocation.exists_of_readAll_error hother, failure, invocations, outcome, deeds,
            past_eq_nil_of_isBare bare hlawful⟩
        read := fun _ hread => by cases hreading.symm.trans hread
        phases := fun _ hread => by cases hreading.symm.trans hread
        success := by simp [ChainResult.isSuccess, failure, outcome]
        complete := by simp [ChainResult.isSuccess, failure] }
  | unprepared before after index cause reading initializers failure outcome deeds bare =>
      have hreading : Invocation.readChain registry token = .ok result.invocations := reading
      exact {
        unread := fun _ hread => by cases hreading.symm.trans hread
        read := fun _ hread => Except.ok.inj (hreading.symm.trans hread)
        phases := by
          intro invocations hread
          obtain rfl := Except.ok.inj (hreading.symm.trans hread)
          have hlt : index < result.invocations.length :=
            preparing_lt (by rw [initializers]; simp)
          have hinvocation := List.getElem?_eq_getElem hlt
          refine .inl ⟨before, after, index, _, cause, initializers, hinvocation, ?_, outcome,
            deeds, past_eq_nil_of_isBare bare hlawful⟩
          rw [failure, hinvocation]
          rfl
        success := by simp [ChainResult.isSuccess, failure, outcome]
        complete := by simp [ChainResult.isSuccess, failure] }
  | executed outcomes reading ran outcome failure deeds =>
      have hreading : Invocation.readChain registry token = .ok result.invocations := reading
      obtain ⟨last, hlast⟩ : ∃ last, outcomes.getLast? = some last :=
        ⟨_, List.getLast?_eq_some_getLast (ran.ne_nil (hempty hreading))⟩
      rw [hlast] at outcome
      have hsuccess : result.isSuccess = last.isSuccess := by
        rw [ChainResult.isSuccess, failure, outcome, Option.bind_some, Option.isNone_map]
        rfl
      exact {
        unread := fun _ hread => by cases hreading.symm.trans hread
        read := fun _ hread => Except.ok.inj (hreading.symm.trans hread)
        phases := by
          intro invocations hread
          obtain rfl := Except.ok.inj (hreading.symm.trans hread)
          refine .inr ⟨outcomes, ran, outcome.trans hlast.symm, ?_, failure, deeds⟩
          rw [outcome]
          exact Option.some_ne_none last
        success := by simp [hsuccess, outcome]
        complete := by
          intro hok
          rw [hsuccess] at hok
          obtain ⟨hall, hsucceeded⟩ := ran.of_success hlast hok
          have hlength := Invocation.length_of_readAll hreading
          exact ⟨outcomes, hall.trans hlength, hlength, hsucceeded, deeds⟩ }

def hastyRegistry : Registry :=
  ⟨[hastyCommand], []⟩

/-- A batch of one chain with two elements, after its turn. -/
def hastyBatch : Batch :=
  (Batch.start ⟨hastyRegistry, false, "", false, .empty⟩ false []
    [ofToken hastyRegistry "hasty * hasty"]).settle 1

theorem hastyBatch_discipline : ∃ result, Batch.result? hastyBatch.world 0 = some (.ok result) ∧
    cascadeElements "hasty * hasty" = ["hasty", "hasty"] ∧
    Discipline hastyRegistry "hasty * hasty" 0 result hastyBatch.world := by
  let chain := ofToken hastyRegistry "hasty * hasty"
  have hreach : World.Reaches (World.start ⟨hastyRegistry, false, "", false, .empty⟩ []
      ([(chain.invocations, chain.routine)].map fun program => Strand.start program.1 program.2))
      hastyBatch.world :=
    (Batch.reaches_start _ false [] [chain]).trans (Batch.reaches_settle 1 _)
  have helements : cascadeElements "hasty * hasty" = ["hasty", "hasty"] := rfl
  exact ⟨_, rfl, helements,
    discipline_of_result (by rw [helements]; exact List.cons_ne_nil _ _) rfl hreach rfl⟩

end Chain

end Cascade
