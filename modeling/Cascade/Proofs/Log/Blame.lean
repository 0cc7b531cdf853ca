import Cascade.Proofs.Context.Isolation
import Cascade.Proofs.Log.Voice
import Cascade.Proofs.Reading.Elements

/-!
What a failed chain is recorded as: under the name of the call that could not be read, of the command whose
initializer failed, or of the command of the step that failed. The outcome of a step carries the name of
the command of that step, and none of these names is empty.
-/

namespace Cascade

/-! ### The names of calls -/

namespace Call

theorem name_ne_empty_of_read {token : String} {call : Call} (h : read token = .ok call) :
    call.name ≠ "" := by
  have hofList : ∀ {name : List Char}, name.isEmpty ≠ true → String.ofList name ≠ "" := by
    intro name hname hempty
    rw [String.ofList_eq_empty_iff] at hempty
    exact hname (List.isEmpty_iff.mpr hempty)
  rw [read, readTrimmed] at h
  split at h
  · dsimp only at h
    split at h
    · cases h
    · split at h
      · cases h
      · rename_i hname
        obtain rfl := Except.ok.inj h
        exact hofList hname
  · split at h
    · cases h
    · rename_i hname
      obtain rfl := Except.ok.inj h
      exact hofList hname

end Call

namespace Chain

variable {registry : Registry} {element token : String} {fault : Fault}

theorem ite_name_ne_empty {name other : String} (h : other ≠ "") :
    (if name.isEmpty then other else name) ≠ "" := by
  split
  · exact h
  · rename_i hname
    exact fun hempty => hname (String.isEmpty_iff.mpr hempty)

theorem recordName_ne_empty_of_read (helement : Text.Blank.trim element.toList ≠ [])
    (h : Invocation.read registry element = .error fault) : recordName fault ≠ "" := by
  have htrimmed : String.ofList (Text.Blank.trim element.toList) ≠ "" := fun hempty =>
    helement (String.ofList_eq_empty_iff.mp hempty)
  rw [Invocation.read] at h
  cases hcall : Call.read element with
  | error first =>
      simp only [hcall, bind, Except.bind, Except.error.injEq] at h
      subst h
      rw [Call.read, Call.readTrimmed] at hcall
      split at hcall
      · dsimp only at hcall
        split at hcall
        · obtain rfl := Except.error.inj hcall
          exact ite_name_ne_empty htrimmed
        · split at hcall
          · obtain rfl := Except.error.inj hcall
            exact htrimmed
          · cases hcall
      · split at hcall
        · rename_i hempty
          exact absurd (List.isEmpty_iff.mp hempty) helement
        · cases hcall
  | ok call =>
      simp only [hcall, bind, Except.bind] at h
      split at h
      · cases h
      · obtain rfl := Except.error.inj h
        have hname := Call.name_ne_empty_of_read hcall
        rw [recordName, if_neg (fun hempty => hname (String.isEmpty_iff.mp hempty))]
        exact hname

theorem trim_ne_nil_of_mem (h : element ∈ cascadeElements token) :
    Text.Blank.trim element.toList ≠ [] := by
  have hnormal := Elements.isNormal_of_mem_cascadeElements h
  rw [hnormal.trim_eq]
  exact hnormal.toList_ne_nil

theorem recordName_ne_empty (h : (ofToken registry token).reading = .error fault) :
    recordName fault ≠ "" := by
  obtain ⟨before, element, after, earlier, helements, -, hread⟩ :=
    Invocation.exists_of_readAll_error h
  have hmem : element ∈ cascadeElements token := by
    rw [show cascadeElements token = before ++ element :: after from helements]
    exact List.mem_append_right before List.mem_cons_self
  exact recordName_ne_empty_of_read (trim_ne_nil_of_mem hmem) hread

end Chain

namespace Invocation

theorem name_ne_empty_of_read {registry : Registry} {token : String} {invocation : Invocation}
    (h : read registry token = .ok invocation) : invocation.name ≠ "" := by
  rw [read] at h
  cases hcall : Call.read token with
  | error fault => simp [hcall, bind, Except.bind] at h
  | ok call =>
      simp only [hcall, bind, Except.bind] at h
      split at h
      · rename_i command hcommand
        obtain rfl := Except.ok.inj h
        have hname : command.name = call.name := by
          simpa using List.find?_some hcommand
        rw [name, hname]
        exact Call.name_ne_empty_of_read hcall
      · cases h

theorem name_ne_empty_of_readAll {registry : Registry} {elements : List String}
    {invocations : List Invocation} (h : readAll registry elements = .ok invocations) :
    ∀ invocation ∈ invocations, invocation.name ≠ "" := by
  induction elements generalizing invocations with
  | nil =>
      cases h
      exact fun _ h => by cases h
  | cons element rest ih =>
      cases hread : read registry element with
      | error first => simp [readAll, hread, bind, Except.bind] at h
      | ok first =>
          cases hrest : readAll registry rest with
          | error fault => simp [readAll, hread, hrest, bind, Except.bind] at h
          | ok others =>
              simp only [readAll, hread, hrest, bind, Except.bind, pure, Except.pure,
                Except.ok.injEq] at h
              subst h
              exact List.forall_mem_cons.mpr ⟨name_ne_empty_of_read hread, ih hrest⟩

end Invocation

/-! ### The outcome of a step -/

namespace World

variable {α : Type} {world : World α} {place : Nat}

theorem mem_past_of_mem_record {thread : Option ThreadId} {step : Option Nat} {number : Nat}
    {command : Command} {happening : Happening}
    (h : (⟨some place, thread, step, .execution number command happening⟩ : Occurrence) ∈
      world.record) : happening ∈ world.past place number := by
  refine List.mem_filterMap.mpr ⟨_, h, ?_⟩
  exact if_pos ⟨rfl, rfl⟩

theorem Sound.command_of_yielded (h : world.Sound) {number : Nat} {cell : Cell}
    (hcell : world.cell? place number = some cell) {outcome : Outcome}
    (hyielded : .yielded outcome ∈ world.past place number) :
    outcome.command = cell.command.name := by
  have haccounts := h.accounts place number cell hcell
  exact Past.command_of_mem_attempts (haccounts.mem_attempts hyielded)

theorem IsAttested.exists_started (h : world.IsAttested) (hsound : world.Sound) {step : Option Nat}
    {outcome : Outcome} (hfinished : .finished step outcome ∈ world.deeds place) :
    ∃ command arguments, .started step command arguments ∈ world.deeds place ∧
      outcome.command = command.name := by
  obtain ⟨own, event, hmem, hdeed⟩ := exists_of_mem_deeds hfinished
  obtain ⟨number, command, rfl, rfl⟩ : ∃ number command,
      event = .execution number command (.yielded outcome) ∧ own = step := by
    cases event with
    | execution number command happening =>
        cases happening with
        | yielded given =>
            cases hdeed
            exact ⟨number, command, rfl, rfl⟩
        | called | refused => cases hdeed
        | _ => cases hdeed
    | prepared => cases hdeed
    | _ => cases hdeed
  cases h _ hmem with
  | noted _ _ _ _ _ _ origin =>
      obtain ⟨cell, hcell, hsame⟩ := Option.map_eq_some_iff.mp origin
      obtain ⟨rfl, hcaller, rfl⟩ := Prod.mk.inj hsame |>.imp id Prod.mk.inj
      obtain ⟨happening, hopening, hopened⟩ := h.exists_opening hsound hcell
      rw [hcaller] at hopened
      obtain ⟨arguments, hstarted⟩ : ∃ arguments, Event.deed? cell.step
          (.execution number cell.command happening) =
            some (.started cell.step cell.command arguments) := by
        cases happening with
        | called arguments | refused arguments => exact ⟨arguments, rfl⟩
        | _ => cases hopening
      exact ⟨cell.command, arguments, mem_deeds_of_mem_record hopened hstarted,
        hsound.command_of_yielded hcell (mem_past_of_mem_record hmem)⟩
  | other _ apart => exact absurd rfl (apart number command (.yielded outcome))

end World

/-! ### The message of a failed chain -/

namespace Chain

theorem exists_of_started_mem_blocks {invocations : List Invocation} {outcomes : List Outcome}
    {index : Nat} {command : Command} {arguments : Arguments}
    (h : .started (some index) command arguments ∈ blocks invocations outcomes) :
    ∃ invocation, invocations[index]? = some invocation ∧ command = invocation.command := by
  obtain ⟨other, invocation, outcome, hinvocation, -, heq | heq⟩ := exists_of_mem_blocks h
  · cases heq
    exact ⟨invocation, hinvocation, rfl⟩
  · cases heq

/-- The message that a failed chain adds to the error log, with the deeds of the chain that it tells
of: none if an element could not be read, or that an initializer failed, or the end of a step. -/
inductive Blames (chain : Chain) (deeds : List Deed) (result : ChainResult) : Message → Prop
  | unread (fault : Fault) (reading : chain.reading = .error fault)
      (failure : result.failure = some fault) (nothing : deeds = []) :
      Blames chain deeds result (recordName fault, fault.message)
  | unprepared (index : Nat) (invocation : Invocation) (cause : Fault)
      (reading : chain.reading = .ok result.invocations)
      (found : result.invocations[index]? = some invocation)
      (rejected : .prepared index (some cause) ∈ deeds)
      (failure : result.failure = some (.initialization invocation.name cause)) :
      Blames chain deeds result (invocation.name, cause.message)
  | failed (index : Nat) (invocation : Invocation) (outcome : Outcome) (fault : Fault)
      (reading : chain.reading = .ok result.invocations)
      (found : result.invocations[index]? = some invocation)
      (finished : .finished (some index) outcome ∈ deeds)
      (last : result.outcome = some outcome) (fails : outcome.fault? = some fault)
      (failure : result.failure = some (fault.ofCommand invocation.name)) :
      Blames chain deeds result (invocation.name, fault.message)

theorem ofCommand_ne_initialization (name command : String) (fault cause : Fault) :
    fault.ofCommand name ≠ .initialization command cause := by
  cases fault <;> exact fun h => by cases h

/-- The name of a message is never empty. -/
theorem Blames.name_ne_empty {registry : Registry} {token : String} {deeds : List Deed}
    {result : ChainResult} {message : Message}
    (h : (ofToken registry token).Blames deeds result message) : message.1 ≠ "" := by
  cases h with
  | unread fault reading => exact recordName_ne_empty reading
  | unprepared index invocation cause reading found
  | failed index invocation outcome fault reading found =>
      exact Invocation.name_ne_empty_of_readAll reading invocation (List.mem_of_getElem? found)

variable {chain : Chain} {place : Nat} {world : World ChainResult} {result : ChainResult}

theorem Phases.exists_blames (h : Phases chain place result world) (hattested : world.IsAttested)
    (hsound : world.Sound) (hsaid : chain.Complaint (.ok result) (world.voice place))
    (hfailed : result.isSuccess = false) :
    ∃ message, world.voice place = [message] ∧ chain.Blames (world.deeds place) result message := by
  generalize hvoice : world.voice place = said at hsaid
  cases hsaid with
  | succeeded _ failure => simp [ChainResult.isSuccess, failure] at hfailed
  | unread fault _ reading failure =>
      refine ⟨_, rfl, .unread fault reading failure ?_⟩
      cases h with
      | unread _ _ _ _ _ deeds => exact deeds
      | unprepared _ _ _ _ other => cases reading.symm.trans other
      | executed _ other => cases reading.symm.trans other
  | unprepared _ named cause _ reading found failure =>
      cases h with
      | unread _ other => cases reading.symm.trans other
      | unprepared before after index other _ initializers cited _ deeds =>
          have hlt : index < result.invocations.length :=
            preparing_lt (by rw [initializers]; exact List.mem_append_right _ List.mem_cons_self)
          have hfound := List.getElem?_eq_getElem hlt
          rw [hfound, failure] at cited
          obtain ⟨hname, rfl⟩ := Fault.initialization.inj (Option.some.inj cited)
          refine ⟨_, rfl, ?_⟩
          rw [hname] at failure ⊢
          refine .unprepared index _ cause reading hfound ?_ failure
          rw [deeds]
          exact List.mem_append_right _ (List.mem_singleton_self _)
      | executed outcomes _ _ _ cited =>
          rw [failure] at cited
          obtain ⟨outcome, -, hmap⟩ := Option.bind_eq_some_iff.mp cited.symm
          obtain ⟨fault, -, hfault⟩ := Option.map_eq_some_iff.mp hmap
          exact (ofCommand_ne_initialization _ _ _ _ hfault).elim
  | failed outcome fault _ reading last fails failure =>
      cases h with
      | unread _ other => cases reading.symm.trans other
      | unprepared _ _ _ _ _ _ cited =>
          rw [failure] at cited
          exact (ofCommand_ne_initialization _ _ _ _ (Option.some.inj cited)).elim
      | executed outcomes _ ran ended _ deeds =>
          obtain ⟨front, rfl⟩ := List.getLast?_eq_some_iff.mp (ended.symm.trans last)
          have hlt : front.length < result.invocations.length := by
            have hlength := ran.length
            rw [List.length_append, List.length_singleton] at hlength
            exact hlength
          have hfound := List.getElem?_eq_getElem hlt
          have hfinished : .finished (some front.length) outcome ∈ world.deeds place := by
            rw [deeds, blocks_append hfound]
            simp
          obtain ⟨command, arguments, hstarted, hcommand⟩ :=
            hattested.exists_started hsound hfinished
          rw [deeds] at hstarted
          have hblock : .started (some front.length) command arguments ∈
              blocks result.invocations (front ++ [outcome]) :=
            (List.mem_append.mp hstarted).resolve_left fun hprepared => by
              obtain ⟨_, -, heq⟩ := List.mem_map.mp hprepared
              cases heq
          obtain ⟨invocation, hinvocation, rfl⟩ := exists_of_started_mem_blocks hblock
          have hname : outcome.command = invocation.name := hcommand
          refine ⟨_, rfl, ?_⟩
          rw [hname] at failure ⊢
          exact .failed front.length invocation outcome fault reading hinvocation hfinished last
            fails failure

end Chain

end Cascade
