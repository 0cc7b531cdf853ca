import Cascade.Proofs.Siblings.Finish
import Mathlib.Data.List.Forall2
import Mathlib.Data.List.Perm.Basic
import Mathlib.Data.Nat.Find

/-!
The independence of chains that share nothing. In a batch that goes on after failures each chain comes
to the result that it comes to alone, at the end of which it has shown what it shows alone. So the
results of a batch in another order are the same results in that order. Code that a chain has left
running may show more after the end of the chain, for as long as its siblings take.
-/

namespace Cascade

namespace World

/-- What a run has shown of one strand. -/
def shownIn {α : Type} (place : Nat) (world : World α) : List Item :=
  (world.shown.filter fun entry => entry.1 = some place).map Prod.snd

theorem shownIn_eq {α : Type} (place : Nat) (world : World α) :
    world.shownIn place = (world.record.filter fun occurrence =>
      occurrence.strand = some place).reverse.flatMap fun occurrence =>
        occurrence.event.shown world.surroundings.silent := by
  rw [shownIn, shown, shownItems, ← List.filter_reverse]
  induction world.record.reverse with
  | nil => rfl
  | cons occurrence rest ih =>
      rw [List.flatMap_cons, List.filter_append, List.map_append, ih]
      by_cases h : occurrence.strand = some place
      · simp [h, List.filter_map, Function.comp_def]
      · simp [h, List.filter_map, Function.comp_def]

theorem Matches.shownIn_eq {α : Type} {place : Nat} {world lone : World α}
    (h : Matches place world lone) : world.shownIn place = lone.shownIn 0 := by
  have hsurroundings : (world.view place).surroundings = lone.surroundings := by rw [h.view]
  have hsilent : world.surroundings = lone.surroundings := hsurroundings
  have hrecord : ((world.record.filter fun occurrence => occurrence.strand = some place).map
      fun occurrence => { occurrence with strand := some 0 }) = lone.record :=
    congrArg World.record h.view
  have hall : ∀ occurrence ∈ lone.record, decide (occurrence.strand = some 0) = true := by
    intro occurrence hmem
    rw [← hrecord] at hmem
    obtain ⟨own, -, rfl⟩ := List.mem_map.mp hmem
    rfl
  rw [World.shownIn_eq, World.shownIn_eq, List.filter_eq_self.mpr hall, ← hrecord, hsilent,
    ← List.map_reverse, List.flatMap_map]

end World

/-- The results that a batch has ended with. -/
def Supervision.results? : Supervision → Option (List ChainResult)
  | .ended (.ok results) => some results
  | _ => none

theorem Supervision.exists_of_isSome {supervision : Supervision}
    (h : supervision.results?.isSome = true) : ∃ results, supervision = .ended (.ok results) := by
  rcases supervision with _ | (fault | results) | _
  · cases h
  · cases h
  · exact ⟨results, rfl⟩
  · cases h

namespace Batch

open World

variable {starts : List (World ChainResult)} {start lone : World ChainResult} {batch : Batch}
  {place steps last : Nat} {result : ChainResult} {results : List ChainResult}

/-! ### The end of a chain -/

/-- The step at which a chain of a batch ends with a result. -/
structure EndsAt (batch : Batch) (place steps : Nat) (result : ChainResult) : Prop where
  ended : result? (batch.settle steps).world place = some (.ok result)
  before : ∀ earlier < steps, result? (batch.settle earlier).world place = none

/-- A chain alone goes over to its end with a result. -/
structure Closes (start lone : World ChainResult) (result : ChainResult) : Prop where
  before : ∃ middle, Leads start middle ∧ middle.next? = some lone ∧ result? middle 0 = none
  ended : result? lone 0 = some (.ok result)

theorem Closes.unique {other : World ChainResult} {another : ChainResult} (hview : start.view 0 = start)
    (h : Closes start lone result) (k : Closes start other another) : lone = other := by
  obtain ⟨first, hfirst, hlone, hopen⟩ := h.before
  obtain ⟨second, hsecond, hother, hwaiting⟩ := k.before
  -- Whoever is further on would have passed the end of the other one.
  have hpassed : ∀ {before behind after : World ChainResult} {ending : ChainResult},
      Leads start before → before.next? = some behind → result? behind 0 = some (.ok ending) →
        Leads before after → result? after 0 = none → before = after := by
    intro before behind after ending hbefore hbehind hended hleads hnone
    rcases hleads.cases_head with heq | ⟨next, hnext, hrest⟩
    · exact heq
    · obtain rfl := Option.some.inj (hbehind.symm.trans hnext)
      have hleads : Leads start behind := hbefore.tail hbehind
      have hextends := (Leads.extends hrest (hleads.extends hview).2).1
      cases (hextends.result _ hended).symm.trans hnone
  have hsame : first = second := by
    rcases hfirst.total hsecond with hleads | hleads
    · exact hpassed hfirst hlone h.ended hleads hwaiting
    · exact (hpassed hsecond hother k.ended hleads hopen).symm
  exact Option.some.inj (hlone.symm.trans (hsame ▸ hother))

theorem Abreast.matches_step (h : Abreast starts batch.world) (hmatches : Matches place batch.world lone)
    {next : Batch} (hstep : batch.step? = some next) (hstalled : next.supervision ≠ .stalled)
    (hraised : ∀ fault, next.supervision ≠ .ended (.error fault)) :
    Matches place next.world lone ∨
      ∃ later, lone.next? = some later ∧ Matches place next.world later := by
  rcases step?_views hstep hstalled hraised with ⟨job, rest, hqueue, hviews⟩ | ⟨hqueue, hadvance⟩
  · by_cases hjob : job.strand? = some place
    · obtain ⟨later, hlater, hnext⟩ := hmatches.perform h.secluded hqueue hjob
      exact .inr ⟨later, hlater, hnext.congr (hviews place)⟩
    · exact .inl ((hmatches.perform_of_ne h.secluded hqueue hjob).congr (hviews place))
  · rcases hmatches.advance h.secluded hqueue hadvance with ⟨later, hlater, hnext⟩ | ⟨-, hnext⟩
    · exact .inr ⟨later, hlater, hnext⟩
    · exact .inl hnext

theorem Proceeds.abreast_of_le (h : ∀ steps, Proceeds starts (batch.settle steps))
    (hended : (batch.settle last).supervision = .ended (.ok results)) (hle : steps ≤ last) :
    Abreast starts (batch.settle steps).world ∧ (batch.settle steps).supervision ≠ .stalled ∧
      ∀ fault, (batch.settle steps).supervision ≠ .ended (.error fault) := by
  cases h steps with
  | watched pending notified watched abreast =>
      refine ⟨abreast, fun h => ?_, fun _ h => ?_⟩ <;> cases watched.supervision.symm.trans h
  | returned others ended length each abreast =>
      refine ⟨abreast, fun h => ?_, fun _ h => ?_⟩ <;> cases ended.symm.trans h
  | stalled ended =>
      have hstays := supervision_settle_add (fun _ _ h => by cases h) ended (last - steps)
      rw [Nat.add_sub_cancel' hle] at hstays
      cases hstays.symm.trans hended

theorem EndsAt.closes (h : ∀ steps, Proceeds starts (batch.settle steps))
    (hended : (batch.settle last).supervision = .ended (.ok results)) (hle : steps ≤ last)
    (hstart : starts[place]? = some start) (hopen : result? (batch.settle 0).world place = none)
    (hends : EndsAt batch place steps result) :
    ∃ lone, Closes start lone result ∧ Matches place (batch.settle steps).world lone := by
  cases steps with
  | zero => cases hopen.symm.trans hends.ended
  | succ steps =>
      obtain ⟨habreast, -, -⟩ := Proceeds.abreast_of_le h hended (Nat.le_of_succ_le hle)
      obtain ⟨-, hstalled, hraised⟩ := Proceeds.abreast_of_le h hended hle
      obtain ⟨lone, hleads, hmatches⟩ := habreast.follows place start hstart
      have hnone := hends.before steps (Nat.lt_succ_self steps)
      have hresult := hends.ended
      cases hstep : (batch.settle steps).step? with
      | none =>
          rw [settle_succ, hstep] at hresult
          cases hnone.symm.trans hresult
      | some next =>
          rw [settle_succ, hstep] at hstalled hraised hresult ⊢
          rw [result?_of_matches hmatches] at hnone
          rcases habreast.matches_step hmatches hstep hstalled hraised with hstays |
            ⟨later, hlater, hnext⟩
          · cases hnone.symm.trans ((result?_of_matches hstays).symm.trans hresult)
          · exact ⟨later, ⟨⟨lone, hleads, hlater, hnone⟩,
              (result?_of_matches hnext).symm.trans hresult⟩, hnext⟩

theorem exists_endsAt (h : ∀ steps, Proceeds starts (batch.settle steps))
    (hended : (batch.settle last).supervision = .ended (.ok results))
    (hstart : starts[place]? = some start) (hview : start.view 0 = start)
    (hresult : result? (batch.settle last).world place = some (.ok result)) :
    ∃ steps ≤ last, EndsAt batch place steps result := by
  have hex : ∃ steps, (result? (batch.settle steps).world place).isSome := ⟨last, by simp [hresult]⟩
  classical
  let first := Nat.find hex
  have hle : first ≤ last := Nat.find_min' hex (by simp [hresult])
  obtain ⟨other, hother⟩ := Option.isSome_iff_exists.mp (Nat.find_spec hex)
  refine ⟨first, hle, ?_, fun earlier hlt => ?_⟩
  · obtain ⟨habreast, -, -⟩ := Proceeds.abreast_of_le h hended hle
    obtain ⟨hlast, -, -⟩ := Proceeds.abreast_of_le h hended (Nat.le_refl last)
    obtain ⟨lone, hleads, hmatches⟩ := habreast.follows place start hstart
    obtain ⟨final, hfinal, hends⟩ := hlast.follows place start hstart
    have hfirst : result? lone 0 = some other := (result?_of_matches hmatches).symm.trans hother
    have hfinish : result? final 0 = some (.ok result) :=
      (result?_of_matches hends).symm.trans hresult
    have hsame : other = .ok result := by
      rcases hleads.total hfinal with hgoes | hgoes
      · have hlater := (hgoes.extends (hleads.extends hview).2).1.result _ hfirst
        exact Option.some.inj (hlater.symm.trans hfinish)
      · have hlater := (hgoes.extends (hfinal.extends hview).2).1.result _ hfinish
        exact Option.some.inj (hfirst.symm.trans hlater)
    rw [hother, hsame]
  · have hnone := Nat.find_min hex hlt
    simpa using hnone

theorem Proceeds.closes (h : ∀ steps, Proceeds starts (batch.settle steps))
    (hended : (batch.settle last).supervision = .ended (.ok results))
    (hstart : starts[place]? = some start) (hview : start.view 0 = start)
    (hopen : result? (batch.settle 0).world place = none) :
    results.length = starts.length ∧ ∃ result steps lone, results[place]? = some result ∧
      EndsAt batch place steps result ∧ Closes start lone result ∧
      (batch.settle steps).world.shownIn place = lone.shownIn 0 := by
  cases h last with
  | watched pending notified watched => cases watched.supervision.symm.trans hended
  | stalled stalled => cases stalled.symm.trans hended
  | returned others ended length each =>
      cases ended.symm.trans hended
      have hlt : place < results.length := length.symm ▸ (List.getElem?_eq_some_iff.mp hstart).1
      have hget := List.getElem?_eq_getElem hlt
      obtain ⟨steps, hle, hends⟩ := exists_endsAt h ended hstart hview (each place _ hget)
      obtain ⟨lone, hcloses, hmatches⟩ := hends.closes h ended hle hstart hopen
      exact ⟨length, results[place], steps, lone, hget, hends, hcloses, hmatches.shownIn_eq⟩

/-! ### Batches of tokens -/

/-- The chains of tokens side by side, at their start; the batch goes on after failures. -/
def ofTokens (surroundings : Surroundings) (calls : Entries Nat) (tokens : List String) : Batch :=
  Batch.start surroundings false calls (Engine.chainsOf surroundings.registry tokens)

def cascades (tokens : List String) : List String :=
  tokens.filter fun token => !(cascadeElements token).isEmpty

def GivesAlone (surroundings : Surroundings) (calls : Entries Nat) (token : String)
    (result : ChainResult) : Prop :=
  ∃ last, ((ofTokens surroundings calls [token]).settle last).supervision = .ended (.ok [result])

/-- The chain of a token in a batch comes to the result that it comes to alone, and until then it has
shown the same. -/
structure EndsAsAlone (surroundings : Surroundings) (calls : Entries Nat) (tokens : List String)
    (place : Nat) (token : String) (result : ChainResult) : Prop where
  gives : GivesAlone surroundings calls token result
  shown : ∃ there here, EndsAt (ofTokens surroundings calls tokens) place there result ∧
    EndsAt (ofTokens surroundings calls [token]) 0 here result ∧
    ((ofTokens surroundings calls tokens).settle there).world.shownIn place =
      ((ofTokens surroundings calls [token]).settle here).world.shownIn 0

/-- What holds of the results of a batch that goes on after failures. -/
structure Independent (surroundings : Surroundings) (calls : Entries Nat) (tokens : List String)
    (results : List ChainResult) : Prop where
  /-- There is one result for each token that has an element. -/
  length : results.length = (cascades tokens).length
  /-- It is the result of the token of its place, and that of the token alone. -/
  each : ∀ place token, (cascades tokens)[place]? = some token → ∃ result,
    results[place]? = some result ∧ EndsAsAlone surroundings calls tokens place token result
  /-- The same tokens in another order have the same results in another order. -/
  permuted : ∀ others, others.Perm tokens → ∀ steps otherResults,
    ((ofTokens surroundings calls others).settle steps).supervision = .ended (.ok otherResults) →
      otherResults.Perm results

variable {surroundings : Surroundings} {calls : Entries Nat} {tokens : List String}

theorem chainsOf_eq (registry : Registry) (tokens : List String) :
    Engine.chainsOf registry tokens = (cascades tokens).map (Chain.ofToken registry) :=
  rfl

theorem proceeds_ofTokens (calls : Entries Nat) (tokens : List String)
    (hisolated : ∀ command ∈ surroundings.registry.commands, command.IsIsolated)
    (hordinary : ∀ command ∈ surroundings.registry.commands, command.IsOrdinary) (steps : Nat) :
    Proceeds ((Engine.chainsOf surroundings.registry tokens).map (Chain.alone surroundings))
      ((ofTokens surroundings calls tokens).settle steps) :=
  (Proceeds.start surroundings calls hisolated
    (fun _ hchain => Engine.command_mem_of_chainsOf hchain) hordinary).settle
      (exitOnError_start ..) steps

theorem result?_ofTokens (tokens : List String) (place : Nat) :
    result? ((ofTokens surroundings calls tokens).settle 0).world place = none := by
  have hstart : ∀ chains : List Chain, result? (World.start surroundings calls
      (chains.map fun chain => Strand.start chain.invocations chain.routine)) place = none := by
    intro chains
    rw [result?, World.strand?, World.start, List.getElem?_map]
    cases chains[place]? <;> rfl
  simp only [settle, ofTokens, Batch.start]
  split
  · exact (result?_of_strands_eq (strands_dumpErrors _) place).trans (hstart _)
  · exact hstart _

theorem exists_returned_alone (calls : Entries Nat) {token : String} (htoken : cascadeElements token ≠ [])
    (hisolated : ∀ command ∈ surroundings.registry.commands, command.IsIsolated)
    (hordinary : ∀ command ∈ surroundings.registry.commands, command.IsOrdinary)
    (hcloses : Closes ((Chain.ofToken surroundings.registry token).alone surroundings) lone
      result) : ∃ last results, ((ofTokens surroundings calls [token]).settle last).supervision =
        .ended (.ok results) := by
  let chain := Chain.ofToken surroundings.registry token
  have hchains : Engine.chainsOf surroundings.registry [token] = [chain] := by
    simp [Engine.chainsOf, htoken, chain]
  have hcommands : ∀ other ∈ [chain], ∀ invocation ∈ other.invocations,
      invocation.command ∈ surroundings.registry.commands := by
    intro other hmem
    rw [← hchains] at hmem
    exact Engine.command_mem_of_chainsOf hmem
  have hwatched := Watched.start surroundings false calls (List.cons_ne_nil chain [])
    fun other hmem invocation hinvocation => hordinary _ (hcommands other hmem _ hinvocation)
  have hchain : ∀ other ∈ [chain], ∀ invocation ∈ other.invocations,
      invocation.command.IsIsolated :=
    fun other hmem invocation hinvocation => hisolated _ (hcommands other hmem _ hinvocation)
  have habreast := Abreast.start surroundings calls hisolated hchain
  obtain ⟨middle, hleads, hlone, -⟩ := hcloses.before
  rw [ofTokens, hchains]
  refine hwatched.exists_returned habreast rfl (.of_view_eq ?_) (hleads.tail hlone) ?_
  · exact view_alone surroundings chain
  · rw [hcloses.ended]
    rfl

theorem rightUnique_givesAlone : Relator.RightUnique (GivesAlone surroundings calls) := by
  rintro token result other ⟨first, h⟩ ⟨second, k⟩
  have hfirst := supervision_settle_add (fun _ _ h => by cases h) h second
  have hsecond := supervision_settle_add (fun _ _ h => by cases h) k first
  rw [Nat.add_comm] at hsecond
  cases hfirst.symm.trans hsecond
  rfl

theorem length_of_returned
    (hisolated : ∀ command ∈ surroundings.registry.commands, command.IsIsolated)
    (hordinary : ∀ command ∈ surroundings.registry.commands, command.IsOrdinary)
    (hended : ((ofTokens surroundings calls tokens).settle steps).supervision =
      .ended (.ok results)) : results.length = (cascades tokens).length := by
  cases proceeds_ofTokens calls tokens hisolated hordinary steps with
  | watched pending notified watched => cases watched.supervision.symm.trans hended
  | stalled stalled => cases stalled.symm.trans hended
  | returned others ended length =>
      cases ended.symm.trans hended
      rw [length, List.length_map, chainsOf_eq, List.length_map]

theorem exists_endsAsAlone
    (hisolated : ∀ command ∈ surroundings.registry.commands, command.IsIsolated)
    (hordinary : ∀ command ∈ surroundings.registry.commands, command.IsOrdinary)
    (hended : ((ofTokens surroundings calls tokens).settle steps).supervision =
      .ended (.ok results)) {token : String} (htoken : (cascades tokens)[place]? = some token) :
    ∃ result, results[place]? = some result ∧
      EndsAsAlone surroundings calls tokens place token result := by
  let chain := Chain.ofToken surroundings.registry token
  have hsome : cascadeElements token ≠ [] := by
    have hmem := List.mem_of_getElem? htoken
    simpa [cascades] using (List.mem_filter.mp hmem).2
  have hplace : ((Engine.chainsOf surroundings.registry tokens).map
      (Chain.alone surroundings))[place]? = some (chain.alone surroundings) := by
    rw [chainsOf_eq, List.getElem?_map, List.getElem?_map, htoken]
    rfl
  have hlone : ((Engine.chainsOf surroundings.registry [token]).map
      (Chain.alone surroundings))[0]? = some (chain.alone surroundings) := by
    simp [Engine.chainsOf, hsome, chain]
  obtain ⟨-, result, there, closed, hresult, hends, hcloses, hshown⟩ :=
    Proceeds.closes (proceeds_ofTokens calls tokens hisolated hordinary) hended hplace
      (view_alone surroundings chain) (result?_ofTokens tokens place)
  obtain ⟨last, others, hlast⟩ := exists_returned_alone calls hsome hisolated hordinary hcloses
  obtain ⟨hlength, other, here, shut, hother, hstops, hshuts, hseen⟩ :=
    Proceeds.closes (proceeds_ofTokens calls [token] hisolated hordinary) hlast hlone
      (view_alone surroundings chain) (result?_ofTokens [token] 0)
  obtain rfl := hcloses.unique (view_alone surroundings chain) hshuts
  obtain rfl : result = other := Except.ok.inj (Option.some.inj (hcloses.ended.symm.trans hshuts.ended))
  have hsingle : others = [result] := by
    rw [List.length_map, chainsOf_eq, List.length_map, cascades] at hlength
    obtain ⟨only, rfl⟩ := List.length_eq_one_iff.mp (hlength.trans (by simp [hsome]))
    obtain rfl := Option.some.inj hother
    rfl
  rw [hsingle] at hlast
  exact ⟨result, hresult, ⟨last, hlast⟩, there, here, hends, hstops, hshown.trans hseen.symm⟩

theorem forall₂_givesAlone
    (hisolated : ∀ command ∈ surroundings.registry.commands, command.IsIsolated)
    (hordinary : ∀ command ∈ surroundings.registry.commands, command.IsOrdinary)
    (hended : ((ofTokens surroundings calls tokens).settle steps).supervision =
      .ended (.ok results)) :
    List.Forall₂ (GivesAlone surroundings calls) (cascades tokens) results := by
  have hlength := length_of_returned hisolated hordinary hended
  refine List.forall₂_iff_get.mpr ⟨hlength.symm, fun place hplace hresult => ?_⟩
  obtain ⟨result, hget, hends⟩ :=
    exists_endsAsAlone hisolated hordinary hended (List.getElem?_eq_getElem hplace)
  rw [List.getElem?_eq_getElem hresult] at hget
  obtain rfl := Option.some.inj hget
  exact hends.gives

/-- Chains whose commands share nothing and fail in the ordinary way are independent. -/
theorem independent_of_returned
    (hisolated : ∀ command ∈ surroundings.registry.commands, command.IsIsolated)
    (hordinary : ∀ command ∈ surroundings.registry.commands, command.IsOrdinary)
    (hended : ((ofTokens surroundings calls tokens).settle steps).supervision =
      .ended (.ok results)) : Independent surroundings calls tokens results where
  length := length_of_returned hisolated hordinary hended
  each := fun _ _ htoken => exists_endsAsAlone hisolated hordinary hended htoken
  permuted := by
    intro others hperm later otherResults hreturned
    have hown := forall₂_givesAlone hisolated hordinary hended
    have hothers := forall₂_givesAlone hisolated hordinary hreturned
    have hcascades : (cascades others).Perm (cascades tokens) := hperm.filter _
    obtain ⟨same, hsame, hresults⟩ := List.perm_comp_forall₂ hcascades hown
    obtain rfl := List.right_unique_forall₂' rightUnique_givesAlone hothers hsame
    exact hresults

/-! ### Code that is left running -/

/-- A command that reports its end at once and leaves code running that says something a second later. -/
def earlyCommand : Command where
  name := "early"
  help := ""
  group := ""
  hidden := false
  convention := .callback
  accepts := fun _ => true
  initializer := none
  run := fun _ => .ask (.complete (.ok .null)) fun _ =>
    .finish (.awaitable true (.sleep (.ofNat 1) none fun _ =>
      .ask (.emit (.printed .message "late")) fun _ => .finish .null))

def slowCommand : Command where
  name := "slow"
  help := ""
  group := ""
  hidden := false
  convention := .awaited
  accepts := fun _ => true
  initializer := none
  run := fun _ => .finish (.awaitable false (.sleep (.ofNat 2) none fun _ => .finish .null))

def lingeringSurroundings : Surroundings :=
  ⟨⟨[earlyCommand, slowCommand], []⟩, false, "", false, .empty⟩

/-- Both commands side by side, after the end of the batch. -/
def lingeringBatch : Batch :=
  (ofTokens lingeringSurroundings [] ["early", "slow"]).settle 17

/-- The first command alone, after the end of its batch. -/
def lingeringAlone : Batch :=
  (ofTokens lingeringSurroundings [] ["early"]).settle 4

theorem isolated_lingering :
    ∀ command ∈ lingeringSurroundings.registry.commands, command.IsIsolated := by
  refine List.forall_mem_cons.mpr ⟨⟨fun _ => ?_, fun _ h => by cases h⟩,
    List.forall_mem_singleton.mpr ⟨fun _ => trivial, fun _ h => by cases h⟩⟩
  exact ⟨.inl trivial, fun _ => ⟨.inl trivial, fun _ => trivial⟩⟩

theorem ordinary_lingering :
    ∀ command ∈ lingeringSurroundings.registry.commands, command.IsOrdinary :=
  List.forall_mem_cons.mpr ⟨⟨fun _ _ => trivial, fun _ h => by cases h⟩,
    List.forall_mem_singleton.mpr ⟨fun _ => trivial, fun _ h => by cases h⟩⟩

theorem lingeringBatch_independent :
    (∀ command ∈ lingeringSurroundings.registry.commands, command.IsIsolated) ∧
    (∀ command ∈ lingeringSurroundings.registry.commands, command.IsOrdinary) ∧
    ∃ results, lingeringBatch.supervision = .ended (.ok results) ∧
      Independent lingeringSurroundings [] ["early", "slow"] results := by
  have hgiven : lingeringBatch.supervision.results?.isSome = true := by decide +kernel
  obtain ⟨results, hended⟩ := Supervision.exists_of_isSome hgiven
  exact ⟨isolated_lingering, ordinary_lingering, results, hended,
    independent_of_returned isolated_lingering ordinary_lingering hended⟩

/-- The whole of what a chain shows need not be what it shows alone: its siblings leave the code that it
left running the time to say something. -/
theorem shownIn_lingeringBatch_ne :
    (∀ command ∈ lingeringSurroundings.registry.commands, command.IsIsolated ∧ command.IsOrdinary) ∧
    (∃ results, lingeringBatch.supervision = .ended (.ok results)) ∧ lingeringBatch.step? = none ∧
    (∃ results, lingeringAlone.supervision = .ended (.ok results)) ∧ lingeringAlone.step? = none ∧
    lingeringBatch.world.shownIn 0 ≠ lingeringAlone.world.shownIn 0 := by
  have hgiven : lingeringBatch.supervision.results?.isSome = true := by decide +kernel
  have halone : lingeringAlone.supervision.results?.isSome = true := by decide +kernel
  have hrest : lingeringBatch.step?.isNone = true := by decide +kernel
  have hrestAlone : lingeringAlone.step?.isNone = true := by decide +kernel
  refine ⟨fun command hmem => ⟨isolated_lingering command hmem, ordinary_lingering command hmem⟩,
    Supervision.exists_of_isSome hgiven, Option.isNone_iff_eq_none.mp hrest,
    Supervision.exists_of_isSome halone, Option.isNone_iff_eq_none.mp hrestAlone, fun heq => ?_⟩
  have hlength : (lingeringBatch.world.shownIn 0).length ≠
      (lingeringAlone.world.shownIn 0).length := by decide +kernel
  exact hlength (congrArg List.length heq)

end Batch

end Cascade
