import Cascade.Proofs.Log.Blame
import Cascade.Proofs.Log.Listing

/-!
The error log is conserved. As long as no command adds to it of its own accord, a run adds one message for
each chain that ends as a failure, and nothing else, after what was there. A batch lists the whole log
once, at its end.
-/

namespace Cascade

/-! ### What is added by whom -/

theorem Occurrence.IsProper.said? {places : Nat → Prop} {occurrence : Occurrence}
    (h : occurrence.IsProper places) (place : Nat) :
    occurrence.said? place =
      (occurrence.logged?.filter fun entry => entry.1 = some place).map Prod.snd := by
  rcases occurrence with ⟨strand, thread, step, event⟩
  cases event with
  | logged command message =>
      obtain ⟨own, -, rfl, rfl, rfl⟩ := h command message rfl
      by_cases heq : own = place
      · simp [Occurrence.said?, Occurrence.logged?, Option.filter, heq]
      · simp [Occurrence.said?, Occurrence.logged?, Option.filter, heq]
  | _ =>
      rw [Occurrence.said?]
      split <;> rfl

namespace World

variable {α : Type} {world : World α} {places : Nat → Prop}

theorem IsHushed.voice_eq (h : world.IsHushed places) (place : Nat) :
    world.voice place =
      (world.logged.filter fun entry => entry.1 = some place).map Prod.snd := by
  have hall : ∀ record : List Occurrence, (∀ occurrence ∈ record, occurrence.IsProper places) →
      record.filterMap (Occurrence.said? place) =
        ((record.filterMap Occurrence.logged?).filter fun entry => entry.1 = some place).map
          Prod.snd := by
    intro record hproper
    induction record with
    | nil => rfl
    | cons occurrence rest ih =>
        obtain ⟨hfirst, hrest⟩ := List.forall_mem_cons.mp hproper
        rw [List.filterMap_cons, List.filterMap_cons, hfirst.said? place, ih hrest]
        cases occurrence.logged? with
        | none => rfl
        | some entry => by_cases heq : entry.1 = some place <;> simp [Option.filter, heq]
  rw [voice, hall world.record h.record, logged, List.filter_reverse, List.map_reverse]

theorem IsHushed.exists_place (h : world.IsHushed places) {entry : Option Nat × Message}
    (hmem : entry ∈ world.logged) :
    ∃ place, places place ∧ entry.1 = some place ∧ entry.2 ∈ world.voice place := by
  obtain ⟨occurrence, hoccurrence, hlogged⟩ := List.mem_filterMap.mp (List.mem_reverse.mp hmem)
  obtain ⟨place, hplace, hstrand⟩ : ∃ place, places place ∧ entry.1 = some place := by
    rcases occurrence with ⟨strand, thread, step, event⟩
    cases event with
    | logged command message =>
        obtain ⟨place, hplace, hstrand, -⟩ := h.record _ hoccurrence command message rfl
        obtain rfl := Option.some.inj hlogged
        exact ⟨place, hplace, hstrand⟩
    | _ => cases hlogged
  refine ⟨place, hplace, hstrand, ?_⟩
  rw [h.voice_eq]
  exact List.mem_map_of_mem (List.mem_filter.mpr ⟨hmem, decide_eq_true hstrand⟩)

end World

namespace World

variable {surroundings : Surroundings} {calls : Entries Nat} {chains : List Chain}
  {acts : List Act} {world : World ChainResult} {place : Nat} {result : ChainResult}

theorem IsHushed.startOf
    (hregistry : ∀ command ∈ surroundings.registry.commands, command.IsDiscreet)
    (hchains : ∀ chain ∈ chains, ∀ invocation ∈ chain.invocations, invocation.command.IsDiscreet) :
    (startOf surroundings calls chains).IsHushed fun place => place < chains.length := by
  refine ⟨fun name command hlookup => ?_, fun place shape hshape => ?_, fun _ h => by cases h⟩
  · rw [Registry.lookup] at hlookup
    split at hlookup
    · rename_i found hfound
      obtain rfl := Except.ok.inj hlookup
      exact hregistry _ (List.mem_of_find?_eq_some hfound)
    · cases hlookup
  · rw [shape?, strand?_startOf] at hshape
    cases hchain : chains[place]? with
    | none => simp [hchain] at hshape
    | some chain =>
        rw [hchain] at hshape
        obtain rfl := Option.some.inj hshape
        exact ⟨(List.getElem?_eq_some_iff.mp hchain).1, hchains chain (List.mem_of_getElem? hchain),
          rfl, fun _ h => by cases h⟩

theorem Course.surroundings_eq (h : Course (startOf surroundings calls chains) acts world) :
    world.surroundings = surroundings :=
  h.tells.surroundings

/-! ### What a run adds -/

theorem Course.vocal (h : Course (startOf surroundings calls chains) acts world) {chain : Chain}
    (hchain : chains[place]? = some chain) : chain.Vocal place world := by
  refine Chain.Vocal.reaches ?_ h.reaches
  rw [startOf_eq]
  exact .start (getElem?_programs hchain)

theorem Course.exists_failure (h : Course (startOf surroundings calls chains) acts world)
    (hplace : place < chains.length) (hsaid : world.voice place ≠ []) :
    ∃ result, Batch.result? world place = some (.ok result) ∧ result.isSuccess = false := by
  have hvocal := h.vocal (List.getElem?_eq_getElem hplace)
  cases hended : Batch.result? world place with
  | none => exact absurd (hvocal.of_no_result hended) hsaid
  | some ended =>
      have hcomplaint := hvocal.of_result hended
      generalize hvoice : world.voice place = said at hcomplaint hsaid
      cases hcomplaint with
      | stopped | succeeded => exact absurd rfl hsaid
      | unread fault result reading failure
      | unprepared index invocation cause result reading found failure
      | failed outcome fault result reading last fails failure =>
          exact ⟨result, rfl, by rw [ChainResult.isSuccess, failure]; rfl⟩

/-- What a run of chains has done to the error log, in which there were messages before. -/
structure Conserves (chains : List Chain) (earlier : List Message) (world : World ChainResult) :
    Prop where
  /-- The log holds the earlier messages and then those that the run has added, in the order of time. -/
  log : world.errors = .ofMessages (earlier ++ world.logged.map Prod.snd)
  /-- So under each name the earlier messages come first, as they were. -/
  found : ∀ name, world.errors.get name =
    ErrorLog.named name earlier ++ ErrorLog.named name (world.logged.map Prod.snd)
  /-- A chain that ended as a failure has added one message, which tells what it failed at. -/
  failed : ∀ place result, Batch.result? world place = some (.ok result) →
    result.isSuccess = false → ∃ chain message, chains[place]? = some chain ∧
      chain.Blames (world.deeds place) result message ∧
      (world.logged.filter fun entry => entry.1 = some place) = [(some place, message)]
  /-- Nothing else has been added: nothing by a chain that succeeded, that was given up or that has not
  ended, and nothing by a command. -/
  only : ∀ entry ∈ world.logged, ∃ place result, entry.1 = some place ∧
    Batch.result? world place = some (.ok result) ∧ result.isSuccess = false
  /-- Every message has a name. -/
  named : ∀ entry ∈ world.logged, entry.2.1 ≠ ""

theorem conserves_of_course {tokens : List String} {earlier : List Message}
    (herrors : surroundings.errors = .ofMessages earlier)
    (hdiscreet : ∀ command ∈ surroundings.registry.commands, command.IsDiscreet)
    (h : Course (startOf surroundings calls (Engine.chainsOf surroundings.registry tokens)) acts
      world) : Conserves (Engine.chainsOf surroundings.registry tokens) earlier world := by
  let chains := Engine.chainsOf surroundings.registry tokens
  have hhushed : world.IsHushed fun place => place < chains.length :=
    h.isHushed (.startOf hdiscreet fun chain hchain invocation hinvocation =>
      hdiscreet _ (Engine.command_mem_of_chainsOf hchain invocation hinvocation))
  have hlog : world.errors = .ofMessages (earlier ++ world.logged.map Prod.snd) := by
    rw [errors_eq, h.surroundings_eq, herrors, ErrorLog.addAll_ofMessages]
  have hfailed : ∀ place result, Batch.result? world place = some (.ok result) →
      result.isSuccess = false → ∃ chain message, chains[place]? = some chain ∧
        chain.Blames (world.deeds place) result message ∧
        (world.logged.filter fun entry => entry.1 = some place) = [(some place, message)] := by
    intro place result hresult hfailure
    obtain ⟨chain, hchain⟩ := h.exists_chain_of_result hresult
    obtain ⟨message, hvoice, hblames⟩ := ((h.inPhase hchain).phases hresult).exists_blames h.isAttested
      h.lawful.sound ((h.vocal hchain).of_result hresult) hfailure
    refine ⟨chain, message, hchain, hblames, ?_⟩
    rw [hhushed.voice_eq] at hvoice
    obtain ⟨entry, hentries, rfl⟩ := List.map_eq_singleton_iff.mp hvoice
    have hmem : entry ∈ world.logged.filter fun entry => entry.1 = some place := by
      rw [hentries]
      exact List.mem_singleton_self entry
    have hplace : entry.1 = some place := of_decide_eq_true (List.mem_filter.mp hmem).2
    rw [hentries, ← hplace]
  have honly : ∀ entry ∈ world.logged, ∃ place result, entry.1 = some place ∧
      Batch.result? world place = some (.ok result) ∧ result.isSuccess = false := by
    intro entry hmem
    obtain ⟨place, hplace, hstrand, hvoice⟩ := hhushed.exists_place hmem
    obtain ⟨result, hresult, hfailure⟩ := h.exists_failure hplace (List.ne_nil_of_mem hvoice)
    exact ⟨place, result, hstrand, hresult, hfailure⟩
  exact {
    log := hlog
    found := fun name => by rw [hlog, ErrorLog.get_ofMessages, ErrorLog.named_append]
    failed := hfailed
    only := honly
    named := by
      intro entry hmem
      obtain ⟨place, result, hstrand, hresult, hfailure⟩ := honly entry hmem
      obtain ⟨chain, message, hchain, hblames, hentries⟩ := hfailed place result hresult hfailure
      have hentry : entry ∈ world.logged.filter fun entry => entry.1 = some place :=
        List.mem_filter.mpr ⟨hmem, decide_eq_true hstrand⟩
      rw [hentries] at hentry
      obtain rfl := List.mem_singleton.mp hentry
      obtain ⟨token, -, rfl⟩ := List.mem_map.mp (List.mem_of_getElem? hchain)
      exact hblames.name_ne_empty }

/-! ### Every run -/

/-- The error log in all runs of the chains of an engine. -/
structure ConservesErrors (surroundings : Surroundings) (calls : Entries Nat) (chains : List Chain)
    (earlier : List Message) : Prop where
  /-- Every course of a run adds what its failures tell, however the turns alternate and whichever chains
  are given up. -/
  conserves : ∀ acts world, Course (startOf surroundings calls chains) acts world →
    Conserves chains earlier world
  /-- In its course a run only adds at the end. -/
  grows : ∀ acts world more next, Course (startOf surroundings calls chains) acts world →
    Course world more next → ∃ added, next.logged = world.logged ++ added
  /-- So does a batch, with exit-on-error and without. -/
  batch : ∀ exitOnError steps, Conserves chains earlier
    ((Batch.start surroundings exitOnError calls chains).settle steps).world
  /-- It lists the whole log once, at its end. -/
  shows : ∀ exitOnError steps,
    ((Batch.start surroundings exitOnError calls chains).settle steps).ShowsErrors

/-- The error log is conserved in all runs of the chains of tokens, as long as no command adds to it
of its own accord. The list at the end needs calls and initializers that fail in the ordinary way. -/
theorem errors_conserved (surroundings : Surroundings) (calls : Entries Nat) (tokens : List String)
    (earlier : List Message) (herrors : surroundings.errors = .ofMessages earlier)
    (hdiscreet : ∀ command ∈ surroundings.registry.commands, command.IsDiscreet)
    (hordinary : ∀ command ∈ surroundings.registry.commands, command.IsOrdinary) :
    ConservesErrors surroundings calls (Engine.chainsOf surroundings.registry tokens) earlier where
  conserves _ _ h := conserves_of_course herrors hdiscreet h
  grows _ _ _ _ _ h := exists_logged_append h.reaches.adds
  batch exitOnError steps := conserves_of_course herrors hdiscreet (course_of_start exitOnError steps)
  shows exitOnError steps := by
    let chains := Engine.chainsOf surroundings.registry tokens
    have hchains : ∀ chain ∈ chains, ∀ invocation ∈ chain.invocations,
        invocation.command.IsOrdinary := fun chain hchain invocation hmem =>
      hordinary _ (Engine.command_mem_of_chainsOf hchain invocation hmem)
    have hlists := Batch.Lists.start surroundings exitOnError calls hchains
    refine (hlists.settle steps).showsErrors (.startOf hdiscreet fun chain hchain invocation hmem =>
      hdiscreet _ (Engine.command_mem_of_chainsOf hchain invocation hmem))
      (course_of_start exitOnError steps) herrors

def brittleCommand : Command where
  name := "brittle"
  help := ""
  group := ""
  hidden := false
  convention := .direct
  accepts := fun _ => true
  initializer := none
  run := fun _ => .fail (.because .value "broken")

/-- An engine with a command that fails and one that does not, and with an earlier error. -/
def brittleSurroundings : Surroundings :=
  ⟨⟨[brittleCommand, hastyCommand], []⟩, false, "", false, .ofMessages [("brittle", "before")]⟩

/-- A batch there of a chain that cannot be read, two that fail and one that succeeds. -/
def brittleBatch : Batch :=
  Batch.start brittleSurroundings false []
    (Engine.chainsOf brittleSurroundings.registry ["nope", "brittle", "hasty", "hasty * brittle"])

/-- Three chains of that batch fail, and each adds its message. The list at the end has these under the
names of their commands, after the earlier error. -/
theorem brittleBatch_conserves :
    (∀ command ∈ brittleSurroundings.registry.commands, command.IsDiscreet) ∧
      (∀ command ∈ brittleSurroundings.registry.commands, command.IsOrdinary) ∧
      ConservesErrors brittleSurroundings []
        (Engine.chainsOf brittleSurroundings.registry
          ["nope", "brittle", "hasty", "hasty * brittle"]) [("brittle", "before")] ∧
      (brittleBatch.settle 12).ending?.isSome = true ∧
      (brittleBatch.settle 12).world.logged =
        [(some 0, "nope", "Invalid command: nope"), (some 1, "brittle", "broken"),
          (some 3, "brittle", "broken")] ∧
      (brittleBatch.settle 12).world.announced =
        [[⟨.error, "brittle: errors [ 3]"⟩], [⟨.error, "[0]: before"⟩], [⟨.error, "[1]: broken"⟩],
          [⟨.error, "[2]: broken"⟩], [⟨.error, "nope: errors [ 1]"⟩],
          [⟨.error, "[0]: Invalid command: nope"⟩]].map .line := by
  have hdiscreet : ∀ command ∈ brittleSurroundings.registry.commands, command.IsDiscreet := by
    intro command hmem
    rcases List.mem_pair.mp hmem with rfl | rfl
    · exact ⟨(fun _ h => by cases h), fun _ => trivial⟩
    · exact ⟨(fun _ h => by cases h), fun _ => ⟨rfl, fun _ _ => ⟨rfl, fun _ _ => trivial⟩⟩⟩
  have hordinary : ∀ command ∈ brittleSurroundings.registry.commands, command.IsOrdinary := by
    intro command hmem
    rcases List.mem_pair.mp hmem with rfl | rfl
    · exact ⟨fun _ => rfl, fun _ h => by cases h⟩
    · exact ⟨fun _ _ _ => trivial, fun _ h => by cases h⟩
  have hconserves := errors_conserved brittleSurroundings []
    ["nope", "brittle", "hasty", "hasty * brittle"] [("brittle", "before")] rfl hdiscreet hordinary
  have hended : (brittleBatch.settle 12).ending?.isSome = true := by
    decide +kernel
  obtain ⟨result, hresult⟩ := Option.isSome_iff_exists.mp hended
  refine ⟨hdiscreet, hordinary, hconserves, hended, by decide +kernel, ?_⟩
  refine ((hconserves.shows false 12).listed result (Batch.ending?_eq_some hresult)).trans ?_
  exact congrArg (List.map Item.line) (by decide +kernel)

end World

end Cascade
