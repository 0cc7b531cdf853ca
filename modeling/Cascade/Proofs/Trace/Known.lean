import Cascade.Proofs.Context.Isolation
import Cascade.Proofs.Trace.History

/-!
What is known of the acts of a run of chains. The programs of the chains and of the executions do what
they do by themselves. An execution whose call gives something to wait for, and whose code reports no
end, ends as the thread ends that the call has started.
-/

namespace Cascade

open Library.System Past

theorem Scope.mem_labels_iff {scope : Scope} {acts : List Act} {label : Label} :
    label ∈ scope.labels acts ↔ ∃ act ∈ acts, (act.scope.strand = scope.strand ∧
      act.scope.thread = scope.thread ∧ (act.scope.cell = none ∨ act.scope.cell = scope.cell)) ∧
        (act.scope.step, act.doing) = label := by
  simp only [Scope.labels, List.mem_filterMap, Option.ite_none_right_eq_some, Option.some.injEq]

namespace Past

theorem Opens.eq {command : Command} {past : List Happening} (h : Opens command past)
    {happening other : Happening} (hmem : happening ∈ past) (hother : other ∈ past)
    (hopening : happening.isOpening = true) (hsame : other.isOpening = true) : happening = other := by
  obtain ⟨later, first, rfl, hlater, -⟩ := h
  have hfirst : ∀ {happening : Happening}, happening ∈ later ++ [first] →
      happening.isOpening = true → happening = first := by
    intro happening hmem hopening
    rcases List.mem_append.mp hmem with hmem | hmem
    · cases (hlater happening hmem).symm.trans hopening
    · exact List.mem_singleton.mp hmem
  exact (hfirst hmem hopening).trans (hfirst hother hsame).symm

theorem exists_of_mem_attempts {command : Command} {past : List Happening} {outcome : Outcome}
    (h : outcome ∈ attempts command past) :
    ∃ happening ∈ past, ∃ isComplete, happening.attempt? command isComplete = some outcome := by
  induction past with
  | nil => cases h
  | cons happening rest ih =>
      rw [attempts_cons] at h
      rcases List.mem_append.mp h with hnew | hold
      · exact ⟨happening, List.mem_cons_self, _, Option.mem_toList.mp hnew⟩
      · obtain ⟨other, hother, hattempt⟩ := ih hold
        exact ⟨other, List.mem_cons_of_mem _ hother, hattempt⟩

end Past

namespace World

theorem Recounts.startOf (surroundings : Surroundings) (calls : Entries Nat) (chains : List Chain) :
    (startOf surroundings calls chains).Recounts (chains.map Chain.routine) [] := by
  have hstart := Recounts.start surroundings calls
    (chains.map fun chain => (chain.invocations, chain.routine))
  rwa [List.map_map, List.map_map] at hstart

/-- What is known of the acts of a run of chains whose commands execute others by their names only. -/
structure Known (chains : List Chain) (acts : List Act) (world : World ChainResult) : Prop where
  recounts : world.Recounts (chains.map Chain.routine) acts
  lawful : world.Lawful
  placed : world.Placed (Noted acts)
  places : ∀ act ∈ acts, world.Places (Noted acts) act
  strand : ∀ place chain, chains[place]? = some chain →
    ∃ shape, world.shape? place = some shape ∧ shape.invocations = chain.invocations
  sees : ∀ past act future, acts = past ++ act :: future → ∀ chain index,
    chains[act.scope.strand]? = some chain → act.scope.step = some index →
      index < chain.invocations.length → ∃ view, act.sees = some view ∧
        view.Shows chain.invocations (written past act.scope.strand) index
  answers : ∀ act ∈ acts, ∀ view, act.doing = .asks .step view → view = act.sees

variable {surroundings : Surroundings} {calls : Entries Nat} {chains : List Chain} {acts : List Act}
  {world : World ChainResult}

theorem Course.known (hregistry : ∀ command ∈ surroundings.registry.commands,
      command.IsRepetition ∨ command.IsConfined)
    (hchains : ∀ chain ∈ chains, ∀ invocation ∈ chain.invocations,
      invocation.command.IsRepetition ∨ invocation.command.IsConfined)
    (h : Course (startOf surroundings calls chains) acts world) : Known chains acts world := by
  obtain ⟨⟨hend, -⟩, hplaces⟩ := h.keeping (.startOf _ hregistry hchains) (.startOf ..)
    fun act hact => h.isHonest hact
  refine ⟨h.recounts (.startOf ..) (.startOf ..), h.lawful, hend, hplaces,
    fun place chain hchain => ?_, fun past act future hacts chain index hchain hstep hlt =>
      h.shows hacts hchain hstep hlt, fun act hact => ?_⟩
  · have hlast : world.imprint.outline? place =
        (startOf surroundings calls chains).imprint.outline? place := by
      rw [h.tells.foldl, Imprint.outline?_foldl]
    rw [Imprint.outline?, Imprint.outline?, pages_startOf, hchain] at hlast
    obtain ⟨page, hpage, hsame⟩ := Option.map_eq_some_iff.mp hlast
    rw [show world.imprint.pages[place]? = _ from world.getElem?_pages place] at hpage
    obtain ⟨strand, hstrand, rfl⟩ := Option.map_eq_some_iff.mp hpage
    exact ⟨strand.shape, by rw [shape?, hstrand, Option.map_some], (Prod.mk.inj hsame).1⟩
  · obtain ⟨past, future, hacts⟩ := List.append_of_mem hact
    exact (hacts ▸ h.tells).follows.answer

section Known

variable {place number : Nat}

theorem not_isLost_root {place : Nat}
    (hkept : ∀ fault, Batch.result? world place ≠ some (.error fault)) :
    ¬ world.IsLost (fun _ _ => False) place .root := by
  rintro (hfalse | hposture)
  · exact hfalse
  · rw [posture?] at hposture
    obtain ⟨strand, hstrand, hroot⟩ := Option.bind_eq_some_iff.mp hposture
    have hroot : strand.root.posture = .finished true := Option.some.inj hroot
    rw [Thread.posture] at hroot
    cases hstatus : strand.root.status with
    | running => simp [hstatus, ThreadStatus.posture] at hroot
    | waiting waiting wake => simp [hstatus, ThreadStatus.posture] at hroot
    | finished result =>
        cases result with
        | ok value => simp [hstatus, ThreadStatus.posture, Posture.ofResult] at hroot
        | error fault =>
            refine hkept fault ?_
            rw [Batch.result?, hstrand, Option.bind_some, Thread.result?, hstatus]

theorem Known.chain (h : Known chains acts world) {chain : Chain} (hchain : chains[place]? = some chain)
    (hkept : ∀ fault, Batch.result? world place ≠ some (.error fault)) :
    ∃ shape, world.shape? place = some shape ∧ shape.invocations = chain.invocations ∧
      Batch.result? world place = shape.root.result? ∧
      Stance.Moves chain.invocations none (.starts chain.routine)
        (Scope.labels ⟨place, .root, none, none⟩ acts) (.rests shape.root.status) := by
  obtain ⟨shape, hshape, hinvocations⟩ := h.strand place chain hchain
  obtain ⟨strand, hstrand, rfl⟩ := Option.map_eq_some_iff.mp hshape
  have hresult : Batch.result? world place = strand.shape.root.result? := by
    rw [Batch.result?, hstrand, Option.bind_some, Strand.shape, Thread.calm, Thread.result?,
      Thread.result?]
    cases strand.root.status <;> rfl
  refine ⟨_, hshape, hinvocations, hresult, ?_⟩
  obtain ⟨-, -, routine, hprogram, hlost | htale⟩ := h.recounts.root place _ hshape
  · exact absurd hlost (not_isLost_root hkept)
  · rw [List.getElem?_map, hchain] at hprogram
    obtain rfl := Option.some.inj hprogram
    rw [← hinvocations]
    refine htale.moves fun hrunning => h.lawful.idle place .root ?_
    rw [posture?, hstrand, Option.bind_some, Strand.posture?, Thread.posture]
    cases hstatus : strand.root.status with
    | running => rfl
    | waiting | finished => simp [Strand.shape, Thread.calm, hstatus, ThreadStatus.calm] at hrunning

/-! ### Executions -/

theorem exists_cell {shape : Shape ChainResult} (hshape : world.shape? place = some shape)
    {origin : Command × ThreadId × Option Nat} (horigin : shape.cells[number]? = some origin) :
    ∃ cell, world.cell? place number = some cell ∧ cell.origin = origin := by
  obtain ⟨strand, hstrand, rfl⟩ := Option.map_eq_some_iff.mp hshape
  rw [Strand.shape, List.getElem?_map] at horigin
  obtain ⟨cell, hcell, hsame⟩ := Option.map_eq_some_iff.mp horigin
  exact ⟨cell, by rw [cell?, hstrand, Option.bind_some, hcell], hsame⟩

theorem getElem?_cells {shape : Shape ChainResult} (hshape : world.shape? place = some shape)
    {cell : Cell} (hcell : world.cell? place number = some cell) :
    shape.cells[number]? = some cell.origin := by
  obtain ⟨strand, hstrand, rfl⟩ := Option.map_eq_some_iff.mp hshape
  rw [cell?, hstrand, Option.bind_some] at hcell
  rw [Strand.shape, List.getElem?_map, hcell, Option.map_some]

theorem Known.executed (h : Known chains acts world) {act : Act} (hact : act ∈ acts)
    {index : Nat} {command : Command} {arguments : Arguments}
    (hdoing : act.doing = .executes number index command arguments) :
    ∃ cell, world.cell? act.scope.strand number = some cell ∧
      cell.origin = (command, act.scope.thread, some index) := by
  cases h.places act hact with
  | own rights host allowed shape found asked executed =>
      exact exists_cell found (executed number index command arguments hdoing).1
  | initializer _ _ _ _ _ _ _ query answer doing => cases doing.symm.trans hdoing
  | call _ _ _ _ _ _ _ query answer doing => cases doing.symm.trans hdoing

theorem Known.called (h : Known chains acts world) {act : Act} (hact : act ∈ acts) {cell : Cell}
    {arguments : Arguments} (hcell : world.cell? act.scope.strand number = some cell)
    (hbegins : act.doing.beginning? = some (number, arguments)) :
    (cell.command.accepts arguments.kind = true →
        .called arguments ∈ world.past act.scope.strand number) ∧
      ∀ others, .called others ∈ world.past act.scope.strand number → others = arguments := by
  have hopens := h.lawful.sound.opens _ number cell hcell
  have hbegun := h.recounts.begun act hact number arguments hbegins
  refine ⟨fun haccepts => hbegun.resolve_right fun hrefused => ?_, fun others hothers => ?_⟩
  · have hfirst := hopens
    obtain ⟨later, first, hpast, -, hkind⟩ := hfirst
    have hmem : first ∈ world.past act.scope.strand number :=
      hpast ▸ List.mem_append_right later (List.mem_singleton_self first)
    rcases hkind with ⟨called, rfl, -⟩ | ⟨refused, rfl, hnot⟩
    · cases hopens.eq hrefused hmem rfl rfl
    · cases hopens.eq hrefused hmem rfl rfl
      cases hnot.symm.trans haccepts
  · rcases hbegun with hcalled | hrefused
    · exact Happening.called.inj (hopens.eq hothers hcalled rfl rfl)
    · cases hopens.eq hothers hrefused rfl rfl

theorem Known.step_eq (h : Known chains acts world) {act : Act} (hact : act ∈ acts) {cell : Cell}
    (hcell : world.cell? act.scope.strand number = some cell) (hown : act.scope.cell = some number) :
    act.scope.step = cell.step := by
  obtain ⟨shape, hshape, hruns⟩ := (h.places act hact).runs
  obtain ⟨command, caller, horigin⟩ := hruns.origin hown
  have hsame := Option.some.inj (horigin.symm.trans (getElem?_cells hshape hcell))
  exact (Prod.mk.inj (Prod.mk.inj hsame).2).2

theorem Known.scope_eq (h : Known chains acts world) {act : Act} (hact : act ∈ acts)
    (hown : act.scope.cell = some number) (hnone : act.doing.question? = none) :
    ∃ shape child thread, world.shape? act.scope.strand = some shape ∧
      shape.children[child]? = some thread ∧ thread.cell = some number ∧
        act.scope = ⟨act.scope.strand, .child child, thread.step, some number⟩ := by
  obtain ⟨rights, hhost, -⟩ := (h.places act hact).host hnone
  cases hhost with
  | chain _ _ same =>
      rw [same] at hown
      cases hown
  | execution shape found child thread other command caller index same started step cell =>
      have hsame : some other = some number := by rw [← hown, same]
      obtain rfl := Option.some.inj hsame
      exact ⟨shape, child, thread, found, started, cell, step ▸ same⟩

theorem Known.asks (h : Known chains acts world) {act : Act} (hact : act ∈ acts) {cell : Cell}
    (hcell : world.cell? act.scope.strand number = some cell)
    (hrepetition : cell.command.IsRepetition) (hown : act.scope.cell = some number) {query : Query}
    {answer : query.Answer} (hdoing : act.doing = .asks query answer) : query = .step := by
  have hsame : ∀ {shape : Shape ChainResult} {command caller step},
      world.shape? act.scope.strand = some shape →
        shape.cells[number]? = some (command, caller, step) → command.IsRepetition := by
    intro shape command caller step hshape horigin
    have hsame := Option.some.inj (horigin.symm.trans (getElem?_cells hshape hcell))
    exact (Prod.mk.inj hsame).1 ▸ hrepetition
  cases h.places act hact with
  | own rights host allowed =>
      rw [hdoing] at allowed
      cases host with
      | chain _ _ same =>
          rw [same] at hown
          cases hown
      | execution shape found child thread other command caller index same _ _ _ origin =>
          have hnumber : some other = some number := by rw [← hown, same]
          obtain rfl := Option.some.inj hnumber
          exact allowed (hsame found origin)
  | initializer _ _ _ _ _ _ same =>
      rw [same] at hown
      cases hown
  | call shape found other command index origin same query answer doing allowed =>
      have hnumber : some other = some number := by rw [← hown, same]
      obtain rfl := Option.some.inj hnumber
      rw [doing] at hdoing
      injection hdoing with hquery
      exact hquery ▸ allowed (hsame found origin)

/-- An execution whose call gives something to wait for, and whose code reports no end, ends as the
thread ends that the call has started. -/
theorem Known.ended (h : Known chains acts world) {cell : Cell}
    (hcell : world.cell? place number = some cell) {arguments : Arguments}
    (hcalled : .called arguments ∈ world.past place number)
    (hgives : ∀ doings result, (cell.command.run arguments).Plays doings result →
      ∃ started body, result = .ok (.awaitable started body))
    (hquiet : ∀ result, ¬ Reports acts place number result) {outcome : Outcome}
    (hyielded : .yielded outcome ∈ world.past place number) :
    ∃ (shape : Shape ChainResult) (child : Nat) (thread : Thread Value) (result : Except Fault Value),
      world.shape? place = some shape ∧ shape.children[child]? = some thread ∧
        thread.cell = some number ∧ thread.status = .finished result ∧
          outcome = outcomeOf cell.command.name result := by
  have hopens := h.lawful.sound.opens place number cell hcell
  obtain ⟨happening, hmem, isComplete, hattempt⟩ := exists_of_mem_attempts
    ((h.lawful.sound.accounts place number cell hcell).mem_attempts hyielded)
  have hgrounded := h.recounts.grounded place number happening hmem
  have hnot : ∀ result, world.Called place number result →
      ∃ started body, result = .ok (.awaitable started body) := by
    rintro result ⟨shape, command, caller, step, others, doings, hshape, horigin, hothers, hplays⟩
    have hsame := Option.some.inj (horigin.symm.trans (getElem?_cells hshape hcell))
    obtain rfl := Happening.called.inj (hopens.eq hothers hcalled rfl rfl)
    exact hgives doings result ((Prod.mk.inj hsame).1 ▸ hplays)
  cases happening with
  | refused others => cases hopens.eq hmem hcalled rfl rfl
  | completed result => exact absurd hgrounded (hquiet result)
  | raised fault =>
      obtain ⟨started, body, heq⟩ := hnot _ hgrounded
      cases heq
  | returned value =>
      obtain ⟨started, body, heq⟩ := hnot _ hgrounded
      cases heq
  | ended result =>
      obtain ⟨shape, child, thread, hshape, hchild, hthread, hstatus⟩ := hgrounded
      exact ⟨shape, child, thread, result, hshape, hchild, hthread, hstatus,
        (Option.some.inj hattempt).symm⟩
  | _ => cases hattempt

theorem Known.body (h : Known chains acts world) {shape : Shape ChainResult}
    (hshape : world.shape? place = some shape) {child : Nat} {thread : Thread Value}
    (hchild : shape.children[child]? = some thread) (hthread : thread.cell = some number) {cell : Cell}
    (hcell : world.cell? place number = some cell) {arguments : Arguments}
    (hcalled : .called arguments ∈ world.past place number)
    (hkept : ¬ world.IsLost (fun _ _ => False) place cell.caller) :
    thread.step = cell.step ∧ ∃ doings started body,
      (cell.command.run arguments).Plays doings (.ok (.awaitable started body)) ∧
      (∃ earlier later, acts = earlier ++ later ∧
        (∃ act ∈ earlier, act.scope.strand = place ∧
          act.doing.beginning? = some (number, arguments)) ∧
        Scope.labels ⟨place, .child child, cell.step, some number⟩ earlier = []) ∧
      Stance.Moves shape.invocations cell.step (.starts body)
        (Scope.labels ⟨place, .child child, cell.step, some number⟩ acts) (.rests thread.status) := by
  obtain ⟨other, command, caller, hdescends⟩ := h.recounts.children place shape child thread hshape hchild
  obtain rfl := Option.some.inj (hdescends.cell.symm.trans hthread)
  have hsame := Option.some.inj (hdescends.origin.symm.trans (getElem?_cells hshape hcell))
  obtain ⟨rfl, hrest⟩ := Prod.mk.inj hsame
  obtain ⟨rfl, hstep⟩ := Prod.mk.inj hrest
  obtain ⟨others, doings, started, body, hothers, hplays, hbirth, hlost | htale⟩ := hdescends.tale
  · exact absurd hlost hkept
  · have hopens := h.lawful.sound.opens place other cell hcell
    obtain rfl := Happening.called.inj (hopens.eq hothers hcalled rfl rfl)
    rw [hthread, hstep] at hbirth htale
    refine ⟨hstep, doings, started, body, hplays, hbirth, htale.moves fun hrunning => ?_⟩
    obtain ⟨strand, hstrand, rfl⟩ := Option.map_eq_some_iff.mp hshape
    rw [Strand.shape, List.getElem?_map] at hchild
    obtain ⟨found, hfound, rfl⟩ := Option.map_eq_some_iff.mp hchild
    refine h.lawful.idle place (.child child) ?_
    rw [posture?, hstrand, Option.bind_some, Strand.posture?, hfound, Option.map_some, Thread.posture]
    cases hstatus : found.status with
    | running => rfl
    | waiting | finished => simp [Thread.calm, hstatus, ThreadStatus.calm] at hrunning

end Known

end World

end Cascade
