import Cascade.Proofs.Chain.Work
import Cascade.Proofs.Repetition.Rounds

/-!
The repetition in a run of chains. Nothing but its initializer sets anything in the state of its step, so
whenever it is executed, it finds noted there the step before, and does to it what it does by itself.
-/

namespace Cascade

open Library.System

/-- Arguments that tell the repetition a count of at least one, and an interval. -/
inductive Arguments.Counts : Arguments → Nat → String → Prop
  | bare (count : String) (total : Nat) (read : integerOfText count = .ok (total : Int))
      (positive : 1 ≤ total) : Counts (.positional [count]) total "0"
  | paced (count interval : String) (total : Nat) (read : integerOfText count = .ok (total : Int))
      (positive : 1 ≤ total) : Counts (.positional [count, interval]) total interval

theorem Arguments.Counts.gives {arguments : Arguments} {total : Nat} {interval : String}
    (h : arguments.Counts total interval) {command : Command} (hrepetition : command.IsRepetition) :
    ∃ count, integerOfText count = .ok (total : Int) ∧
      ∀ doings result, (command.run arguments).Plays doings result →
        result = .ok (.awaitable false (repeatBody count interval)) := by
  have hplays : ∀ {reply : Reply} {doings : List Doing} {result : Except Fault Reply},
      (Action.finish reply).Plays doings result → result = .ok reply := by
    intro reply doings result hplays
    cases hplays
    rfl
  cases h with
  | bare count total read positive | paced count interval total read positive =>
      refine ⟨count, read, fun doings result hrun => ?_⟩
      rw [hrepetition.run_eq] at hrun
      exact hplays hrun

theorem Arguments.Counts.positive {arguments : Arguments} {total : Nat} {interval : String}
    (h : arguments.Counts total interval) : 1 ≤ total := by
  cases h <;> assumption

theorem Arguments.Counts.accepts {arguments : Arguments} {total : Nat} {interval : String}
    (h : arguments.Counts total interval) {command : Command} (hrepetition : command.IsRepetition) :
    command.accepts arguments.kind = true := by
  have haccepts := Option.some.inj hrepetition.accepts
  rw [← haccepts]
  cases h <;> rfl

/-- What is noted in the state of a step of the repetition: the step before, if there is one. -/
def noteBefore (index : Nat) : StateEntry :=
  if index = 0 then .value .null else .step (index - 1)

theorem StepView.Shows.noteOf_eq {invocations : List Invocation} {states : Nat → StepState}
    {own : Nat} {view : StepView} (h : view.Shows invocations states own) :
    noteOf view = noteBefore own := by
  rw [noteOf, h.previousStep, noteBefore]
  split <;> rfl

/-- What the code of an execution does besides asking questions. -/
def workOf (acts : List Act) (place number : Nat) : List Doing :=
  acts.filterMap fun act =>
    if act.scope.strand = place ∧ act.scope.cell = some number ∧ act.doing.isWork = true then
      some act.doing
    else none

theorem exists_append_of_mem {γ : Type} {front back earlier later : List γ} {item : γ}
    (h : front ++ back = earlier ++ later) (hmem : item ∈ earlier) (hnot : item ∉ front) :
    ∃ rest, earlier = front ++ rest := by
  rcases List.append_eq_append_iff.mp h with ⟨rest, hearlier, -⟩ | ⟨rest, hfront, -⟩
  · exact ⟨rest, hearlier⟩
  · exact absurd (hfront ▸ List.mem_append_left rest hmem) hnot

namespace World

variable {chains : List Chain} {acts : List Act} {world : World ChainResult} {place index number : Nat}
  {chain : Chain} {repetition : Invocation}

theorem exists_of_mem_workOf {doing : Doing} (h : doing ∈ workOf acts place number) :
    ∃ act ∈ acts, act.scope.strand = place ∧ act.doing = doing := by
  obtain ⟨act, hact, hsome⟩ := List.mem_filterMap.mp h
  obtain ⟨⟨hstrand, -⟩, heq⟩ := Option.ite_none_right_eq_some.mp hsome
  exact ⟨act, hact, hstrand, Option.some.inj heq⟩

/-! ### The state of its step -/

theorem Known.shows (h : Known chains acts world) {act : Act} (hact : act ∈ acts)
    (hchain : chains[act.scope.strand]? = some chain) (hown : act.scope.step = some index)
    (hlt : index < chain.invocations.length) {view : Option StepView}
    (hdoing : act.doing = .asks .step view) :
    ∃ past future seen, acts = past ++ act :: future ∧ view = some seen ∧
      seen.Shows chain.invocations (written past act.scope.strand) index := by
  obtain ⟨past, future, hacts⟩ := List.append_of_mem hact
  obtain ⟨seen, hsees, hshows⟩ := h.sees past act future hacts chain index hchain hown hlt
  exact ⟨past, future, seen, hacts, (h.answers act hact view hdoing).trans hsees, hshows⟩

/-- What is set in the state of a step of the repetition is set by its initializer, and is the note of
the step before. -/
theorem Known.noted (h : Known chains acts world) (hchain : chains[place]? = some chain)
    (hkept : ∀ fault, Batch.result? world place ≠ some (.error fault))
    (hstep : chain.invocations[index]? = some repetition)
    (hrepetition : repetition.command.IsRepetition) {act : Act} (hact : act ∈ acts)
    (hplace : act.scope.strand = place) (hown : act.scope.step = some index) {name : String}
    {entry : StateEntry} {answer : Bool} (hdoing : act.doing = .asks (.setState name entry) answer) :
    entry = noteBefore index := by
  subst hplace
  obtain ⟨shape, hshape, hinvocations, -, hpath⟩ := h.chain hchain hkept
  have hlt := (List.getElem?_eq_some_iff.mp hstep).1
  have hcell : act.scope.cell = none := by
    cases hcell : act.scope.cell with
    | none => rfl
    | some number =>
        obtain ⟨found, hfound, hruns⟩ := (h.places act hact).runs
        obtain rfl := Option.some.inj (hshape.symm.trans hfound)
        obtain ⟨command, caller, horigin⟩ := hruns.origin hcell
        obtain ⟨cell, hsome, hsame⟩ := exists_cell hshape horigin
        obtain ⟨-, own, hindex, -, -, hcommand⟩ :=
          (h.placed.shapes _ shape hshape).cells number command caller _ horigin
        obtain rfl := Option.some.inj (hown.symm.trans hindex)
        have hcommand := hcommand repetition (hinvocations ▸ hstep) hrepetition
        rw [← (Prod.mk.inj hsame).1] at hcommand
        cases h.asks hact hsome hcommand hcell hdoing
  cases h.places act hact with
  | own rights host =>
      cases host with
      | chain _ _ same =>
          rw [same] at hown
          cases hown
      | execution _ _ _ _ _ _ _ _ same =>
          rw [same] at hcell
          cases hcell
  | call _ _ _ _ _ _ same =>
      rw [same] at hcell
      cases hcell
  | initializer _ _ own _ _ _ same =>
      -- so it is the initializer of that step that sets it
      have hlabel : (some index, act.doing) ∈
          Scope.labels ⟨act.scope.strand, .root, none, none⟩ acts :=
        Scope.mem_labels_iff.mpr ⟨act, hact, ⟨rfl, by rw [same], .inl hcell⟩, by rw [hown]⟩
      obtain ⟨invocation, initializer, doings, result, hfound, hgiven, hplays, hmem, hothers⟩ :=
        hpath.of_initializer hlabel
      obtain rfl := Option.some.inj (hfound.symm.trans hstep)
      obtain rfl := Option.some.inj (hgiven.symm.trans hrepetition.initializer_eq)
      rw [hdoing] at hmem
      cases notes_of_plays hplays with
      | outside | miscounted | repeated => cases List.mem_singleton.mp hmem
      | noted view warnings answer checked previous =>
          have hentry : entry = noteOf view := by
            rcases List.mem_append.mp hmem with hfirst | hlast
            · rcases List.mem_cons.mp hfirst with heq | hwarning
              · cases heq
              · obtain ⟨item, -, heq⟩ := List.mem_map.mp hwarning
                cases heq
            · cases List.mem_singleton.mp hlast
              rfl
          obtain ⟨asker, hasker, ⟨hstrand, -, -⟩, hasked⟩ :=
            Scope.mem_labels_iff.mp (hothers (.asks .step (some view))
              (List.mem_append_left _ List.mem_cons_self))
          obtain ⟨howned, hasks⟩ := Prod.mk.inj hasked
          obtain ⟨past, future, seen, -, hview, hshows⟩ :=
            h.shows hasker (hstrand ▸ hchain) howned hlt hasks
          obtain rfl := Option.some.inj hview
          rw [hentry, hshows.noteOf_eq]

theorem Known.recalls (h : Known chains acts world) (hchain : chains[place]? = some chain)
    (hkept : ∀ fault, Batch.result? world place ≠ some (.error fault))
    (hstep : chain.invocations[index]? = some repetition)
    (hrepetition : repetition.command.IsRepetition) {earlier later : List Act}
    (hacts : acts = earlier ++ later) {writer : Act} (hwriter : writer ∈ earlier)
    (hplace : writer.scope.strand = place) (hown : writer.scope.step = some index)
    {entry : StateEntry} {answer : Bool}
    (hsets : writer.doing = .asks (.setState previousName entry) answer) {act : Act}
    (hact : act ∈ acts) (hlate : act ∉ earlier) (hstrand : act.scope.strand = place)
    (hthere : act.scope.step = some index) {view : Option StepView}
    (hdoing : act.doing = .asks .step view) :
    (view.bind fun view => view.state.get? previousName) = some (noteBefore index) := by
  have hlt := (List.getElem?_eq_some_iff.mp hstep).1
  obtain ⟨past, future, seen, hsplit, rfl, hshows⟩ :=
    h.shows hact (hstrand ▸ hchain) hthere hlt hdoing
  obtain ⟨rest, hpast⟩ : ∃ rest, past = earlier ++ rest := by
    rcases List.append_eq_append_iff.mp (hacts.symm.trans hsplit) with ⟨rest, hpast, -⟩ |
      ⟨rest, hearlier, htail⟩
    · exact ⟨rest, hpast⟩
    · cases rest with
      | nil => exact ⟨[], by rw [hearlier]; simp⟩
      | cons first others =>
          obtain ⟨rfl, -⟩ := List.cons.inj htail
          exact absurd (hearlier ▸ by simp) hlate
  have hmem : writer ∈ past := hpast ▸ List.mem_append_left rest hwriter
  rw [Option.bind_some, hshows.state, hstrand]
  cases hget : (written past place index).get? previousName with
  | none => exact absurd hget (get?_written_ne_none hmem hplace hown hsets)
  | some found =>
      obtain ⟨other, hother, hthis, howner, answer', hset⟩ := exists_of_written hget
      have hin : other ∈ acts := hsplit ▸ List.mem_append_left _ hother
      rw [h.noted hchain hkept hstep hrepetition hin hthis howner hset]

theorem Known.exists_writer (h : Known chains acts world) (hready : IsPrepared chain acts place)
    (hstep : chain.invocations[index]? = some repetition)
    (hrepetition : repetition.command.IsRepetition) {earlier later : List Act}
    (hacts : acts = earlier ++ later) {act : Act} (hact : act ∈ earlier)
    (hstrand : act.scope.strand = place) (hthread : act.scope.thread = .root) {number : Nat}
    {arguments : Arguments} (hbegins : act.doing.beginning? = some (number, arguments)) :
    ∃ writer ∈ earlier, writer.scope.strand = place ∧ writer.scope.step = some index ∧
      ∃ entry answer, writer.doing = .asks (.setState previousName entry) answer := by
  obtain ⟨front, back, hlabels, hinitialized⟩ := hready
  have hin : act ∈ acts := hacts ▸ List.mem_append_left later hact
  obtain ⟨hnone, hwork⟩ : act.doing.question? = none ∧ act.doing.isWork = true := by
    cases hdoing : act.doing with
    | invokes | executes => exact ⟨rfl, rfl⟩
    | _ => simp [hdoing, Doing.beginning?] at hbegins
  have hscope : act.scope = ⟨place, .root, none, none⟩ := by
    obtain ⟨rights, hhost, -⟩ := (h.places act hin).host hnone
    cases hhost with
    | chain _ _ same => rw [same, hstrand]
    | execution _ _ _ _ _ _ _ _ same =>
        rw [same] at hthread
        cases hthread
  have hlabel : (none, act.doing) ∈ Scope.labels ⟨place, .root, none, none⟩ earlier :=
    Scope.mem_labels_iff.mpr ⟨act, hact, ⟨hstrand, hthread, .inl (by rw [hscope])⟩, by rw [hscope]⟩
  -- the initializers begin no execution
  have hnot : (none, act.doing) ∉ front := by
    intro hfront
    have hmem : act.doing ∈ works none front :=
      List.mem_filterMap.mpr ⟨_, hfront, if_pos ⟨rfl, hwork⟩⟩
    rw [hinitialized.did] at hmem
    obtain ⟨other, -, heq⟩ := List.mem_map.mp hmem
    rw [← heq] at hbegins
    cases hbegins
  rw [hacts, Scope.labels_append] at hlabels
  obtain ⟨rest, hearlier⟩ := exists_append_of_mem hlabels.symm hlabel hnot
  have hlt := (List.getElem?_eq_some_iff.mp hstep).1
  obtain ⟨doings, hplays, hall⟩ := hinitialized.plays index (List.mem_range.mpr hlt) repetition _ hstep
    hrepetition.initializer_eq
  cases notes_of_plays hplays with
  | noted view warnings answer checked previous =>
      have hset := hall (.asks (.setState previousName (noteOf view)) answer)
        (List.mem_append_right _ (List.mem_singleton_self _))
      obtain ⟨writer, hwriter, ⟨hplace, -, -⟩, hown⟩ :=
        Scope.mem_labels_iff.mp (hearlier ▸ List.mem_append_left rest hset)
      obtain ⟨hindex, hsets⟩ := Prod.mk.inj hown
      exact ⟨writer, hwriter, hplace, hindex, _, answer, hsets⟩

/-! ### Its executions -/

theorem Known.workOf_eq (h : Known chains acts world) {number : Nat} {cell : Cell}
    (hcell : world.cell? place number = some cell) (hrepetition : cell.command.IsRepetition)
    {shape : Shape ChainResult} (hshape : world.shape? place = some shape) {child : Nat}
    {thread : Thread Value} (hchild : shape.children[child]? = some thread)
    (hthread : thread.cell = some number) (hsame : thread.step = cell.step) :
    workOf acts place number =
      works cell.step (Scope.labels ⟨place, .child child, cell.step, some number⟩ acts) := by
  rw [workOf, works, Scope.labels, List.filterMap_filterMap]
  refine List.filterMap_congr fun act hact => ?_
  by_cases hwork : act.doing.isWork = true
  · have hiff : (act.scope.strand = place ∧ act.scope.cell = some number) ↔
        (act.scope.strand = place ∧ act.scope.thread = .child child ∧
          (act.scope.cell = none ∨ act.scope.cell = some number)) ∧ act.scope.step = cell.step := by
      constructor
      · rintro ⟨rfl, hown⟩
        have hnone : act.doing.question? = none := by
          cases hdoing : act.doing with
          | asks query answer =>
              obtain rfl := h.asks hact hcell hrepetition hown hdoing
              rw [hdoing] at hwork
              cases hwork
          | _ => rfl
        obtain ⟨found, other, thread', hfound, hother, hnumber, hscope⟩ := h.scope_eq hact hown hnone
        obtain rfl := Option.some.inj (hshape.symm.trans hfound)
        obtain rfl := h.recounts.sole _ shape child other thread thread' hshape hchild hother
          (hthread.trans hnumber.symm)
        obtain rfl := Option.some.inj (hchild.symm.trans hother)
        exact ⟨⟨rfl, by rw [hscope], .inr hown⟩, by rw [hscope, hsame]⟩
      · rintro ⟨⟨rfl, hthis, hnone | hown⟩, -⟩
        · -- all code of such a thread belongs to an execution
          cases h.places act hact with
          | own rights host =>
              cases host with
              | chain _ _ same =>
                  rw [same] at hthis
                  cases hthis
              | execution _ _ _ _ _ _ _ _ same =>
                  rw [same] at hnone
                  cases hnone
          | initializer _ _ _ _ _ _ same =>
              rw [same] at hthis
              cases hthis
          | call _ _ _ _ _ _ same =>
              rw [same] at hnone
              cases hnone
        · exact ⟨rfl, hown⟩
    by_cases hown : act.scope.strand = place ∧ act.scope.cell = some number
    · obtain ⟨hlabel, hstep⟩ := hiff.mp hown
      rw [if_pos ⟨hown.1, hown.2, hwork⟩, if_pos hlabel, Option.bind_some, if_pos ⟨hstep, hwork⟩]
    · rw [if_neg fun hall => hown ⟨hall.1, hall.2.1⟩]
      by_cases hlabel : act.scope.strand = place ∧ act.scope.thread = .child child ∧
          (act.scope.cell = none ∨ act.scope.cell = some number)
      · rw [if_pos hlabel, Option.bind_some,
          if_neg fun hall => hown (hiff.mpr ⟨hlabel, hall.1⟩)]
      · rw [if_neg hlabel, Option.bind_none]
  · rw [if_neg fun hall => hwork hall.2.2]
    split
    · rw [Option.bind_some, if_neg fun hall => hwork hall.2]
    · rfl

theorem Known.workOf_eq_nil (h : Known chains acts world) {number : Nat} {cell : Cell}
    (hcell : world.cell? place number = some cell) (hrepetition : cell.command.IsRepetition)
    (hnone : ∀ (shape : Shape ChainResult) (child : Nat) (thread : Thread Value),
      world.shape? place = some shape → shape.children[child]? = some thread →
        thread.cell ≠ some number) : workOf acts place number = [] := by
  refine List.filterMap_eq_nil_iff.mpr fun act hact => if_neg ?_
  rintro ⟨rfl, hown, hwork⟩
  have hdone : act.doing.question? = none := by
    cases hdoing : act.doing with
    | asks query answer =>
        obtain rfl := h.asks hact hcell hrepetition hown hdoing
        rw [hdoing] at hwork
        cases hwork
    | _ => rfl
  obtain ⟨shape, child, thread, hshape, hchild, hthread, -⟩ := h.scope_eq hact hown hdone
  exact hnone shape child thread hshape hchild hthread

theorem Known.not_reports (h : Known chains acts world) {number : Nat} {cell : Cell}
    (hcell : world.cell? place number = some cell) (hrepetition : cell.command.IsRepetition)
    (result : Except Fault Value) : ¬ Reports acts place number result := by
  rintro ⟨act, hact, rfl, hown, hreport⟩
  cases hdoing : act.doing with
  | asks query answer =>
      obtain rfl := h.asks hact hcell hrepetition hown hdoing
      rw [hdoing] at hreport
      cases hreport
  | _ =>
      rw [hdoing] at hreport
      cases hreport

/-- How an execution stands that is to repeat a step as often as a count says: what it has done besides
asking is what its program has done by itself, it has found the note of the step before if it has asked for
its step, and its outcome, once the chain has got it, is the end of that program. -/
structure Performs (invocations : List Invocation) (acts : List Act) (world : World ChainResult)
    (place index number : Nat) (total : Nat) (interval : String) (count : String)
    (labels : List Label) (status : ThreadStatus Value) : Prop where
  read : integerOfText count = .ok (total : Int)
  did : workOf acts place number = works (some index) labels
  moves : Stance.Moves invocations (some index) (.starts (repeatBody count interval)) labels
    (.rests status)
  recalls : ∀ view rest, labels = (some index, .asks .step view) :: rest →
    (view.bind fun view => view.state.get? previousName) = some (noteBefore index)
  ended : ∀ outcome, .yielded outcome ∈ world.past place number →
    ∃ result, status = .finished result ∧ outcome = outcomeOf repeatName result

theorem Known.performs (h : Known chains acts world) (hchain : chains[place]? = some chain)
    (hkept : ∀ fault, Batch.result? world place ≠ some (.error fault))
    (hready : IsPrepared chain acts place) (hstep : chain.invocations[index]? = some repetition)
    (hrepetition : repetition.command.IsRepetition) {total : Nat} {interval : String}
    (hcounts : repetition.arguments.Counts total interval) {act : Act} (hact : act ∈ acts)
    (hstrand : act.scope.strand = place) (hroot : act.scope.thread = .root) {number : Nat}
    (hdoing : act.doing = .executes number index repetition.command repetition.arguments) :
    ∃ count labels status, Performs chain.invocations acts world place index number total interval
      count labels status := by
  subst hstrand
  obtain ⟨cell, hcell, horigin⟩ := h.executed hact hdoing
  obtain ⟨hcommand, hcaller, hown⟩ : cell.command = repetition.command ∧ cell.caller = .root ∧
      cell.step = some index := by
    rw [hroot] at horigin
    exact ⟨(Prod.mk.inj horigin).1, Prod.mk.inj (Prod.mk.inj horigin).2⟩
  have hsame : cell.command.IsRepetition := hcommand ▸ hrepetition
  obtain ⟨count, hcount, hgives⟩ := hcounts.gives hsame
  have hbegins : act.doing.beginning? = some (number, repetition.arguments) := by rw [hdoing]; rfl
  have hcalled := (h.called hact hcell hbegins).1 (hcounts.accepts hsame)
  have hended := fun outcome => @Known.ended chains acts world act.scope.strand number h cell hcell
    repetition.arguments hcalled (fun doings result hplays => ⟨_, _, hgives doings result hplays⟩)
    (h.not_reports hcell hsame) outcome
  by_cases hthere : ∃ (shape : Shape ChainResult) (child : Nat) (thread : Thread Value),
      world.shape? act.scope.strand = some shape ∧ shape.children[child]? = some thread ∧
        thread.cell = some number
  · obtain ⟨shape, child, thread, hshape, hchild, hthread⟩ := hthere
    have hfree : ¬ world.IsLost (fun _ _ => False) act.scope.strand cell.caller :=
      hcaller ▸ not_isLost_root hkept
    obtain ⟨hplaced, doings, started, body, hplays, hbirth, hmoves⟩ :=
      h.body hshape hchild hthread hcell hcalled hfree
    obtain ⟨-, rfl⟩ := Reply.awaitable.inj (Except.ok.inj (hgives _ _ hplays))
    obtain ⟨found, hfound, hinvocations⟩ := h.strand _ chain hchain
    obtain rfl := Option.some.inj (hshape.symm.trans hfound)
    refine ⟨count, _, thread.status, hcount, ?_, by rwa [hinvocations, hown] at hmoves,
      fun view rest hlabels => ?_, fun outcome hyielded => ?_⟩
    · rw [h.workOf_eq hcell hsame hshape hchild hthread hplaced, hown]
    · obtain ⟨earlier, later, hacts, ⟨begun, hbegun, hplace, hfirst⟩, hnothing⟩ := hbirth
      have hlabel : (some index, Doing.asks .step view) ∈
          Scope.labels ⟨act.scope.strand, .child child, some index, some number⟩ acts := by
        rw [hlabels]
        exact List.mem_cons_self
      obtain ⟨asker, hasker, hscope, hasked⟩ := Scope.mem_labels_iff.mp hlabel
      obtain ⟨hindex, hasks⟩ := Prod.mk.inj hasked
      have hlate : asker ∉ earlier := by
        intro hearly
        rw [hown] at hnothing
        exact List.not_mem_nil (hnothing ▸ Scope.mem_labels_iff.mpr ⟨asker, hearly, hscope, rfl⟩)
      have hexecution : begun.doing.execution? = some number := by
        cases hkind : begun.doing with
        | invokes other command arguments | executes other index command arguments =>
            rw [hkind] at hfirst
            exact congrArg some (Prod.mk.inj (Option.some.inj hfirst)).1
        | _ => simp [hkind, Doing.beginning?] at hfirst
      have hthis : begun.scope.thread = .root := by
        have hin : begun ∈ acts := hacts ▸ List.mem_append_left later hbegun
        rw [← hroot]
        exact (h.places act hact).thread_eq (h.places begun hin) (by rw [hdoing]; rfl) hexecution hplace
      obtain ⟨writer, hwriter, hstrand, hthere, entry, answer, hsets⟩ :=
        h.exists_writer hready hstep hrepetition hacts hbegun hplace hthis hfirst
      exact h.recalls hchain hkept hstep hrepetition hacts hwriter hstrand hthere hsets hasker hlate
        hscope.1 hindex hasks
    · obtain ⟨shape', child', thread', result, hshape', hchild', hthread', hstatus, houtcome⟩ :=
        hended outcome hyielded
      obtain rfl := Option.some.inj (hshape.symm.trans hshape')
      obtain rfl := h.recounts.sole _ shape child child' thread thread' hshape hchild hchild'
        (hthread.trans hthread'.symm)
      obtain rfl := Option.some.inj (hchild.symm.trans hchild')
      exact ⟨result, hstatus, by rw [houtcome, hsame.name_eq]⟩
  · refine ⟨count, [], _, hcount, ?_, .refl _, (fun _ _ h => by cases h), fun outcome hyielded => ?_⟩
    · exact h.workOf_eq_nil hcell hsame fun shape child thread hshape hchild hthread =>
        hthere ⟨shape, child, thread, hshape, hchild, hthread⟩
    · obtain ⟨shape, child, thread, -, hshape, hchild, hthread, -⟩ := hended outcome hyielded
      exact absurd ⟨shape, child, thread, hshape, hchild, hthread⟩ hthere

end World

end Cascade
