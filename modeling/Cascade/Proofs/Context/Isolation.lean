import Cascade.Proofs.Batch.Course
import Cascade.Proofs.Context.Confined
import Cascade.Proofs.Context.Turns
import Cascade.Proofs.Execution.Origin
import Cascade.Proofs.Trace.States

/-!
Isolation of the steps. Whatever chains run side by side, and however their turns interleave: code sees
as its step the step that it belongs to, with the state that the code of this step alone has made in
this run, and the execution of another command does not change which step that is.
-/

namespace Cascade

open Library.System

/-- Whose code runs in a scope: the program of a chain outside all steps, the initializer of a step in
that step, and the call of a command, or the thread for what the call gave to wait for, in the step of
the execution. -/
inductive Shape.Runs {α : Type} (shape : Shape α) : Scope → Prop
  | chain (place : Nat) : Runs shape ⟨place, .root, none, none⟩
  | initializer (place index : Nat) (invocation : Invocation)
      (step : shape.invocations[index]? = some invocation)
      (initialized : invocation.command.initializer.isSome = true) :
      Runs shape ⟨place, .root, some index, none⟩
  | call (place number : Nat) (command : Command) (caller : ThreadId) (index : Nat)
      (origin : shape.cells[number]? = some (command, caller, some index)) :
      Runs shape ⟨place, caller, some index, some number⟩
  | body (place child : Nat) (thread : Thread Value) (number : Nat) (command : Command)
      (caller : ThreadId) (index : Nat) (started : shape.children[child]? = some thread)
      (cell : thread.cell = some number)
      (origin : shape.cells[number]? = some (command, caller, some index)) :
      Runs shape ⟨place, .child child, some index, some number⟩

/-- The code of an execution runs in the step of the execution. -/
theorem Shape.Runs.origin {α : Type} {shape : Shape α} {scope : Scope} (h : shape.Runs scope)
    {number : Nat} (hcell : scope.cell = some number) :
    ∃ command caller, shape.cells[number]? = some (command, caller, scope.step) := by
  cases h with
  | chain place => cases hcell
  | initializer place index invocation step initialized => cases hcell
  | call place other command caller index origin =>
      obtain rfl := Option.some.inj hcell
      exact ⟨command, caller, origin⟩
  | body place child thread other command caller index started cell origin =>
      obtain rfl := Option.some.inj hcell
      exact ⟨command, caller, origin⟩

theorem Shape.Runs.lt_length {α : Type} {noted : Nat → Nat → Prop} {shape : Shape α} {scope : Scope}
    (h : shape.Runs scope) (hplaced : shape.Placed noted) {index : Nat}
    (hstep : scope.step = some index) : index < shape.invocations.length := by
  have hexecuted : ∀ (number : Nat) command caller,
      shape.cells[number]? = some (command, caller, some index) →
        index < shape.invocations.length := by
    intro number command caller horigin
    obtain ⟨-, found, hfound, hlt, -⟩ := hplaced.cells number command caller _ horigin
    exact Option.some.inj hfound ▸ hlt
  cases h with
  | chain place => cases hstep
  | initializer place other invocation step initialized =>
      obtain rfl := Option.some.inj hstep
      exact (List.getElem?_eq_some_iff.mp step).1
  | call place number command caller other origin =>
      obtain rfl := Option.some.inj hstep
      exact hexecuted number command caller origin
  | body place child thread number command caller other started cell origin =>
      obtain rfl := Option.some.inj hstep
      exact hexecuted number command caller origin

/-- Code of a step notes another step as the one before. -/
def Noted (acts : List Act) (place own index : Nat) : Prop :=
  ∃ act ∈ acts, act.scope.strand = place ∧ act.scope.step = some own ∧
    ∃ answer, act.doing = .asks (.setState previousName (.step index)) answer

namespace World

/-- The acts of a run of chains in which every step is isolated. -/
structure Isolates (chains : List Chain) (acts : List Act) (world : World ChainResult) : Prop where
  /-- The strands are those of the chains. -/
  strands : ∀ place shape, world.shape? place = some shape →
    ∃ chain, chains[place]? = some chain ∧ shape.invocations = chain.invocations
  /-- All code runs in the step that it belongs to. -/
  runs : ∀ act ∈ acts, ∃ shape, world.shape? act.scope.strand = some shape ∧ shape.Runs act.scope
  /-- A command is executed in a step by the chain at that step, in the step of its caller, or by the
  repetition in the step that is noted in the state of its own step. -/
  lineage : ∀ place (shape : Shape ChainResult), world.shape? place = some shape →
    ∀ (number : Nat) command caller step, shape.cells[number]? = some (command, caller, step) →
      ∃ index, step = some index ∧ shape.Lineage (Noted acts place) command index caller
  /-- In a step of the repetition no other step than the one before is noted. -/
  noted : ∀ place chain own index invocation, chains[place]? = some chain →
    chain.invocations[own]? = some invocation → invocation.command.IsRepetition →
      Noted acts place own index → index + 1 = own
  /-- Code of a step sees that step of its chain, with the states that the acts so far have made. -/
  sees : ∀ past act future, acts = past ++ act :: future → ∀ index, act.scope.step = some index →
    ∃ chain view, chains[act.scope.strand]? = some chain ∧ act.sees = some view ∧
      view.Shows chain.invocations (written past act.scope.strand) index
  /-- Code outside all steps sees none. -/
  unseen : ∀ act ∈ acts, act.scope.step = none → act.sees = none
  /-- Code that asks for its step gets what it sees. -/
  answers : ∀ act ∈ acts, ∀ view, act.doing = .asks .step view → view = act.sees
  /-- The own code of a thread always runs in the same scope, whatever it has had executed. -/
  keeps : ∀ first ∈ acts, ∀ second ∈ acts, second.scope.strand = first.scope.strand →
    second.scope.thread = first.scope.thread → first.doing.question? = none →
      second.doing.question? = none → second.scope = first.scope
  /-- The code that has begun an execution is again where it was when it gets the outcome. -/
  returns : ∀ begun ∈ acts, ∀ ended ∈ acts, ∀ number outcome,
    begun.doing.execution? = some number → ended.doing = .gets number outcome →
      ended.scope.strand = begun.scope.strand → ended.scope = begun.scope
  /-- The code of an execution stays in one step. -/
  stays : ∀ first ∈ acts, ∀ second ∈ acts, ∀ number, second.scope.strand = first.scope.strand →
    first.scope.cell = some number → second.scope.cell = some number →
      second.scope.step = first.scope.step

variable {surroundings : Surroundings} {calls : Entries Nat} {chains : List Chain}

/-- The beginning of a run of chains. -/
abbrev startOf (surroundings : Surroundings) (calls : Entries Nat) (chains : List Chain) :
    World ChainResult :=
  World.start surroundings calls
    (chains.map fun chain => Strand.start chain.invocations chain.routine)

theorem course_of_start (exitOnError : Bool) (fuel : Nat) :
    Course (startOf surroundings calls chains)
      ((Batch.start surroundings exitOnError calls chains).acts fuel)
      ((Batch.start surroundings exitOnError calls chains).settle fuel).world := by
  have hstart : Course (startOf surroundings calls chains) []
      (Batch.start surroundings exitOnError calls chains).world := by
    rw [Batch.start]
    split
    · exact Batch.course_writeLines ..
    · exact .start
  exact hstart.trans (Batch.course_settle fuel _)

theorem strand?_startOf (place : Nat) :
    (startOf surroundings calls chains).strand? place =
      (chains[place]?).map fun chain => Strand.start chain.invocations chain.routine :=
  List.getElem?_map ..

theorem Placed.startOf (noted : Nat → Nat → Nat → Prop)
    (hregistry : ∀ command ∈ surroundings.registry.commands,
      command.IsRepetition ∨ command.IsConfined)
    (hchains : ∀ chain ∈ chains, ∀ invocation ∈ chain.invocations,
      invocation.command.IsRepetition ∨ invocation.command.IsConfined) :
    (startOf surroundings calls chains).Placed noted := by
  refine ⟨fun name command hlookup => ?_, fun place shape hshape => ?_⟩
  · rw [Registry.lookup] at hlookup
    split at hlookup
    · rename_i found hfound
      obtain rfl := Except.ok.inj hlookup
      exact hregistry _ (List.mem_of_find?_eq_some hfound)
    · cases hlookup
  · rw [shape?, strand?_startOf] at hshape
    cases hchain : chains[place]? with
    | none => simp [hchain] at hshape
    | some chain =>
        rw [hchain] at hshape
        obtain rfl := Option.some.inj hshape
        exact ⟨hchains chain (List.mem_of_getElem? hchain), ⟨rfl, rfl, chain.minds_routine⟩,
          (fun _ _ h => by cases h), fun _ _ _ _ h => by cases h⟩

theorem Lawful.startOf (surroundings : Surroundings) (calls : Entries Nat) (chains : List Chain) :
    (startOf surroundings calls chains).Lawful := by
  refine Lawful.start surroundings calls fun strand hmem => ?_
  obtain ⟨chain, -, rfl⟩ := List.mem_map.mp hmem
  exact ⟨rfl, rfl, chain.routine, rfl⟩

theorem startOf_eq (surroundings : Surroundings) (calls : Entries Nat) (chains : List Chain) :
    startOf surroundings calls chains = World.start surroundings calls
      ((chains.map fun chain => (chain.invocations, chain.routine)).map fun program =>
        Strand.start program.1 program.2) := by
  rw [List.map_map]
  rfl

theorem getElem?_programs {place : Nat} {chain : Chain} (h : chains[place]? = some chain) :
    (chains.map fun chain => (chain.invocations, chain.routine))[place]? =
      some (chain.invocations, chain.routine) := by
  rw [List.getElem?_map, h]
  rfl

section Seen

variable {acts past future : List Act} {act : Act} {world : World ChainResult}

theorem pages_startOf (surroundings : Surroundings) (calls : Entries Nat) (chains : List Chain)
    (place : Nat) :
    (startOf surroundings calls chains).imprint.pages[place]? =
      (chains[place]?).map fun chain =>
        (chain.invocations, chain.invocations.map fun _ => []) := by
  rw [show (startOf surroundings calls chains).imprint.pages =
    (startOf surroundings calls chains).pages from rfl, getElem?_pages, strand?_startOf,
    Option.map_map]
  rfl

theorem Course.shows (h : Course (startOf surroundings calls chains) acts world)
    (hacts : acts = past ++ act :: future) {chain : Chain}
    (hchain : chains[act.scope.strand]? = some chain) {index : Nat}
    (hstep : act.scope.step = some index) (hlt : index < chain.invocations.length) :
    ∃ view, act.sees = some view ∧
      view.Shows chain.invocations (written past act.scope.strand) index := by
  have hpage := pages_startOf surroundings calls chains act.scope.strand
  rw [hchain, Option.map_some] at hpage
  subst hacts
  rw [h.tells.follows.sees]
  refine Imprint.exists_view hstep ?_ hlt fun other hother => ?_
  · rw [Imprint.outline?_foldl, Imprint.outline?, hpage, Option.map_some, List.length_map]
  · rw [Imprint.state?_foldl, Imprint.state?, hpage, Option.bind_some,
      List.getElem?_map, List.getElem?_eq_getElem hother]
    rfl

theorem Course.isHonest (h : Course (startOf surroundings calls chains) acts world)
    (hact : act ∈ acts) : act.IsHonest (Noted acts) := by
  intro view index other hsees hstep hnote
  obtain ⟨past, future, hacts⟩ := List.append_of_mem hact
  have hview : Imprint.view? _ act.scope = some view :=
    (hacts ▸ h.tells).follows.sees.symm.trans hsees
  obtain ⟨outline, houtline, hlt⟩ := Imprint.bound_of_view? hview hstep
  rw [Imprint.outline?_foldl, Imprint.outline?, pages_startOf, Option.map_map] at houtline
  obtain ⟨chain, hchain, rfl⟩ := Option.map_eq_some_iff.mp houtline
  obtain ⟨seen, hseen, hshows⟩ := h.shows hacts hchain hstep hlt
  obtain rfl := Option.some.inj (hseen.symm.trans hsees)
  rw [hshows.state] at hnote
  obtain ⟨writer, hwriter, hplace, hown, hdoing⟩ := exists_of_written hnote
  exact ⟨writer, hacts ▸ List.mem_append_left _ hwriter, hplace, hown, hdoing⟩

theorem Course.exists_chain (h : Course (startOf surroundings calls chains) acts world)
    {place : Nat} {shape : Shape ChainResult} (hshape : world.shape? place = some shape) :
    ∃ chain, chains[place]? = some chain ∧ shape.invocations = chain.invocations := by
  obtain ⟨strand, hstrand, rfl⟩ := Option.map_eq_some_iff.mp hshape
  have hlast : world.imprint.outline? place =
      (startOf surroundings calls chains).imprint.outline? place := by
    rw [h.tells.foldl, Imprint.outline?_foldl]
  have hpage : world.imprint.pages[place]? = some (strand.invocations, strand.states) :=
    (world.getElem?_pages place).trans (by rw [hstrand, Option.map_some])
  rw [Imprint.outline?, hpage, Option.map_some, Imprint.outline?, pages_startOf,
    Option.map_map] at hlast
  obtain ⟨chain, hchain, hsame⟩ := Option.map_eq_some_iff.mp hlast.symm
  exact ⟨chain, hchain, (Prod.mk.inj hsame).1.symm⟩

theorem Course.lawful (h : Course (startOf surroundings calls chains) acts world) : world.Lawful :=
  (Lawful.startOf surroundings calls chains).reaches h.reaches

theorem Course.isAttested (h : Course (startOf surroundings calls chains) acts world) :
    world.IsAttested :=
  IsAttested.reaches (fun _ h => by cases h) (Lawful.startOf surroundings calls chains) h.reaches

theorem Course.inPhase (h : Course (startOf surroundings calls chains) acts world) {place : Nat}
    {chain : Chain} (hchain : chains[place]? = some chain) : chain.InPhase place world := by
  refine Chain.InPhase.reaches ?_ h.reaches
  rw [startOf_eq]
  exact .start (getElem?_programs hchain)

theorem Course.exists_chain_of_result (h : Course (startOf surroundings calls chains) acts world)
    {place : Nat} {ended : Except Fault ChainResult}
    (hresult : Batch.result? world place = some ended) : ∃ chain, chains[place]? = some chain := by
  obtain ⟨strand, hstrand, -⟩ := Option.bind_eq_some_iff.mp hresult
  have hshape : world.shape? place = some strand.shape := by rw [shape?, hstrand]; rfl
  obtain ⟨chain, hchain, -⟩ := h.exists_chain hshape
  exact ⟨chain, hchain⟩

end Seen

section Places

variable {world : World ChainResult} {noted : Nat → Nat → Nat → Prop} {act other : Act}

theorem Places.notes (h : world.Places noted act) (hplaced : world.Placed noted)
    {shape : Shape ChainResult}
    (hshape : world.shape? act.scope.strand = some shape) {own index : Nat}
    (hstep : act.scope.step = some own) {invocation : Invocation}
    (hinvocation : shape.invocations[own]? = some invocation)
    (hrepetition : invocation.command.IsRepetition) {answer : Bool}
    (hdoing : act.doing = .asks (.setState previousName (.step index)) answer) :
    index + 1 = own := by
  -- The repetition itself asks for nothing but its step.
  have hnot : ∀ {number : Nat} {command : Command} {caller : ThreadId},
      shape.cells[number]? = some (command, caller, some own) →
        ¬ (Rights.ofCommand command (noted act.scope.strand own) own).asks
          (.setState previousName (.step index)) := by
    intro number command caller horigin hasks
    obtain ⟨-, found, hfound, -, -, hsame⟩ :=
      (hplaced.shapes _ shape hshape).cells number command caller _ horigin
    obtain rfl := Option.some.inj hfound
    cases hasks (hsame invocation hinvocation hrepetition)
  cases h with
  | own rights host allowed =>
      rw [hdoing] at allowed
      cases host with
      | chain other found same =>
          rw [same] at hstep
          cases hstep
      | execution other found child thread number command caller step same started hown cell origin =>
          obtain rfl := Option.some.inj (found.symm.trans hshape)
          rw [same] at hstep
          obtain rfl := Option.some.inj hstep
          exact absurd allowed (hnot origin)
  | initializer other found step written initial initialized same query answer doing allowed =>
      obtain rfl := Option.some.inj (found.symm.trans hshape)
      rw [same] at hstep
      obtain rfl := Option.some.inj hstep
      obtain rfl := Option.some.inj (initial.symm.trans hinvocation)
      rw [doing] at hdoing
      injection hdoing with hquery
      exact (allowed hrepetition _ _ hquery).2 index rfl
  | call other found number command step origin same query answer doing allowed =>
      obtain rfl := Option.some.inj (found.symm.trans hshape)
      rw [same] at hstep
      obtain rfl := Option.some.inj hstep
      rw [doing] at hdoing
      injection hdoing with hquery
      exact absurd (hquery ▸ allowed) (hnot origin)

theorem Places.runs (h : world.Places noted act) :
    ∃ shape, world.shape? act.scope.strand = some shape ∧ shape.Runs act.scope := by
  cases h with
  | own rights host allowed =>
      cases host with
      | chain shape found same => exact ⟨shape, found, same ▸ .chain act.scope.strand⟩
      | execution shape found child thread number command caller index same started step cell
          origin =>
          refine ⟨shape, found, ?_⟩
          rw [same]
          exact .body act.scope.strand child thread number command caller index started cell origin
  | initializer shape found index invocation step initialized same =>
      refine ⟨shape, found, ?_⟩
      rw [same]
      exact .initializer act.scope.strand index invocation step initialized
  | call shape found number command index origin same =>
      refine ⟨shape, found, ?_⟩
      rw [same]
      exact .call act.scope.strand number command act.scope.thread index origin

theorem Hosts.scope_eq {scope next : Scope} {rights others : Rights}
    (h : world.Hosts noted scope rights) (k : world.Hosts noted next others)
    (hstrand : next.strand = scope.strand) (hthread : next.thread = scope.thread) : next = scope := by
  cases h with
  | chain shape found same =>
      cases k with
      | chain shape' found' same' => rw [same, same', hstrand]
      | execution shape' found' child thread number command caller index same' =>
          rw [same, same'] at hthread
          cases hthread
  | execution shape found child thread number command caller index same started step cell origin =>
      cases k with
      | chain shape' found' same' =>
          rw [same, same'] at hthread
          cases hthread
      | execution shape' found' child' thread' number' command' caller' index' same' started' step'
          cell' origin' =>
          obtain rfl : child' = child := by
            rw [same, same'] at hthread
            exact ThreadId.child.inj hthread
          rw [hstrand] at found'
          obtain rfl := Option.some.inj (found.symm.trans found')
          obtain rfl := Option.some.inj (started.symm.trans started')
          obtain rfl := Option.some.inj (cell.symm.trans cell')
          obtain rfl := Option.some.inj (step.symm.trans step')
          rw [same, same', hstrand]

theorem Places.host (h : world.Places noted act) (hnone : act.doing.question? = none) :
    ∃ rights, world.Hosts noted act.scope rights ∧
      ∃ shape, world.shape? act.scope.strand = some shape ∧
        ∀ number, act.doing.execution? = some number →
          ∃ command step, shape.cells[number]? = some (command, act.scope.thread, step) := by
  cases h with
  | own rights host allowed shape found asked executed => exact ⟨rights, host, shape, found, asked⟩
  | initializer _ _ _ _ _ _ _ query answer doing =>
      rw [doing] at hnone
      cases hnone
  | call _ _ _ _ _ _ _ query answer doing =>
      rw [doing] at hnone
      cases hnone

theorem Places.thread_eq (h : world.Places noted act) (k : world.Places noted other) {number : Nat}
    (hact : act.doing.execution? = some number) (hother : other.doing.execution? = some number)
    (hstrand : other.scope.strand = act.scope.strand) : other.scope.thread = act.scope.thread := by
  obtain ⟨-, -, shape, hshape, hasked⟩ := h.host (Doing.question?_of_execution? hact)
  obtain ⟨-, -, shape', hshape', hasked'⟩ := k.host (Doing.question?_of_execution? hother)
  obtain ⟨command, step, horigin⟩ := hasked number hact
  obtain ⟨command', step', horigin'⟩ := hasked' number hother
  rw [hstrand] at hshape'
  obtain rfl := Option.some.inj (hshape.symm.trans hshape')
  have horigins := Option.some.inj (horigin'.symm.trans horigin)
  exact (Prod.mk.inj (Prod.mk.inj horigins).2).1

end Places

/-- In every run of chains whose commands execute others by their names only, every step is isolated:
all jobs may come in any order, and any chain may be given up at any time. -/
theorem isolates_of_course (surroundings : Surroundings) (calls : Entries Nat) (tokens : List String)
    (hcommands : ∀ command ∈ surroundings.registry.commands,
      command.IsRepetition ∨ command.IsConfined) {acts : List Act} {world : World ChainResult}
    (h : Course (startOf surroundings calls (Engine.chainsOf surroundings.registry tokens)) acts
      world) :
    Isolates (Engine.chainsOf surroundings.registry tokens) acts world := by
  have hplaced : (startOf surroundings calls
      (Engine.chainsOf surroundings.registry tokens)).Placed (Noted acts) :=
    .startOf _ hcommands fun chain hchain invocation hinvocation =>
      hcommands _ (Engine.command_mem_of_chainsOf hchain invocation hinvocation)
  obtain ⟨⟨hend, hgrows⟩, hplaces⟩ :=
    h.keeping hplaced (.startOf ..) fun act hact => h.isHonest hact
  have hlength : ∀ act ∈ acts, ∀ index, act.scope.step = some index →
      ∃ chain, (Engine.chainsOf surroundings.registry tokens)[act.scope.strand]? = some chain ∧
        index < chain.invocations.length := by
    intro act hact index hstep
    obtain ⟨shape, hshape, hruns⟩ := (hplaces act hact).runs
    obtain ⟨chain, hchain, hsame⟩ := h.exists_chain hshape
    exact ⟨chain, hchain, hsame ▸ hruns.lt_length (hend.shapes _ shape hshape) hstep⟩
  have hkeeps : ∀ first ∈ acts, ∀ second ∈ acts, second.scope.strand = first.scope.strand →
      second.scope.thread = first.scope.thread → first.doing.question? = none →
        second.doing.question? = none → second.scope = first.scope := by
    intro first hfirst second hsecond hstrand hthread hnone hother
    obtain ⟨rights, host, -⟩ := (hplaces first hfirst).host hnone
    obtain ⟨others, next, -⟩ := (hplaces second hsecond).host hother
    exact host.scope_eq next hstrand hthread
  exact {
    strands := fun place shape hshape => h.exists_chain hshape
    runs := fun act hact => (hplaces act hact).runs
    lineage := fun place shape hshape number command caller step hcell => by
      obtain ⟨-, index, hstep, -, hlineage, -⟩ :=
        (hend.shapes place shape hshape).cells number command caller step hcell
      exact ⟨index, hstep, hlineage⟩
    noted := fun place chain own index invocation hchain hinvocation hrepetition hnoted => by
      obtain ⟨act, hact, rfl, hstep, answer, hdoing⟩ := hnoted
      obtain ⟨shape, hshape, -⟩ := (hplaces act hact).runs
      obtain ⟨other, hother, hsame⟩ := h.exists_chain hshape
      obtain rfl := Option.some.inj (hother.symm.trans hchain)
      exact (hplaces act hact).notes hend hshape hstep (hsame ▸ hinvocation) hrepetition hdoing
    sees := fun past act future hacts index hstep => by
      obtain ⟨chain, hchain, hlt⟩ := hlength act (hacts ▸ by simp) index hstep
      obtain ⟨view, hsees, hshows⟩ := h.shows hacts hchain hstep hlt
      exact ⟨chain, view, hchain, hsees, hshows⟩
    unseen := fun act hact hstep => by
      obtain ⟨past, future, hacts⟩ := List.append_of_mem hact
      have hfollows : act.Follows _ := (hacts ▸ h.tells).follows
      rw [hfollows.sees, Imprint.view?, hstep]
      rfl
    answers := fun act hact => by
      obtain ⟨past, future, hacts⟩ := List.append_of_mem hact
      exact (hacts ▸ h.tells).follows.answer
    keeps := hkeeps
    returns := fun begun hbegun ended hended number outcome hbegins hends hstrand => by
      have hgets : ended.doing.execution? = some number := by rw [hends]; rfl
      exact hkeeps begun hbegun ended hended hstrand
        ((hplaces begun hbegun).thread_eq (hplaces ended hended) hbegins hgets hstrand)
        (Doing.question?_of_execution? hbegins) (Doing.question?_of_execution? hgets)
    stays := fun first hfirst second hsecond number hstrand hcell hsame => by
      obtain ⟨shape, hshape, hruns⟩ := (hplaces first hfirst).runs
      obtain ⟨other, hother, hnext⟩ := (hplaces second hsecond).runs
      rw [hstrand] at hother
      obtain rfl := Option.some.inj (hshape.symm.trans hother)
      obtain ⟨command, caller, horigin⟩ := hruns.origin hcell
      obtain ⟨command', caller', horigin'⟩ := hnext.origin hsame
      have horigins := Option.some.inj (horigin'.symm.trans horigin)
      exact (Prod.mk.inj (Prod.mk.inj horigins).2).2 }

/-! ### The built-in commands -/

/-- The built-in commands and nothing else. -/
def builtIn : Surroundings :=
  ⟨⟨drafts.filterMap fun draft => (draft.toCommand "sys").toOption, []⟩, false, "", false, .empty⟩

theorem isConfined_of_builtIn {command : Command} (h : command ∈ builtIn.registry.commands) :
    command.IsRepetition ∨ command.IsConfined := by
  obtain ⟨draft, hdraft, hcommand⟩ := List.mem_filterMap.mp h
  cases hmade : draft.toCommand "sys" with
  | error fault =>
      rw [hmade] at hcommand
      cases hcommand
  | ok made =>
      rw [hmade] at hcommand
      obtain rfl := Option.some.inj hcommand
      exact Library.System.isConfined_of_mem hdraft hmade

def builtInBatch (tokens : List String) : Batch :=
  Batch.start builtIn false [] (Engine.chainsOf builtIn.registry tokens)

/-- A pause that is repeated beside another one: every step is isolated, and the second pause of the
first chain sees the same step as the first. -/
theorem builtInBatch_isolates :
    (∀ command ∈ builtIn.registry.commands, command.IsRepetition ∨ command.IsConfined) ∧
      Isolates (Engine.chainsOf builtIn.registry ["delay(0) * repeat(2)", "delay(0)"])
        ((builtInBatch ["delay(0) * repeat(2)", "delay(0)"]).acts 30)
        ((builtInBatch ["delay(0) * repeat(2)", "delay(0)"]).settle 30).world ∧
      (((builtInBatch ["delay(0) * repeat(2)", "delay(0)"]).acts 30).filter fun act =>
        act.doing.pause?.isSome).map
          (fun act => (act.scope.strand, act.scope.thread, act.sees.map StepView.index)) =
        [(0, .child 0, some 0), (1, .child 0, some 0), (0, .child 2, some 0)] := by
  refine ⟨fun command h => isConfined_of_builtIn h, ?_, by decide +kernel⟩
  exact isolates_of_course builtIn [] ["delay(0) * repeat(2)", "delay(0)"]
    (fun command h => isConfined_of_builtIn h) (course_of_start false 30)

end World

end Cascade
