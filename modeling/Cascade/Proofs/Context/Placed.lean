import Cascade.Proofs.Context.Shapes
import Cascade.Proofs.Execution.FirstOutcome
import Cascade.Proofs.Trace.Imprint

/-!
Every act of a run is done where it belongs: by the program of a chain, by the initializer of a step
in that step, or by an execution in the step of the execution. A turn of a thread keeps every thread
and every execution in its place, and adds acts that are in theirs.
-/

namespace Cascade

open Library.System

/-- What code with certain rights may do. -/
def Rights.Allows (rights : Rights) : Doing → Prop
  | .asks query _ => rights.asks query
  | .invokes _ _ _ => rights.invokes
  | .prepares _ _ => rights.prepares
  | .executes _ index _ _ => rights.executes index
  | _ => True

/-- The execution that an act begins, or of which it gets the outcome. -/
def Doing.execution? : Doing → Option Nat
  | .invokes number _ _ | .executes number _ _ _ | .gets number _ => some number
  | _ => none

theorem Doing.question?_of_execution? {doing : Doing} {number : Nat}
    (h : doing.execution? = some number) : doing.question? = none := by
  cases doing <;> first | rfl | cases h

/-- An act that sees as noted in the state of its step nothing but what is noted there. -/
def Act.IsHonest (noted : Nat → Nat → Nat → Prop) (act : Act) : Prop :=
  ∀ view index other, act.sees = some view → act.scope.step = some index →
    view.state.get? previousName = some (.step other) → noted act.scope.strand index other

namespace World

variable {α : Type}

/-- Every thread and every execution of every strand is where it belongs. -/
structure Placed (noted : Nat → Nat → Nat → Prop) (world : World α) : Prop where
  registered : ∀ name command, world.surroundings.registry.lookup name = .ok command →
    command.IsRepetition ∨ command.IsConfined
  shapes : ∀ place shape, world.shape? place = some shape → shape.Placed (noted place)

/-- The strands stay, and so do their invocations, threads and executions. -/
def Grows (before after : World α) : Prop :=
  ∀ place shape, before.shape? place = some shape →
    ∃ later, after.shape? place = some later ∧ shape.Grows later

/-- A change after which everything is still where it belongs. -/
structure Evolves (noted : Nat → Nat → Nat → Prop) (before after : World α) : Prop where
  placed : after.Placed noted
  grows : Grows before after

/-- The code at a turn, by its rights: the program of a chain, or the code of an execution in the step
of the execution. -/
inductive Hosts (noted : Nat → Nat → Nat → Prop) (world : World α) (scope : Scope) : Rights → Prop
  | chain (shape : Shape α) (found : world.shape? scope.strand = some shape)
      (same : scope = ⟨scope.strand, .root, none, none⟩) : Hosts noted world scope .chain
  | execution (shape : Shape α) (found : world.shape? scope.strand = some shape) (child : Nat)
      (thread : Thread Value) (number : Nat) (command : Command) (caller : ThreadId) (index : Nat)
      (same : scope = ⟨scope.strand, .child child, some index, some number⟩)
      (started : shape.children[child]? = some thread) (step : thread.step = some index)
      (cell : thread.cell = some number)
      (origin : shape.cells[number]? = some (command, caller, some index)) :
      Hosts noted world scope (.ofCommand command (noted scope.strand index) index)

/-- An act is done where it belongs: by the code of a thread, by the initializer of a step, or by the
call of a command. An execution that an act of a thread begins or gets the outcome of is one that the
thread asked for. -/
inductive Places (noted : Nat → Nat → Nat → Prop) (world : World α) (act : Act) : Prop
  | own (rights : Rights) (host : world.Hosts noted act.scope rights)
      (allowed : rights.Allows act.doing) (shape : Shape α)
      (found : world.shape? act.scope.strand = some shape)
      (asked : ∀ number, act.doing.execution? = some number →
        ∃ command step, shape.cells[number]? = some (command, act.scope.thread, step))
      (executed : ∀ number index command arguments,
        act.doing = .executes number index command arguments →
          shape.cells[number]? = some (command, act.scope.thread, some index) ∧
            ∃ invocation, shape.invocations[index]? = some invocation ∧
              invocation.command = command ∧ invocation.arguments = arguments)
  | initializer (shape : Shape α) (found : world.shape? act.scope.strand = some shape)
      (index : Nat) (invocation : Invocation) (step : shape.invocations[index]? = some invocation)
      (initialized : invocation.command.initializer.isSome = true)
      (same : act.scope = ⟨act.scope.strand, .root, some index, none⟩) (query : Query)
      (answer : query.Answer) (doing : act.doing = .asks query answer)
      (allowed : (Rights.ofInitializer invocation.command index).asks query)
  | call (shape : Shape α) (found : world.shape? act.scope.strand = some shape) (number : Nat)
      (command : Command) (index : Nat)
      (origin : shape.cells[number]? = some (command, act.scope.thread, some index))
      (same : act.scope = ⟨act.scope.strand, act.scope.thread, some index, some number⟩)
      (query : Query) (answer : query.Answer) (doing : act.doing = .asks query answer)
      (allowed : (Rights.ofCommand command (noted act.scope.strand index) index).asks query)

variable {noted : Nat → Nat → Nat → Prop} {before middle after world other : World α}
  {scope : Scope} {rights : Rights}

/-! ### Growth -/

theorem Grows.refl (world : World α) : Grows world world :=
  fun _ shape h => ⟨shape, h, .refl shape⟩

theorem Grows.trans (h : Grows before middle) (k : Grows middle after) : Grows before after := by
  intro place shape hshape
  obtain ⟨found, hfound, hgrows⟩ := h place shape hshape
  obtain ⟨later, hlater, hmore⟩ := k place found hfound
  exact ⟨later, hlater, hgrows.trans hmore⟩

theorem Grows.of_sameShape (h : SameShape before after) : Grows before after :=
  fun place shape hshape => ⟨shape, (congrFun h place).trans hshape, .refl shape⟩

theorem Evolves.refl (h : world.Placed noted) : Evolves noted world world :=
  ⟨h, .refl world⟩

theorem Evolves.trans (h : Evolves noted before middle) (k : Evolves noted middle after) :
    Evolves noted before after :=
  ⟨k.placed, h.grows.trans k.grows⟩

theorem Placed.of_sameShape (h : world.Placed noted) (hshape : SameShape world other)
    (hsame : other.surroundings = world.surroundings) : Evolves noted world other :=
  ⟨⟨hsame ▸ h.registered, fun place shape hsome =>
    h.shapes place shape ((congrFun hshape place).symm.trans hsome)⟩, .of_sameShape hshape⟩

theorem Placed.of_change (h : world.Placed noted) {strand : Nat} (change : Shape α → Shape α)
    (hshape : ∀ place, other.shape? place =
      if strand = place then (world.shape? place).map change else world.shape? place)
    (hsame : other.surroundings = world.surroundings)
    (hchange : ∀ shape, world.shape? strand = some shape →
      (change shape).Placed (noted strand) ∧ shape.Grows (change shape)) :
    Evolves noted world other := by
  refine ⟨⟨hsame ▸ h.registered, fun place shape hsome => ?_⟩, fun place shape hsome => ?_⟩
  · rw [hshape] at hsome
    split at hsome
    · rename_i heq
      subst heq
      obtain ⟨old, hold, rfl⟩ := Option.map_eq_some_iff.mp hsome
      exact (hchange old hold).1
    · exact h.shapes place shape hsome
  · rw [hshape]
    split
    · rename_i heq
      subst heq
      exact ⟨change shape, by rw [hsome, Option.map_some], (hchange shape hsome).2⟩
    · exact ⟨shape, hsome, .refl shape⟩

theorem shape?_modifyStrand {change : Strand α → Strand α} {view : Shape α → Shape α}
    (h : ∀ strand, (change strand).shape = view strand.shape) (number : Nat) (world : World α)
    (place : Nat) :
    (world.modifyStrand number change).shape? place =
      if number = place then (world.shape? place).map view else world.shape? place := by
  rw [shape?, strand?_modifyStrand, shape?]
  split
  · cases world.strand? place <;> simp [h]
  · rfl

theorem Hosts.mono (h : before.Hosts noted scope rights) (grows : Grows before after) :
    after.Hosts noted scope rights := by
  cases h with
  | chain shape found same =>
      obtain ⟨later, hlater, -⟩ := grows _ shape found
      exact .chain later hlater same
  | execution shape found child thread number command caller index same started step cell origin =>
      obtain ⟨later, hlater, hmore⟩ := grows _ shape found
      obtain ⟨thread', hthread, hstep, hcell⟩ := hmore.children child thread started
      exact .execution later hlater child thread' number command caller index same hthread
        (hstep.trans step) (hcell.trans cell) (hmore.cells _ _ origin)

theorem Places.mono {act : Act} (h : before.Places noted act) (grows : Grows before after) :
    after.Places noted act := by
  cases h with
  | own rights host allowed shape found asked executed =>
      obtain ⟨later, hlater, hmore⟩ := grows _ shape found
      refine .own rights (host.mono grows) allowed later hlater (fun number hnumber => ?_)
        fun number index command arguments hdoing => ?_
      · obtain ⟨command, step, horigin⟩ := asked number hnumber
        exact ⟨command, step, hmore.cells _ _ horigin⟩
      · obtain ⟨horigin, hinvocation⟩ := executed number index command arguments hdoing
        exact ⟨hmore.cells _ _ horigin, hmore.invocations ▸ hinvocation⟩
  | initializer shape found index invocation step initialized same query answer doing allowed =>
      obtain ⟨later, hlater, hmore⟩ := grows _ shape found
      exact .initializer later hlater index invocation (hmore.invocations ▸ step) initialized same
        query answer doing allowed
  | call shape found number command index origin same query answer doing allowed =>
      obtain ⟨later, hlater, hmore⟩ := grows _ shape found
      exact .call later hlater number command index (hmore.cells _ _ origin) same query answer
        doing allowed

/-! ### What code hears -/

theorem previous_of_stepView? {index : Nat} (hstep : scope.step = some index) {view : StepView}
    (hview : world.stepView? scope = some view) {found : Nat} {state : StepState}
    (hprevious : view.previousStep = some (found, state)) : found + 1 = index := by
  have hbefore : ∀ context : StepContext, context.index = index →
      context.previousStep = .ok (some (found, state)) → found + 1 = index := by
    intro context hindex hsome
    rw [StepContext.previousStep, hindex] at hsome
    split at hsome
    · cases hsome
    · rename_i hpositive
      cases helement : StepContext.element? context.steps ((index : Int) - 1) with
      | none => simp [helement] at hsome
      | some element =>
          simp only [helement, Except.ok.injEq, Option.some.injEq] at hsome
          subst hsome
          simp only [StepContext.element?, Option.bind_eq_bind, Option.bind_eq_some_iff] at helement
          obtain ⟨place, hplace, item, hitem, hpair⟩ := helement
          obtain ⟨rfl, -⟩ := Prod.mk.inj (Option.some.inj hpair)
          have hback : ¬ ((index : Int) - 1 < 0) := by omega
          simp only [StepContext.position?, if_neg hback, Option.ite_none_right_eq_some] at hplace
          have hindex := Option.some.inj hplace.2
          omega
  simp only [stepView?, hstep, Option.bind_eq_bind, Option.bind_some, Option.bind_eq_some_iff]
    at hview
  obtain ⟨context, hcontext, hsees⟩ := hview
  simp only [stepContext?, Option.bind_eq_bind, Option.bind_eq_some_iff] at hcontext
  obtain ⟨strand, -, invocation, -, hmade⟩ := hcontext
  have hindex : context.index = index := by
    rw [← Option.some.inj hmade]
  cases hfound : context.previousStep with
  | error fault =>
      simp only [StepContext.view, hfound] at hsees
      split at hsees <;> cases hsees
  | ok previous =>
      simp only [StepContext.view, hfound] at hsees
      split at hsees
      · cases hsees
      · obtain rfl := Option.some.inj hsees
        exact hbefore context hindex (hfound.trans (congrArg Except.ok hprevious))

theorem heard_answer {notes : Nat → Prop} {index : Nat} (hstep : scope.step = some index)
    (query : Query)
    (honest : ∀ view other, world.stepView? scope = some view →
      view.state.get? previousName = some (.step other) → notes other) :
    Heard notes index query (world.answer scope query).2 := by
  cases query with
  | step =>
      change Heard notes index .step (world.stepView? scope)
      cases hview : world.stepView? scope with
      | none => trivial
      | some view =>
          exact ⟨fun other hother => honest view other hview hother,
            fun other state hprevious => previous_of_stepView? hstep hview hprevious⟩
  | _ => trivial

end World

theorem Action.scope_of_mem_acts {α β : Type} {scope : Scope} {action : Action β}
    {world : World α} {act : Act} (h : act ∈ action.acts scope world) : act.scope = scope := by
  induction action generalizing world with
  | finish value => cases h
  | fail fault => cases h
  | ask query next ih =>
      rcases List.mem_cons.mp h with rfl | hrest
      · rfl
      · exact ih _ hrest

theorem Action.asks_of_mem_acts {α β : Type} {rights : Rights} {proper : β → Prop}
    {action : Action β} (hminds : action.Minds rights proper) {notes : Nat → Prop} {index : Nat}
    (hhears : ∀ query answer, Heard notes index query answer → rights.hears query answer)
    (scope : Scope) (hstep : scope.step = some index) (world : World α)
    (honest : ∀ act ∈ action.acts scope world, ∀ view other, act.sees = some view →
      view.state.get? previousName = some (.step other) → notes other) :
    (∀ value, (action.run scope world).2 = .ok value → proper value) ∧
      ∀ act ∈ action.acts scope world,
        ∃ query answer, act.doing = .asks query answer ∧ rights.asks query := by
  induction action generalizing world with
  | finish value =>
      exact ⟨fun other hother => Except.ok.inj hother ▸ hminds, (fun _ hmem => by cases hmem)⟩
  | fail fault => exact ⟨(fun _ h => by cases h), (fun _ hmem => by cases hmem)⟩
  | ask query next ih =>
      have hacts : (ask query next).acts scope world =
          world.act scope (.asks query (world.answer scope query).2) ::
            (next (world.answer scope query).2).acts scope (world.answer scope query).1 := rfl
      rw [hacts] at honest ⊢
      have hheard : Heard notes index query (world.answer scope query).2 :=
        World.heard_answer hstep query (honest _ List.mem_cons_self)
      obtain ⟨hproper, hrest⟩ := ih _ (hminds.2 _ (hhears _ _ hheard)) _
        fun act hmem => honest act (List.mem_cons_of_mem _ hmem)
      refine ⟨hproper, fun act hmem => ?_⟩
      rcases List.mem_cons.mp hmem with rfl | hmem
      · exact ⟨query, _, rfl, hminds.1⟩
      · exact hrest act hmem

namespace World

variable {α : Type} {noted : Nat → Nat → Nat → Prop} {world : World α} {scope : Scope}

/-! ### The beginning of an execution -/

theorem shape?_openCell (scope : Scope) (command : Command) (state : CellState) (world : World α)
    (place : Nat) :
    (world.openCell scope command state).shape? place =
      if scope.strand = place then
        (world.shape? place).map (Shape.opened (command, scope.thread, scope.step))
      else world.shape? place := by
  refine shape?_modifyStrand (fun strand => ?_) scope.strand world place
  simp [Strand.shape, Shape.opened, Cell.origin]

theorem shape?_spawn (scope : Scope) (cell : Nat) (delivers : Bool) (body : Routine Value)
    (world : World α) (place : Nat) :
    (world.spawn scope cell delivers body).shape? place =
      if scope.strand = place then
        (world.shape? place).map
          (Shape.spawn (Thread.start scope.step (some cell) delivers body).calm)
      else world.shape? place := by
  have hmodify : (world.modifyStrand scope.strand fun strand => { strand with
        children := strand.children ++ [Thread.start scope.step (some cell) delivers body] }).shape?
          place =
      if scope.strand = place then
        (world.shape? place).map
          (Shape.spawn (Thread.start scope.step (some cell) delivers body).calm)
      else world.shape? place :=
    shape?_modifyStrand (fun strand => by simp [Strand.shape, Shape.spawn]) scope.strand world place
  exact hmodify

/-- Nothing that can be executed is outside the places. -/
theorem Placed.spawn (h : world.Placed noted) {shape : Shape α}
    (hshape : world.shape? scope.strand = some shape) {number : Nat} {command : Command}
    {caller : ThreadId} {index : Nat} (hstep : scope.step = some index)
    (horigin : shape.cells[number]? = some (command, caller, some index)) (delivers : Bool)
    {body : Routine Value}
    (hbody : body.Minds (.ofCommand command (noted scope.strand index) index)) :
    Evolves noted world (world.spawn scope number delivers body) := by
  refine h.of_change _ (shape?_spawn scope number delivers body world) rfl fun other hother => ?_
  obtain rfl : shape = other := Option.some.inj (hshape.symm.trans hother)
  exact ⟨(h.shapes _ shape hshape).spawn rfl hstep horigin hbody, shape.grows_spawn _⟩

theorem Placed.takeReply (h : world.Placed noted) {shape : Shape α}
    (hshape : world.shape? scope.strand = some shape) {number : Nat} {command : Command}
    {caller : ThreadId} {index : Nat} (hstep : scope.step = some index)
    (horigin : shape.cells[number]? = some (command, caller, some index)) {reply : Reply}
    (hreply : reply.Minds (.ofCommand command (noted scope.strand index) index)) :
    Evolves noted world (world.takeReply scope command number reply) := by
  have htell : ∀ happening,
      Evolves noted world (world.tell scope.strand number command happening) :=
    fun happening => h.of_sameShape (.of_strands_eq rfl) rfl
  have hspawn : ∀ (happening : Happening) (delivers : Bool) (body : Routine Value),
      body.Minds (.ofCommand command (noted scope.strand index) index) →
      Evolves noted world
        ((world.tell scope.strand number command happening).spawn scope number delivers body) := by
    intro happening delivers body hbody
    have hstart := htell happening
    exact hstart.trans (hstart.placed.spawn hshape hstep horigin delivers hbody)
  unfold World.takeReply
  split
  · rename_i started body first _
    split
    · exact hspawn _ false body hreply
    · exact htell _
  · rename_i started body _
    have hstart := hspawn (.promised started) true body hreply
    refine hstart.trans (hstart.placed.of_sameShape (sameShape_modifyCell ?_ ..) rfl)
    exact fun _ => rfl
  · exact htell _
  · split
    · exact htell _
    · exact h.of_sameShape (sameShape_settle ..) (mute_settle ..).surroundings

/-- The call of a command whose execution has a cell. -/
theorem Placed.call (h : world.Placed noted) {shape : Shape α}
    (hshape : world.shape? scope.strand = some shape) {index : Nat}
    (hstep : scope.step = some index) {number : Nat} {command : Command}
    (horigin : shape.cells[number]? = some (command, scope.thread, some index))
    (arguments : Arguments)
    (honest : ∀ act ∈ (command.run arguments).acts { scope with cell := some number } world,
      act.IsHonest noted) :
    Evolves noted world (world.call scope number command arguments).1 ∧
      ∀ act ∈ (command.run arguments).acts { scope with cell := some number } world,
        (world.call scope number command arguments).1.Places noted act := by
  let inner : Scope := { scope with cell := some number }
  obtain ⟨hcommand, -⟩ := (h.shapes _ shape hshape).cells number command scope.thread _ horigin
  have hminds := Command.minds_run hcommand (noted scope.strand index) index arguments
  obtain ⟨hreply, hasks⟩ := Action.asks_of_mem_acts hminds (fun _ _ heard => heard) inner hstep world
    fun act hmem view other hview hother => by
      have hscope := Action.scope_of_mem_acts hmem
      have hnoted := honest act hmem view index other hview (hscope ▸ hstep) hother
      rwa [hscope] at hnoted
  have hstrand : ∀ act ∈ (command.run arguments).acts inner world,
      ∀ other : World α, Grows world other → other.Places noted act := by
    intro act hmem other hgrows
    obtain ⟨query, answer, hdoing, hallowed⟩ := hasks act hmem
    have hscope := Action.scope_of_mem_acts hmem
    refine Places.mono (.call shape ?_ number command index ?_ ?_ query answer hdoing ?_) hgrows
    · rw [hscope]
      exact hshape
    · rw [hscope]
      exact horigin
    · rw [hscope, ← hstep]
    · rw [hscope]
      exact hallowed
  have hran : Evolves noted world ((command.run arguments).run inner world).1 := by
    refine h.of_sameShape ((command.run arguments).sameShape_run inner world) ?_
    exact ((command.run arguments).tells_run inner world).surroundings
  have hcalled : Evolves noted world (world.call scope number command arguments).1 := by
    rcases hrun : (command.run arguments).run inner world with ⟨middle, result⟩
    rw [hrun] at hran hreply
    have hmiddle : middle.shape? scope.strand = some shape := by
      have hsame := (command.run arguments).sameShape_run inner world
      rw [hrun] at hsame
      exact (congrFun hsame scope.strand).trans hshape
    simp only [World.call]
    rw [hrun]
    cases result with
    | ok reply => exact hran.trans (hran.placed.takeReply hmiddle hstep horigin (hreply reply rfl))
    | error fault =>
        dsimp only
        split
        · exact hran.trans (hran.placed.of_sameShape (.of_strands_eq rfl) rfl)
        · exact hran.trans
            (hran.placed.of_sameShape (sameShape_settle ..) (mute_settle ..).surroundings)
  exact ⟨hcalled, fun act hmem => hstrand act hmem _ hcalled.grows⟩

/-- The execution of a command in a step, by a thread that may ask for it. -/
theorem Placed.begin (h : world.Placed noted) {shape : Shape α}
    (hshape : world.shape? scope.strand = some shape) {index : Nat}
    (hstep : scope.step = some index) {command : Command}
    (hcommand : command.IsRepetition ∨ command.IsConfined)
    (hlength : index < shape.invocations.length)
    (hlineage : shape.Lineage (noted scope.strand) command index scope.thread)
    (arguments : Arguments)
    (honest : ∀ act ∈ world.actsOfBegin scope command arguments, act.IsHonest noted) :
    Evolves noted world (world.begin scope command arguments).1 ∧
      (∃ later, (world.begin scope command arguments).1.shape? scope.strand = some later ∧
        later.cells[world.cellCount scope.strand]? = some (command, scope.thread, some index)) ∧
      ∀ act ∈ world.actsOfBegin scope command arguments,
        (world.begin scope command arguments).1.Places noted act := by
  let number := world.cellCount scope.strand
  have hnumber : number = shape.cells.length := by
    obtain ⟨current, hstrand, rfl⟩ := Option.map_eq_some_iff.mp hshape
    rw [show number = current.cells.length from cellCount_eq_of_strand? hstrand]
    exact (List.length_map _).symm
  have hopen : ∀ state happening, Evolves noted world
      ((world.openCell scope command state).noteExecution scope number command happening) := by
    intro state happening
    refine h.of_change _ (shape?_openCell scope command state world) rfl fun other hother => ?_
    obtain rfl : shape = other := Option.some.inj (hshape.symm.trans hother)
    rw [hstep]
    exact ⟨(h.shapes _ shape hshape).opened hcommand hlength hlineage, shape.grows_opened _⟩
  let grown := shape.opened (command, scope.thread, some index)
  have hgrown : ∀ state happening,
      ((world.openCell scope command state).noteExecution scope number command happening).shape?
        scope.strand = some grown := by
    intro state happening
    refine (shape?_openCell scope command state world scope.strand).trans ?_
    rw [if_pos rfl, hshape, Option.map_some, hstep]
  have horigin : grown.cells[number]? = some (command, scope.thread, some index) := by
    rw [hnumber]
    exact List.getElem?_concat_length
  have henter : Evolves noted world (world.enter scope number command arguments).1 ∧
      (∃ later, (world.enter scope number command arguments).1.shape? scope.strand = some later ∧
        later.cells[number]? = some (command, scope.thread, some index)) ∧
      ∀ act ∈ world.actsOfBegin scope command arguments,
        (world.enter scope number command arguments).1.Places noted act := by
    rw [actsOfBegin] at honest ⊢
    rw [World.enter]
    split
    · rename_i haccepts
      rw [if_pos haccepts] at honest
      have hstart := hopen .pending (.called arguments)
      obtain ⟨hcall, hplaces⟩ := hstart.placed.call (hgrown _ _) hstep horigin arguments honest
      obtain ⟨later, hlater, hmore⟩ := hcall.grows _ grown (hgrown _ _)
      exact ⟨hstart.trans hcall, ⟨later, hlater, hmore.cells _ _ horigin⟩, hplaces⟩
    · exact ⟨hopen _ _, ⟨grown, hgrown _ _, horigin⟩, (fun _ hmem => by cases hmem)⟩
  rcases hentered : world.enter scope number command arguments with ⟨entered, begun⟩
  rw [hentered] at henter
  obtain ⟨hevolves, ⟨later, hlater, hcell⟩, hplaces⟩ := henter
  have hnoted : ∀ outcome, Evolves noted entered
      (entered.noteExecution scope number command (.yielded outcome)) :=
    fun outcome => hevolves.placed.of_sameShape (.of_strands_eq rfl) rfl
  simp only [World.begin]
  rw [hentered]
  cases begun with
  | complete outcome =>
      exact ⟨hevolves.trans (hnoted outcome), ⟨later, hlater, hcell⟩,
        fun act hmem => (hplaces act hmem).mono (hnoted outcome).grows⟩
  | waits number => exact ⟨hevolves, ⟨later, hlater, hcell⟩, hplaces⟩
  | cancelled fault => exact ⟨hevolves, ⟨later, hlater, hcell⟩, hplaces⟩

/-! ### The code of a thread -/

variable {rights : Rights}

theorem Hosts.shape (host : world.Hosts noted scope rights) :
    ∃ shape, world.shape? scope.strand = some shape := by
  cases host with
  | chain shape found same => exact ⟨shape, found⟩
  | execution shape found => exact ⟨shape, found⟩

theorem Hosts.hears (host : world.Hosts noted scope rights) (query : Query)
    (honest : (world.act scope (.asks query (world.answer scope query).2)).IsHonest noted) :
    rights.hears query (world.answer scope query).2 := by
  cases host with
  | chain shape found same => trivial
  | execution shape found child thread number command caller index same started step cell origin =>
      have hstep : scope.step = some index := by rw [same]
      exact heard_answer hstep query fun view other hview hother =>
        honest view index other hview hstep hother

theorem Hosts.places (host : world.Hosts noted scope rights) {act : Act} (hscope : act.scope = scope)
    (hallowed : rights.Allows act.doing) (hnone : act.doing.execution? = none) :
    world.Places noted act := by
  obtain ⟨shape, hshape⟩ := host.shape
  refine .own rights (hscope ▸ host) hallowed shape (hscope ▸ hshape) (fun number hnumber => ?_)
    fun number index command arguments hdoing => ?_
  · cases hnone.symm.trans hnumber
  · rw [hdoing] at hnone
    cases hnone

theorem Hosts.places_asked (host : world.Hosts noted scope rights) {act : Act}
    (hscope : act.scope = scope) (hallowed : rights.Allows act.doing) {number : Nat}
    (hnumber : act.doing.execution? = some number) {shape : Shape α}
    (hshape : world.shape? scope.strand = some shape) {command : Command} {step : Option Nat}
    (horigin : shape.cells[number]? = some (command, scope.thread, step))
    (hexecuted : ∀ other index name arguments, act.doing ≠ .executes other index name arguments) :
    world.Places noted act := by
  refine .own rights (hscope ▸ host) hallowed shape (hscope ▸ hshape) (fun other hother => ?_)
    fun other index name arguments hdoing => absurd hdoing (hexecuted other index name arguments)
  obtain rfl := Option.some.inj (hnumber.symm.trans hother)
  exact ⟨command, step, hscope ▸ horigin⟩

theorem Hosts.places_executes (host : world.Hosts noted scope rights) {act : Act}
    (hscope : act.scope = scope) {number index : Nat} {invocation : Invocation}
    (hdoing : act.doing = .executes number index invocation.command invocation.arguments)
    (hallowed : rights.executes index) {shape : Shape α}
    (hshape : world.shape? scope.strand = some shape)
    (horigin : shape.cells[number]? = some (invocation.command, scope.thread, some index))
    (hstep : shape.invocations[index]? = some invocation) : world.Places noted act := by
  refine .own rights (hscope ▸ host) (by rw [hdoing]; exact hallowed) shape (hscope ▸ hshape)
    (fun other hother => ?_) fun other place command arguments hother => ?_
  · rw [hdoing] at hother
    obtain rfl := Option.some.inj hother
    exact ⟨_, _, hscope ▸ horigin⟩
  · rw [hdoing] at hother
    injection hother with hnumber hindex hcommand harguments
    subst hnumber hindex hcommand harguments
    exact ⟨hscope ▸ horigin, invocation, hstep, rfl, rfl⟩

theorem Hosts.lineage_of_executes (host : world.Hosts noted scope rights) {index : Nat}
    (hallowed : rights.executes index) {shape : Shape α}
    (hshape : world.shape? scope.strand = some shape) {invocation : Invocation}
    (hstep : shape.invocations[index]? = some invocation) :
    shape.Lineage (noted scope.strand) invocation.command index scope.thread := by
  cases host with
  | chain other found same =>
      rw [same]
      exact .chain invocation hstep rfl
  | execution other found child thread number command caller own same started step cell origin =>
      obtain rfl : shape = other := Option.some.inj (hshape.symm.trans found)
      rw [show scope.thread = .child child from same ▸ rfl]
      exact .repeated child thread started number command caller own cell origin hallowed.1
        hallowed.2 invocation hstep rfl

theorem Hosts.lineage_of_invokes (h : world.Placed noted) (host : world.Hosts noted scope rights)
    (hallowed : rights.invokes) {shape : Shape α}
    (hshape : world.shape? scope.strand = some shape) (command : Command) :
    ∃ index, scope.step = some index ∧ index < shape.invocations.length ∧
      shape.Lineage (noted scope.strand) command index scope.thread := by
  cases host with
  | chain => exact hallowed.elim
  | execution other found child thread number outer caller own same started step cell origin =>
      obtain rfl : shape = other := Option.some.inj (hshape.symm.trans found)
      obtain ⟨-, index, hindex, hlength, -, -⟩ := (h.shapes _ shape hshape).cells _ _ _ _ origin
      obtain rfl := Option.some.inj hindex
      refine ⟨own, same ▸ rfl, hlength, ?_⟩
      rw [show scope.thread = .child child from same ▸ rfl]
      exact .invoked child thread started number outer caller cell origin hallowed

theorem shape_of_lookup {index : Nat} {invocation : Invocation}
    (h : ((world.strand? scope.strand).bind fun strand => strand.invocations[index]?) =
      some invocation) :
    ∃ shape, world.shape? scope.strand = some shape ∧
      shape.invocations[index]? = some invocation := by
  obtain ⟨strand, hstrand, hindex⟩ := Option.bind_eq_some_iff.mp h
  exact ⟨strand.shape, by rw [shape?, hstrand, Option.map_some], hindex⟩

end World

/-- What the code of a thread does until it waits or ends. -/
structure Routine.Goes {α β : Type} (noted : Nat → Nat → Nat → Prop) (rights : Rights)
    (world : World α) (after : World α) (suspension : Suspension β) (acts : List Act) : Prop where
  evolves : World.Evolves noted world after
  minds : suspension.status.Minds rights
  places : ∀ act ∈ acts, after.Places noted act

namespace Routine

variable {α β : Type} {noted : Nat → Nat → Nat → Prop} {rights : Rights} {world middle after : World α}
  {suspension : Suspension β} {acts more : List Act}

theorem Goes.prepend (h : Goes noted rights middle after suspension more)
    (hevolves : World.Evolves noted world middle) (hplaces : ∀ act ∈ acts, middle.Places noted act) :
    Goes noted rights world after suspension (acts ++ more) := by
  refine ⟨hevolves.trans h.evolves, h.minds, fun act hmem => ?_⟩
  rcases List.mem_append.mp hmem with hmem | hmem
  · exact (hplaces act hmem).mono h.evolves.grows
  · exact h.places act hmem

theorem Goes.single {act : Act} (h : Goes noted rights middle after suspension more)
    (hevolves : World.Evolves noted world middle) (hplaces : middle.Places noted act) :
    Goes noted rights world after suspension (act :: more) :=
  h.prepend hevolves fun _ (hmem : _ ∈ [act]) => List.mem_singleton.mp hmem ▸ hplaces

theorem Goes.stop (hevolves : World.Evolves noted world after)
    (hminds : suspension.status.Minds rights) (hplaces : ∀ act ∈ acts, after.Places noted act) :
    Goes noted rights world after suspension acts :=
  ⟨hevolves, hminds, hplaces⟩

/-- The beginning of an execution by a thread that keeps to its rights. -/
structure Calls.Settles (noted : Nat → Nat → Nat → Prop) (rights : Rights) (scope : Scope)
    (world middle : World α) (command : Command) (next : Outcome → Routine β) (acts : List Act) :
    Prop where
  evolves : World.Evolves noted world middle
  places : ∀ act ∈ acts, middle.Places noted act
  minds : ∀ outcome, (next outcome).Minds rights
  asked : ∃ shape step, middle.shape? scope.strand = some shape ∧
    shape.cells[world.cellCount scope.strand]? = some (command, scope.thread, step)

section Calls

variable {scope : Scope} {routine : Routine β} {step : Option Nat} {command : Command}
  {arguments : Arguments} {doing : Doing} {next : Outcome → Routine β} {begun : Begun}

theorem Calls.settles (calls : routine.Calls scope world step command arguments doing next)
    (h : world.Placed noted) (host : world.Hosts noted scope rights) (hminds : routine.Minds rights)
    (hbegun : world.begin { scope with step := step } command arguments = (middle, begun))
    (honest : ∀ act ∈ world.actsOfBegin { scope with step := step } command arguments,
      act.IsHonest noted) :
    Calls.Settles noted rights scope world middle command next
      (world.act scope doing :: world.actsOfBegin { scope with step := step } command arguments) := by
  cases calls with
  | @execute index next invocation found =>
      obtain ⟨shape, hshape, hinvocation⟩ := World.shape_of_lookup found
      let inner : Scope := { scope with step := some index }
      have hbegin := h.begin (show world.shape? inner.strand = some shape from hshape) rfl
        ((h.shapes _ shape hshape).commands _ (List.mem_of_getElem? hinvocation))
        (List.getElem?_eq_some_iff.mp hinvocation).1
        (host.lineage_of_executes hminds.1 hshape hinvocation) invocation.arguments honest
      rw [show world.begin inner invocation.command invocation.arguments = (middle, begun) from
        hbegun] at hbegin
      obtain ⟨hevolves, ⟨later, hlater, horigin⟩, hplaces⟩ := hbegin
      have hgrown : later.invocations[index]? = some invocation := by
        obtain ⟨other, hother, hmore⟩ := hevolves.grows _ shape hshape
        obtain rfl : later = other := Option.some.inj (hlater.symm.trans hother)
        exact hmore.invocations ▸ hinvocation
      refine ⟨hevolves, List.forall_mem_cons.mpr ⟨?_, hplaces⟩, hminds.2, later, _, hlater, horigin⟩
      exact (host.mono hevolves.grows).places_executes rfl rfl hminds.1 hlater horigin hgrown
  | @invoke name given next command arguments known taken =>
      obtain ⟨shape, hshape⟩ := host.shape
      obtain ⟨index, hstep, hlength, hlineage⟩ := host.lineage_of_invokes h hminds.1 hshape command
      have hbegin := h.begin hshape hstep (h.registered name command known) hlength hlineage arguments
        honest
      rw [hbegun] at hbegin
      obtain ⟨hevolves, ⟨later, hlater, horigin⟩, hplaces⟩ := hbegin
      refine ⟨hevolves, List.forall_mem_cons.mpr ⟨?_, hplaces⟩, hminds.2, later, _, hlater, horigin⟩
      exact (host.mono hevolves.grows).places_asked rfl hminds.1 rfl hlater horigin
        (fun _ _ _ _ h => by cases h)

end Calls

theorem places_prepared {scope : Scope} (h : world.Placed noted)
    (host : world.Hosts noted scope rights) (hprepares : rights.prepares) {index : Nat}
    {invocation : Invocation} {initializer : Action Unit} {result : Except Fault Unit}
    (found : ((world.strand? scope.strand).bind fun strand => strand.invocations[index]?) =
      some invocation) (initial : invocation.command.initializer = some initializer)
    (ran : initializer.run { scope with step := some index, cell := none } world = (middle, result))
    (failure : Option Fault) :
    World.Evolves noted world (middle.note scope (.prepared index failure)) ∧
      ∀ act ∈ initializer.acts { scope with step := some index, cell := none } world ++
          [(middle.note scope (.prepared index failure)).act scope (.prepares index failure)],
        (middle.note scope (.prepared index failure)).Places noted act := by
  let inner : Scope := { scope with step := some index, cell := none }
  obtain ⟨shape, hshape, hinvocation⟩ := World.shape_of_lookup found
  have hroot : scope.thread = .root := by
    cases host with
    | chain other found same => rw [same]
    | execution => exact hprepares.elim
  have hasks := (Action.asks_of_mem_acts (Command.minds_initializer initial index)
    (fun _ _ heard => heard) inner rfl world fun _ _ _ _ _ _ => trivial).2
  have hran : World.Evolves noted world middle := by
    have hran := h.of_sameShape (initializer.sameShape_run inner world)
      (initializer.tells_run inner world).surroundings
    rwa [ran] at hran
  have hnote : World.Evolves noted world (middle.note scope (.prepared index failure)) :=
    hran.trans (hran.placed.of_sameShape (.of_strands_eq rfl) rfl)
  refine ⟨hnote, List.forall_mem_append.mpr ⟨fun act hmem => ?_, List.forall_mem_singleton.mpr ?_⟩⟩
  · obtain ⟨query, answer, hdoing, hallowed⟩ := hasks act hmem
    have hscope := Action.scope_of_mem_acts hmem
    refine World.Places.mono (.initializer shape ?_ index invocation hinvocation
      (by rw [initial]; rfl) ?_ query answer hdoing hallowed) hnote.grows
    · rw [hscope]
      exact hshape
    · rw [hscope, ← hroot]
  · exact (host.mono hnote.grows).places rfl hprepares rfl

theorem goes_wait {scope : Scope} (doing : Doing) (h : world.Placed noted)
    (host : world.Hosts noted scope rights) (hallowed : rights.Allows doing)
    (hnone : doing.execution? = none) (hstrands : after.strands = world.strands)
    (hsame : after.surroundings = world.surroundings) (hminds : suspension.status.Minds rights) :
    Goes noted rights world after suspension [world.act scope doing] := by
  have hwaits : World.Evolves noted world after :=
    h.of_sameShape (.of_strands_eq hstrands) hsame
  exact .stop hwaits hminds (List.forall_mem_singleton.mpr
    ((host.mono hwaits.grows).places rfl hallowed hnone))

theorem goes_run {scope : Scope} {routine : Routine β} (h : world.Placed noted)
    (host : world.Hosts noted scope rights) (hminds : routine.Minds rights)
    (honest : ∀ act ∈ routine.acts scope world, act.IsHonest noted) :
    Goes noted rights world (routine.run scope world).1 (routine.run scope world).2
      (routine.acts scope world) := by
  have hstretch := routine.stretch scope world
  generalize routine.acts scope world = acts at hstretch honest ⊢
  generalize routine.run scope world = ended at hstretch ⊢
  induction hstretch with
  | finish | fail | unknown | lack | miss => exact .stop (.refl h) trivial (fun _ hmem => by cases hmem)
  | @ask query next world acts ended _ ih =>
      obtain ⟨hfirst, hrest⟩ := List.forall_mem_cons.mp honest
      have hanswer : World.Evolves noted world (world.answer scope query).1 := by
        refine h.of_sameShape (World.sameShape_answer scope query world) ?_
        have himprint := congrArg Imprint.surroundings (World.imprint_answer scope query world)
        rwa [Act.surroundings_mark] at himprint
      have hhost := host.mono hanswer.grows
      exact .single (ih hanswer.placed hhost (hminds.2 _ (host.hears query hfirst)) hrest) hanswer
        (hhost.places rfl hminds.1 rfl)
  | @turn seconds | @timer seconds | @moment seconds =>
      exact goes_wait (.pauses seconds) h host trivial rfl rfl rfl hminds
  | @event event => exact goes_wait (.awaits event) h host trivial rfl rfl rfl hminds
  | happened _ _ ih =>
      exact .single (ih h host hminds (List.forall_mem_cons.mp honest).2) (.refl h)
        (host.places rfl trivial rfl)
  | ready _ _ _ ih =>
      exact .single (ih h host (hminds.2 none) (List.forall_mem_cons.mp honest).2) (.refl h)
        (host.places rfl hminds.1 rfl)
  | prepared found initial ran _ _ ih =>
      rw [List.append_cons] at honest ⊢
      obtain ⟨hprepared, hplaces⟩ := places_prepared h host hminds.1 found initial ran _
      exact .prepend (ih hprepared.placed (host.mono hprepared.grows) (hminds.2 _)
        (List.forall_mem_append.mp honest).2) hprepared hplaces
  | escaped found initial ran =>
      obtain ⟨hprepared, hplaces⟩ := places_prepared h host hminds.1 found initial ran _
      exact .stop hprepared trivial hplaces
  | complete calls begun _ ih =>
      obtain ⟨hbegin, hrest⟩ := List.forall_mem_append.mp honest
      obtain ⟨hevolves, hplaces, hnext, shape, step, hshape, horigin⟩ :=
        calls.settles h host hminds begun (List.forall_mem_cons.mp hbegin).2
      have hhost := host.mono hevolves.grows
      refine .prepend (.single (ih hevolves.placed hhost (hnext _) (List.forall_mem_cons.mp hrest).2)
        (.refl hevolves.placed) ?_) hevolves hplaces
      exact hhost.places_asked rfl trivial rfl hshape horigin (fun _ _ _ _ h => by cases h)
  | waits calls begun =>
      have hbegin := calls.settles h host hminds begun (List.forall_mem_cons.mp honest).2
      exact .stop hbegin.evolves hbegin.minds hbegin.places
  | cancelled calls begun =>
      have hbegin := calls.settles h host hminds begun (List.forall_mem_cons.mp honest).2
      exact .stop hbegin.evolves trivial hbegin.places

end Routine

end Cascade
