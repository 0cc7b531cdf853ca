import Cascade.Proofs.Run.Locality
import Cascade.Proofs.Trace.Stretch

/-!
What code leaves behind and finds again: the states of the steps, the items that it shows and the
messages that it logs. All of it comes from acts. What an act sees as the current step is decided by
its own scope and by the acts before it, and nothing else in a run has a part in that.
-/

namespace Cascade

/-- Whether an occurrence is an item or a message of code. -/
def Occurrence.isSaid (occurrence : Occurrence) : Bool :=
  match occurrence.thread, occurrence.event with
  | some _, .item _ | some _, .logged _ _ => true
  | _, _ => false

/-- The invocations of every chain with the states of its steps, and what code has said, in the order
of time; and what does not change during a run. -/
structure Imprint where
  surroundings : Surroundings
  pages : List (List Invocation × List StepState)
  said : List Occurrence

namespace Imprint

/-- What the code of a scope sees as its step. -/
def view? (imprint : Imprint) (scope : Scope) : Option StepView := do
  let index ← scope.step
  let page ← imprint.pages[scope.strand]?
  let invocation ← page.1[index]?
  let context : StepContext := {
    index := index
    names := page.1.map Invocation.name
    arguments := invocation.arguments
    state := (page.2[index]?).getD []
    steps := page.2 }
  context.view.toOption

/-- The code of a scope says something. -/
def say (scope : Scope) (event : Event) (imprint : Imprint) : Imprint :=
  { imprint with said := imprint.said ++ [⟨some scope.strand, some scope.thread, scope.step, event⟩] }

/-- A name is set in the state of a step. -/
def put (strand index : Nat) (name : String) (entry : StateEntry) (imprint : Imprint) : Imprint :=
  { imprint with
      pages := imprint.pages.modify strand fun page =>
        (page.1, page.2.modify index (Entries.put name entry)) }

end Imprint

/-- What an act makes of what code has left behind. -/
def Act.mark (act : Act) (imprint : Imprint) : Imprint :=
  match act.doing with
  | .asks (.emit item) _ => imprint.say act.scope (.item item)
  | .asks (.record command message) _ => imprint.say act.scope (.logged command message)
  | .asks (.setState name entry) _ =>
      match act.scope.step with
      | some index => imprint.put act.scope.strand index name entry
      | none => imprint
  | .leaves notice => imprint.say act.scope (.item notice)
  | _ => imprint

/-- An act that sees what was left behind, and that gets as its step what it sees if it asks. -/
structure Act.Follows (imprint : Imprint) (act : Act) : Prop where
  sees : act.sees = imprint.view? act.scope
  answer : ∀ view, act.doing = .asks .step view → view = act.sees

/-- Acts that follow from what was left behind before each of them, from the beginning to the end. -/
def Tells (last : Imprint) : Imprint → List Act → Prop
  | imprint, [] => imprint = last
  | imprint, act :: rest => act.Follows imprint ∧ Tells last (act.mark imprint) rest

theorem Tells.append {first middle last : Imprint} {acts more : List Act}
    (h : Tells middle first acts) (k : Tells last middle more) : Tells last first (acts ++ more) := by
  induction acts generalizing first with
  | nil => exact (show first = middle from h) ▸ k
  | cons act rest ih => exact ⟨h.1, ih h.2⟩

theorem Tells.foldl {first last : Imprint} {acts : List Act} (h : Tells last first acts) :
    last = acts.foldl (fun imprint act => act.mark imprint) first := by
  induction acts generalizing first with
  | nil => exact Eq.symm h
  | cons act rest ih => exact ih h.2

theorem Act.surroundings_mark (act : Act) (imprint : Imprint) :
    (act.mark imprint).surroundings = imprint.surroundings := by
  rw [Act.mark]
  split
  · rfl
  · rfl
  · split <;> rfl
  · rfl
  · rfl

theorem Tells.surroundings {first last : Imprint} {acts : List Act} (h : Tells last first acts) :
    last.surroundings = first.surroundings := by
  induction acts generalizing first with
  | nil => exact congrArg Imprint.surroundings (Eq.symm h)
  | cons act rest ih => exact (ih h.2).trans (act.surroundings_mark first)

/-- Every act follows from what the acts before it have left behind. -/
theorem Tells.follows {first last : Imprint} {before after : List Act} {act : Act}
    (h : Tells last first (before ++ act :: after)) :
    act.Follows (before.foldl (fun imprint act => act.mark imprint) first) := by
  induction before generalizing first with
  | nil => exact h.1
  | cons other rest ih => exact ih h.2

namespace World

variable {α : Type}

/-- The invocations of every chain with the states of its steps. -/
def pages (world : World α) : List (List Invocation × List StepState) :=
  world.strands.map fun strand => (strand.invocations, strand.states)

def imprint (world : World α) : Imprint where
  surroundings := world.surroundings
  pages := world.pages
  said := (world.record.filter Occurrence.isSaid).reverse

theorem getElem?_pages (world : World α) (place : Nat) :
    world.pages[place]? =
      (world.strand? place).map fun strand => (strand.invocations, strand.states) :=
  List.getElem?_map ..

theorem stepView?_eq (world : World α) (scope : Scope) :
    world.stepView? scope = world.imprint.view? scope := by
  cases hstep : scope.step with
  | none => simp [stepView?, Imprint.view?, hstep]
  | some index =>
      simp only [stepView?, stepContext?, Imprint.view?, hstep, imprint, getElem?_pages]
      cases hstrand : world.strand? scope.strand with
      | none => rfl
      | some strand =>
          cases hinvocation : strand.invocations[index]? <;> simp [hinvocation]

theorem act_follows (scope : Scope) {doing : Doing} (world : World α)
    (h : ∀ view, doing ≠ .asks .step view) : (world.act scope doing).Follows world.imprint :=
  ⟨world.stepView?_eq scope, fun view hdoing => absurd hdoing (h view)⟩

theorem asks_follows (scope : Scope) (query : Query) (world : World α) :
    (world.act scope (.asks query (world.answer scope query).2)).Follows world.imprint := by
  refine ⟨world.stepView?_eq scope, fun view hdoing => ?_⟩
  cases query <;> cases hdoing
  rfl

/-! ### What leaves the imprint as it is -/

/-- A change that is not the doing of code. -/
structure Mute (before after : World α) : Prop where
  surroundings : after.surroundings = before.surroundings
  pages : after.pages = before.pages
  said : Adds (fun occurrence => occurrence.isSaid = false) before after

section Mute

variable {before middle after : World α}

theorem Mute.refl (world : World α) : Mute world world :=
  ⟨rfl, rfl, .refl world⟩

theorem Mute.trans (h : Mute before middle) (k : Mute middle after) : Mute before after :=
  ⟨k.surroundings.trans h.surroundings, k.pages.trans h.pages, h.said.trans k.said⟩

theorem Mute.of_eq (hsurroundings : after.surroundings = before.surroundings)
    (hstrands : after.strands = before.strands) (hrecord : after.record = before.record) :
    Mute before after :=
  ⟨hsurroundings, by rw [World.pages, hstrands, World.pages], .of_record_eq hrecord⟩

theorem Mute.imprint (h : Mute before after) : after.imprint = before.imprint := by
  obtain ⟨added, hrecord, hadded⟩ := h.said
  have hnone : added.filter Occurrence.isSaid = [] :=
    List.filter_eq_nil_iff.mpr fun occurrence hmem => by simp [hadded occurrence hmem]
  rw [World.imprint, h.surroundings, h.pages, hrecord, List.filter_append, hnone, List.nil_append]
  rfl

theorem Mute.write {occurrence : Occurrence} (h : occurrence.isSaid = false) (world : World α) :
    Mute world (world.write occurrence) :=
  ⟨rfl, rfl, adds_write h world⟩

end Mute

theorem mute_modifyStrand {change : Strand α → Strand α}
    (h : ∀ strand, (change strand).invocations = strand.invocations ∧
      (change strand).states = strand.states) (number : Nat) (world : World α) :
    Mute world (world.modifyStrand number change) := by
  refine ⟨rfl, ?_, .of_record_eq rfl⟩
  refine List.ext_getElem? fun place => ?_
  rw [getElem?_pages, getElem?_pages, strand?_modifyStrand]
  split <;> cases world.strand? place <;> simp [h]

theorem mute_modifyCell (strand number : Nat) (change : Cell → Cell) (world : World α) :
    Mute world (world.modifyCell strand number change) := by
  refine mute_modifyStrand ?_ strand world
  exact fun _ => ⟨rfl, rfl⟩

theorem mute_modifyThread (strand : Nat) (thread : ThreadId)
    (change : {β : Type} → Thread β → Thread β) (world : World α) :
    Mute world (world.modifyThread strand thread change) :=
  mute_modifyStrand (fun _ => by cases thread <;> exact ⟨rfl, rfl⟩) strand world

theorem mute_wake (strand : Nat) (thread : ThreadId) (cell : Option Nat) (world : World α) :
    Mute world (world.wake strand thread cell) := by
  rw [wake]
  split
  · exact (mute_modifyThread strand thread (Thread.mark .woken) world).trans (.of_eq rfl rfl rfl)
  · exact .refl world

theorem mute_tell (strand number : Nat) (command : Command) (happening : Happening)
    (world : World α) : Mute world (world.tell strand number command happening) :=
  .write rfl world

theorem mute_noteExecution (scope : Scope) (number : Nat) (command : Command)
    (happening : Happening) (world : World α) :
    Mute world (world.noteExecution scope number command happening) :=
  .write rfl world

theorem mute_settle (strand number : Nat) (happening : Happening) (outcome : Outcome)
    (world : World α) : Mute world (world.settle strand number happening outcome) :=
  settle_induction (.refl world) (fun _ => mute_tell ..) (fun _ _ h => h.trans (mute_tell ..))
    (fun _ h => h.trans (mute_modifyCell ..)) fun _ _ h => h.trans (mute_wake ..)

theorem mute_complete (strand number : Nat) (result : Except Fault Value) (world : World α) :
    Mute world (world.complete strand number result) :=
  complete_induction (.refl world) fun _ => mute_settle ..

theorem mute_signal (event : String) (world : World α) : Mute world (world.signal event) :=
  signal_induction (fun _ => .of_eq rfl rfl rfl) fun _ _ _ h => h.trans (mute_wake ..)

theorem mute_openCell (scope : Scope) (command : Command) (state : CellState) (world : World α) :
    Mute world (world.openCell scope command state) := by
  refine mute_modifyStrand ?_ _ world
  exact fun _ => ⟨rfl, rfl⟩

theorem mute_spawn (scope : Scope) (cell : Nat) (delivers : Bool) (body : Routine Value)
    (world : World α) : Mute world (world.spawn scope cell delivers body) := by
  refine (mute_modifyStrand ?_ _ world).trans (.of_eq rfl rfl rfl)
  exact fun _ => ⟨rfl, rfl⟩

theorem mute_takeReply (scope : Scope) (command : Command) (cell : Nat) (reply : Reply)
    (world : World α) : Mute world (world.takeReply scope command cell reply) := by
  have htell : ∀ happening, Mute world (world.tell scope.strand cell command happening) :=
    fun happening => mute_tell scope.strand cell command happening world
  exact takeReply_induction (fun _ => htell _) (fun _ => htell _)
    (fun _ _ h => h.trans (mute_spawn ..))
    (fun _ _ h => (h.trans (mute_spawn ..)).trans (mute_modifyCell ..)) fun _ => mute_settle ..

theorem mute_drop (strand number : Nat) (world : World α) : Mute world (world.drop strand number) :=
  drop_induction (.refl world) fun _ => (mute_tell ..).trans (mute_modifyCell ..)

theorem mute_cancel (strand : Nat) (thread : ThreadId) (world : World α) :
    Mute world (world.cancel strand thread) := by
  refine cancel_induction (.refl world) (fun _ => mute_drop ..) (fun other h => ?_)
    (mute_modifyThread ..)
  have hforget : Mute other (other.forget strand thread) := .of_eq rfl rfl rfl
  have hmark := mute_modifyThread strand thread (Thread.mark .cancelled) (other.forget strand thread)
  exact ((h.trans hforget).trans hmark).trans (.of_eq rfl rfl rfl)

theorem mute_deliver (strand child : Nat) (world : World α) :
    Mute world (world.deliver strand child) :=
  deliver_induction (.refl world) fun _ _ _ => mute_settle ..

theorem mute_fire (strand : Nat) (goal : Goal) (world : World α) :
    Mute world (world.fire strand goal) := by
  cases goal with
  | wake thread => exact mute_wake ..
  | complete cell result => exact mute_complete ..

theorem mute_setRoot (strand : Nat) (status : ThreadStatus α) (world : World α) :
    Mute world (world.setRoot strand status) := by
  refine mute_modifyStrand ?_ strand world
  exact fun _ => ⟨rfl, rfl⟩

theorem mute_setChild (strand number : Nat) (status : ThreadStatus Value) (world : World α) :
    Mute world (world.setChild strand number status) := by
  refine mute_modifyStrand ?_ strand world
  exact fun _ => ⟨rfl, rfl⟩

/-! ### What acts leave behind -/

theorem imprint_note {event : Event} (scope : Scope) (world : World α)
    (h : (⟨some scope.strand, some scope.thread, scope.step, event⟩ : Occurrence).isSaid = true) :
    (world.note scope event).imprint = world.imprint.say scope event := by
  simp only [imprint, note, write, List.filter_cons_of_pos h, List.reverse_cons, Imprint.say]
  rfl

theorem imprint_answer (scope : Scope) (query : Query) (world : World α) :
    (world.answer scope query).1.imprint =
      (world.act scope (.asks query (world.answer scope query).2)).mark world.imprint := by
  cases query with
  | emit content => exact imprint_note scope world rfl
  | record command message => exact imprint_note scope world rfl
  | complete result =>
      rw [answer]
      split
      · exact (mute_complete ..).imprint
      · rfl
  | completeLater delay result =>
      rw [answer]
      split
      · split <;> rfl
      · rfl
  | signal event => exact (mute_signal ..).imprint
  | setState name entry =>
      simp only [answer, Act.mark, act]
      cases hstep : scope.step with
      | none => rfl
      | some index =>
          have hpages : (world.modifyStrand scope.strand fun strand =>
              { strand with states := strand.states.modify index (Entries.put name entry) }).pages =
                (world.imprint.put scope.strand index name entry).pages := by
            refine List.ext_getElem? fun place => ?_
            rw [getElem?_pages, strand?_modifyStrand, Imprint.put, imprint, List.getElem?_modify,
              getElem?_pages]
            split <;> cases world.strand? place <;> simp
          exact congrArg (fun pages => (⟨world.surroundings, pages, world.imprint.said⟩ : Imprint)) hpages
  | _ => rfl

end World

theorem Action.tells_run {α β : Type} (scope : Scope) (action : Action β) (world : World α) :
    Tells (action.run scope world).1.imprint world.imprint (action.acts scope world) := by
  induction action generalizing world with
  | finish value => rfl
  | fail fault => rfl
  | ask query next ih =>
      have hrest := ih (world.answer scope query).2 (world.answer scope query).1
      rw [World.imprint_answer] at hrest
      exact ⟨world.asks_follows scope query, hrest⟩

namespace World

variable {α : Type}

theorem tells_begin (scope : Scope) (command : Command) (arguments : Arguments) (world : World α) :
    Tells (world.begin scope command arguments).1.imprint world.imprint
      (world.actsOfBegin scope command arguments) := by
  have henter : Tells (world.enter scope (world.cellCount scope.strand) command arguments).1.imprint
      world.imprint (world.actsOfBegin scope command arguments) := by
    rw [enter, actsOfBegin]
    split
    · let number := world.cellCount scope.strand
      let opened := world.opened scope command arguments
      have hopened : Mute world opened := (mute_openCell ..).trans (mute_noteExecution ..)
      have hran := (command.run arguments).tells_run { scope with cell := some number } opened
      rw [hopened.imprint] at hran
      have hcall : ∀ middle result,
          (command.run arguments).run { scope with cell := some number } opened =
            (middle, result) →
          (opened.call scope number command arguments).1.imprint = middle.imprint := by
        intro middle result hrun
        simp only [call, hrun]
        cases result with
        | ok reply => exact (mute_takeReply ..).imprint
        | error fault =>
            dsimp only
            split
            · exact (mute_tell ..).imprint
            · exact (mute_settle ..).imprint
      have hsame := hcall _ _ rfl
      exact hsame ▸ hran
    · exact ((mute_openCell ..).trans (mute_noteExecution ..)).imprint.symm
  rcases hentered : world.enter scope (world.cellCount scope.strand) command arguments with
    ⟨entered, begun⟩
  rw [hentered] at henter
  simp only [begin, hentered]
  cases begun with
  | complete outcome =>
      have hnoted := (mute_noteExecution scope (world.cellCount scope.strand) command
        (.yielded outcome) entered).imprint
      exact hnoted.symm ▸ henter
  | waits number => exact henter
  | cancelled fault => exact henter

end World

section Stretch

variable {α β : Type} {scope : Scope} {world middle : World α}

theorem Action.tells_prepared {initializer : Action Unit} {result : Except Fault Unit} {index : Nat}
    (ran : initializer.run { scope with step := some index, cell := none } world = (middle, result))
    (failure : Option Fault) :
    Tells (middle.note scope (.prepared index failure)).imprint world.imprint
      (initializer.acts { scope with step := some index, cell := none } world ++
        [(middle.note scope (.prepared index failure)).act scope (.prepares index failure)]) := by
  have hran := initializer.tells_run { scope with step := some index, cell := none } world
  have hnote : (middle.note scope (.prepared index failure)).imprint = middle.imprint :=
    World.Mute.imprint (.write rfl middle)
  rw [ran, ← hnote] at hran
  exact hran.append ⟨World.act_follows scope _ (fun _ h => by cases h), rfl⟩

/-- The beginning of an execution leaves behind what its call says. -/
theorem Routine.Calls.tells {routine : Routine β} {step : Option Nat} {command : Command}
    {arguments : Arguments} {doing : Doing} {next : Outcome → Routine β} {begun : Begun}
    (calls : routine.Calls scope world step command arguments doing next)
    (h : world.begin { scope with step := step } command arguments = (middle, begun)) :
    Tells middle.imprint world.imprint
      (world.act scope doing :: world.actsOfBegin { scope with step := step } command arguments) := by
  have hbegin := world.tells_begin { scope with step := step } command arguments
  rw [h] at hbegin
  cases calls <;> exact ⟨world.act_follows scope (fun _ h => by cases h), hbegin⟩

theorem Routine.tells_run (scope : Scope) (routine : Routine β) (world : World α) :
    Tells (routine.run scope world).1.imprint world.imprint (routine.acts scope world) := by
  have hstretch := routine.stretch scope world
  generalize routine.acts scope world = acts at hstretch ⊢
  generalize routine.run scope world = ended at hstretch ⊢
  induction hstretch with
  | finish | fail | unknown | lack | miss => rfl
  | @ask query next world acts ended rest ih =>
      rw [World.imprint_answer] at ih
      exact ⟨world.asks_follows scope query, ih⟩
  | turn | timer | moment | event => exact ⟨World.act_follows scope _ (fun _ h => by cases h), rfl⟩
  | happened _ _ ih | ready _ _ _ ih =>
      exact ⟨World.act_follows scope _ (fun _ h => by cases h), ih⟩
  | prepared _ _ ran _ _ ih =>
      rw [List.append_cons]
      exact (Action.tells_prepared ran _).append ih
  | escaped _ _ ran => exact Action.tells_prepared ran _
  | complete calls begun _ ih =>
      exact (calls.tells begun).append ⟨World.act_follows scope _ (fun _ h => by cases h), ih⟩
  | waits calls begun | cancelled calls begun => exact calls.tells begun

end Stretch

namespace World

variable {α : Type}

theorem tells_turn {β : Type} (scope : Scope) (waiting : Waiting β) (isCancelled : Bool)
    (world : World α) :
    Tells (world.turn scope waiting isCancelled).1.imprint world.imprint
      (world.actsOfTurn scope waiting isCancelled) := by
  have hleave : ∀ notice : Option Item, Tells (world.leave scope notice).imprint world.imprint
      (notice.map fun item => world.act scope (.leaves item)).toList := by
    intro notice
    cases notice with
    | none => rfl
    | some item => exact ⟨world.act_follows scope (fun _ h => by cases h), (imprint_note scope world rfl).symm⟩
  cases isCancelled with
  | true =>
      simp only [turn, actsOfTurn, if_true, unwind, actsOfUnwind]
      cases waiting with
      | turn notice next => exact hleave notice
      | timer notice next => exact hleave notice
      | event name notice next => exact hleave notice
      | cell number next =>
          dsimp only
          split
          · exact (mute_cancel ..).imprint.symm
          · rfl
  | false =>
      have hresumed : Tells (world.resumed scope waiting).1.imprint world.imprint
          (world.actsOfResumed scope waiting) := by
        cases waiting with
        | turn notice next => rfl
        | timer notice next => rfl
        | event name notice next => rfl
        | cell number next =>
            cases houtcome : world.outcome? scope.strand number with
            | none =>
                simp only [resumed, actsOfResumed, houtcome]
                cases world.cell? scope.strand number <;> rfl
            | some outcome =>
                cases hcell : world.cell? scope.strand number with
                | none => simp [outcome?, hcell] at houtcome
                | some cell =>
                    simp only [resumed, actsOfResumed, houtcome, hcell]
                    exact ⟨world.act_follows scope (fun _ h => by cases h), (mute_noteExecution ..).imprint.symm⟩
      rw [turn_of_not_cancelled]
      simp only [actsOfTurn, Bool.false_eq_true, if_false]
      exact hresumed.append ((world.resumed scope waiting).2.tells_run scope _)

variable {first last world next : World α} {acts : List Act}

theorem Resumes.tells {strand : Nat} {id : ThreadId} (h : Resumes strand world id acts next) :
    Tells next.imprint world.imprint acts := by
  have hturned : ∀ {β : Type} (scope : Scope) (waiting : Waiting β) (isCancelled : Bool)
      {after : World α} {status : ThreadStatus β} {other : World α},
      (world.modifyThread strand id Thread.begin).turn scope waiting isCancelled = (after, status) →
      Mute after other → Tells other.imprint world.imprint
        ((world.modifyThread strand id Thread.begin).actsOfTurn scope waiting isCancelled) := by
    intro β scope waiting isCancelled after status other hturn hstored
    have htells := (world.modifyThread strand id Thread.begin).tells_turn scope waiting isCancelled
    rw [hturn, (mute_modifyThread strand id Thread.begin world).imprint] at htells
    exact hstored.imprint ▸ htells
  cases h with
  | idle => rfl
  | root current waiting isCancelled after status found due turn =>
      refine hturned _ waiting isCancelled turn ((mute_setRoot strand status after).trans ?_)
      cases status <;> exact .of_eq rfl rfl rfl
  | child current number thread waiting isCancelled after status found child due turn =>
      refine hturned _ waiting isCancelled turn ((mute_setChild strand number status after).trans ?_)
      cases status <;> exact .of_eq rfl rfl rfl

theorem Does.tells (h : world.Does acts next) : Tells next.imprint world.imprint acts := by
  cases h with
  | perform before after job hqueue =>
      have htaken : ({ world with queue := before ++ after } : World α).imprint = world.imprint := rfl
      rw [← htaken]
      cases job with
      | resume strand thread => exact (World.resumes strand thread _).tells
      | fire strand goal => exact (mute_fire strand goal _).imprint.symm
      | deliver strand child => exact (mute_deliver strand child _).imprint.symm
      | announce | supervise => rfl
  | advance _ hnext =>
      obtain ⟨due, -, heq⟩ := Option.bind_eq_some_iff.mp hnext
      obtain rfl := Option.some.inj heq
      rfl
  | cancel strand => exact (mute_cancel ..).imprint.symm
  | print item => exact (Mute.imprint (.write rfl world)).symm
  | notify => rfl

/-- In every course of a run, each act sees what the acts before it have left behind, and what code
has left behind at the end comes from the acts. -/
theorem Course.tells (h : Course first acts last) : Tells last.imprint first.imprint acts := by
  induction h with
  | start => rfl
  | step _ does ih => exact ih.append does.tells

end World

end Cascade
