import Cascade.Proofs.Outside.Bare
import Cascade.Proofs.Registry.Store

/-!
Code that does not read the current step does the same in twin worlds, whatever steps it belongs to there.
-/

namespace Cascade

variable {α β γ : Type} {family : String → Prop}

namespace World

/-- Twin worlds with the same proper value. -/
structure TwinsWith (family : String → Prop) (proper : γ → Prop) (first : World α × γ)
    (second : World β × γ) : Prop where
  worlds : Twins family first.1 second.1
  value : first.2 = second.2
  proper : proper second.2

namespace Twins

variable {left : World α} {right : World β}

/-! ### Waking and completing -/

theorem wake (h : Twins family left right) (place : Nat) (id : ThreadId) (cell : Option Nat) :
    Twins family (left.wake place id cell) (right.wake place id cell) := by
  rw [World.wake, h.sleepsOn_eq, World.wake]
  split
  · exact (h.mark place id .woken).enqueue trivial
  · exact h

theorem tell (h : Twins family left right) (place number : Nat) (command : Command)
    (happening : Happening) : Twins family (left.tell place number command happening)
      (right.tell place number command happening) :=
  h.write _ _

theorem settle (h : Twins family left right) (place number : Nat) (happening : Happening)
    (outcome : Outcome) :
    Twins family (left.settle place number happening outcome)
      (right.settle place number happening outcome) := by
  have hcell := h.cell?_rel place number
  rw [World.settle, World.settle]
  generalize left.cell? place number = first at hcell
  generalize right.cell? place number = second at hcell
  cases hcell with
  | none => exact h
  | @some cell other hstep =>
      obtain ⟨step, rfl⟩ := hstep
      have htold := h.tell place number cell.command happening
      dsimp only
      split
      · exact htold
      · exact htold.tell place number cell.command (.ignored outcome)
      · have hsettled := htold.modifyCell place number
          (fun cell => { cell with state := .settled outcome }) fun _ => rfl
        exact hsettled.wake place cell.caller (some number)

theorem complete (h : Twins family left right) (place number : Nat) (result : Except Fault Value) :
    Twins family (left.complete place number result) (right.complete place number result) := by
  have hcell := h.cell?_rel place number
  rw [World.complete, World.complete]
  generalize left.cell? place number = first at hcell
  generalize right.cell? place number = second at hcell
  cases hcell with
  | none => exact h
  | @some cell other hstep =>
      obtain ⟨step, rfl⟩ := hstep
      exact h.settle place number (.completed result) ⟨cell.command.name, result⟩

theorem signal (h : Twins family left right) (event : String) :
    Twins family (left.signal event) (right.signal event) := by
  have hfold : ∀ (woken : List (String × Nat × ThreadId)) {first : World α} {second : World β},
      Twins family first second → Twins family
        (woken.foldl (fun world waiter => World.wake waiter.2.1 waiter.2.2 none world) first)
        (woken.foldl (fun world waiter => World.wake waiter.2.1 waiter.2.2 none world) second) := by
    intro woken
    induction woken with
    | nil => exact fun h => h
    | cons waiter rest ih => exact fun h => ih (h.wake waiter.2.1 waiter.2.2 none)
  simp only [World.signal, h.waiters_eq, h.happened_eq]
  refine hfold _ ⟨?_, h.registry, h.children, h.inner⟩
  let others := (right.waiters.partition fun waiter => waiter.1 = event).2
  have hsame := congrArg (fun world : World Unit =>
    { world with happened := event :: right.happened, waiters := others }) h.same
  exact hsame

/-! ### Questions and calls -/

variable (place : Nat) (id : ThreadId) (own first second : Option Nat)

/-- A question that has nothing to do with the current step has the same answer. -/
theorem answer (h : Twins family left right) {query : Query} (hquery : query.IsStepless) :
    TwinsWith family (fun _ => True) (left.answer ⟨place, id, first, own⟩ query)
      (right.answer ⟨place, id, second, own⟩ query) := by
  cases query with
  | emit item => exact ⟨h.write _ _, rfl, trivial⟩
  | now => exact ⟨h, h.clock_eq, trivial⟩
  | complete result =>
      cases own with
      | none => exact ⟨h, rfl, trivial⟩
      | some number => exact ⟨h.complete place number result, rfl, trivial⟩
  | completeLater delay result =>
      cases own with
      | none => exact ⟨h, rfl, trivial⟩
      | some number =>
          simp only [World.answer]
          split
          · exact ⟨h.schedule place delay (.complete number result), rfl, trivial⟩
          · exact ⟨h.enqueue trivial, rfl, trivial⟩
  | signal event => exact ⟨h.signal event, rfl, trivial⟩
  | countCall name =>
      simp only [World.answer, h.calls_eq]
      refine ⟨⟨?_, h.registry, h.children, h.inner⟩, rfl, trivial⟩
      have hsame := congrArg (fun world : World Unit => { world with
        calls := right.calls.put name ((right.calls.get? name).getD 0 + 1) }) h.same
      exact hsame
  | callCount name => exact ⟨h, by simp only [World.answer, h.calls_eq], trivial⟩
  | step => exact hquery.elim
  | setState name entry => exact hquery.elim
  | menu => exact ⟨h, h.menuView_eq, trivial⟩
  | record command message => exact ⟨h.write _ _, rfl, trivial⟩

end Twins

end World

theorem Action.twins_run {action : Action γ} {proper : γ → Prop} (hstepless : action.IsStepless proper)
    {left : World α} {right : World β} (h : World.Twins family left right) (place : Nat)
    (id : ThreadId) (own first second : Option Nat) :
    World.TwinsWith family (fun result => ∀ value, result = .ok value → proper value)
      (action.run ⟨place, id, first, own⟩ left) (action.run ⟨place, id, second, own⟩ right) := by
  induction action generalizing left right with
  | finish value =>
      refine ⟨h, rfl, ?_⟩
      rintro _ ⟨⟩
      exact hstepless
  | fail fault => exact ⟨h, rfl, nofun⟩
  | ask query next ih =>
      obtain ⟨hquery, hnext⟩ := hstepless
      have hanswer := h.answer place id own first second hquery
      simp only [Action.run, hanswer.value]
      exact ih _ (hnext _) hanswer.worlds

namespace World.Twins

variable {left : World α} {right : World β} (place : Nat) (id : ThreadId)
  (own first second : Option Nat)

/-! ### Executions -/

theorem openCell (h : Twins family left right) (command : Command) (state : CellState) :
    Twins family (left.openCell ⟨place, id, first, own⟩ command state)
      (right.openCell ⟨place, id, second, own⟩ command state) := by
  refine h.modifyStrand
    (fun strand => { strand with cells := strand.cells ++ [⟨command, id, none, state, none⟩] })
    (fun strand => ?_) (fun strand => ?_) ?_ place
  · simp only [Strand.bare, List.map_append, List.map_cons, List.map_nil, Cell.unplaced]
  · simp only [Strand.bare, List.map_append, List.map_cons, List.map_nil, Cell.unplaced]
  · exact fun _ hchildren => hchildren

theorem spawn (h : Twins family left right) {body : Routine Value} (hbody : body.IsStepless family)
    (number : Nat) (delivers : Bool) :
    Twins family (left.spawn ⟨place, id, first, own⟩ number delivers body)
      (right.spawn ⟨place, id, second, own⟩ number delivers body) := by
  simp only [World.spawn, h.childCount_eq]
  refine Twins.enqueue ?_ trivial
  refine h.modifyStrand
    (fun strand => { strand with
      children := strand.children ++ [Thread.start none (some number) delivers body] })
    (fun strand => ?_) (fun strand => ?_) ?_ place
  · simp only [Strand.bare, List.map_append, List.map_cons, List.map_nil, Thread.unplaced,
      Thread.start]
  · simp only [Strand.bare, List.map_append, List.map_cons, List.map_nil, Thread.unplaced,
      Thread.start]
  · exact fun _ hchildren => List.forall_mem_append.mpr
      ⟨hchildren, List.forall_mem_singleton.mpr hbody⟩

theorem adopt (h : Twins family left right) {body : Routine Value} (hbody : body.IsStepless family)
    (number : Nat) :
    Twins family (left.adopt ⟨place, id, first, own⟩ number body)
      (right.adopt ⟨place, id, second, own⟩ number body) := by
  simp only [World.adopt, h.childCount_eq]
  exact (h.spawn place id own first second hbody number true).modifyCell place number
    (fun cell => { cell with child := some (right.childCount place) }) fun _ => rfl

theorem takeReply (h : Twins family left right) {reply : Reply} (hreply : reply.IsStepless family)
    (command : Command) (number : Nat) :
    Twins family (left.takeReply ⟨place, id, first, own⟩ command number reply)
      (right.takeReply ⟨place, id, second, own⟩ command number reply) := by
  simp only [World.takeReply, h.outcome?_eq]
  cases reply with
  | value value =>
      cases right.outcome? place number with
      | some outcome => exact h.tell place number command (.returned value)
      | none =>
          dsimp only
          split
          · exact h.tell place number command (.returned value)
          · exact h.settle place number (.returned value) (.success command.name value)
  | awaitable started body =>
      have htold := h.tell place number command (.promised started)
      cases right.outcome? place number with
      | some outcome =>
          dsimp only
          split
          · exact htold.spawn place id own first second hreply number false
          · exact htold
      | none => exact htold.adopt place id own first second hreply number

theorem call (h : Twins family left right) {command : Command} (hcommand : command.IsStepless family)
    (number : Nat) (arguments : Arguments) :
    TwinsWith family (fun _ => True) (left.call ⟨place, id, first, own⟩ number command arguments)
      (right.call ⟨place, id, second, own⟩ number command arguments) := by
  have hrun := Action.twins_run (hcommand arguments) h place id (some number) first second
  rw [World.call, World.call]
  rcases hfirst : (command.run arguments).run ⟨place, id, first, some number⟩ left with
    ⟨middle, result⟩
  rcases hsecond : (command.run arguments).run ⟨place, id, second, some number⟩ right with
    ⟨other, ending⟩
  rw [hfirst, hsecond] at hrun
  obtain ⟨hworlds, hsame, hproper⟩ := hrun
  obtain rfl : result = ending := hsame
  cases result with
  | ok reply =>
      have htaken := hworlds.takeReply place id own first second (hproper reply rfl) command number
      exact ⟨htaken, htaken.standing_eq place number, trivial⟩
  | error fault =>
      dsimp only
      split
      · exact ⟨hworlds.tell place number command (.escaped fault), rfl, trivial⟩
      · have hsettled := hworlds.settle place number (.raised fault) (.failure command.name fault)
        exact ⟨hsettled, hsettled.standing_eq place number, trivial⟩

theorem enter (h : Twins family left right) {command : Command} (hcommand : command.IsStepless family)
    (number : Nat) (arguments : Arguments) :
    TwinsWith family (fun _ => True) (left.enter ⟨place, id, first, own⟩ number command arguments)
      (right.enter ⟨place, id, second, own⟩ number command arguments) := by
  rw [World.enter, World.enter]
  split
  · refine Twins.call place id own first second ?_ hcommand number arguments
    exact (h.openCell place id own first second command .pending).write _ _
  · refine ⟨?_, rfl, trivial⟩
    exact (h.openCell place id own first second command (.settled _)).write _ _

theorem begin (h : Twins family left right) {command : Command} (hcommand : command.IsStepless family)
    (arguments : Arguments) :
    TwinsWith family (fun _ => True) (left.begin ⟨place, id, first, own⟩ command arguments)
      (right.begin ⟨place, id, second, own⟩ command arguments) := by
  have henter := h.enter place id own first second hcommand (right.cellCount place) arguments
  rw [World.begin, h.cellCount_eq, World.begin]
  rcases hfirst : left.enter ⟨place, id, first, own⟩ (right.cellCount place) command arguments with
    ⟨middle, begun⟩
  rcases hsecond : right.enter ⟨place, id, second, own⟩ (right.cellCount place) command arguments with
    ⟨other, ending⟩
  rw [hfirst, hsecond] at henter
  obtain ⟨hworlds, hsame, -⟩ := henter
  obtain rfl : begun = ending := hsame
  cases begun with
  | complete outcome => exact ⟨hworlds.write _ _, rfl, trivial⟩
  | waits number => exact ⟨hworlds, rfl, trivial⟩
  | cancelled fault => exact ⟨hworlds, rfl, trivial⟩

end World.Twins

/-- A pause of code that does not read the current step. -/
def Suspension.IsStepless (family : String → Prop) : Suspension γ → Prop
  | .ended _ => True
  | .waits waiting _ => waiting.IsStepless family

theorem Routine.twins_run {routine : Routine γ} (hstepless : routine.IsStepless family)
    {left : World α} {right : World β} (h : World.Twins family left right) (place : Nat)
    (id : ThreadId) (own first second : Option Nat) :
    World.TwinsWith family (Suspension.IsStepless family)
      (routine.run ⟨place, id, first, own⟩ left) (routine.run ⟨place, id, second, own⟩ right) := by
  induction routine generalizing left right with
  | finish value => exact ⟨h, rfl, trivial⟩
  | fail fault => exact ⟨h, rfl, trivial⟩
  | ask query next ih =>
      obtain ⟨hquery, hnext⟩ := hstepless
      have hanswer := h.answer place id own first second hquery
      simp only [Routine.run, hanswer.value]
      exact ih _ (hnext _) hanswer.worlds
  | sleep seconds notice next ih =>
      rw [Routine.run, Routine.run]
      split
      · exact ⟨h.enqueue trivial, rfl, hstepless⟩
      · split
        · exact ⟨h.schedule place seconds (.wake id), rfl, hstepless⟩
        · exact ⟨h.enqueue trivial, rfl, hstepless⟩
  | await event notice next ih =>
      rw [Routine.run, h.happened_eq, Routine.run]
      split
      · exact ih () hstepless h
      · refine ⟨⟨?_, h.registry, h.children, h.inner⟩, rfl, hstepless⟩
        have hsame := congrArg (fun world : World Unit => { world with
          happened := right.happened
          waiters := world.waiters ++ [(event, place, id)] }) h.same
        exact hsame
  | prepare index next ih => exact hstepless.elim
  | execute index next ih => exact hstepless.elim
  | invoke name given next ih =>
      obtain ⟨hname, hnext⟩ := hstepless
      simp only [Routine.run, h.surroundings_eq]
      cases hlookup : right.surroundings.registry.lookup name with
      | error fault => exact ⟨h, rfl, trivial⟩
      | ok command =>
          cases given.toArguments with
          | error fault => exact ⟨h, rfl, trivial⟩
          | ok arguments =>
              have hcommand := h.registry name command hname (Registry.lookup_eq_ok_iff.mp hlookup)
              have hbegin := h.begin place id own first second hcommand arguments
              dsimp only
              rcases hfirst : left.begin ⟨place, id, first, own⟩ command arguments with
                ⟨middle, begun⟩
              rcases hsecond : right.begin ⟨place, id, second, own⟩ command arguments with
                ⟨other, ending⟩
              rw [hfirst, hsecond] at hbegin
              obtain ⟨hworlds, hsame, -⟩ := hbegin
              obtain rfl : begun = ending := hsame
              cases begun with
              | complete outcome => exact ih _ (hnext _) hworlds
              | waits number => exact ⟨hworlds, rfl, hnext⟩
              | cancelled fault => exact ⟨hworlds, rfl, trivial⟩

end Cascade
