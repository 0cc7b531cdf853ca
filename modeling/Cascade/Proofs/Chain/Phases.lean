import Cascade.Proofs.Chain.Deeds

/-!
The phases of a chain: every element is read, then the initializers are run in their order up to the
first that fails, and then the steps are executed in their order up to the first that fails.
-/

namespace Cascade

namespace Chain

def hasInitializer (invocations : List Invocation) (index : Nat) : Bool :=
  (invocations[index]?.bind fun invocation => invocation.command.initializer).isSome

/-- The steps that have an initializer, in their order. -/
def preparing (invocations : List Invocation) : List Nat :=
  (List.range invocations.length).filter (hasInitializer invocations)

/-- The deeds of steps that were executed one after the other. -/
def blocks (invocations : List Invocation) (outcomes : List Outcome) : List Deed :=
  (invocations.zip outcomes).zipIdx.flatMap fun ((invocation, outcome), index) =>
    [.started (some index) invocation.command invocation.arguments, .finished (some index) outcome]

theorem zip_concat {β γ : Type} {items : List β} {others : List γ} {item : β}
    (h : items[others.length]? = some item) (other : γ) :
    items.zip (others ++ [other]) = items.zip others ++ [(item, other)] := by
  obtain ⟨front, back, rfl, hlength⟩ : ∃ front back,
      items = front ++ item :: back ∧ front.length = others.length := by
    obtain ⟨hlt, rfl⟩ := List.getElem?_eq_some_iff.mp h
    refine ⟨items.take others.length, items.drop (others.length + 1), ?_, ?_⟩
    · rw [← List.drop_eq_getElem_cons hlt, List.take_append_drop]
    · exact List.length_take_of_le (Nat.le_of_lt hlt)
  have hold : (front ++ item :: back).zip others = front.zip others := by
    have hzip : (front ++ item :: back).zip (others ++ []) = front.zip others ++
        (item :: back).zip [] := List.zip_append hlength
    simpa using hzip
  rw [List.zip_append hlength, hold]
  simp

theorem blocks_append {invocations : List Invocation} {outcomes : List Outcome}
    {invocation : Invocation} (h : invocations[outcomes.length]? = some invocation)
    (outcome : Outcome) :
    blocks invocations (outcomes ++ [outcome]) = blocks invocations outcomes ++
      [.started (some outcomes.length) invocation.command invocation.arguments,
        .finished (some outcomes.length) outcome] := by
  have hlt := (List.getElem?_eq_some_iff.mp h).1
  rw [blocks, zip_concat h, List.zipIdx_append, List.flatMap_append, blocks]
  simp [List.length_zip, Nat.min_eq_right (Nat.le_of_lt hlt)]

theorem exists_of_mem_blocks {invocations : List Invocation} {outcomes : List Outcome} {deed : Deed}
    (h : deed ∈ blocks invocations outcomes) :
    ∃ (index : Nat) (invocation : Invocation) (outcome : Outcome),
      invocations[index]? = some invocation ∧ outcomes[index]? = some outcome ∧
      (deed = .started (some index) invocation.command invocation.arguments ∨
        deed = .finished (some index) outcome) := by
  obtain ⟨⟨⟨invocation, outcome⟩, index⟩, hmem, hdeed⟩ := List.mem_flatMap.mp h
  obtain ⟨hinvocation, houtcome⟩ :=
    List.getElem?_zip_eq_some.mp (List.mem_zipIdx_iff_getElem?.mp hmem)
  exact ⟨index, invocation, outcome, hinvocation, houtcome, by simpa using hdeed⟩

/-- Steps were executed up to the first that failed, or to the end. -/
structure Ran (invocations : List Invocation) (outcomes : List Outcome) : Prop where
  succeeded : ∀ outcome ∈ outcomes.dropLast, outcome.isSuccess = true
  length : outcomes.length ≤ invocations.length
  ended : outcomes.length = invocations.length ∨
    ∃ outcome, outcomes.getLast? = some outcome ∧ outcome.isSuccess = false

/-- No thread was started and no execution was begun. -/
def IsBare (place : Nat) (world : World ChainResult) : Prop :=
  ∃ shape, world.shape? place = some shape ∧ shape.children = [] ∧ shape.cells = []

/-- The invocations of a strand, and what its chain did so far. -/
structure Here (invocations : List Invocation) (place : Nat) (deeds : List Deed)
    (world : World ChainResult) : Prop where
  invocations : (world.outline? place).map Prod.fst = some invocations
  deeds : world.deeds place = deeds

variable {invocations : List Invocation} {deeds : List Deed} {place : Nat}
  {world other : World ChainResult}

theorem Here.of_outline_eq (h : Here invocations place deeds world)
    (houtline : other.outline? place = world.outline? place) {more : List Deed}
    (hdeeds : other.deeds place = world.deeds place ++ more) :
    Here invocations place (deeds ++ more) other :=
  ⟨houtline ▸ h.invocations, by rw [hdeeds, h.deeds]⟩

theorem Here.same (h : Here invocations place deeds world)
    (houtline : (other.outline? place).map Prod.fst = (world.outline? place).map Prod.fst)
    (hdeeds : other.deeds place = world.deeds place) : Here invocations place deeds other :=
  ⟨houtline.trans h.invocations, by rw [hdeeds, h.deeds]⟩

theorem Here.strand (h : Here invocations place deeds world) :
    ∃ current, world.strand? place = some current ∧ current.invocations = invocations := by
  have hsome := h.invocations
  rw [World.outline?, World.shape?] at hsome
  cases hstrand : world.strand? place with
  | none => simp [hstrand] at hsome
  | some current =>
      rw [hstrand] at hsome
      exact ⟨current, rfl, Option.some.inj hsome⟩

theorem Here.lookup (h : Here invocations place deeds world) (index : Nat) :
    ((world.strand? place).bind fun strand => strand.invocations[index]?) = invocations[index]? := by
  obtain ⟨current, hstrand, rfl⟩ := h.strand
  rw [hstrand]
  rfl

/-- Code that runs to its end at once does nothing to the steps. -/
theorem Here.action {β : Type} (h : Here invocations place deeds world) (scope : Scope)
    (action : Action β) : Here invocations place deeds (action.run scope world).1 := by
  refine h.same ?_ (World.deeds_of_adds ((action.adds_run scope world).mono
    fun _ h => h.deed?_eq_none place))
  rw [World.outline?, congrFun (action.sameShape_run scope world) place, World.outline?]

theorem IsBare.of_shape (h : IsBare place world) (hshape : other.shape? place = world.shape? place) :
    IsBare place other := by
  obtain ⟨shape, hsome, hempty⟩ := h
  exact ⟨shape, hshape.trans hsome, hempty⟩

theorem IsBare.action {β : Type} (h : IsBare place world) (scope : Scope) (action : Action β) :
    IsBare place (action.run scope world).1 :=
  h.of_shape (congrFun (action.sameShape_run scope world) place)

/-! ### Initializers -/

/-- What becomes of the initializers of the steps with the given indexes. -/
def Prepared (invocations : List Invocation) (place : Nat) (deeds : List Deed)
    (indexes : List Nat) :
    Suspension (Option (Nat × Fault)) → World ChainResult → Prop
  | .ended (.ok none), world =>
      Here invocations place
          (deeds ++ (indexes.filter (hasInitializer invocations)).map (.prepared · none)) world ∧
        IsBare place world
  | .ended (.ok (some (index, cause))), world =>
      ∃ before after, indexes.filter (hasInitializer invocations) = before ++ index :: after ∧
        Here invocations place
          (deeds ++ (before.map (.prepared · none) ++ [.prepared index (some cause)])) world ∧
        IsBare place world
  | .ended (.error _), _ => True
  | .waits _ _, _ => False

theorem Prepared.cons {index : Nat} {rest : List Nat}
    (hkeep : hasInitializer invocations index = true)
    {suspension : Suspension (Option (Nat × Fault))}
    (h : Prepared invocations place (deeds ++ [.prepared index none]) rest suspension world) :
    Prepared invocations place deeds (index :: rest) suspension world := by
  have hfilter : (index :: rest).filter (hasInitializer invocations) =
      index :: rest.filter (hasInitializer invocations) := List.filter_cons_of_pos hkeep
  rcases suspension with (fault | (_ | ⟨failed, cause⟩)) | ⟨waiting, wake⟩
  · trivial
  · obtain ⟨hhere, hbare⟩ := h
    refine ⟨?_, hbare⟩
    rw [hfilter, List.map_cons]
    rwa [List.append_assoc] at hhere
  · obtain ⟨before, after, hsplit, hhere, hbare⟩ := h
    refine ⟨index :: before, after, by rw [hfilter, hsplit, List.cons_append], ?_, hbare⟩
    rwa [List.append_assoc] at hhere
  · exact h

theorem deeds_note_prepared {scope : Scope} (hroot : scope.thread = .root) (index : Nat)
    (failure : Option Fault) (world : World ChainResult) :
    (world.note scope (.prepared index failure)).deeds scope.strand =
      world.deeds scope.strand ++ [.prepared index failure] := by
  rw [World.note, World.deeds_write, Occurrence.deed?, if_pos ⟨rfl, by rw [hroot]⟩]
  rfl

theorem prepared_run {scope : Scope} (hroot : scope.thread = .root) (indexes : List Nat)
    (h : Here invocations scope.strand deeds world) (hbare : IsBare scope.strand world) :
    Prepared invocations scope.strand deeds indexes ((prepareSteps indexes).run scope world).2
      ((prepareSteps indexes).run scope world).1 := by
  induction indexes generalizing deeds world with
  | nil =>
      refine ⟨?_, hbare⟩
      rw [List.filter_nil, List.map_nil, List.append_nil]
      exact h
  | cons index rest ih =>
      simp only [prepareSteps, Routine.run, h.lookup index]
      split
      · trivial
      · rename_i invocation hinvocation
        split
        · rename_i hnone
          have hskip : hasInitializer invocations index = false := by
            rw [hasInitializer, hinvocation, Option.bind_some, hnone]
            rfl
          have hfilter : (index :: rest).filter (hasInitializer invocations) =
              rest.filter (hasInitializer invocations) := List.filter_cons_of_neg (by simp [hskip])
          have hrest := ih h hbare
          simp only [Prepared, hfilter] at hrest ⊢
          exact hrest
        · rename_i initializer hinitializer
          have hkeep : hasInitializer invocations index = true := by
            rw [hasInitializer, hinvocation, Option.bind_some, hinitializer]
            rfl
          let inner : Scope := { scope with step := some index, cell := none }
          have hran := h.action inner initializer
          have hranBare := hbare.action inner initializer
          rcases hrun : initializer.run inner world with ⟨middle, result⟩
          rw [hrun] at hran hranBare
          dsimp only at hran hranBare
          have hfilter : (index :: rest).filter (hasInitializer invocations) =
              index :: rest.filter (hasInitializer invocations) := List.filter_cons_of_pos hkeep
          have hnoted : ∀ failure, Here invocations scope.strand
              (deeds ++ [.prepared index failure])
              (middle.note scope (.prepared index failure)) := by
            intro failure
            refine hran.of_outline_eq ?_ (deeds_note_prepared hroot index failure middle)
            rfl
          cases result with
          | ok value => exact (ih (hnoted none) (hranBare.of_shape rfl)).cons hkeep
          | error fault =>
              dsimp only
              split
              · trivial
              · refine ⟨[], rest.filter (hasInitializer invocations), hfilter, ?_,
                  hranBare.of_shape rfl⟩
                exact hnoted (some fault)

/-! ### Steps -/

/-- What becomes of the steps after the initializers, whose deeds come first. -/
def Executed (invocations : List Invocation) (place : Nat) (deeds : List Deed) :
    Suspension (Option Outcome) → World ChainResult → Prop
  | .ended (.ok last), world =>
      ∃ outcomes, Ran invocations outcomes ∧ last = outcomes.getLast? ∧
        Here invocations place (deeds ++ blocks invocations outcomes) world
  | .ended (.error _), _ => True
  | .waits waiting _, world =>
      ∃ outcomes rest number cell invocation,
        (∀ outcome ∈ outcomes, outcome.isSuccess = true) ∧
        outcomes.length + 1 + rest = invocations.length ∧
        invocations[outcomes.length]? = some invocation ∧
        waiting = .cell number (fun outcome =>
          if outcome.isSuccess then
            executeSteps (some outcome) (List.range' (outcomes.length + 1) rest)
          else .finish (some outcome)) ∧
        world.cell? place number = some cell ∧ cell.step = some outcomes.length ∧
        Here invocations place (deeds ++ (blocks invocations outcomes ++
          [.started (some outcomes.length) invocation.command invocation.arguments])) world

theorem Ran.of_failure {outcomes : List Outcome} {outcome : Outcome}
    (h : ∀ earlier ∈ outcomes, earlier.isSuccess = true)
    (hlt : outcomes.length < invocations.length) (hfailed : outcome.isSuccess = false) :
    Ran invocations (outcomes ++ [outcome]) := by
  refine ⟨?_, ?_, .inr ⟨outcome, by simp, hfailed⟩⟩
  · rw [List.dropLast_concat]
    exact h
  · rw [List.length_append, List.length_singleton]
    exact hlt

theorem executed_run {scope : Scope} (hroot : scope.thread = .root) (outcomes : List Outcome)
    (rest : Nat) (hsucceeded : ∀ outcome ∈ outcomes, outcome.isSuccess = true)
    (hlength : outcomes.length + rest = invocations.length)
    (h : Here invocations scope.strand (deeds ++ blocks invocations outcomes) world) :
    Executed invocations scope.strand deeds
      ((executeSteps outcomes.getLast? (List.range' outcomes.length rest)).run scope world).2
      ((executeSteps outcomes.getLast? (List.range' outcomes.length rest)).run scope world).1 := by
  induction rest generalizing outcomes world with
  | zero =>
      refine ⟨outcomes, ⟨fun outcome hmem => ?_, by omega, .inl hlength⟩, rfl, h⟩
      exact hsucceeded outcome (List.dropLast_subset outcomes hmem)
  | succ rest ih =>
      have hlt : outcomes.length < invocations.length := by omega
      have hinvocation : invocations[outcomes.length]? = some invocations[outcomes.length] :=
        List.getElem?_eq_getElem hlt
      simp only [List.range'_succ, executeSteps, Routine.run, h.lookup, hinvocation]
      let invocation := invocations[outcomes.length]
      let inner : Scope := { scope with step := some outcomes.length }
      have hdeeds := World.deeds_begin inner hroot invocation.command invocation.arguments world
      have hinside := World.inside_begin inner invocation.command invocation.arguments world
      obtain ⟨current, hstrand, -⟩ := h.strand
      have hcell := @World.cell_of_begin _ inner invocation.command invocation.arguments world
        current hstrand
      rcases hbegun : world.begin inner invocation.command invocation.arguments with
        ⟨middle, begun⟩
      rw [hbegun] at hdeeds hinside hcell
      cases begun with
      | cancelled fault => trivial
      | waits number =>
          obtain ⟨cell, hsome, hstep⟩ := hcell rfl
          refine ⟨outcomes, rest, number, cell, invocation, hsucceeded, by omega, hinvocation, rfl,
            hsome, hstep, ?_⟩
          rw [← List.append_assoc]
          exact h.of_outline_eq hinside.own hdeeds
      | complete outcome =>
          have hmiddle : Here invocations scope.strand
              (deeds ++ blocks invocations (outcomes ++ [outcome])) middle := by
            rw [blocks_append hinvocation, ← List.append_assoc]
            exact h.of_outline_eq hinside.own hdeeds
          dsimp only
          split
          · rename_i hsuccess
            have hall : ∀ earlier ∈ outcomes ++ [outcome], earlier.isSuccess = true := by
              intro earlier hmem
              rcases List.mem_append.mp hmem with hold | hnew
              · exact hsucceeded earlier hold
              · rw [List.mem_singleton.mp hnew, hsuccess]
            have hnext := ih (outcomes ++ [outcome]) hall (by simp; omega) hmiddle
            simpa using hnext
          · rename_i hfailure
            exact ⟨outcomes ++ [outcome], .of_failure hsucceeded hlt (by simpa using hfailure),
              by simp, hmiddle⟩

/-! ### The whole chain -/

/-- How a chain came to its result. -/
inductive Phases (chain : Chain) (place : Nat) (result : ChainResult)
    (world : World ChainResult) : Prop
  | unread (fault : Fault) (reading : chain.reading = .error fault)
      (failure : result.failure = some fault) (invocations : result.invocations = [])
      (outcome : result.outcome = none) (deeds : world.deeds place = [])
      (bare : IsBare place world)
  | unprepared (before after : List Nat) (index : Nat) (cause : Fault)
      (reading : chain.reading = .ok result.invocations)
      (initializers : preparing result.invocations = before ++ index :: after)
      (failure : result.failure = some (.initialization
        ((result.invocations[index]?.map Invocation.name).getD "") cause))
      (outcome : result.outcome = none)
      (deeds : world.deeds place =
        before.map (.prepared · none) ++ [.prepared index (some cause)])
      (bare : IsBare place world)
  | executed (outcomes : List Outcome) (reading : chain.reading = .ok result.invocations)
      (ran : Ran result.invocations outcomes) (outcome : result.outcome = outcomes.getLast?)
      (failure : result.failure = result.outcome.bind fun outcome =>
        outcome.fault?.map (Fault.ofCommand outcome.command))
      (deeds : world.deeds place = (preparing result.invocations).map (.prepared · none) ++
        blocks result.invocations outcomes)

/-- A chain waits for a step after all its initializers. -/
def Midway (chain : Chain) (place : Nat) (waiting : Waiting ChainResult)
    (world : World ChainResult) : Prop :=
  ∃ invocations start step, chain.reading = .ok invocations ∧
    waiting = Waiting.bind (chain.conclude start invocations) step ∧
    Executed invocations place ((preparing invocations).map (.prepared · none))
      (.waits step .asleep) world

/-- How a chain stands at the end of a turn. -/
def Stands (chain : Chain) (place : Nat) :
    Suspension ChainResult → World ChainResult → Prop
  | .ended (.ok result), world => Phases chain place result world
  | .ended (.error _), _ => True
  | .waits waiting _, world => Midway chain place waiting world

theorem run_action_bind {β γ : Type} (scope : Scope) (action : Action β)
    (world : World ChainResult) {value : β} (h : (action.run scope world).2 = .ok value)
    (next : β → Routine γ) :
    ((Routine.ofAction action).bind next).run scope world =
      (next value).run scope (action.run scope world).1 := by
  rw [Routine.run_bind, Routine.run_ofAction, h]

theorem exists_run_finish (chain : Chain) (start : Binary64) (invocations : List Invocation)
    (outcome : Option Outcome) (failure : Option Fault) (hidden : Bool) (scope : Scope)
    (world : World ChainResult) :
    ∃ (elapsed : Binary64) (action : Action Unit),
      (chain.finish start invocations outcome failure hidden).run scope world =
        ((action.run scope world).1,
          .ended (.ok ⟨chain.label, invocations, outcome, failure, elapsed⟩)) := by
  let lines := Report.summary chain.label (failure.map Fault.underlying)
    (world.clock.sub start) hidden
  refine ⟨world.clock.sub start, Action.emitAll (lines.map Item.line), ?_⟩
  exact run_action_bind scope _ world (Action.run_emitAll scope (lines.map Item.line) world) _

theorem stands_conclude {chain : Chain} {scope : Scope} (start : Binary64)
    (hreading : chain.reading = .ok invocations) {outcomes : List Outcome}
    (hran : Ran invocations outcomes)
    (h : Here invocations scope.strand
      ((preparing invocations).map (.prepared · none) ++ blocks invocations outcomes) world) :
    Stands chain scope.strand
      ((chain.conclude start invocations outcomes.getLast?).run scope world).2
      ((chain.conclude start invocations outcomes.getLast?).run scope world).1 := by
  have hfinish : ∀ (failure : Option Fault) (other : World ChainResult),
      Here invocations scope.strand
        ((preparing invocations).map (.prepared · none) ++ blocks invocations outcomes) other →
      failure = outcomes.getLast?.bind (fun outcome =>
        outcome.fault?.map (Fault.ofCommand outcome.command)) →
      Stands chain scope.strand
        ((chain.finish start invocations outcomes.getLast? failure chain.isHidden).run scope other).2
        ((chain.finish start invocations outcomes.getLast? failure chain.isHidden).run scope
          other).1 := by
    intro failure other hother hfailure
    obtain ⟨elapsed, action, hrun⟩ := exists_run_finish chain start invocations outcomes.getLast?
      failure chain.isHidden scope other
    rw [hrun]
    exact .executed outcomes hreading hran rfl hfailure (hother.action scope action).deeds
  rw [conclude]
  cases hlast : outcomes.getLast? with
  | none =>
      rw [hlast] at hfinish
      exact hfinish none world h rfl
  | some outcome =>
      rw [hlast] at hfinish
      rw [Option.bind_some]
      cases hfault : outcome.fault? with
      | none => exact hfinish none world h (by simp [hfault])
      | some fault =>
          have hrecord := run_action_bind scope
            (Action.query (.record outcome.command fault.message)) world rfl fun _ =>
              chain.finish start invocations (some outcome)
                (some (fault.ofCommand outcome.command)) chain.isHidden
          change Stands _ _ (((Routine.ofAction _).bind _).run scope world).2
            (((Routine.ofAction _).bind _).run scope world).1
          rw [hrecord]
          exact hfinish _ _ (h.action scope _) (by simp [hfault])

theorem stands_of_executed {chain : Chain} {scope : Scope} (start : Binary64)
    (hreading : chain.reading = .ok invocations) {steps : Routine (Option Outcome)}
    (h : Executed invocations scope.strand ((preparing invocations).map (.prepared · none))
      (steps.run scope world).2 (steps.run scope world).1) :
    Stands chain scope.strand ((steps.bind (chain.conclude start invocations)).run scope world).2
      ((steps.bind (chain.conclude start invocations)).run scope world).1 := by
  rw [Routine.run_bind]
  rcases hrun : steps.run scope world with ⟨after, (fault | last) | ⟨waiting, wake⟩⟩
  · trivial
  · rw [hrun] at h
    obtain ⟨outcomes, hran, rfl, hhere⟩ := h
    exact stands_conclude start hreading hran hhere
  · rw [hrun] at h
    exact ⟨invocations, start, waiting, hreading, rfl, h⟩

theorem stands_reject {chain : Chain} {scope : Scope} (start : Binary64)
    (hreading : chain.reading = .ok invocations) {before after : List Nat} {index : Nat}
    {cause : Fault} (hsplit : preparing invocations = before ++ index :: after)
    (h : Here invocations scope.strand
      (before.map (.prepared · none) ++ [.prepared index (some cause)]) world)
    (hbare : IsBare scope.strand world) :
    Stands chain scope.strand
      ((chain.reject start invocations index cause).run scope world).2
      ((chain.reject start invocations index cause).run scope world).1 := by
  let name := (invocations[index]?.map Invocation.name).getD ""
  let failure := Fault.initialization name cause
  let lines := Action.emitAll ([Line.of .error failure.message].map Item.line)
  let message := Action.query (.record name cause.message)
  let middle := (message.run scope (lines.run scope world).1).1
  obtain ⟨elapsed, action, hfinish⟩ := exists_run_finish chain start invocations none (some failure)
    chain.isHidden scope middle
  have hrun : (chain.reject start invocations index cause).run scope world =
      ((action.run scope middle).1,
        .ended (.ok ⟨chain.label, invocations, none, some failure, elapsed⟩)) := by
    refine (run_action_bind scope lines world (Action.run_emitAll ..) _).trans ?_
    refine (run_action_bind scope message (lines.run scope world).1 rfl _).trans ?_
    exact hfinish
  have hend := ((h.action scope lines).action scope message).action scope action
  have hbareEnd := ((hbare.action scope lines).action scope message).action scope action
  rw [hrun]
  exact .unprepared before after index cause hreading hsplit rfl rfl hend.deeds hbareEnd

theorem stands_routine (chain : Chain) {scope : Scope} (hroot : scope.thread = .root)
    (h : Here chain.invocations scope.strand [] world) (hbare : IsBare scope.strand world) :
    Stands chain scope.strand (chain.routine.run scope world).2
      (chain.routine.run scope world).1 := by
  let title := Action.emitAll
    ((if chain.isBatch then [Report.batchTitle chain.label] else []).map Item.line)
  let titled := (title.run scope world).1
  have htitled := h.action scope title
  have hbareTitled := hbare.action scope title
  cases hreading : chain.reading with
  | error fault =>
      let lines := Action.emitAll ([Line.of .error fault.message].map Item.line)
      let message := Action.query (.record (recordName fault) fault.message)
      let middle := (message.run scope (lines.run scope titled).1).1
      obtain ⟨elapsed, action, hfinish⟩ := exists_run_finish chain world.clock [] none (some fault)
        false scope middle
      have hrun : chain.routine.run scope world = ((action.run scope middle).1,
          .ended (.ok ⟨chain.label, [], none, some fault, elapsed⟩)) := by
        refine (run_action_bind scope title world (Action.run_emitAll ..) _).trans ?_
        rw [hreading]
        refine (run_action_bind scope lines titled (Action.run_emitAll ..) _).trans ?_
        refine (run_action_bind scope message (lines.run scope titled).1 rfl _).trans ?_
        exact hfinish
      have hend := ((htitled.action scope lines).action scope message).action scope action
      have hbareEnd :=
        ((hbareTitled.action scope lines).action scope message).action scope action
      rw [hrun]
      exact .unread fault hreading rfl rfl rfl hend.deeds hbareEnd
  | ok invocations =>
      have hinvocations : chain.invocations = invocations := by
        rw [Chain.invocations, hreading]
        rfl
      rw [hinvocations] at htitled
      let lines := Action.emitAll ((chain.title invocations).map Item.line)
      let middle := (lines.run scope titled).1
      have hrun : chain.routine.run scope world =
          (chain.runSteps world.clock invocations).run scope middle := by
        refine (run_action_bind scope title world (Action.run_emitAll ..) _).trans ?_
        rw [hreading]
        exact run_action_bind scope lines titled (Action.run_emitAll ..) _
      have hmiddle := htitled.action scope lines
      have hprepared := prepared_run hroot (List.range invocations.length) hmiddle
        (hbareTitled.action scope lines)
      rw [hrun]
      change Stands chain scope.strand (((prepareSteps _).bind _).run scope middle).2
        (((prepareSteps _).bind _).run scope middle).1
      rw [Routine.run_bind]
      rcases hran : (prepareSteps (List.range invocations.length)).run scope middle with
        ⟨after, (fault | (_ | ⟨index, cause⟩)) | ⟨waiting, wake⟩⟩
      · trivial
      · rw [hran] at hprepared
        obtain ⟨hhere, -⟩ := hprepared
        refine stands_of_executed world.clock hreading ?_
        have hafter : Here invocations scope.strand
            ((preparing invocations).map (.prepared · none) ++ blocks invocations []) after := by
          simpa [blocks, preparing] using hhere
        rw [List.range_eq_range']
        exact executed_run hroot [] invocations.length (fun _ h => by cases h) (by simp) hafter
      · rw [hran] at hprepared
        obtain ⟨before, rest, hsplit, hhere, hbareEnd⟩ := hprepared
        exact stands_reject world.clock hreading hsplit hhere hbareEnd
      · rw [hran] at hprepared
        exact hprepared.elim

/-! ### Every state of a run -/

/-- How a chain stands between two turns of its thread, by the state of the thread. -/
def Stage (chain : Chain) (place : Nat) (world : World ChainResult) :
    ThreadStatus ChainResult → Prop
  | .running => False
  | .waiting waiting _ =>
      waiting = .turn none (fun _ => chain.routine) ∧ world.deeds place = [] ∧
          IsBare place world ∨
        Midway chain place waiting world
  | .finished (.ok result) => Phases chain place result world
  | .finished (.error _) => True

def InPhase (chain : Chain) (place : Nat) (world : World ChainResult) : Prop :=
  ∃ thread, world.outline? place = some (chain.invocations, thread) ∧
    Stage chain place world thread.status

variable {chain : Chain}

theorem Phases.of_eq {result : ChainResult} (h : Phases chain place result world)
    (hdeeds : other.deeds place = world.deeds place)
    (hbare : IsBare place world → IsBare place other) : Phases chain place result other := by
  cases h with
  | unread fault reading failure invocations outcome deeds bare =>
      exact .unread fault reading failure invocations outcome (hdeeds.trans deeds) (hbare bare)
  | unprepared before after index cause reading initializers failure outcome deeds bare =>
      exact .unprepared before after index cause reading initializers failure outcome
        (hdeeds.trans deeds) (hbare bare)
  | executed outcomes reading ran outcome failure deeds =>
      exact .executed outcomes reading ran outcome failure (hdeeds.trans deeds)

theorem Midway.of_eq {waiting : Waiting ChainResult} (h : Midway chain place waiting world)
    (houtline : (other.outline? place).map Prod.fst = (world.outline? place).map Prod.fst)
    (hdeeds : other.deeds place = world.deeds place) (hkeeps : World.Keeps world other) :
    Midway chain place waiting other := by
  obtain ⟨invocations, start, step, hreading, hwaiting, outcomes, rest, number, cell, invocation,
    hsucceeded, hlength, hinvocation, hstep, hcell, hnumber, hhere⟩ := h
  obtain ⟨found, hfound, horigin⟩ := hkeeps.cell place number cell hcell
  simp only [Cell.origin, Prod.mk.injEq] at horigin
  exact ⟨invocations, start, step, hreading, hwaiting, outcomes, rest, number, found, invocation,
    hsucceeded, hlength, hinvocation, hstep, hfound, horigin.2.2.trans hnumber,
    hhere.same houtline hdeeds⟩

theorem Stage.of_eq {status : ThreadStatus ChainResult} (h : Stage chain place world status)
    (houtline : (other.outline? place).map Prod.fst = (world.outline? place).map Prod.fst)
    (hdeeds : other.deeds place = world.deeds place) (hkeeps : World.Keeps world other)
    (hbare : IsBare place world → IsBare place other) : Stage chain place other status := by
  rcases status with _ | ⟨waiting, wake⟩ | (fault | result)
  · exact h
  · rcases h with ⟨hwaiting, hnone, hempty⟩ | hmidway
    · exact .inl ⟨hwaiting, hdeeds.trans hnone, hbare hempty⟩
    · exact .inr (hmidway.of_eq houtline hdeeds hkeeps)
  · trivial
  · exact Phases.of_eq h hdeeds hbare

theorem InPhase.of_eq (h : InPhase chain place world)
    (houtline : other.outline? place = world.outline? place)
    (hdeeds : other.deeds place = world.deeds place) (hkeeps : World.Keeps world other)
    (hbare : IsBare place world → IsBare place other) : InPhase chain place other := by
  obtain ⟨thread, hthread, hstage⟩ := h
  exact ⟨thread, houtline.trans hthread, hstage.of_eq (congrArg _ houtline) hdeeds hkeeps hbare⟩

/-- A change of the chain's thread only. -/
theorem IsBare.modifyStrand (h : IsBare place world) {change : Strand ChainResult →
      Strand ChainResult} (hchange : ∀ current, (change current).children = current.children ∧
        (change current).cells = current.cells) (strand : Nat) :
    IsBare place (world.modifyStrand strand change) := by
  obtain ⟨shape, hshape, hempty⟩ := h
  obtain ⟨current, hstrand, rfl⟩ := Option.map_eq_some_iff.mp hshape
  rw [IsBare, World.shape?, World.strand?_modifyStrand, hstrand]
  split
  · refine ⟨_, rfl, ?_⟩
    simp only [Strand.shape, hchange]
    exact hempty
  · exact ⟨_, rfl, hempty⟩

theorem outline?_modifyStrand {thread : Thread ChainResult} {status : ThreadStatus ChainResult}
    {change : Strand ChainResult → Strand ChainResult}
    (hchange : ∀ current, (change current).invocations = current.invocations ∧
      (change current).root.calm = { current.root.calm with status := status })
    (h : world.outline? place = some (invocations, thread)) :
    (world.modifyStrand place change).outline? place =
      some (invocations, { thread with status := status }) := by
  rw [World.outline?, World.shape?] at h ⊢
  rw [World.strand?_modifyStrand, if_pos rfl]
  cases hstrand : world.strand? place with
  | none => simp [hstrand] at h
  | some current =>
      rw [hstrand] at h
      obtain ⟨rfl, rfl⟩ := Prod.mk.inj (Option.some.inj h)
      change some ((change current).invocations, (change current).root.calm) = _
      rw [(hchange current).1, (hchange current).2]
      rfl

theorem InPhase.store {after : World ChainResult} {thread : Thread ChainResult}
    {status : ThreadStatus ChainResult}
    (houtline : after.outline? place = some (chain.invocations, thread))
    (hstage : Stage chain place after status.calm) :
    InPhase chain place ((after.setRoot place status).close (.announce place) status) := by
  have hstored : (after.setRoot place status).outline? place =
      some (chain.invocations, { thread with status := status.calm }) := by
    refine outline?_modifyStrand ?_ houtline
    exact fun _ => ⟨rfl, rfl⟩
  have hset : InPhase chain place (after.setRoot place status) := by
    refine ⟨_, hstored, hstage.of_eq ?_ rfl ?_ fun hbare => ?_⟩
    · rw [hstored, houtline]
      rfl
    · exact .of_eq (World.cell?_setRoot place status after)
    · refine hbare.modifyStrand ?_ place
      exact fun _ => ⟨rfl, rfl⟩
  cases status with
  | finished result => exact hset.of_eq rfl rfl (.of_eq fun _ _ => rfl) id
  | running => exact hset
  | waiting wait wake => exact hset

theorem Stage.resumed {waiting : Waiting ChainResult} {wake : Wake}
    (h : Stage chain place world (.waiting waiting wake)) {scope : Scope}
    (hplace : scope.strand = place) (hroot : scope.thread = .root)
    (hinvocations : (world.outline? place).map Prod.fst = some chain.invocations) :
    Stands chain place
      ((world.resumed scope waiting).2.run scope (world.resumed scope waiting).1).2
      ((world.resumed scope waiting).2.run scope (world.resumed scope waiting).1).1 := by
  subst hplace
  rcases h with ⟨rfl, hnone, hempty⟩ | hmidway
  · exact stands_routine chain hroot ⟨hinvocations, hnone⟩ hempty
  · obtain ⟨invocations, start, step, hreading, rfl, outcomes, rest, number, cell, invocation,
      hsucceeded, hlength, hinvocation, rfl, hcell, hnumber, hhere⟩ := hmidway
    simp only [Waiting.bind, World.resumed, hcell]
    cases houtcome : world.outcome? scope.strand number with
    | none => trivial
    | some outcome =>
        refine stands_of_executed start hreading ?_
        have hgiven : Here invocations scope.strand ((preparing invocations).map (.prepared · none) ++
            blocks invocations (outcomes ++ [outcome]))
            (world.noteExecution { scope with step := cell.step } number cell.command
              (.yielded outcome)) := by
          have hdeeds : (world.noteExecution { scope with step := cell.step } number cell.command
              (.yielded outcome)).deeds scope.strand =
                world.deeds scope.strand ++ [.finished (some outcomes.length) outcome] := by
            rw [World.noteExecution, World.note, World.deeds_write, Occurrence.deed?,
              if_pos ⟨rfl, by rw [hroot]⟩, hnumber]
            rfl
          have hblocks : (preparing invocations).map (.prepared · none) ++
              blocks invocations (outcomes ++ [outcome]) =
                (preparing invocations).map (.prepared · none) ++ (blocks invocations outcomes ++
                  [.started (some outcomes.length) invocation.command invocation.arguments]) ++
                  [.finished (some outcomes.length) outcome] := by
            simp [blocks_append hinvocation]
          rw [hblocks]
          refine hhere.of_outline_eq ?_ hdeeds
          rfl
        dsimp only
        split
        · rename_i hsuccess
          have hall : ∀ earlier ∈ outcomes ++ [outcome], earlier.isSuccess = true := by
            intro earlier hmem
            rcases List.mem_append.mp hmem with hold | hnew
            · exact hsucceeded earlier hold
            · rw [List.mem_singleton.mp hnew, hsuccess]
          have hnext := executed_run hroot (outcomes ++ [outcome]) rest hall (by simpa using hlength)
            hgiven
          simpa using hnext
        · rename_i hfailure
          exact ⟨outcomes ++ [outcome],
            .of_failure hsucceeded (by omega) (by simpa using hfailure), by simp, hgiven⟩

theorem InPhase.resume_root (h : InPhase chain place world) :
    InPhase chain place (world.resume place .root) := by
  rcases world.resume_root_cases place with hsame |
    ⟨current, waiting, isCancelled, after, status, hstrand, hstatus, hturn, hresume⟩
  · rw [hsame]
    exact h
  obtain ⟨thread, hthread, hstage⟩ := h
  have hcurrent : thread.status = .waiting waiting .asleep := by
    rw [World.outline?, World.shape?, hstrand] at hthread
    obtain ⟨-, rfl⟩ := Prod.mk.inj (Option.some.inj hthread)
    change current.root.status.calm = _
    rw [hstatus]
    rfl
  let begun := world.modifyThread place .root Thread.begin
  let scope : Scope := ⟨place, .root, current.root.step, current.root.cell⟩
  have hbegun : begun.outline? place =
      some (chain.invocations, { thread with status := .running }) := by
    refine outline?_modifyStrand ?_ hthread
    exact fun _ => ⟨rfl, rfl⟩
  have hafter : after.outline? place =
      some (chain.invocations, { thread with status := .running }) := by
    have hinside := (World.inside_turn scope waiting isCancelled begun).own
    rw [hturn] at hinside
    exact hinside.trans hbegun
  rw [hresume]
  refine InPhase.store hafter ?_
  cases isCancelled with
  | true =>
      obtain rfl : ThreadStatus.finished (.error World.cancellation) = status :=
        congrArg Prod.snd hturn
      trivial
  | false =>
      rw [hcurrent] at hstage
      have hnow : Stage chain place begun (.waiting waiting .asleep) := by
        refine hstage.of_eq ?_ rfl ?_ fun hbare => ?_
        · rw [hbegun, hthread]
          rfl
        · exact .of_eq (World.cell?_modifyThread place .root Thread.begin world)
        · refine hbare.modifyStrand ?_ place
          exact fun _ => ⟨rfl, rfl⟩
      have hstands : Stands chain place
          ((begun.resumed scope waiting).2.run scope (begun.resumed scope waiting).1).2
          ((begun.resumed scope waiting).2.run scope (begun.resumed scope waiting).1).1 :=
        hnow.resumed rfl rfl (by rw [hbegun]; rfl)
      rw [World.turn_of_not_cancelled] at hturn
      obtain ⟨hrun, rfl⟩ := Prod.mk.inj hturn
      rw [← hrun]
      rcases hend : (begun.resumed scope waiting).2.run scope (begun.resumed scope waiting).1 with
        ⟨last, (fault | result) | ⟨wait, wake⟩⟩
      all_goals rw [hend] at hstands
      · trivial
      · exact hstands
      · exact .inr hstands

end Chain

end Cascade
