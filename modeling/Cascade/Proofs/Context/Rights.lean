import Cascade.Library.System
import Cascade.Chain
import Cascade.Run.World

/-!
What the code of a chain, of an initializer and of a command may do with the steps of its chain. Only
the program of a chain runs initializers, and besides it only the repetition executes a step, namely
the one that is noted in the state of its own step. Every other command that wants something executed
has to name a command.
-/

namespace Cascade

open Library.System

/-- The built-in repetition, whatever its help and its group are and whether it is hidden. -/
structure Command.IsRepetition (command : Command) : Prop where
  name : repetition.name = .text command.name
  convention : command.convention = .awaited
  accepts : repetition.accepts = some command.accepts
  initializer : command.initializer = repetition.initializer
  run : repetition.code.map CommandCode.run = some command.run

/-- The draft of the repetition becomes the repetition. -/
theorem Command.isRepetition_of_toCommand {group : String} {command : Command}
    (h : repetition.toCommand group = .ok command) : command.IsRepetition := by
  obtain ⟨name, code, hname, hcode, rfl⟩ := Draft.exists_of_toCommand_eq_ok h
  obtain rfl := Option.some.inj hcode
  exact ⟨hname, rfl, rfl, rfl, rfl⟩

/-- What code may ask and do, and the answers that it can get. -/
structure Rights where
  asks : Query → Prop
  invokes : Prop
  prepares : Prop
  executes : Nat → Prop
  hears : (query : Query) → query.Answer → Prop

variable {β γ : Type}

/-- Code that runs at once, keeps to its rights and ends with a proper value. -/
def Action.Minds (rights : Rights) (proper : β → Prop) : Action β → Prop
  | finish value => proper value
  | fail _ => True
  | ask query next =>
      rights.asks query ∧ ∀ answer, rights.hears query answer → (next answer).Minds rights proper

/-- Code that may wait and keeps to its rights. -/
def Routine.Minds (rights : Rights) : Routine β → Prop
  | finish _ | fail _ => True
  | ask query next =>
      rights.asks query ∧ ∀ answer, rights.hears query answer → (next answer).Minds rights
  | sleep _ _ next | await _ _ next => (next ()).Minds rights
  | invoke _ _ next => rights.invokes ∧ ∀ outcome, (next outcome).Minds rights
  | prepare _ next => rights.prepares ∧ ∀ failure, (next failure).Minds rights
  | execute index next => rights.executes index ∧ ∀ outcome, (next outcome).Minds rights

/-- An answer to a call that keeps to the rights of the execution. -/
def Reply.Minds (rights : Rights) : Reply → Prop
  | .value _ => True
  | .awaitable _ body => body.Minds rights

/-- A wait after which the code keeps to its rights. -/
def Waiting.Minds (rights : Rights) : Waiting β → Prop
  | .turn _ next | .timer _ next | .event _ _ next => (next ()).Minds rights
  | .cell _ next => ∀ outcome, (next outcome).Minds rights

def ThreadStatus.Minds (rights : Rights) : ThreadStatus β → Prop
  | .waiting wait _ => wait.Minds rights
  | _ => True

section Minds

variable {rights others : Rights}

/-- Code that keeps to its rights keeps to wider ones, as long as it gets no other answers. -/
theorem Routine.Minds.mono {routine : Routine β} (h : routine.Minds rights)
    (hasks : ∀ query, rights.asks query → others.asks query)
    (hinvokes : rights.invokes → others.invokes) (hprepares : rights.prepares → others.prepares)
    (hexecutes : ∀ index, rights.executes index → others.executes index)
    (hhears : ∀ query answer, others.hears query answer → rights.hears query answer) :
    routine.Minds others := by
  induction routine with
  | finish value => trivial
  | fail fault => trivial
  | ask query next ih =>
      exact ⟨hasks query h.1, fun answer heard => ih answer (h.2 answer (hhears _ _ heard))⟩
  | sleep seconds notice next ih => exact ih () h
  | await event notice next ih => exact ih () h
  | invoke name given next ih => exact ⟨hinvokes h.1, fun outcome => ih outcome (h.2 outcome)⟩
  | prepare index next ih => exact ⟨hprepares h.1, fun failure => ih failure (h.2 failure)⟩
  | execute index next ih => exact ⟨hexecutes index h.1, fun outcome => ih outcome (h.2 outcome)⟩

theorem Action.Minds.bind {next : β → Action γ} {between : β → Prop} {proper : γ → Prop}
    {action : Action β} (h : action.Minds rights between)
    (hnext : ∀ value, between value → (next value).Minds rights proper) :
    (action.bind next).Minds rights proper := by
  induction action with
  | finish value => exact hnext value h
  | fail fault => trivial
  | ask query rest ih => exact ⟨h.1, fun answer heard => ih answer (h.2 answer heard)⟩

theorem Action.Minds.ofAction {proper : β → Prop} {action : Action β}
    (h : action.Minds rights proper) : (Routine.ofAction action).Minds rights := by
  induction action with
  | finish value => trivial
  | fail fault => trivial
  | ask query rest ih => exact ⟨h.1, fun answer heard => ih answer (h.2 answer heard)⟩

theorem Routine.Minds.bind {next : β → Routine γ} {routine : Routine β} (h : routine.Minds rights)
    (hnext : ∀ value, (next value).Minds rights) : (routine.bind next).Minds rights := by
  induction routine with
  | finish value => exact hnext value
  | fail fault => trivial
  | ask query rest ih => exact ⟨h.1, fun answer heard => ih answer (h.2 answer heard)⟩
  | sleep seconds notice rest ih => exact ih () h
  | await event notice rest ih => exact ih () h
  | invoke name given rest ih => exact ⟨h.1, fun outcome => ih outcome (h.2 outcome)⟩
  | prepare index rest ih => exact ⟨h.1, fun failure => ih failure (h.2 failure)⟩
  | execute index rest ih => exact ⟨h.1, fun outcome => ih outcome (h.2 outcome)⟩

theorem Routine.minds_ofExcept (result : Except Fault β) :
    (Routine.ofExcept result).Minds rights := by
  cases result <;> trivial

end Minds

/-! ### Chains -/

/-- The rights of the program of a chain. -/
def Rights.chain : Rights where
  asks _ := True
  invokes := False
  prepares := True
  executes _ := True
  hears _ _ := True

namespace Chain

theorem minds_emitLines (lines : List Line) : (emitLines lines).Minds .chain := by
  have hall : ∀ items : List Item,
      (Routine.ofAction (Action.emitAll items)).Minds .chain := by
    intro items
    induction items with
    | nil => trivial
    | cons item rest ih => exact ⟨trivial, fun _ _ => ih⟩
  exact hall _

theorem minds_prepareSteps (indexes : List Nat) : (prepareSteps indexes).Minds .chain := by
  induction indexes with
  | nil => trivial
  | cons index rest ih =>
      refine ⟨trivial, fun failure => ?_⟩
      cases failure with
      | none => exact ih
      | some fault => trivial

theorem minds_executeSteps (indexes : List Nat) (last : Option Outcome) :
    (executeSteps last indexes).Minds .chain := by
  induction indexes generalizing last with
  | nil => trivial
  | cons index rest ih =>
      refine ⟨trivial, fun outcome => ?_⟩
      dsimp only
      split
      · exact ih _
      · trivial

variable (chain : Chain) (start : Binary64)

theorem minds_finish (invocations : List Invocation) (outcome : Option Outcome)
    (failure : Option Fault) (hidden : Bool) :
    (chain.finish start invocations outcome failure hidden).Minds .chain :=
  ⟨trivial, fun _ _ => (minds_emitLines _).bind fun _ => trivial⟩

theorem minds_record (command message : String) :
    (Routine.ofAction (Action.query (.record command message))).Minds .chain :=
  ⟨trivial, fun _ _ => trivial⟩

theorem minds_reject (invocations : List Invocation) (index : Nat) (cause : Fault) :
    (chain.reject start invocations index cause).Minds .chain := by
  refine (minds_emitLines _).bind fun _ => ?_
  exact (minds_record _ _).bind fun _ => minds_finish _ _ _ _ _ _

theorem minds_conclude (invocations : List Invocation) (last : Option Outcome) :
    (chain.conclude start invocations last).Minds .chain := by
  rw [conclude]
  split
  · exact minds_finish _ _ _ _ _ _
  · exact (minds_record _ _).bind fun _ => minds_finish _ _ _ _ _ _

theorem minds_runSteps (invocations : List Invocation) :
    (chain.runSteps start invocations).Minds .chain := by
  refine (minds_prepareSteps _).bind fun failed => ?_
  cases failed with
  | some failure => exact minds_reject _ _ _ _ _
  | none => exact (minds_executeSteps _ none).bind fun _ => minds_conclude _ _ _ _

theorem minds_routine : chain.routine.Minds .chain := by
  refine ⟨trivial, fun start _ => (minds_emitLines _).bind fun _ => ?_⟩
  cases chain.reading with
  | error fault =>
      refine (minds_emitLines _).bind fun _ => ?_
      exact (minds_record _ _).bind fun _ => minds_finish _ _ _ _ _ _
  | ok invocations => exact (minds_emitLines _).bind fun _ => minds_runSteps _ _ _

end Chain

/-! ### Commands -/

/-- The rights of commands other than the repetition. -/
def Rights.plain : Rights where
  asks _ := True
  invokes := True
  prepares := False
  executes _ := False
  hears _ _ := True

/-- A command whose code has other commands executed by their names only. -/
def Command.IsConfined (command : Command) : Prop :=
  ∀ arguments, (command.run arguments).Minds .plain (Reply.Minds .plain)

/-- Answers to the code of a step: the step that it sees noted as the one before is one of the noted
ones, and the step before is the one before. -/
def Heard (noted : Nat → Prop) (index : Nat) : (query : Query) → query.Answer → Prop
  | .step, some view =>
      (∀ other, view.state.get? previousName = some (.step other) → noted other) ∧
        ∀ other state, view.previousStep = some (other, state) → other + 1 = index
  | _, _ => True

/-- The rights of the executions of a command in a step. The repetition executes what is noted there,
and asks for nothing but the step. -/
def Rights.ofCommand (command : Command) (noted : Nat → Prop) (index : Nat) : Rights where
  asks query := command.IsRepetition → query = .step
  invokes := ¬ command.IsRepetition
  prepares := False
  executes other := command.IsRepetition ∧ noted other
  hears := Heard noted index

/-- The rights of the initializer of a step. That of the repetition notes the step before, or none. -/
def Rights.ofInitializer (command : Command) (index : Nat) : Rights where
  asks query := command.IsRepetition → ∀ name entry, query = .setState name entry →
    name = previousName ∧ ∀ other, entry = .step other → other + 1 = index
  invokes := False
  prepares := False
  executes _ := False
  hears := Heard (fun _ => True) index

theorem minds_rerun {rights : Rights} {index : Nat} (h : rights.executes index) (pause : Binary64)
    (remaining : Nat) : (rerun index pause remaining).Minds rights := by
  induction remaining with
  | zero => trivial
  | succ remaining ih =>
      rw [rerun]
      split <;>
        · refine ⟨h, fun outcome => ?_⟩
          dsimp only
          cases outcome.unwrap with
          | ok value => exact ih
          | error fault => trivial

theorem minds_repeatBody {command : Command} (h : command.IsRepetition) (noted : Nat → Prop)
    (index : Nat) (count interval : String) :
    (repeatBody count interval).Minds (.ofCommand command noted index) := by
  refine ⟨fun _ => rfl, fun answer heard => ?_⟩
  dsimp only
  generalize binary64OfText interval = pause
  generalize integerOfText count = total
  cases hentry : answer.bind fun view => view.state.get? previousName with
  | none => trivial
  | some entry =>
      cases entry with
      | value content => cases content <;> trivial
      | step other =>
          obtain ⟨view, rfl, hstate⟩ := Option.bind_eq_some_iff.mp hentry
          refine (Routine.minds_ofExcept pause).bind fun pause => ?_
          refine (Routine.minds_ofExcept total).bind fun total => ?_
          have hexecutes : (Rights.ofCommand command noted index).executes other :=
            ⟨h, heard.1 other hstate⟩
          exact (minds_rerun hexecutes _ _).bind fun _ => trivial

namespace Command

theorem IsRepetition.run_eq {command : Command} (h : command.IsRepetition) (arguments : Arguments) :
    command.run arguments =
      (Action.ofExcept (repeatSignature.check arguments.parameters.length)).bind fun _ =>
        .finish (.awaitable false (repeatBody (firstText arguments.parameters)
          (((arguments.parameters.drop 1).head?.map Value.toText).getD "0"))) := by
  have hrun := Option.some.inj h.run
  rw [← hrun]
  rfl

theorem IsRepetition.initializer_eq {command : Command} (h : command.IsRepetition) :
    command.initializer = some prepareRepeat :=
  h.initializer

theorem IsRepetition.name_eq {command : Command} (h : command.IsRepetition) :
    command.name = repeatName :=
  (Value.text.inj h.name).symm

theorem minds_run {command : Command} (h : command.IsRepetition ∨ command.IsConfined)
    (noted : Nat → Prop) (index : Nat) (arguments : Arguments) :
    (command.run arguments).Minds (.ofCommand command noted index)
      (Reply.Minds (.ofCommand command noted index)) := by
  by_cases hrepetition : command.IsRepetition
  · rw [hrepetition.run_eq]
    cases repeatSignature.check arguments.parameters.length with
    | ok value => exact minds_repeatBody hrepetition noted index _ _
    | error fault => trivial
  · have hplain := h.resolve_left hrepetition arguments
    revert hplain
    generalize command.run arguments = action
    intro hplain
    induction action with
    | finish reply =>
        cases reply with
        | value result => trivial
        | awaitable started body =>
            refine Routine.Minds.mono hplain (fun _ _ h => absurd h hrepetition) ?_ id ?_ ?_
            · exact fun _ => hrepetition
            · exact fun _ h => h.elim
            · exact fun _ _ _ => trivial
    | fail fault => trivial
    | ask query next ih =>
        exact ⟨fun h => absurd h hrepetition, fun answer _ => ih answer (hplain.2 answer trivial)⟩

theorem minds_initializer {command : Command} {initializer : Action Unit}
    (h : command.initializer = some initializer) (index : Nat) :
    initializer.Minds (.ofInitializer command index) fun _ => True := by
  by_cases hrepetition : command.IsRepetition
  · obtain rfl := Option.some.inj (hrepetition.initializer_eq.symm.trans h)
    have hother : ∀ query, (∀ name entry, query ≠ .setState name entry) →
        (Rights.ofInitializer command index).asks query :=
      fun query hne _ name entry hquery => absurd hquery (hne name entry)
    refine ⟨hother _ (fun _ _ h => by cases h), fun answer heard => ?_⟩
    cases answer with
    | none => trivial
    | some view =>
        have hnote : ∀ entry : StateEntry, (∀ other, entry = .step other → other + 1 = index) →
            (Action.ask (.setState previousName entry) fun _ => .finish ()).Minds
              (.ofInitializer command index) fun _ => True := by
          intro entry hbefore
          refine ⟨fun _ name other hquery => ?_, fun _ _ => trivial⟩
          cases hquery
          exact ⟨rfl, hbefore⟩
        have hnull := hnote (.value .null) fun _ h => by cases h
        have hstep : ∀ found, view.previousStep = some found →
            (Action.ask (.setState previousName (.step found.1)) fun _ => .finish ()).Minds
              (.ofInitializer command index) fun _ => True := by
          intro found hfound
          refine hnote _ fun other hother => ?_
          exact StateEntry.step.inj hother ▸ heard.2 found.1 found.2 hfound
        dsimp only
        cases checkCount view.arguments with
        | error fault => trivial
        | ok value =>
            cases view.previous with
            | none =>
                refine ⟨hother _ (fun _ _ h => by cases h), fun _ _ => ?_⟩
                cases hprevious : view.previousStep with
                | none => exact hnull
                | some found => exact hstep found hprevious
            | some name =>
                by_cases hname : name = repeatName
                · simp only [hname, if_true]
                  trivial
                · simp only [hname, if_false]
                  cases hprevious : view.previousStep with
                  | none => exact hnull
                  | some found => exact hstep found hprevious
  · have hany : ∀ action : Action Unit,
        action.Minds (.ofInitializer command index) fun _ => True := by
      intro action
      induction action with
      | finish value => trivial
      | fail fault => trivial
      | ask query next ih => exact ⟨fun h => absurd h hrepetition, fun answer _ => ih answer⟩
    exact hany initializer

end Command

end Cascade
