import Cascade.Proofs.Chain.Steady

/-!
Commands that differ in their convention only, and the commands beside which that makes no difference:
they do not read the clock, and nothing of them is left when their execution is complete.
-/

namespace Cascade

variable {α β γ : Type}

/-! ### Code without time -/

/-- What is known about a command, without its convention. -/
def CommandInfo.unmarked (info : CommandInfo) : CommandInfo :=
  { info with convention := .direct }

/-- What a menu is made from, without the conventions of the commands. -/
def MenuView.unmarked (view : MenuView) : MenuView :=
  { view with commands := view.commands.map CommandInfo.unmarked }

/-- Questions that neither read the clock nor complete an execution. -/
def Query.IsTimeless : Query → Prop
  | .now | .complete _ | .completeLater _ _ => False
  | _ => True

/-- Code that gets the answer to a question and does not look at the convention of any command. -/
def Query.IsImpartial : (query : Query) → (query.Answer → γ) → Prop
  | .menu, next => ∀ first second : MenuView, first.unmarked = second.unmarked → next first = next second
  | _, _ => True

/-- Code that runs at once, knows no time and completes nothing by itself. -/
def Action.IsPlain : Action β → Prop
  | finish _ | fail _ => True
  | ask query next =>
      query.IsTimeless ∧ query.IsImpartial next ∧ ∀ answer, (next answer).IsPlain

/-- Code that may wait, knows no time and completes nothing by itself. -/
def Routine.IsPlain : Routine β → Prop
  | finish _ | fail _ => True
  | ask query next =>
      query.IsTimeless ∧ query.IsImpartial next ∧ ∀ answer, (next answer).IsPlain
  | sleep _ _ next | await _ _ next => (next ()).IsPlain
  | invoke _ _ next | execute _ next => ∀ outcome, (next outcome).IsPlain
  | prepare _ next => ∀ failure, (next failure).IsPlain

theorem Query.IsImpartial.comp {δ : Type} {query : Query} {next : query.Answer → γ}
    (h : query.IsImpartial next) (change : γ → δ) :
    query.IsImpartial fun answer => change (next answer) := by
  cases query with
  | menu => exact fun first second hsame => congrArg change (h first second hsame)
  | _ => trivial

theorem Action.IsPlain.ofAction {action : Action β} (h : action.IsPlain) :
    (Routine.ofAction action).IsPlain := by
  induction action with
  | finish value => trivial
  | fail fault => trivial
  | ask query next ih =>
      obtain ⟨htimeless, himpartial, hnext⟩ := h
      exact ⟨htimeless, himpartial.comp Routine.ofAction, fun answer => ih answer (hnext answer)⟩

theorem Action.IsPlain.bind {action : Action β} (h : action.IsPlain) {next : β → Action γ}
    (hnext : ∀ value, (next value).IsPlain) : (action.bind next).IsPlain := by
  induction action with
  | finish value => exact hnext value
  | fail fault => trivial
  | ask query rest ih =>
      obtain ⟨htimeless, himpartial, hrest⟩ := h
      exact ⟨htimeless, himpartial.comp (Action.bind next), fun answer => ih answer (hrest answer)⟩

theorem Routine.IsPlain.bind {routine : Routine β} (h : routine.IsPlain) {next : β → Routine γ}
    (hnext : ∀ value, (next value).IsPlain) : (routine.bind next).IsPlain := by
  induction routine with
  | finish value => exact hnext value
  | fail fault => trivial
  | ask query rest ih =>
      obtain ⟨htimeless, himpartial, hrest⟩ := h
      exact ⟨htimeless, himpartial.comp (Routine.bind next), fun answer => ih answer (hrest answer)⟩
  | sleep seconds notice rest ih => exact ih () h
  | await event notice rest ih => exact ih () h
  | invoke name given rest ih => exact fun outcome => ih outcome (h outcome)
  | prepare index rest ih => exact fun failure => ih failure (h failure)
  | execute index rest ih => exact fun outcome => ih outcome (h outcome)

/-! ### Commands of which nothing is left -/

/-- How an execution stands during its call: open, complete, or to be completed after a delay. -/
inductive Stage
  | pending
  | settled (outcome : Outcome)
  | due (delay : Binary64) (result : Except Fault Value)

/-- How a question of the code of a call changes the stage of its execution. There is nothing that would
happen to the execution after it is complete. -/
inductive Query.Leads (command : String) : Query → Stage → Stage → Prop
  | answers {query : Query} {stage : Stage} (timeless : query.IsTimeless) : Leads command query stage stage
  | completes (result : Except Fault Value) :
      Leads command (.complete result) .pending (.settled ⟨command, result⟩)
  | repeats (result : Except Fault Value) (outcome : Outcome) :
      Leads command (.complete result) (.settled outcome) (.settled outcome)
  | schedules (delay : Binary64) (result : Except Fault Value) :
      Leads command (.completeLater delay result) .pending (.due delay result)

/-- A call from a stage on, which leaves nothing behind. -/
def Action.IsTidy (command : String) (proper : Stage → β → Prop) : Stage → Action β → Prop
  | stage, finish value => proper stage value
  | .due _ _, fail _ => False
  | _, fail _ => True
  | stage, ask query next => query.IsImpartial next ∧
      ∃ later, query.Leads command stage later ∧ ∀ answer, (next answer).IsTidy command proper later

/-- An answer to a call that leaves nothing behind. -/
def Reply.IsTidy (convention : Convention) : Stage → Reply → Prop
  | .pending, .value _ | .settled _, .value _ | .settled _, .awaitable false _ => True
  | .pending, .awaitable _ body => body.IsPlain
  | .due _ _, .value _ => convention = .callback
  | .settled _, .awaitable true _ | .due _ _, .awaitable _ _ => False

/-- A command that does not read the clock, and of which nothing is left running or scheduled when its
execution is complete. -/
structure Command.IsTidy (command : Command) : Prop where
  run : ∀ arguments,
    (command.run arguments).IsTidy command.name (Reply.IsTidy command.convention) .pending
  initializer : ∀ initializer, command.initializer = some initializer → initializer.IsPlain

/-! ### Implementations -/

/-- Goes on with the result of an action, be it a value or a failure. -/
def Action.concluding (next : Except Fault β → Action γ) : Action β → Action γ
  | finish value => next (.ok value)
  | fail fault => next (.error fault)
  | ask query rest => ask query fun answer => (rest answer).concluding next

/-- Whatever the answers are, an action has a result. -/
def Action.Yields (result : Except Fault β) : Action β → Prop
  | finish value => result = .ok value
  | fail fault => result = .error fault
  | ask _ next => ∀ answer, (next answer).Yields result

/-- A call that does what an action does, and reports its result at some time during the call. The answer
to the call itself is not looked at. -/
inductive Action.Reports (report : Except Fault Value → Query) (returned : Value) :
    Action Value → Action Reply → Prop
  | reports {action : Action Value} {result : Except Fault Value} (certain : action.Yields result) :
      Reports report returned action
        (.ask (report result) fun _ => action.concluding fun _ => .finish (.value returned))
  | ask {query : Query} {next : query.Answer → Action Value} {rest : query.Answer → Action Reply}
      (reports : ∀ answer, Reports report returned (next answer) (rest answer)) :
      Reports report returned (.ask query next) (.ask query rest)

/-- Something to wait for that does what an action does, takes its time over it, and has its result. -/
inductive Routine.Performs : Routine β → Action β → Prop
  | finish (value : β) : Performs (.finish value) (.finish value)
  | fail (fault : Fault) : Performs (.fail fault) (.fail fault)
  | ask {query : Query} {next : query.Answer → Action β} {rest : query.Answer → Routine β}
      (performs : ∀ answer, Performs (rest answer) (next answer)) :
      Performs (.ask query rest) (.ask query next)
  | sleep (seconds : Binary64) (notice : Option Item) {action : Action β} {next : Unit → Routine β}
      (performs : Performs (next ()) action) : Performs (.sleep seconds notice next) action

/-- The conventions in which a command can have the effects and the result of the same code. -/
inductive Implements (body : Arguments → Action Value) :
    Convention → (Arguments → Action Reply) → Prop
  /-- The call has the effects, and gives the value or fails. -/
  | direct {convention : Convention} (uncalled : convention ≠ .callback) :
      Implements body convention fun arguments =>
        (body arguments).bind fun value => .finish (.value value)
  /-- The call has the effects and reports the result. -/
  | reported (returned : Value) {run : Arguments → Action Reply}
      (reports : ∀ arguments, Action.Reports .complete returned (body arguments) (run arguments)) :
      Implements body .callback run
  /-- The call has the effects, and the result is reported later. -/
  | reportedLater (delay : Binary64) (returned : Value) {run : Arguments → Action Reply}
      (reports : ∀ arguments,
        Action.Reports (.completeLater delay) returned (body arguments) (run arguments)) :
      Implements body .callback run
  /-- The call only gives a coroutine, which has the effects and the result. -/
  | coroutine {convention : Convention} (uncalled : convention ≠ .callback) (started : Bool)
      {promised : Arguments → Routine Value}
      (performs : ∀ arguments, (promised arguments).Performs (body arguments)) :
      Implements body convention fun arguments => .finish (.awaitable started (promised arguments))
  /-- The call has the effects, and gives something to wait for that has the result. -/
  | awaitable {convention : Convention} (uncalled : convention ≠ .callback) (started : Bool)
      {promised : Arguments → Except Fault Value → Routine Value}
      (performs : ∀ arguments result, (promised arguments result).Performs (Action.ofExcept result)) :
      Implements body convention fun arguments =>
        (body arguments).concluding fun result =>
          .finish (.awaitable started (promised arguments result))

/-- Code that two implementations have in common: it knows no time, and it fails in the ordinary way
only. -/
structure IsCommon (body : Arguments → Action Value) : Prop where
  plain : ∀ arguments, (body arguments).IsPlain
  ordinary : ∀ arguments, (body arguments).IsOrdinary

/-- A tidy command and itself, or two implementations of one command. -/
inductive Command.Interchangeable : Command → Command → Prop
  | same {command : Command} (tidy : command.IsTidy) : Interchangeable command command
  | implemented {command : Command} {body : Arguments → Action Value} (common : IsCommon body)
      (initializer : ∀ initializer, command.initializer = some initializer → initializer.IsPlain)
      {convention other : Convention} {run otherRun : Arguments → Action Reply}
      (first : Implements body convention run) (second : Implements body other otherRun) :
      Interchangeable { command with convention := convention, run := run }
        { command with convention := other, run := otherRun }

end Cascade
