import Cascade.Proofs.Trace.Acts

/-!
A stretch of a routine, from its turn to its next wait or to its end. What a routine can do next is listed
here once, with the acts and with the state that it leads to; what holds of every stretch is then shown by
induction on it, one case for each thing that a routine can do.
-/

namespace Cascade

namespace Routine

variable {α β : Type}

/-- How a routine comes to an execution: it executes a step of its chain, in that step, or a command by
its name, in the step where it runs itself. The act is the one that begins the execution. -/
inductive Calls (scope : Scope) (world : World α) :
    Routine β → Option Nat → Command → Arguments → Doing → (Outcome → Routine β) → Prop
  | execute {index : Nat} {next : Outcome → Routine β} {invocation : Invocation}
      (found : ((world.strand? scope.strand).bind fun strand => strand.invocations[index]?) =
        some invocation) :
      Calls scope world (.execute index next) (some index) invocation.command invocation.arguments
        (.executes (world.cellCount scope.strand) index invocation.command invocation.arguments) next
  | invoke {name : String} {given : GivenArguments} {next : Outcome → Routine β} {command : Command}
      {arguments : Arguments} (known : world.surroundings.registry.lookup name = .ok command)
      (taken : given.toArguments = .ok arguments) :
      Calls scope world (.invoke name given next) scope.step command arguments
        (.invokes (world.cellCount scope.strand) command arguments) next

/-- A stretch of a routine: its acts, the state after it, and the wait or the end. -/
inductive Stretch (scope : Scope) : Routine β → World α → List Act → World α × Suspension β → Prop
  | finish {value : β} {world : World α} :
      Stretch scope (.finish value) world [] (world, .ended (.ok value))
  | fail {fault : Fault} {world : World α} :
      Stretch scope (.fail fault) world [] (world, .ended (.error fault))
  /-- A question is answered. -/
  | ask {query : Query} {next : query.Answer → Routine β} {world : World α} {acts : List Act}
      {ended : World α × Suspension β}
      (rest : Stretch scope (next (world.answer scope query).2) (world.answer scope query).1 acts
        ended) :
      Stretch scope (.ask query next) world
        (world.act scope (.asks query (world.answer scope query).2) :: acts) ended
  /-- A wait for no time lasts until the next turn. -/
  | turn {seconds : Binary64} {notice : Option Item} {next : Unit → Routine β} {world : World α}
      (short : seconds.isAtMostZero = true) :
      Stretch scope (.sleep seconds notice next) world [world.act scope (.pauses seconds)]
        (world.enqueue (.resume scope.strand scope.thread), .waits (.turn notice next) .woken)
  | timer {seconds : Binary64} {notice : Option Item} {next : Unit → Routine β} {world : World α}
      (positive : seconds.isPositive = true) :
      Stretch scope (.sleep seconds notice next) world [world.act scope (.pauses seconds)]
        (world.schedule scope.strand seconds (.wake scope.thread),
          .waits (.timer notice next) .asleep)
  /-- A wait for a time that is no number ends at once. -/
  | moment {seconds : Binary64} {notice : Option Item} {next : Unit → Routine β} {world : World α} :
      Stretch scope (.sleep seconds notice next) world [world.act scope (.pauses seconds)]
        (world.enqueue (.fire scope.strand (.wake scope.thread)), .waits (.timer notice next) .asleep)
  | happened {event : String} {notice : Option Item} {next : Unit → Routine β} {world : World α}
      {acts : List Act} {ended : World α × Suspension β}
      (happened : world.happened.contains event = true)
      (rest : Stretch scope (next ()) world acts ended) :
      Stretch scope (.await event notice next) world (world.act scope (.awaits event) :: acts) ended
  | event {event : String} {notice : Option Item} {next : Unit → Routine β} {world : World α}
      (ahead : ¬ world.happened.contains event = true) :
      Stretch scope (.await event notice next) world [world.act scope (.awaits event)]
        ({ world with waiters := world.waiters ++ [(event, scope.strand, scope.thread)] },
          .waits (.event event notice next) .asleep)
  /-- There is no command of that name, or it cannot be given such arguments. -/
  | unknown {name : String} {given : GivenArguments} {next : Outcome → Routine β} {world : World α}
      {fault : Fault} (refused : world.surroundings.registry.lookup name = .error fault ∨
        given.toArguments = .error fault) :
      Stretch scope (.invoke name given next) world [] (world, .ended (.error fault))
  /-- There is no such step to prepare. -/
  | lack {index : Nat} {next : Option Fault → Routine β} {world : World α}
      (missing : ((world.strand? scope.strand).bind fun strand => strand.invocations[index]?) =
        none) :
      Stretch scope (.prepare index next) world [] (world, .ended (.error noStep))
  /-- There is no such step to execute. -/
  | miss {index : Nat} {next : Outcome → Routine β} {world : World α}
      (missing : ((world.strand? scope.strand).bind fun strand => strand.invocations[index]?) =
        none) :
      Stretch scope (.execute index next) world [] (world, .ended (.error noStep))
  /-- The step has no initializer. -/
  | ready {index : Nat} {next : Option Fault → Routine β} {world : World α} {invocation : Invocation}
      {acts : List Act} {ended : World α × Suspension β}
      (found : ((world.strand? scope.strand).bind fun strand => strand.invocations[index]?) =
        some invocation) (without : invocation.command.initializer = none)
      (rest : Stretch scope (next none) world acts ended) :
      Stretch scope (.prepare index next) world (world.act scope (.prepares index none) :: acts) ended
  /-- The initializer ends well, or with a failure that the routine learns of. -/
  | prepared {index : Nat} {next : Option Fault → Routine β} {world middle : World α}
      {invocation : Invocation} {initializer : Action Unit} {result : Except Fault Unit}
      {failure : Option Fault} {acts : List Act} {ended : World α × Suspension β}
      (found : ((world.strand? scope.strand).bind fun strand => strand.invocations[index]?) =
        some invocation) (initial : invocation.command.initializer = some initializer)
      (ran : initializer.run { scope with step := some index, cell := none } world = (middle, result))
      (learned : result = .ok () ∧ failure = none ∨
        ∃ fault, result = .error fault ∧ failure = some fault ∧ ¬ fault.isCancellation = true)
      (rest : Stretch scope (next failure) (middle.note scope (.prepared index failure)) acts ended) :
      Stretch scope (.prepare index next) world
        (initializer.acts { scope with step := some index, cell := none } world ++
          (middle.note scope (.prepared index failure)).act scope (.prepares index failure) :: acts)
        ended
  /-- The initializer is cancelled, and so is the routine. -/
  | escaped {index : Nat} {next : Option Fault → Routine β} {world middle : World α}
      {invocation : Invocation} {initializer : Action Unit} {fault : Fault}
      (found : ((world.strand? scope.strand).bind fun strand => strand.invocations[index]?) =
        some invocation) (initial : invocation.command.initializer = some initializer)
      (ran : initializer.run { scope with step := some index, cell := none } world =
        (middle, .error fault)) (cancellation : fault.isCancellation = true) :
      Stretch scope (.prepare index next) world
        (initializer.acts { scope with step := some index, cell := none } world ++
          [(middle.note scope (.prepared index (some fault))).act scope
            (.prepares index (some fault))])
        (middle.note scope (.prepared index (some fault)), .ended (.error fault))
  /-- An execution is complete at the end of its call. -/
  | complete {routine : Routine β} {step : Option Nat} {command : Command} {arguments : Arguments}
      {doing : Doing} {next : Outcome → Routine β} {world middle : World α} {outcome : Outcome}
      {acts : List Act} {ended : World α × Suspension β}
      (calls : routine.Calls scope world step command arguments doing next)
      (begun : world.begin { scope with step := step } command arguments =
        (middle, .complete outcome))
      (rest : Stretch scope (next outcome) middle acts ended) :
      Stretch scope routine world
        (world.act scope doing :: world.actsOfBegin { scope with step := step } command arguments ++
          middle.act scope (.gets (world.cellCount scope.strand) outcome) :: acts) ended
  | waits {routine : Routine β} {step : Option Nat} {command : Command} {arguments : Arguments}
      {doing : Doing} {next : Outcome → Routine β} {world middle : World α} {number : Nat}
      (calls : routine.Calls scope world step command arguments doing next)
      (begun : world.begin { scope with step := step } command arguments = (middle, .waits number)) :
      Stretch scope routine world
        (world.act scope doing :: world.actsOfBegin { scope with step := step } command arguments)
        (middle, .waits (.cell number next) .asleep)
  /-- The call is cancelled, and so is the routine. -/
  | cancelled {routine : Routine β} {step : Option Nat} {command : Command} {arguments : Arguments}
      {doing : Doing} {next : Outcome → Routine β} {world middle : World α} {fault : Fault}
      (calls : routine.Calls scope world step command arguments doing next)
      (begun : world.begin { scope with step := step } command arguments =
        (middle, .cancelled fault)) :
      Stretch scope routine world
        (world.act scope doing :: world.actsOfBegin { scope with step := step } command arguments)
        (middle, .ended (.error fault))

/-- What a routine does until it waits or ends is a stretch. -/
theorem stretch (scope : Scope) (routine : Routine β) (world : World α) :
    Stretch scope routine world (routine.acts scope world) (routine.run scope world) := by
  induction routine generalizing world with
  | finish value => exact .finish
  | fail fault => exact .fail
  | ask query next ih => exact .ask (ih _ _)
  | sleep seconds notice next ih =>
      simp only [run, acts]
      split
      · rename_i hshort
        exact .turn hshort
      · split
        · rename_i hpositive
          exact .timer hpositive
        · exact .moment
  | await event notice next ih =>
      simp only [run, acts]
      by_cases hhappened : world.happened.contains event = true
      · simp only [if_pos hhappened]
        exact .happened hhappened (ih () world)
      · simp only [if_neg hhappened]
        exact .event hhappened
  | invoke name given next ih =>
      simp only [run, acts]
      cases hknown : world.surroundings.registry.lookup name with
      | error fault => exact .unknown (.inl hknown)
      | ok command =>
          cases htaken : given.toArguments with
          | error fault => exact .unknown (.inr htaken)
          | ok arguments =>
              have hcalls : Calls scope world (.invoke name given next) scope.step command arguments
                  _ next := .invoke hknown htaken
              dsimp only
              rcases hbegun : world.begin scope command arguments with ⟨middle, begun⟩
              cases begun with
              | complete outcome => exact .complete hcalls hbegun (ih outcome middle)
              | waits number => exact List.append_nil _ ▸ .waits hcalls hbegun
              | cancelled fault => exact List.append_nil _ ▸ .cancelled hcalls hbegun
  | prepare index next ih =>
      simp only [run, acts]
      cases hfound : (world.strand? scope.strand).bind fun strand => strand.invocations[index]? with
      | none => exact .lack hfound
      | some invocation =>
          dsimp only
          cases hinitial : invocation.command.initializer with
          | none => exact .ready hfound hinitial (ih none world)
          | some initializer =>
              dsimp only
              rcases hran : initializer.run { scope with step := some index, cell := none } world with
                ⟨middle, result⟩
              cases result with
              | ok value => exact .prepared hfound hinitial hran (.inl ⟨rfl, rfl⟩) (ih none _)
              | error fault =>
                  dsimp only
                  by_cases hcancellation : fault.isCancellation = true
                  · simp only [if_pos hcancellation]
                    exact .escaped hfound hinitial hran hcancellation
                  · simp only [if_neg hcancellation]
                    exact .prepared hfound hinitial hran (.inr ⟨fault, rfl, rfl, hcancellation⟩)
                      (ih (some fault) _)
  | execute index next ih =>
      simp only [run, acts]
      cases hfound : (world.strand? scope.strand).bind fun strand => strand.invocations[index]? with
      | none => exact .miss hfound
      | some invocation =>
          have hcalls : Calls scope world (.execute index next) (some index) invocation.command
              invocation.arguments _ next := .execute hfound
          dsimp only
          rcases hbegun : world.begin { scope with step := some index } invocation.command
            invocation.arguments with ⟨middle, begun⟩
          cases begun with
          | complete outcome => exact .complete hcalls hbegun (ih outcome middle)
          | waits number => exact List.append_nil _ ▸ .waits hcalls hbegun
          | cancelled fault => exact List.append_nil _ ▸ .cancelled hcalls hbegun

end Routine

end Cascade
