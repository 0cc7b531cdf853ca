import Cascade.Proofs.Trace.Acts

/-!
Programs by themselves: what a program does when nothing is known of the others. It goes on by moves,
each with what it does. A question may get any answer, and whatever a program waits for may come.
-/

namespace Cascade

variable {β γ : Type}

/-- What an action asks when it gets certain answers, and the result that it ends with. -/
inductive Action.Plays : Action β → List Doing → Except Fault β → Prop
  | finish (value : β) : Plays (.finish value) [] (.ok value)
  | fail (fault : Fault) : Plays (.fail fault) [] (.error fault)
  | ask (query : Query) (next : query.Answer → Action β) (answer : query.Answer)
      (doings : List Doing) (result : Except Fault β) (h : Plays (next answer) doings result) :
      Plays (.ask query next) (.asks query answer :: doings) result

/-- What code does, and the step that it does it in. -/
abbrev Label := Option Nat × Doing

/-- How a program stands: it goes on, or it waits or has ended. -/
inductive Stance (β : Type)
  | goes (routine : Routine β)
  | rests (status : ThreadStatus β)

namespace Stance

/-- A program that waits. -/
abbrev waits (waiting : Waiting β) : Stance β :=
  rests (.waiting waiting .asleep)

/-- A program that has ended. -/
abbrev ends (result : Except Fault β) : Stance β :=
  rests (.finished result)

/-- The program of a thread before its first turn. -/
abbrev starts (routine : Routine β) : Stance β :=
  waits (.turn none fun _ => routine)

/-- One move of a program in a chain, with its own step. An initializer does what it does in the step
that it prepares. -/
inductive Move (invocations : List Invocation) (own : Option Nat) :
    Stance β → List Label → Stance β → Prop
  | finish (value : β) : Move invocations own (goes (.finish value)) [] (ends (.ok value))
  | fail (fault : Fault) : Move invocations own (goes (.fail fault)) [] (ends (.error fault))
  | ask (query : Query) (next : query.Answer → Routine β) (answer : query.Answer) :
      Move invocations own (goes (.ask query next)) [(own, .asks query answer)] (goes (next answer))
  | sleep (seconds : Binary64) (notice : Option Item) (next : Unit → Routine β)
      (waiting : Waiting β) (h : waiting = .turn notice next ∨ waiting = .timer notice next) :
      Move invocations own (goes (.sleep seconds notice next)) [(own, .pauses seconds)]
        (waits waiting)
  | await (event : String) (notice : Option Item) (next : Unit → Routine β) :
      Move invocations own (goes (.await event notice next)) [(own, .awaits event)]
        (waits (.event event notice next))
  | invoke (name : String) (given : GivenArguments) (next : Outcome → Routine β) (number : Nat)
      (command : Command) (arguments : Arguments) :
      Move invocations own (goes (.invoke name given next))
        [(own, .invokes number command arguments)] (waits (.cell number next))
  | unknown (name : String) (given : GivenArguments) (next : Outcome → Routine β) (fault : Fault) :
      Move invocations own (goes (.invoke name given next)) [] (ends (.error fault))
  | abort (name : String) (given : GivenArguments) (next : Outcome → Routine β) (number : Nat)
      (command : Command) (arguments : Arguments) (doings : List Doing) (fault : Fault)
      (plays : (command.run arguments).Plays doings (.error fault))
      (cancellation : fault.isCancellation = true) :
      Move invocations own (goes (.invoke name given next))
        [(own, .invokes number command arguments)] (ends (.error fault))
  | execute (index : Nat) (next : Outcome → Routine β) (number : Nat) (invocation : Invocation)
      (step : invocations[index]? = some invocation) :
      Move invocations own (goes (.execute index next))
        [(own, .executes number index invocation.command invocation.arguments)]
        (waits (.cell number next))
  | miss (index : Nat) (next : Outcome → Routine β) (step : invocations[index]? = none) :
      Move invocations own (goes (.execute index next)) [] (ends (.error Routine.noStep))
  | stop (index : Nat) (next : Outcome → Routine β) (number : Nat) (invocation : Invocation)
      (step : invocations[index]? = some invocation) (doings : List Doing) (fault : Fault)
      (plays : (invocation.command.run invocation.arguments).Plays doings (.error fault))
      (cancellation : fault.isCancellation = true) :
      Move invocations own (goes (.execute index next))
        [(own, .executes number index invocation.command invocation.arguments)]
        (ends (.error fault))
  | ready (index : Nat) (next : Option Fault → Routine β) (invocation : Invocation)
      (step : invocations[index]? = some invocation)
      (missing : invocation.command.initializer = none) :
      Move invocations own (goes (.prepare index next)) [(own, .prepares index none)]
        (goes (next none))
  | prepare (index : Nat) (next : Option Fault → Routine β) (invocation : Invocation)
      (step : invocations[index]? = some invocation) (initializer : Action Unit)
      (given : invocation.command.initializer = some initializer) (doings : List Doing)
      (plays : initializer.Plays doings (.ok ())) :
      Move invocations own (goes (.prepare index next))
        (doings.map (Prod.mk (some index)) ++ [(own, .prepares index none)]) (goes (next none))
  | reject (index : Nat) (next : Option Fault → Routine β) (invocation : Invocation)
      (step : invocations[index]? = some invocation) (initializer : Action Unit)
      (given : invocation.command.initializer = some initializer) (doings : List Doing)
      (fault : Fault) (plays : initializer.Plays doings (.error fault)) :
      Move invocations own (goes (.prepare index next))
        (doings.map (Prod.mk (some index)) ++ [(own, .prepares index (some fault))])
        (goes (next (some fault)))
  | cancel (index : Nat) (next : Option Fault → Routine β) (invocation : Invocation)
      (step : invocations[index]? = some invocation) (initializer : Action Unit)
      (given : invocation.command.initializer = some initializer) (doings : List Doing)
      (fault : Fault) (plays : initializer.Plays doings (.error fault))
      (cancellation : fault.isCancellation = true) :
      Move invocations own (goes (.prepare index next))
        (doings.map (Prod.mk (some index)) ++ [(own, .prepares index (some fault))])
        (ends (.error fault))
  | lack (index : Nat) (next : Option Fault → Routine β) (step : invocations[index]? = none) :
      Move invocations own (goes (.prepare index next)) [] (ends (.error Routine.noStep))
  | turn (notice : Option Item) (next : Unit → Routine β) :
      Move invocations own (waits (.turn notice next)) [] (goes (next ()))
  | timer (notice : Option Item) (next : Unit → Routine β) :
      Move invocations own (waits (.timer notice next)) [] (goes (next ()))
  | event (name : String) (notice : Option Item) (next : Unit → Routine β) :
      Move invocations own (waits (.event name notice next)) [] (goes (next ()))
  | get (number : Nat) (next : Outcome → Routine β) (outcome : Outcome) :
      Move invocations own (waits (.cell number next)) [(own, .gets number outcome)]
        (goes (next outcome))

/-- Any number of moves with all that they do. -/
inductive Moves (invocations : List Invocation) (own : Option Nat) :
    Stance β → List Label → Stance β → Prop
  | refl (stance : Stance β) : Moves invocations own stance [] stance
  | cons (first middle last : Stance β) (labels more : List Label)
      (move : Move invocations own first labels middle)
      (rest : Moves invocations own middle more last) :
      Moves invocations own first (labels ++ more) last

variable {invocations : List Invocation} {own : Option Nat} {first middle last : Stance β}
  {labels more : List Label}

theorem Moves.single (move : Move invocations own first labels last) :
    Moves invocations own first labels last := by
  simpa using Moves.cons first last last labels [] move (.refl last)

theorem Moves.trans (h : Moves invocations own first labels middle)
    (k : Moves invocations own middle more last) :
    Moves invocations own first (labels ++ more) last := by
  induction h with
  | refl => exact k
  | cons first second _ labels others move _ ih =>
      rw [List.append_assoc]
      exact .cons first second last labels _ move (ih k)

/-- No move leads to a thread that has its turn. -/
theorem Moves.of_running (h : Moves invocations own first labels last)
    (hlast : last = .rests .running) : first = .rests .running := by
  induction h with
  | refl => exact hlast
  | cons first middle last labels more move _ ih =>
      obtain rfl := ih hlast
      cases move

end Stance

end Cascade
