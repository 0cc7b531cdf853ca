import Cascade.Proofs.Convention.Return
import Mathlib.Data.List.Forall2

/-!
Two runs that keep pace. Their commands differ in their conventions only; whenever the first comes to the
end of a piece of plain code, the second comes to the end of the same piece with the same result, and
both have the same face.
-/

namespace Cascade

variable {α β γ : Type}

/-! ### Commands that take each other's place -/

namespace Command.Interchangeable

variable {first second : Command}

theorem unmarked_eq (h : first.Interchangeable second) :
    first.info.unmarked = second.info.unmarked := by
  cases h <;> rfl

theorem name_eq (h : first.Interchangeable second) : first.name = second.name :=
  congrArg CommandInfo.name h.unmarked_eq

theorem initializer_eq (h : first.Interchangeable second) : first.initializer = second.initializer := by
  cases h <;> rfl

end Command.Interchangeable

/-- Two invocations of commands that take each other's place, with the same arguments. -/
structure Invocation.Interchangeable (first second : Invocation) : Prop where
  command : first.command.Interchangeable second.command
  arguments : first.arguments = second.arguments
  token : first.token = second.token

/-- Two results that are the same failure, or values in a relation. -/
inductive Agree {δ : Type} (relation : γ → δ → Prop) : Except Fault γ → Except Fault δ → Prop
  | error (fault : Fault) : Agree relation (.error fault) (.error fault)
  | ok {left : γ} {right : δ} (related : relation left right) : Agree relation (.ok left) (.ok right)

namespace Registry

variable {first second : Registry}

end Registry

/-! ### Side by side -/

/-- In two runs the threads of two seats have their turns, with the same face around them. -/
structure Paired (seat : Seat α β) (own : Scope) (strand : Strand α) (world : World α)
    (seat' : Seat α β) (own' : Scope) (other : Strand α) (beside : World α) : Prop where
  left : Midway seat own strand world
  right : Midway seat' own' other beside
  step : own.step = own'.step
  face : world.face = beside.face
  registry : List.Forall₂ Command.Interchangeable world.surroundings.registry.commands
    beside.surroundings.registry.commands
  invocations : List.Forall₂ Invocation.Interchangeable strand.invocations other.invocations

/-- The second run comes to where it goes on with the same result as the first. -/
def Meets (seat : Seat α β) (own : Scope) (strand : Strand α) (world : World α) (seat' : Seat α β)
    (own' : Scope) (other : Strand α) (beside : World α) (rest rest' : γ → Routine β) (count : Nat)
    (last there : World α) : Prop :=
  ∃ (result : Except Fault γ) (later later' : Strand α) (after after' : World α) (first second : Nat),
    first ≤ count ∧
    World.Ends first (seat.leave (((Routine.ofExcept result).bind rest).run own after)) last ∧
    there.passes second =
      some (seat'.leave (((Routine.ofExcept result).bind rest').run own' after')) ∧
    World.Enlarges strand world later after ∧ World.Enlarges other beside later' after' ∧
    Paired seat own later after seat' own' later' after'

section Pairs

open World

variable {seat seat' : Seat α β} {own own' : Scope} {strand other later later' : Strand α}
  {world beside after after' last there : World α} {rest rest' : γ → Routine β} {count : Nat}

theorem Paired.grow (h : Paired seat own strand world seat' own' other beside)
    (hleft : Midway seat own later after) (hgrows : Enlarges strand world later after)
    (hright : Midway seat' own' later' after') (hgrows' : Enlarges other beside later' after')
    (hface : after.face = after'.face) : Paired seat own later after seat' own' later' after' where
  left := hleft
  right := hright
  step := h.step
  face := hface
  registry := by
    rw [hgrows.surroundings, hgrows'.surroundings]
    exact h.registry
  invocations := by
    rw [hgrows.invocations, hgrows'.invocations]
    exact h.invocations

theorem Paired.untouched (h : Paired seat own strand world seat' own' other beside)
    (hleft : Untouched strand world after) (hright : Untouched other beside after')
    (hface : after.face = after'.face) :
    ∃ later later', Enlarges strand world later after ∧ Enlarges other beside later' after' ∧
      Paired seat own later after seat' own' later' after' := by
  obtain ⟨later, hmidway, hgrows⟩ := hleft.midway h.left
  obtain ⟨later', hmidway', hgrows'⟩ := hright.midway h.right
  exact ⟨later, later', hgrows, hgrows', h.grow hmidway hgrows hmidway' hgrows' hface⟩

namespace Meets

theorem here (h : Paired seat own strand world seat' own' other beside) (result : Except Fault γ)
    (hends : Ends count (seat.leave (((Routine.ofExcept result).bind rest).run own world)) last) :
    Meets seat own strand world seat' own' other beside rest rest' count last
      (seat'.leave (((Routine.ofExcept result).bind rest').run own' beside)) :=
  ⟨result, strand, other, world, beside, count, 0, Nat.le_refl _, hends, rfl, .refl _ _, .refl _ _, h⟩

/-- Two runs that have gone on before they meet. -/
theorem before {first second : Nat} {middle : World α} (hle : first ≤ count)
    (hgrows : Enlarges strand world later after) (hgrows' : Enlarges other beside later' after')
    (hpasses : there.passes second = some middle)
    (h : Meets seat own later after seat' own' later' after' rest rest' first last middle) :
    Meets seat own strand world seat' own' other beside rest rest' count last there := by
  obtain ⟨result, ending, ending', end', end'', more, more', hmore, hends, hmiddle, hlater, hlater',
    hpaired⟩ := h
  exact ⟨result, ending, ending', end', end'', more, second + more', Nat.le_trans hmore hle, hends,
    passes_trans hpasses hmiddle, hgrows.trans hlater, hgrows'.trans hlater', hpaired⟩

theorem grow (hgrows : Enlarges strand world later after) (hgrows' : Enlarges other beside later' after')
    (h : Meets seat own later after seat' own' later' after' rest rest' count last there) :
    Meets seat own strand world seat' own' other beside rest rest' count last there :=
  have hhere : there.passes 0 = some there := rfl
  h.before (Nat.le_refl _) hgrows hgrows' hhere

end Meets

/-! ### An execution in both runs -/

/-- Up to a number of passes of the first run, two runs of a routine meet at its end. -/
def KeepsPace (α : Type) (bound : Nat) (routine : Routine γ) : Prop :=
  ∀ {β : Type} {seat seat' : Seat α β} {own own' : Scope} {strand other : Strand α}
    {world beside : World α} (rest rest' : γ → Routine β) {count : Nat} {last : World α},
    Paired seat own strand world seat' own' other beside → count < bound →
    Ends count (seat.leave ((routine.bind rest).run own world)) last →
    (seat'.leave ((routine.bind rest').run own' beside)).Timely →
    Meets seat own strand world seat' own' other beside rest rest' count last
      (seat'.leave ((routine.bind rest').run own' beside))

variable {scope scope' : Scope} {command : Command} {upshot : Upshot} {begun begun' : World α × Begun}
  {next next' : Outcome → Routine β}

theorem Paired.happened_eq (h : Paired seat own strand world seat' own' other beside) :
    world.happened = beside.happened :=
  congrArg Face.happened h.face

theorem World.bind_invocations (hstrands : world.strands = [strand]) (hplace : own.strand = 0)
    (index : Nat) : ((world.strand? own.strand).bind fun strand => strand.invocations[index]?) =
      strand.invocations[index]? := by
  rw [hplace, strand?, hstrands]
  rfl

/-- How an initializer failed, if it did. -/
def initialFailure? : Except Fault Unit → Option Fault
  | .ok _ => none
  | .error fault => some fault

/-- What the chain is told of an initializer; a cancellation ends the chain. -/
def initialResult : Except Fault Unit → Except Fault (Option Fault)
  | .ok _ => .ok none
  | .error fault => if fault.isCancellation then .error fault else .ok (some fault)

theorem Routine.run_prepare (hstrands : world.strands = [strand]) (hplace : own.strand = 0) {index : Nat}
    {invocation : Invocation} (hinvocation : strand.invocations[index]? = some invocation)
    {initializer : Action Unit} (hinitializer : invocation.command.initializer = some initializer)
    (next : Option Fault → Routine β) :
    (Routine.prepare index next).run own world =
      ((Routine.ofExcept (initialResult
          (initializer.run { own with step := some index, cell := none } world).2)).bind next).run own
        ((initializer.run { own with step := some index, cell := none } world).1.note own
          (.prepared index (initialFailure?
            (initializer.run { own with step := some index, cell := none } world).2))) := by
  have hfound := (bind_invocations hstrands hplace index).trans hinvocation
  simp only [Routine.run, hfound, hinitializer]
  rcases initializer.run { own with step := some index, cell := none } world with ⟨after, fault | value⟩
  · simp only [initialResult, initialFailure?]
    cases fault.isCancellation <;> rfl
  · rfl

/-- After a step in which two runs meet, they meet at the end of the rest. -/
theorem Meets.bind {δ : Type} {bound : Nat} {next : δ → Routine γ}
    (h : Meets seat own strand world seat' own' other beside (fun value => (next value).bind rest)
      (fun value => (next value).bind rest') count last there)
    (hnext : ∀ value, KeepsPace α bound (next value)) (hlt : count < bound) (htimely : there.Timely) :
    Meets seat own strand world seat' own' other beside rest rest' count last there := by
  obtain ⟨result, later, later', after, after', first, second, hle, hends, hpasses, hgrows, hgrows',
    hpaired⟩ := h
  cases result with
  | error fault =>
      exact ⟨.error fault, later, later', after, after', first, second, hle, hends, hpasses, hgrows,
        hgrows', hpaired⟩
  | ok value =>
      have hrest := hnext value rest rest' hpaired (Nat.lt_of_le_of_lt hle hlt) hends
        (htimely.passes hpasses)
      exact hrest.before hle hgrows hgrows' hpasses

end Pairs

end Cascade
