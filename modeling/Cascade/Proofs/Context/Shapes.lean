import Cascade.Proofs.Context.Rights
import Cascade.Proofs.Run.Locality

/-!
Where the code of a strand belongs. The thread of a chain belongs to no step. Every other thread
belongs to an execution and to the step of that execution, and the step of an execution is decided by
the code that asked for it: the chain executes a step in that step, a command that is called by its
name runs in the step of its caller, and the repetition executes the step that is noted in its own.
Every change of a strand that a run can make keeps this.
-/

namespace Cascade

open Library.System

namespace Shape

variable {α : Type}

/-- Invocations, threads and executions stay what they are. -/
structure Grows (before after : Shape α) : Prop where
  invocations : after.invocations = before.invocations
  cells : ∀ (number : Nat) (origin : Command × ThreadId × Option Nat),
    before.cells[number]? = some origin → after.cells[number]? = some origin
  children : ∀ (number : Nat) (thread : Thread Value), before.children[number]? = some thread →
    ∃ later, after.children[number]? = some later ∧ later.step = thread.step ∧
      later.cell = thread.cell

/-- How the execution of a command in a step can have come about, by the thread that asked for it. -/
inductive Lineage (noted : Nat → Nat → Prop) (shape : Shape α) (command : Command) (index : Nat) :
    ThreadId → Prop
  | chain (invocation : Invocation) (found : shape.invocations[index]? = some invocation)
      (same : invocation.command = command) : Lineage noted shape command index .root
  | invoked (child : Nat) (thread : Thread Value) (found : shape.children[child]? = some thread)
      (number : Nat) (outer : Command) (caller : ThreadId) (cell : thread.cell = some number)
      (origin : shape.cells[number]? = some (outer, caller, some index))
      (plain : ¬ outer.IsRepetition) : Lineage noted shape command index (.child child)
  | repeated (child : Nat) (thread : Thread Value) (found : shape.children[child]? = some thread)
      (number : Nat) (outer : Command) (caller : ThreadId) (own : Nat)
      (cell : thread.cell = some number)
      (origin : shape.cells[number]? = some (outer, caller, some own))
      (repetition : outer.IsRepetition) (note : noted own index) (invocation : Invocation)
      (step : shape.invocations[index]? = some invocation) (same : invocation.command = command) :
      Lineage noted shape command index (.child child)

/-- Every thread and every execution of a strand is where it belongs. In a step of the repetition
nothing but the repetition is executed. -/
structure Placed (noted : Nat → Nat → Prop) (shape : Shape α) : Prop where
  commands : ∀ invocation ∈ shape.invocations,
    invocation.command.IsRepetition ∨ invocation.command.IsConfined
  root : shape.root.step = none ∧ shape.root.cell = none ∧ shape.root.status.Minds .chain
  children : ∀ (number : Nat) (thread : Thread Value), shape.children[number]? = some thread →
    ∃ execution command caller index, thread.cell = some execution ∧ thread.step = some index ∧
      shape.cells[execution]? = some (command, caller, some index) ∧
      thread.status.Minds (.ofCommand command (noted index) index)
  cells : ∀ (number : Nat) (command : Command) (caller : ThreadId) (step : Option Nat),
    shape.cells[number]? = some (command, caller, step) →
      (command.IsRepetition ∨ command.IsConfined) ∧
        ∃ index, step = some index ∧ index < shape.invocations.length ∧
          Lineage noted shape command index caller ∧
            ∀ invocation, shape.invocations[index]? = some invocation →
              invocation.command.IsRepetition → command.IsRepetition

variable {noted : Nat → Nat → Prop} {before middle after shape : Shape α}

theorem Grows.refl (shape : Shape α) : Grows shape shape :=
  ⟨rfl, fun _ _ h => h, fun _ thread h => ⟨thread, h, rfl, rfl⟩⟩

theorem Grows.trans (h : Grows before middle) (k : Grows middle after) : Grows before after := by
  refine ⟨k.invocations.trans h.invocations, fun number origin hcell =>
    k.cells number origin (h.cells number origin hcell), fun number thread hchild => ?_⟩
  obtain ⟨found, hfound, hstep, hcell⟩ := h.children number thread hchild
  obtain ⟨later, hlater, hnext, hsame⟩ := k.children number found hfound
  exact ⟨later, hlater, hnext.trans hstep, hsame.trans hcell⟩

theorem Lineage.mono {command : Command} {index : Nat} {caller : ThreadId}
    (h : Lineage noted before command index caller) (grows : Grows before after) :
    Lineage noted after command index caller := by
  cases h with
  | chain invocation found same =>
      exact .chain invocation (by rw [grows.invocations]; exact found) same
  | invoked child thread found number outer caller cell origin plain =>
      obtain ⟨later, hlater, -, hcell⟩ := grows.children child thread found
      exact .invoked child later hlater number outer caller (hcell.trans cell)
        (grows.cells _ _ origin) plain
  | repeated child thread found number outer caller own cell origin repetition note invocation step
      same =>
      obtain ⟨later, hlater, -, hcell⟩ := grows.children child thread found
      exact .repeated child later hlater number outer caller own (hcell.trans cell)
        (grows.cells _ _ origin) repetition note invocation
        (by rw [grows.invocations]; exact step) same

theorem Placed.lineage (h : shape.Placed noted) (grows : Grows shape after) {number : Nat}
    {command : Command} {caller : ThreadId} {step : Option Nat}
    (hcell : shape.cells[number]? = some (command, caller, step)) :
    (command.IsRepetition ∨ command.IsConfined) ∧
      ∃ index, step = some index ∧ index < after.invocations.length ∧
        Lineage noted after command index caller ∧
          ∀ invocation, after.invocations[index]? = some invocation →
            invocation.command.IsRepetition → command.IsRepetition := by
  obtain ⟨hcommand, index, hstep, hlength, hlineage, hrepetition⟩ :=
    h.cells number command caller step hcell
  rw [grows.invocations]
  exact ⟨hcommand, index, hstep, hlength, hlineage.mono grows, hrepetition⟩

theorem Placed.isRepetition (h : shape.Placed noted) {command : Command} {caller : ThreadId}
    {index : Nat} (hlineage : Lineage noted shape command index caller) {invocation : Invocation}
    (hstep : shape.invocations[index]? = some invocation)
    (hrepetition : invocation.command.IsRepetition) : command.IsRepetition := by
  cases hlineage with
  | chain other found same =>
      obtain rfl := Option.some.inj (found.symm.trans hstep)
      exact same ▸ hrepetition
  | invoked child thread found number outer caller cell origin plain =>
      -- the repetition calls no command by its name
      obtain ⟨-, own, hown, -, -, houter⟩ := h.cells number outer caller _ origin
      obtain rfl := Option.some.inj hown
      exact absurd (houter invocation hstep hrepetition) plain
  | repeated child thread found number outer caller own cell origin repetition note other step same =>
      obtain rfl := Option.some.inj (step.symm.trans hstep)
      exact same ▸ hrepetition

theorem of_getElem?_concat {β : Type} {items : List β} {item last : β} {index : Nat}
    (h : (items ++ [last])[index]? = some item) :
    items[index]? = some item ∨ index = items.length ∧ item = last := by
  rw [List.getElem?_append] at h
  split at h
  · exact .inl h
  · rw [List.getElem?_singleton] at h
    split at h
    · exact .inr ⟨by omega, (Option.some.inj h).symm⟩
    · cases h

def opened (origin : Command × ThreadId × Option Nat) (shape : Shape α) : Shape α :=
  { shape with cells := shape.cells ++ [origin] }

theorem grows_opened (origin : Command × ThreadId × Option Nat) (shape : Shape α) :
    Grows shape (shape.opened origin) :=
  ⟨rfl, fun _ _ h => List.getElem?_append_left (List.getElem?_eq_some_iff.mp h).1 ▸ h,
    fun _ thread h => ⟨thread, h, rfl, rfl⟩⟩

theorem Placed.opened (h : shape.Placed noted) {command : Command} {caller : ThreadId} {index : Nat}
    (hcommand : command.IsRepetition ∨ command.IsConfined)
    (hlength : index < shape.invocations.length)
    (hlineage : Lineage noted shape command index caller) :
    (shape.opened (command, caller, some index)).Placed noted := by
  have hgrows := grows_opened (command, caller, some index) shape
  refine ⟨h.commands, h.root, fun number thread hchild => ?_, ?_⟩
  · obtain ⟨execution, outer, asker, own, hcell, hstep, horigin, hminds⟩ :=
      h.children number thread hchild
    exact ⟨execution, outer, asker, own, hcell, hstep, hgrows.cells _ _ horigin, hminds⟩
  · intro number other asker step hcell
    rcases of_getElem?_concat hcell with hcell | ⟨rfl, heq⟩
    · exact h.lineage hgrows hcell
    · obtain ⟨rfl, rfl, rfl⟩ := heq
      exact ⟨hcommand, index, rfl, hlength, hlineage.mono hgrows,
        fun invocation hstep => h.isRepetition hlineage hstep⟩

def spawn (thread : Thread Value) (shape : Shape α) : Shape α :=
  { shape with children := shape.children ++ [thread] }

theorem grows_spawn (thread : Thread Value) (shape : Shape α) :
    Grows shape (shape.spawn thread) :=
  ⟨rfl, fun _ _ h => h, fun _ other h =>
    ⟨other, List.getElem?_append_left (List.getElem?_eq_some_iff.mp h).1 ▸ h, rfl, rfl⟩⟩

theorem Placed.spawn (h : shape.Placed noted) {thread : Thread Value} {number : Nat}
    {command : Command} {caller : ThreadId} {index : Nat} (hcell : thread.cell = some number)
    (hstep : thread.step = some index)
    (horigin : shape.cells[number]? = some (command, caller, some index))
    (hminds : thread.status.Minds (.ofCommand command (noted index) index)) :
    (shape.spawn thread).Placed noted := by
  refine ⟨h.commands, h.root, fun child other hchild => ?_, fun _ _ _ _ hfound =>
    h.lineage (grows_spawn thread shape) hfound⟩
  rcases of_getElem?_concat hchild with hchild | ⟨rfl, rfl⟩
  · exact h.children child other hchild
  · exact ⟨number, command, caller, index, hcell, hstep, horigin, hminds⟩

/-- A shape whose chain stands differently. -/
def setRoot (status : ThreadStatus α) (shape : Shape α) : Shape α :=
  { shape with root := { shape.root with status := status } }

theorem grows_setRoot (status : ThreadStatus α) (shape : Shape α) :
    Grows shape (shape.setRoot status) :=
  ⟨rfl, fun _ _ h => h, fun _ thread h => ⟨thread, h, rfl, rfl⟩⟩

theorem Placed.setRoot (h : shape.Placed noted) {status : ThreadStatus α}
    (hminds : status.Minds .chain) : (shape.setRoot status).Placed noted :=
  ⟨h.commands, ⟨h.root.1, h.root.2.1, hminds⟩, h.children,
    fun _ _ _ _ hcell => h.lineage (grows_setRoot status shape) hcell⟩

/-- A shape of which a thread stands differently. -/
def setChild (number : Nat) (status : ThreadStatus Value) (shape : Shape α) : Shape α :=
  { shape with
      children := shape.children.modify number fun thread => { thread with status := status } }

theorem map_calm_modify (number : Nat) (status : ThreadStatus Value)
    (children : List (Thread Value)) :
    (children.modify number fun thread => { thread with status := status }).map Thread.calm =
      (children.map Thread.calm).modify number fun thread => { thread with status := status.calm } := by
  refine List.ext_getElem? fun place => ?_
  simp only [List.getElem?_map, List.getElem?_modify]
  split <;> cases children[place]? <;> rfl

/-- Storing the state of a thread changes its shape only. -/
theorem shape_setChild (number : Nat) (status : ThreadStatus Value)
    (strand : Strand α) :
    ({ strand with
        children := strand.children.modify number fun child =>
          { child with status := status } } : Strand α).shape =
      strand.shape.setChild number status.calm := by
  simp only [Strand.shape, Shape.setChild, map_calm_modify]

theorem grows_setChild (number : Nat) (status : ThreadStatus Value) (shape : Shape α) :
    Grows shape (shape.setChild number status) := by
  refine ⟨rfl, fun _ _ h => h, fun child thread h => ?_⟩
  by_cases hsame : number = child
  · exact ⟨{ thread with status := status }, by simp [Shape.setChild, hsame, h], rfl, rfl⟩
  · exact ⟨thread, by simp [Shape.setChild, hsame, h], rfl, rfl⟩

theorem child_of_setChild {number child : Nat} {status : ThreadStatus Value} {thread : Thread Value}
    (h : (shape.setChild number status).children[child]? = some thread) :
    (number ≠ child ∧ shape.children[child]? = some thread) ∨
      (number = child ∧ ∃ old, shape.children[number]? = some old ∧
        thread = { old with status := status }) := by
  rw [Shape.setChild, List.getElem?_modify] at h
  obtain ⟨old, hold, hset⟩ := Option.map_eq_some_iff.mp h
  by_cases heq : number = child
  · exact .inr ⟨heq, old, heq ▸ hold, by rw [← hset, if_pos heq]⟩
  · rw [if_neg heq] at hset
    exact .inl ⟨heq, hold.trans (congrArg some hset)⟩

theorem Placed.setChild (h : shape.Placed noted) {number : Nat} {status : ThreadStatus Value}
    (hminds : ∀ (thread : Thread Value) (execution : Nat) (command : Command) (caller : ThreadId)
      (index : Nat), shape.children[number]? = some thread → thread.cell = some execution →
        shape.cells[execution]? = some (command, caller, some index) → status.Minds (.ofCommand command (noted index) index)) :
    (shape.setChild number status).Placed noted := by
  refine ⟨h.commands, h.root, fun child thread hchild => ?_, fun _ _ _ _ hcell =>
    h.lineage (grows_setChild number status shape) hcell⟩
  rcases child_of_setChild hchild with ⟨-, hold⟩ | ⟨rfl, old, hold, rfl⟩
  · exact h.children child thread hold
  · obtain ⟨execution, command, caller, index, hcell, hstep, horigin, -⟩ := h.children _ old hold
    exact ⟨execution, command, caller, index, hcell, hstep, horigin,
      hminds old execution command caller index hold hcell horigin⟩

end Shape

end Cascade
