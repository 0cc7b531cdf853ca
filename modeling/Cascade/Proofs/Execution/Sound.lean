import Cascade.Proofs.Execution.Past

/-!
A law of every state of a run: each cell holds what the past of its execution makes of it, and the
thread that asked for the execution attends to it until it has got the outcome. The primitive changes
of a state keep the law.
-/

namespace Cascade

open Past

/-- How the thread that asked for an execution stands while it has got nothing from it: it still
calls, it waits for the execution, or it was cancelled. -/
def Attends (number : Nat) (state : CellState) : Option Posture → Prop
  | some .running => True
  | some (.waits (some cell) .asleep) => cell = number ∧ state = .pending
  | some (.waits (some cell) .woken) => cell = number ∧ ∃ outcome, state = .settled outcome
  | some (.waits (some cell) .cancelled) => cell = number ∧ state ≠ .pending
  | some (.finished true) => state ≠ .pending
  | _ => False

/-- A thread whose end may be that of an execution was promised by its call. What came too late is run
only if it was started, and its end does not count. -/
def Past.Owes (command : Command) (delivers : Bool) (past : List Happening) : Prop :=
  ∃ later started earlier, past = later ++ .promised started :: earlier ∧
    (attempts command earlier = [] ∨ started = true ∧ delivers = false)

/-- Whether a happening is the beginning of an execution. -/
def Happening.isOpening : Happening → Bool
  | called _ | refused _ => true
  | _ => false

/-- An execution begins with the call of the command, or with the refusal of arguments that the
command does not take, and with nothing like it later. -/
def Past.Opens (command : Command) (past : List Happening) : Prop :=
  ∃ later first, past = later ++ [first] ∧ (∀ happening ∈ later, happening.isOpening = false) ∧
    ((∃ arguments, first = .called arguments ∧ command.accepts arguments.kind = true) ∨
      ∃ arguments, first = .refused arguments ∧ command.accepts arguments.kind = false)

namespace World

variable {α : Type}

/-- The law of executions. -/
structure Sound (world : World α) : Prop where
  unopened : ∀ place number, world.cell? place number = none → world.past place number = []
  opens : ∀ place number cell, world.cell? place number = some cell →
    Opens cell.command (world.past place number)
  accounts : ∀ place number cell, world.cell? place number = some cell →
    Accounts cell.command (world.past place number) cell.state
  promise : ∀ place number cell, world.cell? place number = some cell →
    KeepsPromise cell.command (world.past place number)
  errand : ∀ place child number delivers, world.errand? place child = some (number, delivers) →
    ∃ cell, world.cell? place number = some cell ∧
      Owes cell.command delivers (world.past place number)
  attended : ∀ place number cell, world.cell? place number = some cell →
    ¬ IsClosed (world.past place number) →
      Attends number cell.state (world.posture? place cell.caller)
  awaited : ∀ place thread number wake,
    world.posture? place thread = some (.waits (some number) wake) →
      ∃ cell, world.cell? place number = some cell ∧ cell.caller = thread ∧
        ¬ IsClosed (world.past place number)

theorem Sound.exists_settled {world : World α} (h : world.Sound) {place number : Nat}
    {thread : ThreadId} (hwoken : world.posture? place thread = some (.waits (some number) .woken)) :
    ∃ cell outcome, world.cell? place number = some cell ∧
      world.outcome? place number = some outcome := by
  obtain ⟨cell, hcell, rfl, hopen⟩ := h.awaited place thread number .woken hwoken
  have hattends := h.attended place number cell hcell hopen
  rw [hwoken] at hattends
  obtain ⟨-, outcome, hsettled⟩ := hattends
  exact ⟨cell, outcome, hcell, by simp [outcome?, hcell, hsettled]⟩

/-- What the law says of each execution by itself: its cell is opened when its past begins, and holds
what its past makes of it. -/
structure Tallies (world : World α) : Prop where
  unopened : ∀ place number, world.cell? place number = none → world.past place number = []
  opens : ∀ place number cell, world.cell? place number = some cell →
    Opens cell.command (world.past place number)
  accounts : ∀ place number cell, world.cell? place number = some cell →
    Accounts cell.command (world.past place number) cell.state
  promise : ∀ place number cell, world.cell? place number = some cell →
    KeepsPromise cell.command (world.past place number)

theorem Sound.tallies {world : World α} (h : world.Sound) : world.Tallies :=
  ⟨h.unopened, h.opens, h.accounts, h.promise⟩

theorem Tallies.congr {world other : World α} (h : world.Tallies)
    (hcell : ∀ place number, other.cell? place number = world.cell? place number)
    (hpast : ∀ place number, other.past place number = world.past place number) :
    other.Tallies := by
  refine ⟨fun place number => ?_, fun place number => ?_, fun place number => ?_,
    fun place number => ?_⟩
  · rw [hcell, hpast]
    exact h.unopened place number
  · rw [hcell, hpast]
    exact h.opens place number
  · rw [hcell, hpast]
    exact h.accounts place number
  · rw [hcell, hpast]
    exact h.promise place number

theorem Tallies.replace {world other : World α} (h : world.Tallies) {place number : Nat}
    {changed : Cell} {past : List Happening}
    (hcell : ∀ strand execution, other.cell? strand execution =
      if place = strand ∧ number = execution then some changed else world.cell? strand execution)
    (hpast : ∀ strand execution, other.past strand execution =
      if place = strand ∧ number = execution then past else world.past strand execution)
    (hopens : Opens changed.command past) (haccounts : Accounts changed.command past changed.state)
    (hpromise : KeepsPromise changed.command past) : other.Tallies := by
  have hfound : ∀ {strand execution found}, other.cell? strand execution = some found →
      (found = changed ∧ other.past strand execution = past) ∨
        world.cell? strand execution = some found ∧
          other.past strand execution = world.past strand execution := by
    intro strand execution found hsome
    rw [hcell] at hsome
    rw [hpast]
    split at hsome
    · rename_i heq
      exact .inl ⟨(Option.some.inj hsome).symm, if_pos heq⟩
    · rename_i hne
      exact .inr ⟨hsome, if_neg hne⟩
  refine ⟨fun strand execution hnone => ?_, fun strand execution found hsome => ?_,
    fun strand execution found hsome => ?_, fun strand execution found hsome => ?_⟩
  · rw [hcell] at hnone
    rw [hpast]
    split at hnone
    · cases hnone
    · rename_i hne
      rw [if_neg hne]
      exact h.unopened strand execution hnone
  · rcases hfound hsome with ⟨rfl, hsame⟩ | ⟨hold, hsame⟩
    · exact hsame ▸ hopens
    · exact hsame ▸ h.opens strand execution found hold
  · rcases hfound hsome with ⟨rfl, hsame⟩ | ⟨hold, hsame⟩
    · exact hsame ▸ haccounts
    · exact hsame ▸ h.accounts strand execution found hold
  · rcases hfound hsome with ⟨rfl, hsame⟩ | ⟨hold, hsame⟩
    · exact hsame ▸ hpromise
    · exact hsame ▸ h.promise strand execution found hold

theorem Sound.congr {world other : World α} (h : world.Sound)
    (hposture : ∀ place thread, other.posture? place thread = world.posture? place thread)
    (hcell : ∀ place number, other.cell? place number = world.cell? place number)
    (herrand : ∀ place child, other.errand? place child = world.errand? place child)
    (hpast : ∀ place number, other.past place number = world.past place number) :
    other.Sound := by
  obtain ⟨hunopened, hopens, haccounts, hpromise⟩ := h.tallies.congr hcell hpast
  refine ⟨hunopened, hopens, haccounts, hpromise, fun place child number => ?_,
    fun place number cell => ?_, fun place thread number => ?_⟩
  · rw [herrand, hcell, hpast]
    exact h.errand place child number
  · rw [hcell, hpast, hposture]
    exact h.attended place number cell
  · rw [hposture, hcell, hpast]
    exact h.awaited place thread number

/-- One execution changes, and with it perhaps how the thread stands that asked for it. -/
theorem Sound.change {world other : World α} (h : world.Sound) {place number : Nat} {cell : Cell}
    (changed : Cell) (later : List Happening) (posture : Option Posture)
    (hold : world.cell? place number = some cell)
    (hcell : ∀ strand execution, other.cell? strand execution =
      if place = strand ∧ number = execution then some changed
      else world.cell? strand execution)
    (hpast : ∀ strand execution, other.past strand execution =
      if place = strand ∧ number = execution then later ++ world.past place number
      else world.past strand execution)
    (herrand : ∀ strand child, other.errand? strand child = world.errand? strand child)
    (hposture : ∀ strand thread, other.posture? strand thread =
      if place = strand ∧ cell.caller = thread then posture else world.posture? strand thread)
    (hcommand : changed.command = cell.command) (hcaller : changed.caller = cell.caller)
    (hopening : ∀ happening ∈ later, happening.isOpening = false)
    (haccounts : Accounts cell.command (later ++ world.past place number) changed.state)
    (hpromise : KeepsPromise cell.command (later ++ world.past place number))
    (hattended : ¬ IsClosed (later ++ world.past place number) →
      Attends number changed.state posture)
    (hothers : posture = world.posture? place cell.caller ∨
      ∃ wake, world.posture? place cell.caller = some (.waits (some number) wake))
    (hawaited : ∀ execution wake, posture = some (.waits (some execution) wake) →
      (execution = number → ¬ IsClosed (later ++ world.past place number)) ∧
        ∃ before, world.posture? place cell.caller = some (.waits (some execution) before)) :
    other.Sound := by
  obtain ⟨newer, first, hfirst, hnewer, hkind⟩ := h.opens place number cell hold
  obtain ⟨hunopened, hopens, haccount, hkeeps⟩ := h.tallies.replace hcell hpast
    (hcommand ▸ ⟨later ++ newer, first, by rw [hfirst, List.append_assoc],
      fun happening hmem => (List.mem_append.mp hmem).elim (hopening happening) (hnewer happening),
      hkind⟩) (hcommand ▸ haccounts) (hcommand ▸ hpromise)
  refine ⟨hunopened, hopens, haccount, hkeeps, fun strand child execution delivers hchild => ?_,
    fun strand execution found hfound hopen => ?_, fun strand thread execution wake hwaits => ?_⟩
  · rw [herrand] at hchild
    obtain ⟨found, hfound, howes⟩ := h.errand strand child execution delivers hchild
    rw [hcell, hpast]
    by_cases heq : place = strand ∧ number = execution
    · obtain ⟨rfl, rfl⟩ := heq
      rw [hold] at hfound
      obtain rfl := Option.some.inj hfound
      obtain ⟨newer, started, earlier, hsplit, hkind⟩ := howes
      refine ⟨changed, by simp, ?_⟩
      rw [if_pos ⟨rfl, rfl⟩, hcommand]
      exact ⟨later ++ newer, started, earlier, by rw [hsplit, List.append_assoc], hkind⟩
    · rw [if_neg heq, if_neg heq]
      exact ⟨found, hfound, howes⟩
  · rw [hcell] at hfound
    rw [hpast] at hopen
    rw [hposture]
    split at hfound
    · rename_i heq
      obtain rfl := Option.some.inj hfound
      rw [if_pos heq] at hopen
      rw [if_pos ⟨heq.1, hcaller.symm⟩]
      exact heq.2 ▸ hattended hopen
    · rename_i hne
      rw [if_neg hne] at hopen
      have hattends := h.attended strand execution found hfound hopen
      split
      · rename_i heq
        obtain ⟨rfl, hthread⟩ := heq
        rw [← hthread] at hattends
        rcases hothers with hsame | ⟨wake, hwaits⟩
        · exact hsame ▸ hattends
        · -- the thread waits for the changed execution, so it attends to no other one
          rw [hwaits] at hattends
          cases wake <;> exact absurd ⟨rfl, hattends.1⟩ hne
      · exact hattends
  · rw [hposture] at hwaits
    split at hwaits
    · rename_i heq
      obtain ⟨rfl, rfl⟩ := heq
      obtain ⟨hopen, before, hbefore⟩ := hawaited execution wake hwaits
      obtain ⟨found, hfound, hthread, hclosed⟩ := h.awaited place cell.caller execution before hbefore
      rw [hcell, hpast]
      by_cases hsame : number = execution
      · subst hsame
        exact ⟨changed, by simp, hcaller, by simpa using hopen rfl⟩
      · refine ⟨found, by simp [hsame, hfound], hthread, by simpa [hsame] using hclosed⟩
    · rename_i hne
      obtain ⟨found, hfound, hthread, hclosed⟩ := h.awaited strand thread execution wake hwaits
      rw [hcell, hpast]
      by_cases hsame : place = strand ∧ number = execution
      · obtain ⟨rfl, rfl⟩ := hsame
        rw [hold] at hfound
        obtain rfl := Option.some.inj hfound
        exact absurd ⟨rfl, hthread⟩ hne
      · exact ⟨found, by rw [if_neg hsame, hfound], hthread, by rwa [if_neg hsame]⟩

theorem Sound.stand {world other : World α} (h : world.Sound) {place : Nat} {thread : ThreadId}
    {posture : Option Posture}
    (hposture : ∀ strand id, other.posture? strand id =
      if place = strand ∧ thread = id then posture else world.posture? strand id)
    (hcell : ∀ strand number, other.cell? strand number = world.cell? strand number)
    (herrand : ∀ strand child, other.errand? strand child = world.errand? strand child)
    (hpast : ∀ strand number, other.past strand number = world.past strand number)
    (hattended : ∀ number cell, world.cell? place number = some cell → cell.caller = thread →
      ¬ IsClosed (world.past place number) → Attends number cell.state posture)
    (hawaited : ∀ number wake, posture = some (.waits (some number) wake) →
      ∃ cell, world.cell? place number = some cell ∧ cell.caller = thread ∧
        ¬ IsClosed (world.past place number)) :
    other.Sound := by
  obtain ⟨hunopened, hopens, haccounts, hpromise⟩ := h.tallies.congr hcell hpast
  refine ⟨hunopened, hopens, haccounts, hpromise, fun strand child number => ?_,
    fun strand number cell hfound hopen => ?_, fun strand id number wake hwaits => ?_⟩
  · rw [herrand, hcell, hpast]
    exact h.errand strand child number
  · rw [hcell] at hfound
    rw [hpast] at hopen
    rw [hposture]
    split
    · rename_i heq
      obtain ⟨rfl, rfl⟩ := heq
      exact hattended number cell hfound rfl hopen
    · exact h.attended strand number cell hfound hopen
  · rw [hposture] at hwaits
    rw [hcell, hpast]
    split at hwaits
    · rename_i heq
      obtain ⟨rfl, rfl⟩ := heq
      exact hawaited number wake hwaits
    · exact h.awaited strand id number wake hwaits

theorem Sound.wake {world : World α} (h : world.Sound) (place : Nat) (thread : ThreadId) :
    (world.wake place thread none).Sound := by
  by_cases hasleep : world.posture? place thread = some (.waits none .asleep)
  · have hposture : ∀ strand id, (world.wake place thread none).posture? strand id =
        if place = strand ∧ thread = id then some (.waits none .woken)
        else world.posture? strand id := by
      intro strand id
      rw [posture?_wake]
      simp only [hasleep, and_true]
    refine h.stand hposture (cell?_wake _ _ _ _) (errand?_wake _ _ _ _) (past_wake _ _ _ _) ?_ ?_
    · intro number cell hcell hcaller hopen
      have hattends := h.attended place number cell hcell hopen
      rw [hcaller, hasleep] at hattends
      exact hattends.elim
    · intro number wake heq
      cases heq
  · have hsame : world.wake place thread none = world := by
      rw [World.wake, ofThread_sleepsOn]
      simp [hasleep]
    rw [hsame]
    exact h

theorem Sound.happen {world : World α} (h : world.Sound) {place number : Nat} {cell : Cell}
    (hcell : world.cell? place number = some cell) {happening : Happening}
    {occurrence : Occurrence}
    (hoccurrence : ∀ strand execution, occurrence.happening? strand execution =
      if place = strand ∧ number = execution then some happening else none)
    (hopening : happening.isOpening = false)
    (haccounts : Accounts cell.command (happening :: world.past place number) cell.state)
    (hpromise : KeepsPromise cell.command (happening :: world.past place number))
    (hclosed : IsClosed (happening :: world.past place number) →
      IsClosed (world.past place number) ∨
        world.posture? place cell.caller = some .running) :
    (world.write occurrence).Sound := by
  have hcells : ∀ strand execution, (world.write occurrence).cell? strand execution =
      if place = strand ∧ number = execution then some cell
      else world.cell? strand execution := by
    intro strand execution
    split
    · rename_i heq
      obtain ⟨rfl, rfl⟩ := heq
      exact hcell
    · rfl
  have hpasts : ∀ strand execution, (world.write occurrence).past strand execution =
      if place = strand ∧ number = execution then [happening] ++ world.past place number
      else world.past strand execution := by
    intro strand execution
    rw [past_write, hoccurrence]
    split
    · rename_i heq
      obtain ⟨rfl, rfl⟩ := heq
      rfl
    · rfl
  have hpostures : ∀ strand thread, (world.write occurrence).posture? strand thread =
      if place = strand ∧ cell.caller = thread then world.posture? place cell.caller
      else world.posture? strand thread := by
    intro strand thread
    split
    · rename_i heq
      obtain ⟨rfl, rfl⟩ := heq
      rfl
    · rfl
  refine h.change cell [happening] (world.posture? place cell.caller) hcell hcells hpasts
    (fun _ _ => rfl) hpostures rfl rfl (by simpa using hopening) haccounts hpromise ?_ (.inl rfl) ?_
  · intro hopen
    exact h.attended place number cell hcell fun hpast => hopen (hpast.cons happening)
  · intro execution wake hwaits
    refine ⟨fun hsame hnow => ?_, wake, hwaits⟩
    rcases hclosed hnow with hpast | hrunning
    · obtain ⟨found, hfound, -, hopen⟩ := h.awaited place cell.caller execution wake hwaits
      exact hopen (hsame ▸ hpast)
    · rw [hrunning] at hwaits
      cases hwaits

theorem Sound.tell {world : World α} (h : world.Sound) {place number : Nat} {cell : Cell}
    (hcell : world.cell? place number = some cell) {happening : Happening}
    (hopening : happening.isOpening = false)
    (haccounts : Accounts cell.command (happening :: world.past place number) cell.state)
    (hpromise : KeepsPromise cell.command (happening :: world.past place number))
    (hclosed : IsClosed (happening :: world.past place number) →
      IsClosed (world.past place number) ∨
        world.posture? place cell.caller = some .running) :
    (world.tell place number cell.command happening).Sound :=
  h.happen hcell (fun _ _ => rfl) hopening haccounts hpromise hclosed

theorem Sound.give {world : World α} (h : world.Sound) (scope : Scope) {number : Nat} {cell : Cell}
    (hcell : world.cell? scope.strand number = some cell) {outcome : Outcome}
    (hsettled : cell.state = .settled outcome)
    (hopen : ¬ IsClosed (world.past scope.strand number))
    (hrunning : world.posture? scope.strand cell.caller = some .running) :
    (world.noteExecution scope number cell.command (.yielded outcome)).Sound := by
  refine h.happen hcell (fun _ _ => rfl) rfl ?_ ?_ fun _ => .inr hrunning
  · have haccounts := h.accounts scope.strand number cell hcell
    rw [hsettled] at haccounts ⊢
    exact haccounts.give hopen
  · exact (h.promise scope.strand number cell hcell).cons rfl fun _ h => by cases h

end World

end Cascade
