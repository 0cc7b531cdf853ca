import Cascade.Proofs.Chain.Trail
import Cascade.Proofs.Log.Blame
import Cascade.Proofs.Trace.Known

/-!
What a chain has done in a run. As long as no exception has ended it, it has run all initializers, each of
them once, before it executes a step, and it goes on from its first step as its program does by itself.
-/

namespace Cascade

namespace World

variable {chains : List Chain} {chain : Chain} {acts : List Act} {world : World ChainResult}
  {invocations : List Invocation} {place index number : Nat} {step : Invocation}

/-- What the program of a chain does besides asking questions. -/
def chainWork (acts : List Act) (place : Nat) : List Doing :=
  works none (Scope.labels ⟨place, .root, none, none⟩ acts)

/-- The failure with which the initializer of a step was run, or none, if that is what is done. -/
def preparation? (index : Nat) : Doing → Option (Option Fault)
  | .prepares other failure => if other = index then some failure else none
  | _ => none

/-- How the initializer of a step failed, or none, each time that it was run. -/
def preparations (acts : List Act) (place index : Nat) : List (Option Fault) :=
  acts.filterMap fun act => if act.scope.strand = place then preparation? index act.doing else none

/-- How often a step is executed by what is done. -/
def timesOf (index : Nat) (doings : List Doing) : Nat :=
  doings.countP fun doing => doing.executed? = some index

/-- A chain has come through its initializers. -/
def IsPrepared (chain : Chain) (acts : List Act) (place : Nat) : Prop :=
  ∃ front back, Scope.labels ⟨place, .root, none, none⟩ acts = front ++ back ∧
    Chain.Initialized chain.invocations (List.range chain.invocations.length) front

theorem exists_of_mem_chainWork {doing : Doing} (h : doing ∈ chainWork acts place) :
    ∃ act ∈ acts, act.scope.strand = place ∧ act.scope.thread = .root ∧ act.doing = doing := by
  obtain ⟨label, hlabel, hsome⟩ := List.mem_filterMap.mp h
  obtain ⟨-, heq⟩ := Option.ite_none_right_eq_some.mp hsome
  obtain ⟨act, hact, ⟨hstrand, hthread, -⟩, rfl⟩ := Scope.mem_labels_iff.mp hlabel
  exact ⟨act, hact, hstrand, hthread, Option.some.inj heq⟩

theorem reading_of_getElem? (hstep : chain.invocations[index]? = some step) :
    chain.reading = .ok chain.invocations := by
  cases hread : chain.reading with
  | error fault => simp [Chain.invocations, hread, Except.toOption] at hstep
  | ok found => simp [Chain.invocations, hread, Except.toOption]

theorem Known.went (h : Known chains acts world) (hchain : chains[place]? = some chain)
    (hkept : ∀ fault, Batch.result? world place ≠ some (.error fault))
    (hstep : chain.invocations[index]? = some step) :
    ∃ thread : Thread ChainResult, Batch.result? world place = thread.result? ∧
      Chain.Went chain.invocations (Scope.labels ⟨place, .root, none, none⟩ acts) thread.status := by
  obtain ⟨shape, -, -, hresult, hpath⟩ := h.chain hchain hkept
  refine ⟨shape.root, hresult, Chain.went_of_moves (reading_of_getElem? hstep) hpath
    fun fault hstatus => hkept fault ?_⟩
  rw [hresult, Thread.result?, hstatus]

/-- A chain that has come to one of its steps has run all initializers and has gone on from its first
step. -/
theorem Known.onward (h : Known chains acts world) (hchain : chains[place]? = some chain)
    (hkept : ∀ fault, Batch.result? world place ≠ some (.error fault))
    (hstep : chain.invocations[index]? = some step)
    (hreached : ∃ doing ∈ chainWork acts place, doing.executed? = some index) :
    IsPrepared chain acts place ∧ ∃ rest, chainWork acts place =
        (List.range chain.invocations.length).map (.prepares · none) ++ rest ∧
      Chain.Onward chain.invocations 0 rest (Batch.result? world place) := by
  obtain ⟨thread, hresult, hwent⟩ := h.went hchain hkept hstep
  obtain ⟨doing, hmem, hexecuted⟩ := hreached
  cases hwent with
  | fresh idle =>
      rw [chainWork, idle] at hmem
      cases hmem
  | rejected earlier after failed cause front back result indexes split rejects did =>
      rw [chainWork, split, works_append, rejects.did, did] at hmem
      simp only [List.mem_append, List.mem_map, List.mem_singleton] at hmem
      rcases hmem with (⟨other, -, rfl⟩ | rfl) | rfl <;> cases hexecuted
  | executed front back trail tail split initialized did succeeded ends =>
      obtain ⟨rest, hrest, honward⟩ :=
        @Chain.Tail.onward chain.invocations [] trail tail thread ends succeeded
      refine ⟨⟨front, back, split, initialized⟩, rest, ?_, hresult ▸ honward⟩
      rw [List.nil_append] at hrest
      rw [chainWork, split, works_append, initialized.did, did, hrest, Chain.executions]
      simp

theorem preparation?_of_onward {later : List Doing} {result : Option (Except Fault ChainResult)}
    (h : Chain.Onward invocations index later result) (other : Nat) :
    later.filterMap (preparation? other) = [] := by
  induction h with
  | waits | fails | ends => rfl
  | passes index number invocation outcome later result step succeeded more ih => exact ih

theorem filterMap_preparation? (index length : Nat) :
    ((List.range length).map fun other => Doing.prepares other none).filterMap (preparation? index) =
      if index < length then [none] else [] := by
  induction length with
  | zero => rfl
  | succ length ih =>
      rw [List.range_succ, List.map_append, List.filterMap_append, ih]
      rcases Nat.lt_trichotomy index length with hlt | rfl | hgt
      · simp [preparation?, hlt, Nat.lt_succ_of_lt hlt, Nat.ne_of_gt hlt]
      · simp [preparation?]
      · have hnot : ¬ index < length + 1 := by omega
        simp [preparation?, hnot, Nat.lt_asymm hgt, Nat.ne_of_lt hgt]

theorem Known.preparations_eq (h : Known chains acts world) :
    preparations acts place index = (chainWork acts place).filterMap (preparation? index) := by
  rw [chainWork, works, Scope.labels, List.filterMap_filterMap, List.filterMap_filterMap]
  refine List.filterMap_congr fun act hact => ?_
  by_cases hprepares : ∃ other failure, act.doing = .prepares other failure
  · obtain ⟨other, failure, hdoing⟩ := hprepares
    have hscope : act.scope = ⟨act.scope.strand, .root, none, none⟩ := by
      cases h.places act hact with
      | own rights host allowed =>
          rw [hdoing] at allowed
          cases host with
          | chain _ _ same => exact same
          | execution => exact allowed.elim
      | initializer _ _ _ _ _ _ _ query answer doing => cases doing.symm.trans hdoing
      | call _ _ _ _ _ _ _ query answer doing => cases doing.symm.trans hdoing
    by_cases hstrand : act.scope.strand = place
    · have hstep : act.scope.step = none := by rw [hscope]
      rw [if_pos hstrand, if_pos ⟨hstrand, by rw [hscope], .inl (by rw [hscope])⟩, Option.bind_some,
        if_pos ⟨hstep, by rw [hdoing]; rfl⟩, Option.bind_some]
    · rw [if_neg hstrand, if_neg fun hall => hstrand hall.1, Option.bind_none]
  · have hnone : preparation? index act.doing = none := by
      cases hdoing : act.doing with
      | prepares other failure => exact absurd ⟨other, failure, hdoing⟩ hprepares
      | _ => rfl
    rw [hnone, ite_self]
    symm
    refine Option.bind_eq_none_iff.mpr fun label hlabel => Option.bind_eq_none_iff.mpr
      fun doing hdoing => ?_
    obtain ⟨-, hlabel⟩ := Option.ite_none_right_eq_some.mp hlabel
    obtain rfl := Option.some.inj hlabel
    obtain ⟨-, hdoing⟩ := Option.ite_none_right_eq_some.mp hdoing
    obtain rfl := Option.some.inj hdoing
    exact hnone

/-! ### How often steps are executed -/

theorem timesOf_append (index : Nat) (doings more : List Doing) :
    timesOf index (doings ++ more) = timesOf index doings + timesOf index more :=
  List.countP_append

theorem timesOf_cons (index : Nat) (doing : Doing) (doings : List Doing) :
    timesOf index (doing :: doings) =
      timesOf index doings + if doing.executed? = some index then 1 else 0 := by
  simp only [timesOf, List.countP_cons, decide_eq_true_eq]

theorem timesOf_nil (index : Nat) : timesOf index [] = 0 :=
  rfl

theorem timesOf_onward {index target : Nat} {later : List Doing}
    {result : Option (Except Fault ChainResult)} (h : Chain.Onward invocations index later result)
    (hlt : target < index) : timesOf target later = 0 := by
  refine List.countP_eq_zero.mpr fun doing hmem hexecuted => ?_
  exact Nat.not_le.mpr hlt (h.le hmem (of_decide_eq_true hexecuted))

/-! ### Executions -/

/-- An execution of an invocation in a step: it is one of its command, the command is called with its
arguments only, and its code runs in that step and sees that step. -/
structure IsExecution (acts : List Act) (world : World ChainResult) (place index : Nat)
    (invocation : Invocation) (number : Nat) : Prop where
  command : ∃ cell, world.cell? place number = some cell ∧ cell.command = invocation.command ∧
    cell.step = some index
  arguments : ∀ arguments, .called arguments ∈ world.past place number →
    arguments = invocation.arguments
  inside : ∀ act ∈ acts, act.scope.strand = place → act.scope.cell = some number →
    act.scope.step = some index ∧ ∃ view, act.sees = some view ∧ view.index = index

theorem Known.outcome_command (h : Known chains acts world) {begun ended : Act} (hbegun : begun ∈ acts)
    (hended : ended ∈ acts) (hsame : ended.scope.strand = begun.scope.strand) {command : Command}
    {arguments : Arguments} {outcome : Outcome}
    (hexecutes : begun.doing = .executes number index command arguments)
    (hgets : ended.doing = .gets number outcome) : outcome.command = command.name := by
  obtain ⟨cell, hcell, horigin⟩ := h.executed hbegun hexecutes
  have hyielded := h.recounts.got ended hended number outcome hgets
  rw [hsame] at hyielded
  rw [h.lawful.sound.command_of_yielded hcell hyielded, (Prod.mk.inj horigin).1]

theorem Known.isExecution (h : Known chains acts world) (hchain : chains[place]? = some chain)
    (hstep : chain.invocations[index]? = some step) {act : Act} (hact : act ∈ acts)
    (hstrand : act.scope.strand = place) {command : Command} {arguments : Arguments}
    (hdoing : act.doing = .executes number index command arguments) :
    IsExecution acts world place index step number := by
  subst hstrand
  obtain ⟨rfl, rfl⟩ : step.command = command ∧ step.arguments = arguments := by
    obtain ⟨shape, hshape, hinvocations⟩ := h.strand _ chain hchain
    cases h.places act hact with
    | own rights host allowed found hfound asked executed =>
        obtain ⟨-, invocation, hinvocation, hsame⟩ := executed number index command arguments hdoing
        obtain rfl := Option.some.inj (hshape.symm.trans hfound)
        rw [hinvocations, hstep] at hinvocation
        obtain rfl := Option.some.inj hinvocation
        exact hsame
    | initializer _ _ _ _ _ _ _ query answer doing => cases doing.symm.trans hdoing
    | call _ _ _ _ _ _ _ query answer doing => cases doing.symm.trans hdoing
  obtain ⟨cell, hcell, horigin⟩ := h.executed hact hdoing
  obtain ⟨hcommand, hrest⟩ := Prod.mk.inj horigin
  have hown : cell.step = some index := (Prod.mk.inj hrest).2
  refine ⟨⟨cell, hcell, hcommand, hown⟩, (h.called hact hcell (by rw [hdoing]; rfl)).2,
    fun other hother hplace hnumber => ?_⟩
  have hthere : other.scope.step = some index :=
    (h.step_eq hother (hplace ▸ hcell) hnumber).trans hown
  obtain ⟨past, future, hacts⟩ := List.append_of_mem hother
  obtain ⟨view, hsees, hshows⟩ := h.sees past other future hacts chain index (hplace ▸ hchain) hthere
    (List.getElem?_eq_some_iff.mp hstep).1
  exact ⟨hthere, view, hsees, hshows.index⟩

/-! ### Failures -/

theorem said_of_failure {chain : Chain} {result : ChainResult} {said : List Message}
    {outcome : Outcome} {fault : Fault} (hsaid : chain.Complaint (.ok result) said)
    (hreading : chain.reading = .ok chain.invocations) (hlast : result.outcome = some outcome)
    (hfails : outcome.fault? = some fault)
    (hfailure : result.failure = some (fault.ofCommand outcome.command)) :
    said = [(outcome.command, fault.message)] := by
  cases hsaid with
  | unread _ _ reading => cases reading.symm.trans hreading
  | unprepared _ _ _ _ _ _ failure =>
      exact (Chain.ofCommand_ne_initialization _ _ _ _
        (Option.some.inj (hfailure.symm.trans failure))).elim
  | failed other cause _ _ last fails =>
      obtain rfl := Option.some.inj (hlast.symm.trans last)
      obtain rfl := Option.some.inj (hfails.symm.trans fails)
      rfl
  | succeeded _ failure => cases hfailure.symm.trans failure

end World

end Cascade
