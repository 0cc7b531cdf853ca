import Cascade.Proofs.Log.Conservation
import Cascade.Proofs.Repetition.Again

/-!
What the repetition means in a chain. The chain executes the step before once and the repetition executes
it again, up to the count that was given or up to the first failure. At the beginning of a chain there is
nothing to repeat, and a chain with a count that is none, or with a repetition of a repetition, executes
nothing at all.
-/

namespace Cascade

open Library.System

theorem eq_ok_of_toOption_eq_some {β : Type} {result : Except Fault β} {value : β}
    (h : result.toOption = some value) : result = .ok value := by
  cases result with
  | error fault => cases h
  | ok other => exact congrArg Except.ok (Option.some.inj h)

theorem Arguments.eq_positional {arguments : Arguments} {texts : List String}
    (hkind : arguments.kind = .positional)
    (htexts : arguments.parameters.map Value.toText = texts) : arguments = .positional texts := by
  cases arguments with
  | absent | named => cases hkind
  | positional values =>
      rw [← htexts, parameters, List.map_map]
      exact congrArg positional (List.map_id values).symm

theorem Fault.isCancellation_ofCommand (command : String) (fault : Fault) :
    (fault.ofCommand command).isCancellation = false := by
  cases fault <;> rfl

theorem Fault.ofCommand_ofCommand (inner outer : String) (fault : Fault) :
    (fault.ofCommand inner).ofCommand outer = fault.ofCommand inner := by
  cases fault <;> rfl

namespace World

variable {invocations : List Invocation} {acts : List Act} {world : World ChainResult}
  {place before number total : Nat} {interval count : String} {labels : List Label}
  {status : ThreadStatus Value} {step : Invocation} {pause : Binary64}

/-- The beginning of one more execution of a step, which has not succeeded so far. -/
def IsOpen (index : Nat) (pause : Binary64) (step : Invocation) (doings : List Doing) : Prop :=
  ∃ number outcome, outcome.isSuccess = false ∧
    doings <+: begins index pause step number ++ [.gets number outcome]

/-- How an execution of the repetition stands that executes the step before again after executions that
succeeded, and which outcome the chain can have got from it. -/
structure Repeating (before : Nat) (pause : Binary64) (step : Invocation) (total : Nat)
    (doings : List Doing) (yielded : Outcome → Prop) (trail : List (Nat × Outcome))
    (tail : List Doing) : Prop where
  did : doings = rounds before pause step trail ++ tail
  succeeded : ∀ entry ∈ trail, entry.2.isSuccess = true
  few : trail.length < total
  isOpen : tail = [] ∨ trail.length + 1 < total ∧ IsOpen before pause step tail
  ended : ∀ outcome, yielded outcome →
    (trail.length + 1 = total ∧ tail = [] ∧
        outcome = .success repeatName (.integer trail.length)) ∨
      ∃ last failed fault, trail.length + 1 < total ∧
        tail = begins before pause step last ++ [.gets last failed] ∧
          failed.fault? = some fault ∧
            outcome = .failure repeatName (fault.ofCommand failed.command)

theorem Performs.exists_repeating
    (h : Performs invocations acts world place (before + 1) number total interval count labels status)
    (hpositive : 1 ≤ total) (hpause : binary64OfText interval = .ok pause)
    (hstep : invocations[before]? = some step) (hordinary : step.command.IsOrdinary) :
    ∃ trail tail, Repeating before pause step total (workOf acts place number)
      (fun outcome => .yielded outcome ∈ world.past place number) trail tail := by
  rcases repeats_of_moves h.moves with ⟨hlabels, waiting, wake, hwaits⟩ |
    ⟨view, rest, hlabels, -, hrepeats⟩
  · refine ⟨[], [], by rw [h.did, hlabels]; rfl, (fun _ h => by cases h), hpositive, .inl rfl,
      fun outcome hyielded => ?_⟩
    obtain ⟨result, hfinished, -⟩ := h.ended outcome hyielded
    cases hwaits.symm.trans hfinished
  · obtain ⟨trail, tail, hworks, hall, hends⟩ :=
      hrepeats before step _ pause (h.recalls view rest hlabels) hstep h.read hpause
    have hdid : workOf acts place number = rounds before pause step trail ++ tail := by
      rw [h.did, hlabels, works_cons_of_not_isWork rfl, hworks]
    have hcount : ((total : Int) - 1).toNat = total - 1 := by omega
    rw [hcount] at hends
    have hgoes : ∀ {waiting : Waiting Value} {wake : Wake}, status = .waiting waiting wake →
        ∀ outcome, .yielded outcome ∉ world.past place number := by
      rintro waiting wake rfl outcome hyielded
      obtain ⟨result, hfinished, -⟩ := h.ended outcome hyielded
      cases hfinished
    refine ⟨trail, tail, ?_⟩
    cases hends with
    | pauses left positive waiting wake =>
        refine ⟨hdid, hall, by omega, .inr ⟨by omega, 0, .failure "" Routine.noStep, rfl, ?_⟩,
          fun outcome hyielded => absurd hyielded (hgoes rfl outcome)⟩
        rw [begins, pausing, if_pos positive, List.append_assoc]
        exact List.prefix_append ..
    | waits left last waiting wake =>
        exact ⟨hdid, hall, by omega,
          .inr ⟨by omega, last, .failure "" Routine.noStep, rfl, List.prefix_append ..⟩,
          fun outcome hyielded => absurd hyielded (hgoes rfl outcome)⟩
    | stops left last doings fault plays cancellation =>
        have hnot := plays.isCancellation_eq_false (hordinary.run step.arguments)
        cases hnot.symm.trans cancellation
    | fails left last failed fault fails =>
        refine ⟨hdid, hall, by omega, .inr ⟨by omega, last, failed, ?_, List.prefix_rfl⟩,
          fun outcome hyielded => ?_⟩
        · rw [Outcome.isSuccess, fails]
          rfl
        · obtain ⟨result, hfinished, rfl⟩ := h.ended outcome hyielded
          obtain rfl := ThreadStatus.finished.inj hfinished
          refine .inr ⟨last, failed, fault, by omega, rfl, fails, ?_⟩
          rw [outcomeOf, Fault.isCancellation_ofCommand]
          rfl
    | done length =>
        refine ⟨hdid, hall, by omega, .inl rfl, fun outcome hyielded => ?_⟩
        obtain ⟨result, hfinished, rfl⟩ := h.ended outcome hyielded
        obtain rfl := ThreadStatus.finished.inj hfinished
        refine .inl ⟨by omega, rfl, ?_⟩
        rw [outcomeOf, length, Int.ofNat_sub hpositive]
        rfl

theorem Performs.of_zero
    (h : Performs invocations acts world place 0 number total interval count labels status) :
    workOf acts place number = [] ∧ ∀ outcome, .yielded outcome ∈ world.past place number →
      outcome = .success repeatName (.integer 0) := by
  rcases repeats_of_moves h.moves with ⟨hlabels, waiting, wake, hwaits⟩ |
    ⟨view, rest, hlabels, hnothing, -⟩
  · refine ⟨by rw [h.did, hlabels]; rfl, fun outcome hyielded => ?_⟩
    obtain ⟨result, hfinished, -⟩ := h.ended outcome hyielded
    cases hwaits.symm.trans hfinished
  · obtain ⟨hworks, hstatus⟩ := hnothing (h.recalls view rest hlabels)
    refine ⟨by rw [h.did, hlabels, works_cons_of_not_isWork rfl, hworks], fun outcome hyielded => ?_⟩
    obtain ⟨result, hfinished, rfl⟩ := h.ended outcome hyielded
    obtain rfl := ThreadStatus.finished.inj (hstatus.symm.trans hfinished)
    rfl

/-! ### The meaning of the repetition -/

/-- A step whose call and initializer fail in the ordinary way only, with the repetition after it. -/
structure IsRepeated (invocations : List Invocation) (before : Nat) (step repetition : Invocation)
    (total : Nat) (pause : Binary64) : Prop where
  found : invocations[before]? = some step
  ordinary : step.command.IsOrdinary
  next : invocations[before + 1]? = some repetition
  isRepetition : repetition.command.IsRepetition
  counts : ∃ interval, repetition.arguments.Counts total interval ∧
    binary64OfText interval = .ok pause

/-- How far a chain has come with a step and with the repetition of it, by what the chain does from that
step on, what the executions of the repetition do, the result of the chain and what it says to the error
log. -/
inductive Repeats (invocations : List Invocation) (before : Nat) (step repetition : Invocation)
    (total : Nat) (pause : Binary64) (again : Nat → List Doing) (said : List Message)
    (work : List Doing) (result : Option (Except Fault ChainResult)) : Prop
  /-- The chain waits for its own execution of the step. -/
  | first (number : Nat)
      (did : work = [.executes number before step.command step.arguments])
      (waits : result = none)
  /-- That has failed, and the chain has ended there. -/
  | failed (number : Nat) (outcome : Outcome) (fault : Fault) (ended : ChainResult)
      (did : work = [.executes number before step.command step.arguments, .gets number outcome,
        .asks (.record step.name fault.message) ()])
      (fails : outcome.fault? = some fault) (result_eq : result = some (.ok ended))
      (failure : ended.failure = some (fault.ofCommand step.name))
      (told : said = [(step.name, fault.message)])
  /-- That has succeeded, and the chain waits for the repetition, which has executed the step again and may
  be about to do so once more. -/
  | repeating (number : Nat) (outcome : Outcome) (execution : Nat) (trail : List (Nat × Outcome))
      (tail : List Doing)
      (did : work = [.executes number before step.command step.arguments, .gets number outcome,
        .executes execution (before + 1) repetition.command repetition.arguments])
      (waits : result = none) (succeeded : outcome.isSuccess = true)
      (repeated : again execution = rounds before pause step trail ++ tail)
      (all : ∀ entry ∈ trail, entry.2.isSuccess = true) (few : trail.length < total)
      (isOpen : tail = [] ∨ trail.length + 1 < total ∧ IsOpen before pause step tail)
  /-- The step has failed when it was executed again. The repetition has failed with that and the chain has
  ended there. -/
  | broken (number : Nat) (outcome : Outcome) (execution : Nat) (trail : List (Nat × Outcome))
      (last : Nat) (other : Outcome) (fault : Fault) (ended : ChainResult)
      (did : work = [.executes number before step.command step.arguments, .gets number outcome,
        .executes execution (before + 1) repetition.command repetition.arguments,
        .gets execution (.failure repeatName (fault.ofCommand step.name)),
        .asks (.record repeatName (fault.ofCommand step.name).message) ()])
      (succeeded : outcome.isSuccess = true)
      (repeated : again execution = rounds before pause step trail ++
        (begins before pause step last ++ [.gets last other]))
      (all : ∀ entry ∈ trail, entry.2.isSuccess = true) (fails : other.fault? = some fault)
      (few : trail.length + 2 ≤ total)
      (times : timesOf before work + timesOf before (again execution) = trail.length + 2)
      (result_eq : result = some (.ok ended))
      (failure : ended.failure = some (fault.ofCommand step.name))
      (told : said = [(repeatName, (fault.ofCommand step.name).message)])
  /-- The step has been executed as often as the count says. The repetition has ended with one less, and
  the chain goes on. -/
  | done (number : Nat) (outcome : Outcome) (execution : Nat) (trail : List (Nat × Outcome))
      (later : List Doing)
      (did : work = .executes number before step.command step.arguments :: .gets number outcome ::
        .executes execution (before + 1) repetition.command repetition.arguments ::
        .gets execution (.success repeatName (.integer ((total : Int) - 1))) :: later)
      (succeeded : outcome.isSuccess = true)
      (repeated : again execution = rounds before pause step trail)
      (all : ∀ entry ∈ trail, entry.2.isSuccess = true)
      (times : timesOf before work + timesOf before (again execution) = total)
      (pauses : (again execution).filterMap Doing.pause? =
        if pause.isPositive then List.replicate (total - 1) pause else [])
      (onward : Chain.Onward invocations (before + 2) later result)

theorem timesOf_begins (index : Nat) (pause : Binary64) (step : Invocation) (number : Nat) :
    timesOf index (begins index pause step number) = 1 := by
  rw [begins, pausing]
  split <;> simp [timesOf_cons, timesOf_nil, Doing.executed?]

theorem rounds_cons (index : Nat) (pause : Binary64) (step : Invocation) (entry : Nat × Outcome)
    (trail : List (Nat × Outcome)) :
    rounds index pause step (entry :: trail) = begins index pause step entry.1 ++
      .gets entry.1 entry.2 :: rounds index pause step trail := by
  rw [rounds, List.flatMap_cons, List.append_assoc]
  rfl

theorem timesOf_rounds (index : Nat) (pause : Binary64) (step : Invocation)
    (trail : List (Nat × Outcome)) :
    timesOf index (rounds index pause step trail) = trail.length := by
  induction trail with
  | nil => rfl
  | cons entry rest ih =>
      rw [rounds_cons, timesOf_append, timesOf_begins, timesOf_cons, ih, List.length_cons]
      simp [Doing.executed?, Nat.add_comm]

theorem pauses_rounds (index : Nat) (pause : Binary64) (step : Invocation)
    (trail : List (Nat × Outcome)) :
    (rounds index pause step trail).filterMap Doing.pause? =
      if pause.isPositive then List.replicate trail.length pause else [] := by
  induction trail with
  | nil => simp [rounds]
  | cons entry rest ih =>
      rw [rounds_cons, List.filterMap_append, List.filterMap_cons_none rfl, ih, begins, pausing]
      split <;> simp [Doing.pause?, List.replicate_succ]

section Stage

variable {chains : List Chain} {chain : Chain} {repetition : Invocation}

theorem Known.command_of_chainWork (h : Known chains acts world) {number index : Nat}
    {command : Command} {arguments : Arguments} {outcome : Outcome}
    (hexecutes : .executes number index command arguments ∈ chainWork acts place)
    (hgets : .gets number outcome ∈ chainWork acts place) : outcome.command = command.name := by
  obtain ⟨begun, hbegun, hstrand, -, hdoing⟩ := exists_of_mem_chainWork hexecutes
  obtain ⟨ended, hended, hplace, -, hgot⟩ := exists_of_mem_chainWork hgets
  exact h.outcome_command hbegun hended (hplace.trans hstrand.symm) hdoing hgot

theorem Known.command_of_workOf (h : Known chains acts world) {execution number index : Nat}
    {command : Command} {arguments : Arguments} {outcome : Outcome}
    (hexecutes : .executes number index command arguments ∈ workOf acts place execution)
    (hgets : .gets number outcome ∈ workOf acts place execution) : outcome.command = command.name := by
  obtain ⟨begun, hbegun, hstrand, hdoing⟩ := exists_of_mem_workOf hexecutes
  obtain ⟨ended, hended, hplace, hgot⟩ := exists_of_mem_workOf hgets
  exact h.outcome_command hbegun hended (hplace.trans hstrand.symm) hdoing hgot

theorem Known.exists_stage (h : Known chains acts world) (hchain : chains[place]? = some chain)
    (hkept : ∀ fault, Batch.result? world place ≠ some (.error fault))
    (hvocal : chain.Vocal place world) (hready : IsPrepared chain acts place)
    (hrepeated : IsRepeated chain.invocations before step repetition total pause)
    {work : List Doing} {result : Option (Except Fault ChainResult)}
    (hresult : Batch.result? world place = result) (hwork : ∀ doing ∈ work, doing ∈ chainWork acts place)
    (honward : Chain.Onward chain.invocations before work result) :
    Repeats chain.invocations before step repetition total pause (workOf acts place)
      (world.voice place) work result := by
  obtain ⟨interval, hcounts, hpause⟩ := hrepeated.counts
  have hpositive := hcounts.positive
  have hyielded : ∀ {execution : Nat} {outcome : Outcome}, .gets execution outcome ∈ work →
      .yielded outcome ∈ world.past place execution := by
    intro execution outcome hgets
    obtain ⟨ended, hended, rfl, -, hgot⟩ := exists_of_mem_chainWork (hwork _ hgets)
    exact h.recounts.got ended hended execution outcome hgot
  have hrepeating : ∀ {execution : Nat},
      .executes execution (before + 1) repetition.command repetition.arguments ∈ work →
        ∃ trail tail, Repeating before pause step total (workOf acts place execution)
          (fun outcome => .yielded outcome ∈ world.past place execution) trail tail := by
    intro execution hexecutes
    obtain ⟨act, hact, hstrand, hroot, hdoing⟩ := exists_of_mem_chainWork (hwork _ hexecutes)
    obtain ⟨count, labels, status, hperforms⟩ := h.performs hchain hkept hready hrepeated.next
      hrepeated.isRepetition hcounts hact hstrand hroot hdoing
    exact hperforms.exists_repeating hpositive hpause hrepeated.found hrepeated.ordinary
  have hreading := reading_of_getElem? hrepeated.found
  rcases honward.of_step hrepeated.found with ⟨number, rfl, rfl⟩ |
    ⟨number, outcome, fault, ended, rfl, rfl, hfails, hlast, hfailure⟩ |
    ⟨number, outcome, later, rfl, hsucceeded, hmore⟩
  · exact .first number rfl rfl
  · have hstep : outcome.command = step.name :=
      h.command_of_chainWork (hwork _ List.mem_cons_self) (hwork _ (by simp))
    have hsaid := said_of_failure (hvocal.of_result hresult) hreading hlast hfails hfailure
    rw [hstep] at hsaid hfailure
    exact .failed number outcome fault ended (by rw [hstep]) hfails rfl hfailure hsaid
  rcases hmore.of_step hrepeated.next with ⟨execution, rfl, rfl⟩ |
    ⟨execution, given, cause, ended, rfl, rfl, hfails, hlast, hfailure⟩ |
    ⟨execution, given, others, rfl, hsuccess, hlast⟩
  · obtain ⟨trail, tail, hgoes⟩ := @hrepeating execution (by simp)
    exact .repeating number outcome execution trail tail rfl rfl hsucceeded hgoes.did
      hgoes.succeeded hgoes.few hgoes.isOpen
  · obtain ⟨trail, tail, hgoes⟩ := @hrepeating execution (by simp)
    have hsaid := said_of_failure (hvocal.of_result hresult) hreading hlast hfails hfailure
    rcases hgoes.ended given (hyielded (by simp)) with ⟨-, -, rfl⟩ |
      ⟨last, other, fault, hfew, rfl, hother, rfl⟩
    · cases hfails
    · obtain rfl := Option.some.inj hfails
      have hbegins : .executes last before step.command step.arguments ∈
          workOf acts place execution := by
        rw [hgoes.did]
        simp [begins]
      have hstep : other.command = step.name :=
        h.command_of_workOf hbegins (by rw [hgoes.did]; simp)
      rw [hstep] at hsaid hfailure
      refine .broken number outcome execution trail last other fault ended (by rw [hstep]; rfl)
        hsucceeded hgoes.did hgoes.succeeded hother hfew ?_ rfl ?_ hsaid
      · simp [hgoes.did, timesOf_append, timesOf_rounds, timesOf_begins, timesOf_cons, timesOf_nil,
          Doing.executed?, Nat.add_left_comm]
      · rw [hfailure]
        exact congrArg some (Fault.ofCommand_ofCommand ..)
  · obtain ⟨trail, tail, hgoes⟩ := @hrepeating execution (by simp)
    rcases hgoes.ended given (hyielded (by simp)) with ⟨hlength, rfl, rfl⟩ |
      ⟨last, other, fault, hfew, rfl, hother, rfl⟩
    · have hdid := hgoes.did
      rw [List.append_nil] at hdid
      have hvalue : (trail.length : Int) = (total : Int) - 1 := by omega
      rw [hvalue]
      refine .done number outcome execution trail others rfl hsucceeded hdid hgoes.succeeded ?_ ?_
        hlast
      · have hlater : timesOf before others = 0 := timesOf_onward hlast (by omega)
        simp [hdid, timesOf_rounds, timesOf_cons, hlater, Doing.executed?, ← hlength, Nat.add_comm]
      · rw [hdid, pauses_rounds, ← hlength, Nat.add_sub_cancel]
    · cases hsuccess

/-- What comes of a step of a chain and of the repetition of it. -/
structure RepeatsStep (acts : List Act) (world : World ChainResult) (invocations : List Invocation)
    (place before : Nat) (step repetition : Invocation) (total : Nat) (pause : Binary64) : Prop where
  /-- The initializer of the step has been run once. -/
  prepared : preparations acts place before = [none]
  /-- From that step on the chain has come as far as the executions of the step say. -/
  stage : ∃ front work, chainWork acts place = front ++ work ∧
    (∀ doing ∈ front, ∀ index, doing.executed? = some index → index < before) ∧
    Repeats invocations before step repetition total pause (workOf acts place) (world.voice place) work
      (Batch.result? world place)
  /-- Every execution of the step is one of its command with its arguments, in that step. -/
  inside : ∀ act ∈ acts, act.scope.strand = place → ∀ number command arguments,
    act.doing = .executes number before command arguments →
      IsExecution acts world place before step number

/-- How far a chain has come with a repetition at its beginning, by what it does from there on: the
repetition has nothing to do and gives zero, and the chain goes on. -/
inductive Idles (invocations : List Invocation) (repetition : Invocation) (again : Nat → List Doing)
    (work : List Doing) (result : Option (Except Fault ChainResult)) : Prop
  | waits (execution : Nat)
      (did : work = [.executes execution 0 repetition.command repetition.arguments])
      (waits : result = none) (nothing : again execution = [])
  | goes (execution : Nat) (later : List Doing)
      (did : work = .executes execution 0 repetition.command repetition.arguments ::
        .gets execution (.success repeatName (.integer 0)) :: later)
      (nothing : again execution = []) (onward : Chain.Onward invocations 1 later result)

/-- A repetition whose count is none, or a repetition right after another. -/
inductive IsInvalid (invocations : List Invocation) : Prop
  | miscounted (index : Nat) (repetition : Invocation)
      (found : invocations[index]? = some repetition)
      (isRepetition : repetition.command.IsRepetition) (cause : Fault)
      (checked : checkCount repetition.arguments = .error cause)
  | doubled (index : Nat) (first second : Invocation) (found : invocations[index]? = some first)
      (named : first.name = repeatName) (next : invocations[index + 1]? = some second)
      (isRepetition : second.command.IsRepetition)

theorem Known.repeats (h : Known chains acts world) (hchain : chains[place]? = some chain)
    (hkept : ∀ fault, Batch.result? world place ≠ some (.error fault))
    (hvocal : chain.Vocal place world)
    (hrepeated : IsRepeated chain.invocations before step repetition total pause)
    (hreached : ∃ doing ∈ chainWork acts place, doing.executed? = some before) :
    RepeatsStep acts world chain.invocations place before step repetition total pause := by
  obtain ⟨hready, rest, hwork, honward⟩ := h.onward hchain hkept hrepeated.found hreached
  have hnone : ∀ doing ∈ (List.range chain.invocations.length).map (Doing.prepares · none),
      doing.executed? = none := by
    intro doing hmem
    obtain ⟨other, -, rfl⟩ := List.mem_map.mp hmem
    rfl
  have hlater : ∃ doing ∈ rest, doing.executed? = some before := by
    obtain ⟨doing, hmem, hexecuted⟩ := hreached
    rw [hwork] at hmem
    refine ⟨doing, (List.mem_append.mp hmem).resolve_left fun hfirst => ?_, hexecuted⟩
    cases (hnone doing hfirst).symm.trans hexecuted
  obtain ⟨front, work, rfl, hfrom, hbefore⟩ := honward.reach hlater
  refine ⟨?_, ⟨_ ++ front, work, by rw [hwork, List.append_assoc], fun doing hmem index hexecuted => ?_,
    ?_⟩, fun act hact hstrand number command arguments hdoing =>
      h.isExecution hchain hrepeated.found hact hstrand hdoing⟩
  · rw [h.preparations_eq, hwork, List.filterMap_append, filterMap_preparation?,
      preparation?_of_onward honward, if_pos (List.getElem?_eq_some_iff.mp hrepeated.found).1,
      List.append_nil]
  · rcases List.mem_append.mp hmem with hfirst | hfront
    · cases (hnone doing hfirst).symm.trans hexecuted
    · exact hbefore doing hfront index hexecuted
  · exact h.exists_stage hchain hkept hvocal hready hrepeated rfl (fun doing hmem => by
      rw [hwork]
      exact List.mem_append_right _ (List.mem_append_right _ hmem)) hfrom

theorem Known.idles (h : Known chains acts world) (hchain : chains[place]? = some chain)
    (hkept : ∀ fault, Batch.result? world place ≠ some (.error fault))
    (hstep : chain.invocations[0]? = some repetition)
    (hrepetition : repetition.command.IsRepetition)
    (hcounts : repetition.arguments.Counts total interval)
    (hreached : ∃ doing ∈ chainWork acts place, doing.executed? = some 0) :
    ∃ front work, chainWork acts place = front ++ work ∧ (∀ doing ∈ front, doing.executed? = none) ∧
      Idles chain.invocations repetition (workOf acts place) work (Batch.result? world place) := by
  obtain ⟨hready, work, hwork, honward⟩ := h.onward hchain hkept hstep hreached
  have hidle : ∀ {execution : Nat},
      .executes execution 0 repetition.command repetition.arguments ∈ work →
        workOf acts place execution = [] ∧ ∀ outcome, .gets execution outcome ∈ work →
          outcome = .success repeatName (.integer 0) := by
    intro execution hexecutes
    have hmem : ∀ doing ∈ work, doing ∈ chainWork acts place := by
      intro doing hmem
      rw [hwork]
      exact List.mem_append_right _ hmem
    obtain ⟨act, hact, hstrand, hroot, hdoing⟩ := exists_of_mem_chainWork (hmem _ hexecutes)
    obtain ⟨count, labels, status, hperforms⟩ := h.performs hchain hkept hready hstep hrepetition
      hcounts hact hstrand hroot hdoing
    refine ⟨hperforms.of_zero.1, fun outcome hgets => hperforms.of_zero.2 outcome ?_⟩
    obtain ⟨ended, hended, rfl, -, hgot⟩ := exists_of_mem_chainWork (hmem _ hgets)
    exact h.recounts.got ended hended execution outcome hgot
  refine ⟨_, work, hwork, fun doing hmem => ?_, ?_⟩
  · obtain ⟨other, -, rfl⟩ := List.mem_map.mp hmem
    rfl
  rcases honward.of_step hstep with ⟨execution, rfl, hresult⟩ |
    ⟨execution, outcome, fault, ended, rfl, -, hfails, -⟩ |
    ⟨execution, outcome, later, rfl, -, hmore⟩
  · exact .waits execution rfl hresult (@hidle execution (by simp)).1
  · obtain rfl := (@hidle execution (by simp)).2 outcome (by simp)
    cases hfails
  · obtain ⟨hnothing, hgives⟩ := @hidle execution (by simp)
    obtain rfl := hgives outcome (by simp)
    exact .goes execution later rfl hnothing hmore

theorem Known.not_isInvalid (h : Known chains acts world) (hchain : chains[place]? = some chain)
    (hready : IsPrepared chain acts place) : ¬ IsInvalid chain.invocations := by
  obtain ⟨front, back, hlabels, hinitialized⟩ := hready
  have hnoted : ∀ {index : Nat} {repetition : Invocation},
      chain.invocations[index]? = some repetition → repetition.command.IsRepetition →
        checkCount repetition.arguments = .ok () ∧
          (if index = 0 then none else (chain.invocations[index - 1]?).map Invocation.name) ≠
            some repeatName := by
    intro index repetition hstep hrepetition
    have hlt := (List.getElem?_eq_some_iff.mp hstep).1
    obtain ⟨doings, hplays, hall⟩ := hinitialized.plays index (List.mem_range.mpr hlt) repetition _
      hstep hrepetition.initializer_eq
    cases notes_of_plays hplays with
    | noted view warnings answer checked previous =>
        have hasked := hall (.asks .step (some view)) (List.mem_append_left _ List.mem_cons_self)
        obtain ⟨act, hact, ⟨hstrand, -, -⟩, hlabel⟩ :=
          Scope.mem_labels_iff.mp (hlabels ▸ List.mem_append_left back hasked)
        obtain ⟨hown, hdoing⟩ := Prod.mk.inj hlabel
        obtain ⟨past, future, seen, -, hview, hshows⟩ :=
          h.shows hact (hstrand ▸ hchain) hown hlt hdoing
        obtain rfl := Option.some.inj hview
        obtain ⟨invocation, hfound, -, harguments⟩ := hshows.invocation
        obtain rfl := Option.some.inj (hfound.symm.trans hstep)
        exact ⟨harguments ▸ checked, hshows.previous ▸ previous⟩
  rintro (⟨index, repetition, hfound, hrepetition, cause, hchecked⟩ |
    ⟨index, first, second, hfound, hnamed, hnext, hrepetition⟩)
  · cases (hnoted hfound hrepetition).1.symm.trans hchecked
  · refine (hnoted hnext hrepetition).2 ?_
    rw [if_neg (Nat.succ_ne_zero index), Nat.add_sub_cancel, hfound, Option.map_some, hnamed]

theorem Known.rejects (h : Known chains acts world) (hchain : chains[place]? = some chain)
    (hkept : ∀ fault, Batch.result? world place ≠ some (.error fault))
    (hinvalid : IsInvalid chain.invocations) :
    (∀ doing ∈ chainWork acts place, doing.executed? = none) ∧
      ∀ result, Batch.result? world place = some (.ok result) →
        ∃ name cause, result.failure = some (.initialization name cause) := by
  obtain ⟨index, step, hstep⟩ : ∃ index step, chain.invocations[index]? = some step := by
    cases hinvalid with
    | miscounted index repetition found => exact ⟨index, repetition, found⟩
    | doubled index first second found => exact ⟨index, first, found⟩
  obtain ⟨thread, hresult, hwent⟩ := h.went hchain hkept hstep
  rw [hresult, Thread.result?]
  generalize thread.status = status at hwent
  cases hwent with
  | fresh idle waits =>
      obtain ⟨waiting, wake, rfl⟩ := waits
      rw [chainWork, idle]
      exact ⟨(fun _ hmem => by cases hmem), fun _ hended => by cases hended⟩
  | rejected earlier after failed cause front back ended indexes split rejects did status_eq failure =>
      subst status_eq
      refine ⟨fun doing hmem => ?_, fun result hended => ?_⟩
      · rw [chainWork, split, works_append, rejects.did, did] at hmem
        simp only [List.mem_append, List.mem_map, List.mem_singleton] at hmem
        rcases hmem with (⟨other, -, rfl⟩ | rfl) | rfl <;> rfl
      · obtain rfl := Except.ok.inj (Option.some.inj hended)
        exact ⟨_, cause, failure⟩
  | executed front back trail tail split initialized =>
      exact absurd hinvalid (h.not_isInvalid hchain ⟨front, back, split, initialized⟩)

end Stage

/-! ### Every run -/

/-- What the repetition means in the chains of a run, as long as no exception has ended the chain. -/
structure RepeatsSteps (surroundings : Surroundings) (chains : List Chain) (acts : List Act)
    (world : World ChainResult) : Prop where
  /-- A step that a chain has come to and that is followed by its repetition is executed once by the chain
  and then again by the repetition, up to the count or up to the first failure. -/
  repeats : ∀ place chain, chains[place]? = some chain →
    (∀ fault, Batch.result? world place ≠ some (.error fault)) →
    ∀ before step repetition total pause,
      IsRepeated chain.invocations before step repetition total pause →
      (∃ doing ∈ chainWork acts place, doing.executed? = some before) →
        RepeatsStep acts world chain.invocations place before step repetition total pause
  /-- A repetition at the beginning of a chain has nothing to do. -/
  idles : ∀ place chain, chains[place]? = some chain →
    (∀ fault, Batch.result? world place ≠ some (.error fault)) →
    ∀ repetition total interval, chain.invocations[0]? = some repetition →
      repetition.command.IsRepetition → repetition.arguments.Counts total interval →
      (∃ doing ∈ chainWork acts place, doing.executed? = some 0) →
        ∃ front work, chainWork acts place = front ++ work ∧
          (∀ doing ∈ front, doing.executed? = none) ∧
          Idles chain.invocations repetition (workOf acts place) work (Batch.result? world place)
  /-- A chain with an invalid repetition executes nothing, and fails because an initializer does. -/
  rejects : ∀ place chain, chains[place]? = some chain →
    (∀ fault, Batch.result? world place ≠ some (.error fault)) → IsInvalid chain.invocations →
      (∀ doing ∈ chainWork acts place, doing.executed? = none) ∧
        ∀ result, Batch.result? world place = some (.ok result) →
          ∃ name cause, result.failure = some (.initialization name cause)
  /-- What a chain says to the error log is what is added there in it, if the commands add nothing. -/
  logs : (∀ command ∈ surroundings.registry.commands, command.IsDiscreet) → ∀ place,
    world.voice place = (world.logged.filter fun entry => entry.1 = some place).map Prod.snd

/-- The repetition executes the step before again, in every run of chains whose commands execute others
by their names only. -/
theorem repeats_of_course (surroundings : Surroundings) (calls : Entries Nat) (tokens : List String)
    (hcommands : ∀ command ∈ surroundings.registry.commands,
      command.IsRepetition ∨ command.IsConfined) {acts : List Act} {world : World ChainResult}
    (h : Course (startOf surroundings calls (Engine.chainsOf surroundings.registry tokens)) acts
      world) :
    RepeatsSteps surroundings (Engine.chainsOf surroundings.registry tokens) acts world := by
  have hknown : Known (Engine.chainsOf surroundings.registry tokens) acts world :=
    h.known hcommands fun chain hchain invocation hmem =>
      hcommands _ (Engine.command_mem_of_chainsOf hchain invocation hmem)
  exact {
    repeats := fun place chain hchain hkept before step repetition total pause hrepeated hreached =>
      hknown.repeats hchain hkept (h.vocal hchain) hrepeated hreached
    idles := fun place chain hchain hkept repetition total interval hstep hrepetition hcounts
        hreached => hknown.idles hchain hkept hstep hrepetition hcounts hreached
    rejects := fun place chain hchain hkept hinvalid => hknown.rejects hchain hkept hinvalid
    logs := fun hdiscreet =>
      (h.isHushed (.startOf hdiscreet fun chain hchain invocation hmem =>
        hdiscreet _ (Engine.command_mem_of_chainsOf hchain invocation hmem))).voice_eq }

/-! ### The built-in commands -/

theorem isOrdinary_delay {group : String} {command : Command}
    (h : delay.toCommand group = .ok command) : command.IsOrdinary := by
  obtain ⟨name, code, -, hcode, rfl⟩ := Draft.exists_of_toCommand_eq_ok h
  obtain rfl := Option.some.inj hcode
  refine ⟨fun arguments => ?_, fun _ h => by cases h⟩
  show ((Action.ofExcept (delaySignature.check arguments.parameters.length)).bind
    fun _ => Action.finish _).IsOrdinary
  rw [Signature.check]
  split
  · rfl
  · split
    · rfl
    · trivial

theorem ordinary_or_repetition_of_builtIn {command : Command}
    (h : command ∈ builtIn.registry.commands) :
    (command.name = "delay" → command.IsOrdinary) ∧
      (command.name = repeatName → command.IsRepetition) := by
  obtain ⟨draft, hdraft, hcommand⟩ := List.mem_filterMap.mp h
  simp only [drafts, List.mem_cons, List.not_mem_nil, or_false] at hdraft
  rcases hdraft with rfl | rfl | rfl
  all_goals
    obtain rfl := Option.some.inj hcommand
  · exact ⟨fun _ => isOrdinary_delay rfl, fun h => absurd h (by decide)⟩
  · exact ⟨fun h => absurd h (by decide), fun _ => Command.isRepetition_of_toCommand rfl⟩
  · exact ⟨fun h => absurd h (by decide), fun h => absurd h (by decide)⟩

/-- A batch of a pause and its repetition: three times altogether, with a second between. -/
def pacedBatch : Batch :=
  builtInBatch ["delay(0) * repeat(3, 1)"]

/-- The chain of that batch comes to its end, and the pause is executed three times. -/
theorem pacedBatch_repeats :
    (∀ command ∈ builtIn.registry.commands, command.IsRepetition ∨ command.IsConfined) ∧
      (∃ chain step repetition pause,
        (Engine.chainsOf builtIn.registry ["delay(0) * repeat(3, 1)"])[0]? = some chain ∧
        IsRepeated chain.invocations 0 step repetition 3 pause ∧
        RepeatsStep (pacedBatch.acts 60) (pacedBatch.settle 60).world chain.invocations 0 0 step
          repetition 3 pause) ∧
      (chainWork (pacedBatch.acts 60) 0).filterMap Doing.executed? = [0, 1] ∧
      (workOf (pacedBatch.acts 60) 0 1).filterMap Doing.executed? = [0, 0] ∧
      ((workOf (pacedBatch.acts 60) 0 1).filterMap Doing.pause?).length = 2 := by
  have hmeans : RepeatsSteps builtIn (Engine.chainsOf builtIn.registry ["delay(0) * repeat(3, 1)"])
      (pacedBatch.acts 60) (pacedBatch.settle 60).world :=
    repeats_of_course builtIn [] ["delay(0) * repeat(3, 1)"]
      (fun command h => isConfined_of_builtIn h) (course_of_start false 60)
  have hwork : (chainWork (pacedBatch.acts 60) 0).filterMap Doing.executed? = [0, 1] := by
    decide +kernel
  refine ⟨fun command h => isConfined_of_builtIn h, ?_, hwork, by decide +kernel, by decide +kernel⟩
  have hobserved : ((Engine.chainsOf builtIn.registry ["delay(0) * repeat(3, 1)"])[0]?.map
      fun chain => chain.invocations.map fun step =>
        (step.name, step.arguments.kind, step.arguments.parameters.map Value.toText)) =
        some [("delay", .positional, ["0"]), (repeatName, .positional, ["3", "1"])] := by
    decide +kernel
  have hended : (Batch.result? (pacedBatch.settle 60).world 0).map
      (fun result => result.toOption.isSome) = some true := by decide +kernel
  have hread : (integerOfText "3").toOption = some 3 ∧
      (binary64OfText "1").toOption.isSome = true := by decide +kernel
  obtain ⟨chain, hchain, hsteps⟩ := Option.map_eq_some_iff.mp hobserved
  obtain ⟨step, others, hinvocations, hstep, hothers⟩ := List.map_eq_cons_iff.mp hsteps
  obtain ⟨repetition, rest, rfl, hnext, -⟩ := List.map_eq_cons_iff.mp hothers
  obtain ⟨hname, harguments⟩ := Prod.mk.inj hnext
  have hmem : ∀ invocation ∈ chain.invocations, invocation.command ∈ builtIn.registry.commands :=
    Engine.command_mem_of_chainsOf (List.mem_of_getElem? hchain)
  rw [hinvocations] at hmem
  obtain ⟨pause, hpause⟩ := Option.isSome_iff_exists.mp hread.2
  have hrepeated : IsRepeated chain.invocations 0 step repetition 3 pause := by
    refine ⟨by rw [hinvocations]; rfl,
      (ordinary_or_repetition_of_builtIn (hmem step List.mem_cons_self)).1 (Prod.mk.inj hstep).1,
      by rw [hinvocations]; rfl,
      (ordinary_or_repetition_of_builtIn (hmem repetition (by simp))).2 hname, "1", ?_, ?_⟩
    · rw [Arguments.eq_positional (Prod.mk.inj harguments).1 (Prod.mk.inj harguments).2]
      exact .paced "3" "1" 3 (eq_ok_of_toOption_eq_some hread.1) (by decide)
    · exact eq_ok_of_toOption_eq_some hpause
  refine ⟨chain, step, repetition, pause, hchain, hrepeated,
    hmeans.repeats 0 chain hchain (fun fault hfault => ?_) 0 step repetition 3 pause hrepeated ?_⟩
  · rw [hfault] at hended
    cases hended
  · have hzero : 0 ∈ (chainWork (pacedBatch.acts 60) 0).filterMap Doing.executed? :=
      hwork ▸ List.mem_cons_self
    exact List.mem_filterMap.mp hzero

end World

end Cascade
