import Cascade.Proofs.Batch.Orderly
import Cascade.Proofs.Convention.Chains
import Cascade.Proofs.Outside.Turns

/-!
The chain of one command beside the same command outside any chain. Both threads wait for the execution of
the command, and when they go on, the chain ends with the outcome and the other with what the outcome
stands for.
-/

namespace Cascade

/-! ### The program of the chain -/

/-- A result that tells an outcome. -/
structure ChainResult.Tells (result : ChainResult) (told : Outcome) : Prop where
  outcome : result.outcome = some told
  failure : result.failure = told.fault?.map (Fault.ofCommand told.command)

namespace Chain

/-- A program that only ends a chain, with a result that tells an outcome. -/
def Closes (outcome : Outcome) (routine : Routine ChainResult) : Prop :=
  ∀ (scope : Scope) (world : World ChainResult), ∃ result,
    (routine.run scope world).2 = .ended (.ok result) ∧ result.Tells outcome

theorem exists_run_emitLines {β : Type} (scope : Scope) (lines : List Line)
    (next : Unit → Routine β) (world : World ChainResult) :
    ∃ record, ((emitLines lines).bind next).run scope world =
      (next ()).run scope { world with record := record } :=
  ⟨_, run_emitLines scope lines next world⟩

theorem closes_close (chain : Chain) (start : Binary64) {outcome : Outcome} {verdict : Verdict}
    (houtcome : verdict.outcome = some outcome)
    (hfailure : verdict.failure = outcome.fault?.map (Fault.ofCommand outcome.command)) :
    Closes outcome (chain.close start verdict) := by
  intro scope world
  let elapsed := world.clock.sub start
  let result : ChainResult :=
    ⟨chain.label, chain.invocations, verdict.outcome, verdict.failure, elapsed⟩
  obtain ⟨record, hrun⟩ := exists_run_emitLines scope
    (Report.summary chain.label (verdict.failure.map Fault.underlying) elapsed verdict.hidden)
    (fun _ => .finish result) world
  exact ⟨result, congrArg Prod.snd hrun, houtcome, hfailure⟩

theorem closes_concluded (chain : Chain) (start : Binary64) (hidden : Bool) (outcome : Outcome) :
    Closes outcome ((concluded hidden (some outcome)).bind (chain.close start)) := by
  obtain ⟨name, fault | value⟩ := outcome
  · intro scope world
    have hclose := @closes_close chain start ⟨name, .error fault⟩
      ⟨some ⟨name, .error fault⟩, some (fault.ofCommand name), hidden⟩ rfl rfl
    exact hclose scope (world.note scope (.logged name fault.message))
  · exact @closes_close chain start ⟨name, .ok value⟩ ⟨some ⟨name, .ok value⟩, none, hidden⟩ rfl rfl

/-- What a chain of one step goes on with after the step. -/
def afterStep (chain : Chain) (start : Binary64) (outcome : Outcome) : Routine ChainResult :=
  ((if outcome.isSuccess then executeSteps (some outcome) [] else .finish (some outcome)).bind
    (concluded chain.isHidden)).bind (chain.close start)

theorem closes_afterStep (chain : Chain) (start : Binary64) (outcome : Outcome) :
    Closes outcome (chain.afterStep start outcome) := by
  have hconcluded := chain.closes_concluded start chain.isHidden outcome
  rw [afterStep]
  split <;> exact hconcluded

theorem run_prepare {scope : Scope} {world : World ChainResult} {index : Nat}
    {invocation : Invocation}
    (hinvocation : ((world.strand? scope.strand).bind fun strand => strand.invocations[index]?) =
      some invocation)
    (hinitializer : invocation.command.initializer = none)
    (next : Option Fault → Routine ChainResult) :
    (Routine.prepare index next).run scope world = (next none).run scope world := by
  simp only [Routine.run, hinvocation, hinitializer]

theorem exists_run_routine {chain : Chain} {invocation : Invocation}
    (hreading : chain.reading = .ok [invocation])
    (hinitializer : invocation.command.initializer = none) {scope : Scope}
    {world : World ChainResult}
    (hinvocation : ((world.strand? scope.strand).bind fun strand => strand.invocations[0]?) =
      some invocation) :
    ∃ record, chain.routine.run scope world =
      (Routine.execute 0 (chain.afterStep world.clock)).run scope
        { world with record := record } := by
  rw [routine_eq]
  change ∃ record, (chain.work.bind (chain.close world.clock)).run scope world = _
  simp only [work, hreading, bind, Routine.bind_assoc]
  obtain ⟨first, hfirst⟩ := exists_run_emitLines scope
    (if chain.isBatch then [Report.batchTitle chain.label] else [])
    (fun _ => (emitLines (chain.title [invocation])).bind fun _ =>
      (stepsOf chain.isHidden [invocation.name]).bind (chain.close world.clock)) world
  obtain ⟨second, hsecond⟩ := exists_run_emitLines scope (chain.title [invocation])
    (fun _ => (stepsOf chain.isHidden [invocation.name]).bind (chain.close world.clock))
    { world with record := first }
  refine ⟨second, (hfirst.trans hsecond).trans ?_⟩
  obtain ⟨next, hsteps, hnext⟩ : ∃ next,
      (stepsOf chain.isHidden [invocation.name]).bind (chain.close world.clock) = .prepare 0 next ∧
        next none = .execute 0 (chain.afterStep world.clock) := ⟨_, rfl, rfl⟩
  have hplace : ((({ world with record := second } : World ChainResult).strand? scope.strand).bind
      fun strand => strand.invocations[0]?) = some invocation := hinvocation
  rw [hsteps, ← hnext]
  exact run_prepare hplace hinitializer next

end Chain

/-! ### Turns -/

/-- The end of the chain and the end of the command stand for the same. -/
inductive SameEnd : Except Fault ChainResult → Except Fault Value → Prop
  | told {result : ChainResult} {outcome : Outcome} (tells : result.Tells outcome) :
      SameEnd (.ok result) outcome.unwrap
  | failed (fault : Fault) : SameEnd (.error fault) (.error fault)

/-- What the command outside any chain goes on with after its execution. -/
def Outcome.conclusion (outcome : Outcome) : Routine Value :=
  Routine.ofExcept outcome.unwrap

/-- The chain and the command come to the same in a turn: to their ends, or to the wait for the execution
of the command. -/
inductive SameTurn (family : String → Prop) :
    World ChainResult × ThreadStatus ChainResult → World Value × ThreadStatus Value → Prop
  | waits {left : World ChainResult} {right : World Value} (twins : left.Twins family right)
      (number : Nat) {next : Outcome → Routine ChainResult}
      (closes : ∀ outcome, Chain.Closes outcome (next outcome)) :
      SameTurn family (left, .waiting (.cell number next) .asleep)
        (right, .waiting (.cell number Outcome.conclusion) .asleep)
  | ended (left : World ChainResult) (right : World Value) {first : Except Fault ChainResult}
      {second : Except Fault Value} (same : SameEnd first second) :
      SameTurn family (left, .finished first) (right, .finished second)

variable {family : String → Prop} {left : World ChainResult} {right : World Value}

theorem SameTurn.of_outcome {next : Outcome → Routine ChainResult} {outcome : Outcome}
    (hcloses : Chain.Closes outcome (next outcome)) (scope other : Scope) :
    SameTurn family (((next outcome).run scope left).1, ((next outcome).run scope left).2.status)
      ((outcome.conclusion.run other right).1, (outcome.conclusion.run other right).2.status) := by
  obtain ⟨result, hend, htells⟩ := hcloses scope left
  have hconclusion : outcome.conclusion.run other right = (right, .ended outcome.unwrap) := by
    rw [Outcome.conclusion]
    cases outcome.unwrap <;> rfl
  rw [hend, hconclusion]
  exact .ended _ _ (.told htells)

theorem SameTurn.of_execute (h : left.Twins family right) {name : String} {given : GivenArguments}
    {invocation : Invocation} (hname : family name)
    (hget : right.surroundings.registry.get? name = some invocation.command)
    (hgiven : given.toArguments = .ok invocation.arguments)
    (hinvocation : ((left.strand? 0).bind fun strand => strand.invocations[0]?) = some invocation)
    {next : Outcome → Routine ChainResult}
    (hcloses : ∀ outcome, Chain.Closes outcome (next outcome)) :
    SameTurn family
      (((Routine.execute 0 next).run ⟨0, .root, none, none⟩ left).1,
        ((Routine.execute 0 next).run ⟨0, .root, none, none⟩ left).2.status)
      (((SingleRun.routine name given).run ⟨0, .root, none, none⟩ right).1,
        ((SingleRun.routine name given).run ⟨0, .root, none, none⟩ right).2.status) := by
  have hlookup := Registry.lookup_eq_ok_iff.mpr hget
  have hbegin := h.begin 0 .root none (some 0) none (h.registry name _ hname hget)
    invocation.arguments
  simp only [SingleRun.routine, Routine.run, hinvocation, hlookup, hgiven]
  rcases hfirst : left.begin ⟨0, .root, some 0, none⟩ invocation.command invocation.arguments with
    ⟨middle, begun⟩
  rcases hsecond : right.begin ⟨0, .root, none, none⟩ invocation.command invocation.arguments with
    ⟨other, ending⟩
  rw [hfirst, hsecond] at hbegin
  obtain ⟨hworlds, hsame, -⟩ := hbegin
  obtain rfl : begun = ending := hsame
  cases begun with
  | complete outcome => exact .of_outcome (hcloses outcome) _ _
  | waits number => exact .waits hworlds number hcloses
  | cancelled fault => exact .ended _ _ (.failed fault)

theorem SameTurn.of_cell (h : left.Twins family right) (number : Nat)
    {next : Outcome → Routine ChainResult}
    (hcloses : ∀ outcome, Chain.Closes outcome (next outcome)) (isCancelled : Bool) :
    SameTurn family (left.turn ⟨0, .root, none, none⟩ (.cell number next) isCancelled)
      (right.turn ⟨0, .root, none, none⟩ (.cell number Outcome.conclusion) isCancelled) := by
  cases isCancelled with
  | true => exact .ended _ _ (.failed World.cancellation)
  | false =>
      have hcell := h.cell?_rel 0 number
      rw [World.turn_of_not_cancelled, World.turn_of_not_cancelled]
      simp only [World.resumed, h.outcome?_eq]
      generalize left.cell? 0 number = former at hcell
      generalize right.cell? 0 number = latter at hcell
      cases hcell with
      | none => exact .ended _ _ (.failed World.cancellation)
      | some _ =>
          cases right.outcome? 0 number with
          | none => exact .ended _ _ (.failed World.cancellation)
          | some outcome => exact .of_outcome (hcloses outcome) _ _

namespace World

/-- The end of the first strand, if it has come. -/
def end? {α : Type} (world : World α) : Option (Except Fault α) :=
  (world.strand? 0).bind fun strand => strand.root.result?

/-- The thread of the first strand, which is no step's, is in a state. -/
def Poised {α : Type} (status : ThreadStatus α) (world : World α) : Prop :=
  (world.outline? 0).map Prod.snd = some ⟨none, none, false, status⟩

/-- The chain and the command wait for the same execution. -/
structure Level (family : String → Prop) (left : World ChainResult) (right : World Value) : Prop where
  twins : Twins family left right
  single : left.strands.length = 1
  waits : ∃ number next, (∀ outcome, Chain.Closes outcome (next outcome)) ∧
    left.Poised (.waiting (.cell number next) .asleep) ∧
    right.Poised (.waiting (.cell number Outcome.conclusion) .asleep)

/-- The chain and the command wait for the same execution, or both have come to the same end. -/
inductive Follows (family : String → Prop) (left : World ChainResult) (right : World Value) : Prop
  | level (h : Level family left right)
  | ended {first : Except Fault ChainResult} {second : Except Fault Value}
      (same : SameEnd first second) (chain : left.end? = some first)
      (command : right.end? = some second)

section Poised

variable {α : Type} {world : World α} {status : ThreadStatus α}

theorem Poised.of_outline {after : World α} (h : world.Poised status)
    (houtline : after.outline? 0 = world.outline? 0) : after.Poised status := by
  rwa [Poised, houtline]

theorem Poised.setRoot (h : world.Poised status) (other : ThreadStatus α) :
    (world.setRoot 0 other).Poised other.calm := by
  rw [Poised, outline?, shape?, Option.map_map, Option.map_map] at h
  obtain ⟨strand, hstrand, hroot⟩ := Option.map_eq_some_iff.mp h
  rw [Poised, outline?, shape?, World.setRoot, strand?_modifyStrand, if_pos rfl, hstrand]
  have hcalm := congrArg (fun thread : Thread α => { thread with status := other.calm }) hroot
  exact congrArg some hcalm

theorem Poised.exists_waiting {waiting : Waiting α} (h : world.Poised (.waiting waiting .asleep)) :
    ∃ strand wake, world.strand? 0 = some strand ∧
      strand.root = ⟨none, none, false, .waiting waiting wake⟩ := by
  rw [Poised, outline?, shape?, Option.map_map, Option.map_map] at h
  obtain ⟨strand, hstrand, hroot⟩ := Option.map_eq_some_iff.mp h
  change strand.root.calm = _ at hroot
  rcases hthread : strand.root with ⟨step, cell, delivers, _ | ⟨wait, wake⟩ | result⟩
  all_goals
    rw [hthread] at hroot
    cases hroot
  exact ⟨strand, wake, hstrand, hthread⟩

theorem Poised.end?_setRoot (h : world.Poised status) (result : Except Fault α) :
    (world.setRoot 0 (.finished result)).end? = some result := by
  rw [Poised, outline?, shape?, Option.map_map, Option.map_map] at h
  obtain ⟨strand, hstrand, -⟩ := Option.map_eq_some_iff.mp h
  rw [end?, World.setRoot, strand?_modifyStrand, if_pos rfl, hstrand]
  rfl

theorem resume_of_woken {strand : Strand α} (hstrand : world.strand? 0 = some strand)
    {waiting : Waiting α} {wake : Wake} {isCancelled : Bool}
    (hroot : strand.root = ⟨none, none, false, .waiting waiting wake⟩)
    (hwake : wake = if isCancelled then .cancelled else .woken) :
    world.resume 0 .root =
      let turn := (world.modifyThread 0 .root Thread.begin).turn ⟨0, .root, none, none⟩ waiting
        isCancelled
      (turn.1.setRoot 0 turn.2).close (.announce 0) turn.2 := by
  subst hwake
  cases isCancelled <;> simp [World.resume, hstrand, hroot, Thread.due?]

end Poised

/-! ### The turn of the first strand's own thread -/

theorem Twins.setRoot (h : Twins family left right) {first : ThreadStatus ChainResult}
    {second : ThreadStatus Value} (hsame : first.bare = second.bare) :
    Twins family (left.setRoot 0 first) (right.setRoot 0 second) := by
  refine h.modifyStrand
    (fun strand => { strand with root := { strand.root with status := first.bare } })
    (fun strand => rfl) (fun strand => ?_) ?_ 0
  · rw [hsame]
    rfl
  · exact fun _ hchildren => hchildren

theorem Poised.turn {α : Type} {world : World α} {status : ThreadStatus α} (h : world.Poised status)
    (waiting : Waiting α) (isCancelled : Bool) :
    (world.turn ⟨0, .root, none, none⟩ waiting isCancelled).1.Poised status :=
  h.of_outline ((inside_turn ⟨0, .root, none, none⟩ waiting isCancelled world).outline 0)

end World

theorem SameTurn.follows {former : World ChainResult × ThreadStatus ChainResult}
    {latter : World Value × ThreadStatus Value} (h : SameTurn family former latter)
    (hsingle : former.1.strands.length = 1) {first : ThreadStatus ChainResult}
    {second : ThreadStatus Value} (hfirst : former.1.Poised first) (hsecond : latter.1.Poised second) :
    World.Follows family ((former.1.setRoot 0 former.2).close (.announce 0) former.2)
      ((latter.1.setRoot 0 latter.2).close (.announce 0) latter.2) := by
  cases h with
  | @waits left right twins number next closes =>
      refine .level ⟨twins.setRoot rfl, ?_, number, next, closes, ?_, ?_⟩
      · exact (List.length_modify ..).trans hsingle
      · have hchain := hfirst.setRoot (.waiting (.cell number next) .asleep)
        exact hchain
      · have hcommand := hsecond.setRoot (.waiting (.cell number Outcome.conclusion) .asleep)
        exact hcommand
  | @ended left right first second same =>
      refine .ended same ?_ ?_
      · have hchain := hfirst.end?_setRoot first
        exact hchain
      · have hcommand := hsecond.end?_setRoot second
        exact hcommand

namespace World

theorem length_turn {α : Type} (waiting : Waiting α) (isCancelled : Bool) (world : World α) :
    (world.turn ⟨0, .root, none, none⟩ waiting isCancelled).1.strands.length =
      world.strands.length := by
  refine length_eq_of_outline fun place => ?_
  rw [(inside_turn ⟨0, .root, none, none⟩ waiting isCancelled world).outline]

theorem Level.resume_root (h : Level family left right) :
    Follows family (left.resume 0 .root) (right.resume 0 .root) := by
  obtain ⟨number, next, hcloses, hfirst, hsecond⟩ := h.waits
  obtain ⟨strand, wake, hstrand, hroot⟩ := hfirst.exists_waiting
  obtain ⟨other, mark, hother, hthread⟩ := hsecond.exists_waiting
  obtain rfl : wake = mark := by
    have hbare := h.twins.strand?_rel 0
    rw [hstrand, hother] at hbare
    have hsame := Option.rel_some_some.mp hbare
    have hstatus := congrArg (fun strand => strand.root.status) hsame
    simp only [Strand.bare, Thread.bare, hroot, hthread, ThreadStatus.bare] at hstatus
    cases hstatus
    rfl
  have hturn : ∀ isCancelled : Bool, wake = (if isCancelled then .cancelled else .woken) →
      Follows family (left.resume 0 .root) (right.resume 0 .root) := by
    intro isCancelled hwake
    rw [resume_of_woken hstrand hroot hwake, resume_of_woken hother hthread hwake]
    have hbegun := SameTurn.of_cell (h.twins.start 0 .root) number hcloses isCancelled
    have hchain := (hfirst.setRoot .running).turn (.cell number next) isCancelled
    have hcommand := (hsecond.setRoot .running).turn (.cell number Outcome.conclusion) isCancelled
    refine hbegun.follows ?_ hchain hcommand
    rw [length_turn]
    exact (List.length_modify ..).trans h.single
  cases wake with
  | woken => exact hturn false rfl
  | cancelled => exact hturn true rfl
  | asleep =>
      refine .level ?_
      simpa [World.resume, hstrand, hother, hroot, hthread, Thread.due?] using h

/-! ### Jobs and time -/

/-- A job of the strand. -/
theorem Level.perform (h : Level family left right) (job : Job) :
    Follows family (left.perform job) (right.perform job) := by
  rcases left.perform_cases job with ⟨place, rfl⟩ | ⟨hjob, -, hfirst⟩
  · cases place with
    | zero => exact h.resume_root
    | succ place =>
        have hsingle : right.strands.length = 1 := by
          have hsame := congrArg (fun world => world.strands.length) h.twins.same
          simp only [bare, List.length_map] at hsame
          exact hsame.symm.trans h.single
        have hleft : left.strand? (place + 1) = none :=
          List.getElem?_eq_none (by rw [h.single]; omega)
        have hright : right.strand? (place + 1) = none :=
          List.getElem?_eq_none (by rw [hsingle]; omega)
        refine .level ?_
        simpa [World.perform, World.resume, hleft, hright] using h
  · rcases right.perform_cases job with ⟨place, rfl⟩ | ⟨-, -, hsecond⟩
    · exact absurd rfl (hjob place)
    · obtain ⟨number, next, hcloses, hchain, hcommand⟩ := h.waits
      refine .level ⟨h.twins.perform hjob, (length_perform job left).trans h.single, number, next,
        hcloses, ?_, ?_⟩
      · exact hchain.of_outline (hfirst 0)
      · exact hcommand.of_outline (hsecond 0)

theorem Twins.advance (h : Twins family left right) :
    Option.Rel (Twins family) left.advance? right.advance? := by
  have hdue : left.nextDue? = right.nextDue? := by
    rw [nextDue?, h.timers_eq, nextDue?]
  rw [advance?, hdue, advance?, h.timers_eq]
  cases right.nextDue? with
  | none => exact .none
  | some due =>
      refine .some ⟨?_, h.registry, h.children, ?_⟩
      · let later := (right.timers.partition fun timer => timer.due = due).2
        let ready : List Job := (right.timers.partition fun timer => timer.due = due).1.map
          fun timer => .fire timer.strand timer.goal
        have hsame := congrArg (fun world : World Unit => { world with
          clock := due
          timers := later
          queue := world.queue ++ ready }) h.same
        exact hsame
      · refine List.forall_mem_append.mpr ⟨h.inner, fun job hjob => ?_⟩
        obtain ⟨timer, -, rfl⟩ := List.mem_map.mp hjob
        trivial

theorem outline?_of_advance? {α : Type} {world next : World α} (h : world.advance? = some next) :
    next.strands = world.strands ∧ next.outline? = world.outline? := by
  obtain ⟨due, -, hnext⟩ := Option.bind_eq_some_iff.mp h
  obtain rfl := Option.some.inj hnext
  exact ⟨rfl, rfl⟩

/-- Time goes on for both, or for neither. -/
theorem Level.advance (h : Level family left right) :
    Option.Rel (Level family) left.advance? right.advance? := by
  have hoption := h.twins.advance
  generalize hleft : left.advance? = first at hoption ⊢
  generalize hright : right.advance? = second at hoption ⊢
  cases hoption with
  | none => exact .none
  | some htwins =>
      obtain ⟨number, next, hcloses, hchain, hcommand⟩ := h.waits
      obtain ⟨hstrands, hfirst⟩ := outline?_of_advance? hleft
      obtain ⟨-, hsecond⟩ := outline?_of_advance? hright
      refine .some ⟨htwins, hstrands ▸ h.single, number, next, hcloses, ?_, ?_⟩
      · exact hchain.of_outline (congrFun hfirst 0)
      · exact hcommand.of_outline (congrFun hsecond 0)

theorem Level.takeJob (h : Level family left right) {job : Job} {rest : List Job}
    (hqueue : right.queue = job :: rest) :
    Level family { left with queue := rest } { right with queue := rest } where
  twins := {
    same := by
      have hsame := congrArg (fun world : World Unit => { world with queue := rest }) h.twins.same
      exact hsame
    registry := h.twins.registry
    children := h.twins.children
    inner := fun other hmem => h.twins.inner other (hqueue ▸ List.mem_cons_of_mem job hmem) }
  single := h.single
  waits := h.waits

end World

end Cascade
