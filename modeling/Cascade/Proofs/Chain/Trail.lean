import Cascade.Proofs.Chain.Phases
import Cascade.Proofs.Trace.Paths

/-!
The trail of a chain: what its program has done by itself, whatever the commands are. It runs the
initializers in their order up to the first that fails, then it executes the steps in their order up to
the first that fails, and a failure is recorded once.
-/

namespace Cascade

theorem Action.Plays.of_emitAll {items : List Item} {doings : List Doing} {result : Except Fault Unit}
    (h : (Action.emitAll items).Plays doings result) (own : Option Nat) :
    works own (doings.map (Prod.mk own)) = [] ∧ result = .ok () := by
  induction items generalizing doings with
  | nil =>
      cases h
      exact ⟨rfl, rfl⟩
  | cons item rest ih =>
      cases h with
      | ask _ _ answer doings result hrest =>
          obtain ⟨hworks, hresult⟩ := ih hrest
          exact ⟨(works_cons_of_not_isWork rfl own).trans hworks, hresult⟩

theorem Action.Plays.of_query {query : Query} {doings : List Doing} {result : Except Fault query.Answer}
    (h : (Action.query query).Plays doings result) :
    ∃ answer, doings = [.asks query answer] ∧ result = .ok answer := by
  cases h with
  | ask _ _ answer doings result hrest =>
      cases hrest
      exact ⟨answer, rfl, rfl⟩

/-- The step that begins to be executed. -/
def Doing.executed? : Doing → Option Nat
  | .executes _ index _ _ => some index
  | _ => none

namespace Chain

open Stance

variable {invocations : List Invocation} {labels : List Label} {β : Type}

/-! ### Initializers -/

/-- The initializers of the steps with the given indexes were run, and none of them failed. -/
structure Initialized (invocations : List Invocation) (indexes : List Nat) (labels : List Label) :
    Prop where
  did : works none labels = indexes.map (.prepares · none)
  plays : ∀ index ∈ indexes, ∀ invocation initializer, invocations[index]? = some invocation →
    invocation.command.initializer = some initializer →
      ∃ doings, initializer.Plays doings (.ok ()) ∧ ∀ doing ∈ doings, (some index, doing) ∈ labels

/-- The initializer of a step failed after those of the steps before. -/
structure Rejects (invocations : List Invocation) (before : List Nat) (index : Nat) (cause : Fault)
    (labels : List Label) : Prop where
  initialized : ∃ first rest, labels = first ++ rest ∧ Initialized invocations before first
  did : works none labels = before.map (.prepares · none) ++ [.prepares index (some cause)]
  plays : ∃ invocation initializer doings, invocations[index]? = some invocation ∧
    invocation.command.initializer = some initializer ∧ initializer.Plays doings (.error cause) ∧
      ∀ doing ∈ doings, (some index, doing) ∈ labels

theorem works_prepared (index : Nat) (doings : List Doing) (failure : Option Fault)
    (rest : List Label) :
    works none (doings.map (Prod.mk (some index)) ++ (none, .prepares index failure) :: rest) =
      .prepares index failure :: works none rest := by
  rw [works_append, works_of_step_ne (by simp), works_cons_of_isWork rfl, List.nil_append]

theorem Initialized.cons {index : Nat} {indexes : List Nat} {invocation : Invocation}
    {doings : List Doing} {rest : List Label} (h : Initialized invocations indexes rest)
    (hstep : invocations[index]? = some invocation)
    (hplays : ∀ initializer, invocation.command.initializer = some initializer →
      initializer.Plays doings (.ok ())) :
    Initialized invocations (index :: indexes)
      (doings.map (Prod.mk (some index)) ++ (none, .prepares index none) :: rest) := by
  refine ⟨by rw [works_prepared, h.did, List.map_cons], fun other hother found initializer hfound
    hgiven => ?_⟩
  rcases List.mem_cons.mp hother with rfl | hother
  · obtain rfl := Option.some.inj (hstep.symm.trans hfound)
    exact ⟨doings, hplays initializer hgiven, fun doing hmem =>
      List.mem_append_left _ (List.mem_map_of_mem hmem)⟩
  · obtain ⟨others, hother, hall⟩ := h.plays other hother found initializer hfound hgiven
    exact ⟨others, hother, fun doing hmem =>
      List.mem_append_right _ (List.mem_cons_of_mem _ (hall doing hmem))⟩

theorem Initialized.prepend {indexes : List Nat} {front : List Label}
    (h : Initialized invocations indexes labels) (hfront : works none front = []) :
    Initialized invocations indexes (front ++ labels) := by
  refine ⟨by rw [works_append, hfront, h.did, List.nil_append], fun index hmem found initializer
    hfound hgiven => ?_⟩
  obtain ⟨doings, hplays, hall⟩ := h.plays index hmem found initializer hfound hgiven
  exact ⟨doings, hplays, fun doing hdoing => List.mem_append_right _ (hall doing hdoing)⟩

theorem Rejects.prepend {before : List Nat} {index : Nat} {cause : Fault} {front : List Label}
    (h : Rejects invocations before index cause labels) (hfront : works none front = []) :
    Rejects invocations before index cause (front ++ labels) := by
  obtain ⟨first, rest, rfl, hfirst⟩ := h.initialized
  obtain ⟨invocation, initializer, doings, hfound, hgiven, hplays, hall⟩ := h.plays
  exact ⟨⟨front ++ first, rest, (List.append_assoc ..).symm, hfirst.prepend hfront⟩,
    by rw [works_append, hfront, h.did, List.nil_append],
    invocation, initializer, doings, hfound, hgiven, hplays, fun doing hdoing =>
      List.mem_append_right _ (hall doing hdoing)⟩

theorem prepared_of_moves {indexes : List Nat} (hbound : ∀ index ∈ indexes, index < invocations.length)
    {status : ThreadStatus (Option (Nat × Fault))}
    (h : Moves invocations none (.goes (prepareSteps indexes)) labels (.rests status)) :
    (status = .finished (.ok none) ∧ Initialized invocations indexes labels) ∨
      (∃ before index after cause, indexes = before ++ index :: after ∧
        status = .finished (.ok (some (index, cause))) ∧
          Rejects invocations before index cause labels) ∨
      ∃ fault, status = .finished (.error fault) := by
  induction indexes generalizing labels with
  | nil =>
      obtain ⟨rfl, rfl⟩ := h.of_finish
      exact .inl ⟨rfl, rfl, fun _ hmem => by cases hmem⟩
  | cons index rest ih =>
      obtain ⟨invocation, hstep⟩ : ∃ invocation, invocations[index]? = some invocation :=
        ⟨_, List.getElem?_eq_getElem (hbound index List.mem_cons_self)⟩
      obtain ⟨doings, failure, more, rfl, hmissing, hplays, hpath | hfault⟩ := h.of_prepare hstep
      · cases failure with
        | none =>
            rcases ih (fun other hmem => hbound other (List.mem_cons_of_mem _ hmem)) hpath with
              ⟨hstatus, hall⟩ | ⟨before, failed, after, cause, rfl, hstatus, hrejects⟩ | hfault
            · exact .inl ⟨hstatus, hall.cons hstep hplays⟩
            · refine .inr (.inl ⟨index :: before, failed, after, cause, rfl, hstatus, ?_, ?_, ?_⟩)
              · obtain ⟨first, last, rfl, hfirst⟩ := hrejects.initialized
                exact ⟨_, last, by simp, hfirst.cons hstep hplays⟩
              · rw [works_prepared, hrejects.did, List.map_cons, List.cons_append]
              · obtain ⟨invocation, initializer, others, hfound, hgiven, hfails, hmem⟩ :=
                  hrejects.plays
                exact ⟨invocation, initializer, others, hfound, hgiven, hfails, fun doing hdoing =>
                  List.mem_append_right _ (List.mem_cons_of_mem _ (hmem doing hdoing))⟩
            · exact .inr (.inr hfault)
        | some cause =>
            obtain ⟨rfl, hstatus⟩ := hpath.of_finish
            refine .inr (.inl ⟨[], index, rest, cause, rfl, hstatus, ?_, ?_, ?_⟩)
            · exact ⟨[], _, rfl, rfl, fun _ hmem => by cases hmem⟩
            · exact works_prepared index doings (some cause) []
            · cases hgiven : invocation.command.initializer with
              | none => cases hmissing hgiven
              | some initializer =>
                  exact ⟨_, initializer, doings, hstep, hgiven, hplays initializer hgiven,
                    fun doing hmem => List.mem_append_left _ (List.mem_map_of_mem hmem)⟩
      · exact .inr (.inr hfault)

/-! ### Steps -/

/-- The work of steps that were executed one after the other, each with the number of its execution and
its outcome. -/
def executions (invocations : List Invocation) (trail : List (Nat × Outcome)) : List Doing :=
  (invocations.zip trail).zipIdx.flatMap fun ((invocation, number, outcome), index) =>
    [.executes number index invocation.command invocation.arguments, .gets number outcome]

theorem executions_concat {trail : List (Nat × Outcome)} {invocation : Invocation}
    (h : invocations[trail.length]? = some invocation) (number : Nat) (outcome : Outcome) :
    executions invocations (trail ++ [(number, outcome)]) = executions invocations trail ++
      [.executes number trail.length invocation.command invocation.arguments,
        .gets number outcome] := by
  have hlt := (List.getElem?_eq_some_iff.mp h).1
  rw [executions, zip_concat h, List.zipIdx_append, List.flatMap_append, executions]
  simp [List.length_zip, Nat.min_eq_right (Nat.le_of_lt hlt)]

/-- How far the program of the steps has come after those of a trail, which succeeded: it waits for the
next step, the call of that step was cancelled, the step has failed, or all steps are done. -/
inductive Steps (invocations : List Invocation) (trail : List (Nat × Outcome)) :
    List Doing → ThreadStatus (Option Outcome) → Prop
  | waits (number : Nat) (invocation : Invocation) (waiting : Waiting (Option Outcome)) (wake : Wake)
      (step : invocations[trail.length]? = some invocation) :
      Steps invocations trail
        [.executes number trail.length invocation.command invocation.arguments]
        (.waiting waiting wake)
  | stops (number : Nat) (invocation : Invocation) (fault : Fault)
      (step : invocations[trail.length]? = some invocation) :
      Steps invocations trail
        [.executes number trail.length invocation.command invocation.arguments]
        (.finished (.error fault))
  | fails (number : Nat) (invocation : Invocation) (outcome : Outcome) (fault : Fault)
      (step : invocations[trail.length]? = some invocation)
      (failed : outcome.fault? = some fault) :
      Steps invocations trail
        [.executes number trail.length invocation.command invocation.arguments,
          .gets number outcome]
        (.finished (.ok (some outcome)))
  | done (last : Option Outcome) (length : trail.length = invocations.length)
      (succeeded : last.bind Outcome.fault? = none) :
      Steps invocations trail [] (.finished (.ok last))

theorem executed_of_moves {trail : List (Nat × Outcome)} {rest : Nat} {last : Option Outcome}
    (hlength : trail.length + rest = invocations.length)
    (hlast : last.bind Outcome.fault? = none) {status : ThreadStatus (Option Outcome)}
    (h : Moves invocations none (.goes (executeSteps last (List.range' trail.length rest))) labels
      (.rests status)) :
    ∃ more tail, executions invocations trail ++ works none labels =
        executions invocations (trail ++ more) ++ tail ∧
      (∀ entry ∈ more, entry.2.isSuccess = true) ∧ Steps invocations (trail ++ more) tail status := by
  have hhere : ∀ {labels : List Label} {trail : List (Nat × Outcome)} {tail : List Doing},
      works none labels = tail → Steps invocations trail tail status →
      ∃ more tail, executions invocations trail ++ works none labels =
          executions invocations (trail ++ more) ++ tail ∧
        (∀ entry ∈ more, entry.2.isSuccess = true) ∧
          Steps invocations (trail ++ more) tail status := by
    intro labels trail tail hworks hends
    exact ⟨[], tail, by rw [List.append_nil, hworks], (fun _ hmem => by cases hmem),
      (List.append_nil trail).symm ▸ hends⟩
  induction rest generalizing trail last labels with
  | zero =>
      obtain ⟨rfl, rfl⟩ := h.of_finish
      exact hhere rfl (.done last hlength hlast)
  | succ rest ih =>
      obtain ⟨invocation, hstep⟩ : ∃ invocation, invocations[trail.length]? = some invocation :=
        ⟨_, List.getElem?_eq_getElem (by omega)⟩
      rw [List.range'_succ] at h
      obtain ⟨number, others, rfl, ⟨rfl, waiting, rfl⟩ | ⟨rfl, doings, fault, -, -, rfl⟩ |
        ⟨outcome, more, rfl, hpath⟩⟩ := h.of_execute hstep
      · exact hhere (works_cons_of_isWork rfl) (.waits number invocation waiting .asleep hstep)
      · exact hhere (works_cons_of_isWork rfl) (.stops number invocation fault hstep)
      · have hboth : works none ((none, .executes number trail.length invocation.command
            invocation.arguments) :: (none, .gets number outcome) :: more) =
            [.executes number trail.length invocation.command invocation.arguments,
              .gets number outcome] ++ works none more := by
          rw [works_cons_of_isWork rfl, works_cons_of_isWork rfl]
          rfl
        cases hfault : outcome.fault? with
        | none =>
            have hsuccess : outcome.isSuccess = true := by rw [Outcome.isSuccess, hfault]; rfl
            simp only [hsuccess, if_true] at hpath
            have hnext : (trail ++ [(number, outcome)]).length + rest = invocations.length := by
              rw [List.length_append, List.length_singleton]
              omega
            rw [show trail.length + 1 = (trail ++ [(number, outcome)]).length by simp] at hpath
            have hgood : (some outcome).bind Outcome.fault? = none := hfault
            obtain ⟨later, tail, hworks, hall, hends⟩ := ih hnext hgood hpath
            refine ⟨(number, outcome) :: later, tail, ?_, fun entry hmem => ?_, ?_⟩
            · rw [hboth, ← List.append_assoc, ← executions_concat hstep, hworks]
              simp
            · rcases List.mem_cons.mp hmem with rfl | hmem
              · exact hsuccess
              · exact hall entry hmem
            · simpa using hends
        | some fault =>
            have hfailure : outcome.isSuccess = false := by rw [Outcome.isSuccess, hfault]; rfl
            simp only [hfailure, Bool.false_eq_true, if_false] at hpath
            obtain ⟨rfl, rfl⟩ := hpath.of_finish
            exact hhere hboth (.fails number invocation outcome fault hstep hfault)

/-! ### Whole chains -/

/-- How far a chain has come after the steps of a trail, which succeeded. -/
inductive Tail (invocations : List Invocation) (trail : List (Nat × Outcome)) :
    List Doing → ThreadStatus ChainResult → Prop
  | waits (number : Nat) (invocation : Invocation) (waiting : Waiting ChainResult) (wake : Wake)
      (step : invocations[trail.length]? = some invocation) :
      Tail invocations trail
        [.executes number trail.length invocation.command invocation.arguments]
        (.waiting waiting wake)
  | fails (number : Nat) (invocation : Invocation) (outcome : Outcome) (fault : Fault)
      (result : ChainResult) (step : invocations[trail.length]? = some invocation)
      (failed : outcome.fault? = some fault) (last : result.outcome = some outcome)
      (failure : result.failure = some (fault.ofCommand outcome.command)) :
      Tail invocations trail
        [.executes number trail.length invocation.command invocation.arguments,
          .gets number outcome, .asks (.record outcome.command fault.message) ()]
        (.finished (.ok result))
  | done (result : ChainResult) (length : trail.length = invocations.length)
      (failure : result.failure = none) : Tail invocations trail [] (.finished (.ok result))

/-- How far a chain has come that could be read and that no exception has ended. -/
inductive Went (invocations : List Invocation) (labels : List Label)
    (status : ThreadStatus ChainResult) : Prop
  | fresh (idle : works none labels = [])
      (waits : ∃ waiting wake, status = .waiting waiting wake)
  | rejected (before after : List Nat) (index : Nat) (cause : Fault) (front back : List Label)
      (result : ChainResult) (indexes : List.range invocations.length = before ++ index :: after)
      (split : labels = front ++ back) (rejects : Rejects invocations before index cause front)
      (did : works none back = [.asks (.record
        ((invocations[index]?.map Invocation.name).getD "") cause.message) ()])
      (ended : status = .finished (.ok result))
      (failure : result.failure = some (.initialization
        ((invocations[index]?.map Invocation.name).getD "") cause))
  | executed (front back : List Label) (trail : List (Nat × Outcome)) (tail : List Doing)
      (split : labels = front ++ back)
      (initialized : Initialized invocations (List.range invocations.length) front)
      (did : works none back = executions invocations trail ++ tail)
      (succeeded : ∀ entry ∈ trail, entry.2.isSuccess = true)
      (ends : Tail invocations trail tail status)

section Whole

variable {chain : Chain} {start : Binary64} {status : ThreadStatus ChainResult}

theorem goes_of_emitLines {lines : List Line} {next : Unit → Routine β} {last : ThreadStatus β}
    (h : Moves invocations none (.goes ((emitLines lines).bind next)) labels (.rests last)) :
    ∃ front back, labels = front ++ back ∧ works none front = [] ∧
      Moves invocations none (.goes (next ())) back (.rests last) := by
  obtain ⟨doings, result, back, hplays, rfl, ⟨value, -, hpath⟩ | ⟨fault, rfl, -⟩⟩ := h.of_action_bind
  · exact ⟨_, back, rfl, (hplays.of_emitAll none).1, hpath⟩
  · cases (hplays.of_emitAll none).2

theorem goes_of_record {command message : String} {next : Unit → Routine β} {last : ThreadStatus β}
    (h : Moves invocations none (.goes ((Routine.ofAction
      (Action.query (.record command message))).bind next)) labels (.rests last)) :
    ∃ back, labels = (none, .asks (.record command message) ()) :: back ∧
      Moves invocations none (.goes (next ())) back (.rests last) := by
  obtain ⟨doings, result, back, hplays, rfl, hrest⟩ := h.of_action_bind
  obtain ⟨answer, rfl, rfl⟩ := hplays.of_query
  rcases hrest with ⟨value, -, hpath⟩ | ⟨fault, hresult, -⟩
  · exact ⟨back, rfl, hpath⟩
  · cases hresult

theorem ended_of_finish {outcome : Option Outcome} {failure : Option Fault} {hidden : Bool}
    (h : Moves invocations none (.goes (chain.finish start invocations outcome failure hidden)) labels
      (.rests status)) :
    works none labels = [] ∧ ∃ result, status = .finished (.ok result) ∧ result.outcome = outcome ∧
      result.failure = failure := by
  obtain ⟨now, rest, rfl, hrest⟩ := h.of_ask
  obtain ⟨front, back, rfl, hfront, hback⟩ := goes_of_emitLines hrest
  obtain ⟨rfl, rfl⟩ := hback.of_finish
  refine ⟨?_, _, rfl, rfl, rfl⟩
  rw [works_cons_of_not_isWork rfl, List.append_nil, hfront]

theorem ended_of_reject {index : Nat} {cause : Fault}
    (h : Moves invocations none (.goes (chain.reject start invocations index cause)) labels
      (.rests status)) :
    works none labels = [.asks (.record ((invocations[index]?.map Invocation.name).getD "")
        cause.message) ()] ∧
      ∃ result, status = .finished (.ok result) ∧ result.failure = some (.initialization
        ((invocations[index]?.map Invocation.name).getD "") cause) := by
  obtain ⟨front, back, rfl, hfront, hback⟩ := goes_of_emitLines h
  obtain ⟨rest, rfl, hrest⟩ := goes_of_record hback
  obtain ⟨hnone, result, hstatus, -, hfailure⟩ := ended_of_finish hrest
  refine ⟨?_, result, hstatus, hfailure⟩
  rw [works_append, hfront, works_cons_of_isWork rfl, hnone, List.nil_append]

theorem tail_of_steps {steps : Routine (Option Outcome)}
    (hsteps : ∀ labels status, Moves invocations none (.goes steps) labels (.rests status) →
      ∃ trail tail, works none labels = executions invocations trail ++ tail ∧
        (∀ entry ∈ trail, entry.2.isSuccess = true) ∧ Steps invocations trail tail status)
    (h : Moves invocations none (.goes (steps.bind (chain.conclude start invocations))) labels
      (.rests status)) (hended : ∀ fault, status ≠ .finished (.error fault)) :
    ∃ trail tail, works none labels = executions invocations trail ++ tail ∧
      (∀ entry ∈ trail, entry.2.isSuccess = true) ∧ Tail invocations trail tail status := by
  rcases h.of_bind with ⟨last, front, back, rfl, hfront, hback⟩ | ⟨waiting, wake, hpath, rfl⟩ |
    ⟨fault, -, rfl⟩
  · obtain ⟨trail, tail, hworks, hall, hends⟩ := hsteps front _ hfront
    cases hends with
    | fails number invocation outcome fault step failed =>
        rw [conclude, Option.bind_some, failed, Option.map_some] at hback
        obtain ⟨rest, rfl, hrest⟩ := goes_of_record hback
        obtain ⟨hnone, result, rfl, hlast, hfailure⟩ := ended_of_finish hrest
        refine ⟨trail, _, ?_, hall,
          .fails number invocation outcome fault result step failed hlast hfailure⟩
        rw [works_append, hworks, works_cons_of_isWork rfl, hnone, List.append_assoc]
        rfl
    | done last length succeeded =>
        have hnone : (last.bind fun outcome => outcome.fault?.map fun fault => (outcome, fault)) =
            none := by
          cases last with
          | none => rfl
          | some outcome => exact congrArg (Option.map _) succeeded
        rw [conclude, hnone] at hback
        obtain ⟨hworks', result, rfl, -, hfailure⟩ := ended_of_finish hback
        refine ⟨trail, [], ?_, hall, .done result length hfailure⟩
        rw [works_append, hworks, hworks', List.append_nil]
  · obtain ⟨trail, tail, hworks, hall, hends⟩ := hsteps labels _ hpath
    cases hends with
    | waits number invocation _ _ step =>
        exact ⟨trail, _, hworks, hall, .waits number invocation _ wake step⟩
  · exact absurd rfl (hended fault)

theorem went_of_moves (hreading : chain.reading = .ok invocations)
    (h : Moves invocations none (.starts chain.routine) labels (.rests status))
    (hended : ∀ fault, status ≠ .finished (.error fault)) : Went invocations labels status := by
  rcases h.of_starts with ⟨rfl, waiting, rfl⟩ | hpath
  · exact .fresh rfl ⟨waiting, .asleep, rfl⟩
  obtain ⟨start, rest, rfl, hrest⟩ := hpath.of_ask
  obtain ⟨banner, after, rfl, hbanner, hafter⟩ := goes_of_emitLines hrest
  simp only [hreading] at hafter
  obtain ⟨title, last, rfl, htitle, hlast⟩ := goes_of_emitLines hafter
  have hopening : works none ((none, .asks .now start) :: (banner ++ title)) = [] := by
    rw [works_cons_of_not_isWork rfl, works_append, hbanner, htitle, List.append_nil]
  have hsplit : ∀ front back : List Label, last = front ++ back →
      (none, Doing.asks .now start) :: (banner ++ (title ++ last)) =
        ((none, .asks .now start) :: (banner ++ title) ++ front) ++ back := by
    rintro front back rfl
    simp
  have hbound : ∀ index ∈ List.range invocations.length, index < invocations.length :=
    fun _ => List.mem_range.mp
  rcases hlast.of_bind with ⟨failed, front, back, hfirst, hfront, hback⟩ |
    ⟨waiting, wake, hwaits, -⟩ | ⟨fault, -, rfl⟩
  · rcases prepared_of_moves hbound hfront with ⟨hnone, hinitialized⟩ |
      ⟨before, index, after, cause, hindexes, hsome, hrejects⟩ | ⟨fault, hfault⟩
    · cases hnone
      rw [List.range_eq_range'] at hback
      have hsteps : ∀ labels status, Moves invocations none (.goes (executeSteps none
          (List.range' 0 invocations.length))) labels (.rests status) →
          ∃ trail tail, works none labels = executions invocations trail ++ tail ∧
            (∀ entry ∈ trail, entry.2.isSuccess = true) ∧ Steps invocations trail tail status := by
        intro labels status hsteps
        have hstart : ([] : List (Nat × Outcome)).length + invocations.length = invocations.length :=
          Nat.zero_add _
        obtain ⟨trail, tail, hworks, hall, hends⟩ := executed_of_moves hstart rfl hsteps
        exact ⟨trail, tail, by simpa [executions] using hworks, hall, hends⟩
      obtain ⟨trail, tail, hworks, hall, hends⟩ := tail_of_steps hsteps hback hended
      exact .executed _ back trail tail (hsplit front back hfirst) (hinitialized.prepend hopening)
        hworks hall hends
    · cases hsome
      obtain ⟨hworks, result, hstatus, hfailure⟩ := ended_of_reject hback
      exact .rejected before after index cause _ back result hindexes (hsplit front back hfirst)
        (hrejects.prepend hopening) hworks hstatus hfailure
    · cases hfault
  · rcases prepared_of_moves hbound hwaits with ⟨hnone, -⟩ | ⟨_, _, _, _, -, hsome, -⟩ | ⟨_, hfault⟩
    · cases hnone
    · cases hsome
    · cases hfault
  · exact absurd rfl (hended fault)

end Whole

/-! ### From a step on -/

/-- How a chain goes on from a step: what it does from there, and its result if it has ended. It waits
for the step; the step has failed, and the chain records that and ends; the step has succeeded, and the
chain goes on with the next; or no step is left. -/
inductive Onward (invocations : List Invocation) :
    Nat → List Doing → Option (Except Fault ChainResult) → Prop
  | waits (index number : Nat) (invocation : Invocation)
      (step : invocations[index]? = some invocation) :
      Onward invocations index
        [.executes number index invocation.command invocation.arguments] none
  | fails (index number : Nat) (invocation : Invocation) (outcome : Outcome) (fault : Fault)
      (result : ChainResult) (step : invocations[index]? = some invocation)
      (failed : outcome.fault? = some fault) (last : result.outcome = some outcome)
      (failure : result.failure = some (fault.ofCommand outcome.command)) :
      Onward invocations index
        [.executes number index invocation.command invocation.arguments, .gets number outcome,
          .asks (.record outcome.command fault.message) ()] (some (.ok result))
  | passes (index number : Nat) (invocation : Invocation) (outcome : Outcome) (later : List Doing)
      (result : Option (Except Fault ChainResult)) (step : invocations[index]? = some invocation)
      (succeeded : outcome.isSuccess = true) (more : Onward invocations (index + 1) later result) :
      Onward invocations index
        (.executes number index invocation.command invocation.arguments :: .gets number outcome ::
          later) result
  | ends (result : ChainResult) (failure : result.failure = none) :
      Onward invocations invocations.length [] (some (.ok result))

theorem Tail.length_le {trail : List (Nat × Outcome)} {tail : List Doing}
    {status : ThreadStatus ChainResult} (h : Tail invocations trail tail status) :
    trail.length ≤ invocations.length := by
  cases h with
  | waits _ _ _ _ step | fails _ _ _ _ _ step =>
      exact Nat.le_of_lt (List.getElem?_eq_some_iff.mp step).1
  | done _ length => exact Nat.le_of_eq length

theorem Tail.onward {first rest : List (Nat × Outcome)} {tail : List Doing}
    {thread : Thread ChainResult} (h : Tail invocations (first ++ rest) tail thread.status)
    (hall : ∀ entry ∈ rest, entry.2.isSuccess = true) :
    ∃ later, executions invocations (first ++ rest) ++ tail = executions invocations first ++ later ∧
      Onward invocations first.length later thread.result? := by
  induction rest generalizing first with
  | nil =>
      rw [List.append_nil] at h ⊢
      refine ⟨tail, rfl, ?_⟩
      rw [Thread.result?]
      generalize thread.status = status at h ⊢
      cases h with
      | waits number invocation _ _ step => exact .waits _ number invocation step
      | fails number invocation outcome fault result step failed last failure =>
          exact .fails _ number invocation outcome fault result step failed last failure
      | done result length failure => exact length ▸ .ends result failure
  | cons entry others ih =>
      have hlt : first.length < invocations.length :=
        Nat.lt_of_lt_of_le (by simp) h.length_le
      have hstep := List.getElem?_eq_getElem hlt
      rw [List.append_cons] at h ⊢
      obtain ⟨later, hsplit, honward⟩ := ih h fun other hmem => hall other (List.mem_cons_of_mem _ hmem)
      rw [List.length_append, List.length_singleton] at honward
      refine ⟨_, ?_, .passes _ entry.1 _ entry.2 later _ hstep (hall entry List.mem_cons_self) honward⟩
      rw [hsplit, show entry = (entry.1, entry.2) from rfl, executions_concat hstep]
      simp

theorem Onward.le {index other : Nat} {later : List Doing}
    {result : Option (Except Fault ChainResult)} (h : Onward invocations index later result)
    {doing : Doing} (hmem : doing ∈ later) (hexecuted : doing.executed? = some other) :
    index ≤ other := by
  induction h with
  | waits =>
      obtain rfl := List.mem_singleton.mp hmem
      exact Nat.le_of_eq (Option.some.inj hexecuted)
  | fails =>
      simp only [List.mem_cons, List.not_mem_nil, or_false] at hmem
      rcases hmem with rfl | rfl | rfl
      · exact Nat.le_of_eq (Option.some.inj hexecuted)
      · cases hexecuted
      · cases hexecuted
  | passes index number invocation outcome later result step succeeded more ih =>
      rcases List.mem_cons.mp hmem with rfl | hmem
      · exact Nat.le_of_eq (Option.some.inj hexecuted)
      · rcases List.mem_cons.mp hmem with rfl | hmem
        · cases hexecuted
        · exact Nat.le_of_succ_le (ih hmem)
  | ends => cases hmem

theorem Onward.of_step {index : Nat} {later : List Doing}
    {result : Option (Except Fault ChainResult)} (h : Onward invocations index later result)
    {invocation : Invocation} (hstep : invocations[index]? = some invocation) :
    (∃ number, later = [.executes number index invocation.command invocation.arguments] ∧
        result = none) ∨
    (∃ number outcome fault ended,
      later = [.executes number index invocation.command invocation.arguments, .gets number outcome,
        .asks (.record outcome.command fault.message) ()] ∧ result = some (.ok ended) ∧
      outcome.fault? = some fault ∧ ended.outcome = some outcome ∧
        ended.failure = some (fault.ofCommand outcome.command)) ∨
    ∃ number outcome others,
      later = .executes number index invocation.command invocation.arguments ::
        .gets number outcome :: others ∧
      outcome.isSuccess = true ∧ Onward invocations (index + 1) others result := by
  cases h with
  | waits _ number found step =>
      obtain rfl := Option.some.inj (step.symm.trans hstep)
      exact .inl ⟨number, rfl, rfl⟩
  | fails _ number found outcome fault ended step failed last failure =>
      obtain rfl := Option.some.inj (step.symm.trans hstep)
      exact .inr (.inl ⟨number, outcome, fault, ended, rfl, rfl, failed, last, failure⟩)
  | passes _ number found outcome others _ step succeeded more =>
      obtain rfl := Option.some.inj (step.symm.trans hstep)
      exact .inr (.inr ⟨number, outcome, others, rfl, succeeded, more⟩)
  | ends => exact absurd (List.getElem?_eq_some_iff.mp hstep).1 (Nat.lt_irrefl _)

/-- A chain that has come to a step goes on from there. -/
theorem Onward.reach {index target : Nat} {later : List Doing}
    {result : Option (Except Fault ChainResult)} (h : Onward invocations index later result)
    (hreached : ∃ doing ∈ later, doing.executed? = some target) :
    ∃ front rest, later = front ++ rest ∧ Onward invocations target rest result ∧
      ∀ doing ∈ front, ∀ other, doing.executed? = some other → other < target := by
  obtain ⟨doing, hmem, hexecuted⟩ := hreached
  have hhere : ∀ {index : Nat} {later : List Doing} {result : Option (Except Fault ChainResult)},
      Onward invocations index later result → index = target →
      ∃ front rest, later = front ++ rest ∧ Onward invocations target rest result ∧
        ∀ doing ∈ front, ∀ other, doing.executed? = some other → other < target := by
    rintro index later result h rfl
    exact ⟨[], later, rfl, h, fun _ hmem => by cases hmem⟩
  induction h with
  | waits index number invocation step =>
      obtain rfl := List.mem_singleton.mp hmem
      exact hhere (.waits index number invocation step) (Option.some.inj hexecuted)
  | fails index number invocation outcome fault result step failed last failure =>
      refine hhere (.fails index number invocation outcome fault result step failed last failure) ?_
      simp only [List.mem_cons, List.not_mem_nil, or_false] at hmem
      rcases hmem with rfl | rfl | rfl
      · exact Option.some.inj hexecuted
      · cases hexecuted
      · cases hexecuted
  | passes index number invocation outcome later result step succeeded more ih =>
      rcases List.mem_cons.mp hmem with rfl | hmem
      · exact hhere (.passes index number invocation outcome later result step succeeded more)
          (Option.some.inj hexecuted)
      · have hlater : doing ∈ later := by
          rcases List.mem_cons.mp hmem with rfl | hlater
          · cases hexecuted
          · exact hlater
        obtain ⟨front, rest, rfl, honward, hbefore⟩ := ih hlater
        refine ⟨_ :: _ :: front, rest, rfl, honward, fun other hother place hplace => ?_⟩
        rcases List.mem_cons.mp hother with rfl | hother
        · exact Option.some.inj hplace ▸ more.le hlater hexecuted
        · rcases List.mem_cons.mp hother with rfl | hother
          · cases hplace
          · exact hbefore other hother place hplace
  | ends => cases hmem

end Chain

end Cascade
