import Cascade.Proofs.Context.Rights
import Cascade.Proofs.Trace.Paths

/-!
What the built-in repetition does by itself, and what its initializer does: the initializer checks the
count and notes the step before, and the execution executes the step that is noted up to the first
failure, as often as the count says, with a pause before each time if the pause is positive.
-/

namespace Cascade

namespace Library.System

open Stance

variable {β : Type} {invocations : List Invocation} {own : Option Nat} {labels : List Label}

/-! ### Rounds -/

/-- The pause before a step is executed again, if it is positive. -/
def pausing (pause : Binary64) : List Doing :=
  if pause.isPositive then [.pauses pause] else []

/-- The beginning of another execution of a step. -/
def begins (index : Nat) (pause : Binary64) (invocation : Invocation) (number : Nat) : List Doing :=
  pausing pause ++ [.executes number index invocation.command invocation.arguments]

/-- Executions of a step one after the other, each with its number and its outcome. -/
def rounds (index : Nat) (pause : Binary64) (invocation : Invocation)
    (trail : List (Nat × Outcome)) : List Doing :=
  trail.flatMap fun entry => begins index pause invocation entry.1 ++ [.gets entry.1 entry.2]

/-- How far the repetition has come after executions that succeeded, and the value that it ends with:
it pauses, it waits for another execution, the call of that was cancelled, the execution has failed, or
all executions are done. -/
inductive Again (value : β) (index : Nat) (pause : Binary64) (invocation : Invocation)
    (remaining : Nat) (trail : List (Nat × Outcome)) : List Doing → ThreadStatus β → Prop
  | pauses (left : trail.length < remaining) (positive : pause.isPositive = true)
      (waiting : Waiting β) (wake : Wake) :
      Again value index pause invocation remaining trail [.pauses pause] (.waiting waiting wake)
  | waits (left : trail.length < remaining) (number : Nat) (waiting : Waiting β) (wake : Wake) :
      Again value index pause invocation remaining trail (begins index pause invocation number)
        (.waiting waiting wake)
  | stops (left : trail.length < remaining) (number : Nat) (doings : List Doing) (fault : Fault)
      (plays : (invocation.command.run invocation.arguments).Plays doings (.error fault))
      (cancellation : fault.isCancellation = true) :
      Again value index pause invocation remaining trail (begins index pause invocation number)
        (.finished (.error fault))
  | fails (left : trail.length < remaining) (number : Nat) (outcome : Outcome) (fault : Fault)
      (failed : outcome.fault? = some fault) :
      Again value index pause invocation remaining trail
        (begins index pause invocation number ++ [.gets number outcome])
        (.finished (.error (fault.ofCommand outcome.command)))
  | done (length : trail.length = remaining) :
      Again value index pause invocation remaining trail [] (.finished (.ok value))

variable {index remaining : Nat} {pause : Binary64} {invocation : Invocation}

theorem Again.cons {value : β} {trail : List (Nat × Outcome)} {tail : List Doing}
    {status : ThreadStatus β} (h : Again value index pause invocation remaining trail tail status)
    (entry : Nat × Outcome) :
    Again value index pause invocation (remaining + 1) (entry :: trail) tail status := by
  cases h with
  | pauses left positive waiting wake => exact .pauses (Nat.succ_lt_succ left) positive waiting wake
  | waits left number waiting wake => exact .waits (Nat.succ_lt_succ left) number waiting wake
  | stops left number doings fault plays cancellation =>
      exact .stops (Nat.succ_lt_succ left) number doings fault plays cancellation
  | fails left number outcome fault failed =>
      exact .fails (Nat.succ_lt_succ left) number outcome fault failed
  | done length => exact .done (congrArg Nat.succ length)

theorem unwrap_of_fault? (outcome : Outcome) :
    (∃ value, outcome.fault? = none ∧ outcome.unwrap = .ok value) ∨
      ∃ fault, outcome.fault? = some fault ∧
        outcome.unwrap = .error (fault.ofCommand outcome.command) := by
  rcases outcome with ⟨command, fault | value⟩
  · exact .inr ⟨fault, rfl, rfl⟩
  · exact .inl ⟨value, rfl, rfl⟩

theorem again_of_moves (hstep : invocations[index]? = some invocation) {status : ThreadStatus Unit}
    (h : Moves invocations own (.goes (rerun index pause remaining)) labels (.rests status)) :
    ∃ trail tail, works own labels = rounds index pause invocation trail ++ tail ∧
      (∀ entry ∈ trail, entry.2.isSuccess = true) ∧
        Again () index pause invocation remaining trail tail status := by
  induction remaining generalizing labels with
  | zero =>
      obtain ⟨rfl, rfl⟩ := h.of_finish
      exact ⟨[], [], rfl, (fun _ hmem => by cases hmem), .done rfl⟩
  | succ remaining ih =>
      -- The next execution, whether a pause comes before it or not.
      have hagain : ∀ (next : Outcome → Routine Unit) (labels : List Label),
          (∀ outcome value, outcome.unwrap = .ok value →
            next outcome = rerun index pause remaining) →
          (∀ outcome fault, outcome.unwrap = .error fault → next outcome = .fail fault) →
          Moves invocations own (.goes (.execute index next)) labels (.rests status) →
          ∃ trail tail, pausing pause ++ works own labels =
              rounds index pause invocation trail ++ tail ∧
            (∀ entry ∈ trail, entry.2.isSuccess = true) ∧
              Again () index pause invocation (remaining + 1) trail tail status := by
        intro next labels hok herror hpath
        obtain ⟨number, others, rfl, ⟨rfl, waiting, rfl⟩ | ⟨rfl, doings, fault, hplays,
          hcancellation, rfl⟩ | ⟨outcome, more, rfl, hmore⟩⟩ := hpath.of_execute hstep
        · exact ⟨[], _, by rw [works_cons_of_isWork rfl]; rfl, (fun _ hmem => by cases hmem),
            .waits (Nat.succ_pos remaining) number waiting .asleep⟩
        · exact ⟨[], _, by rw [works_cons_of_isWork rfl]; rfl, (fun _ hmem => by cases hmem),
            .stops (Nat.succ_pos remaining) number doings fault hplays hcancellation⟩
        · have hboth : pausing pause ++ works own ((own, .executes number index invocation.command
              invocation.arguments) :: (own, .gets number outcome) :: more) =
              begins index pause invocation number ++ [.gets number outcome] ++ works own more := by
            rw [works_cons_of_isWork rfl, works_cons_of_isWork rfl, begins]
            simp
          rcases unwrap_of_fault? outcome with ⟨value, hnone, hunwrap⟩ |
            ⟨fault, hfault, hunwrap⟩
          · rw [hok outcome value hunwrap] at hmore
            obtain ⟨trail, tail, hworks, hall, hends⟩ := ih hmore
            refine ⟨(number, outcome) :: trail, tail, ?_, fun entry hmem => ?_,
              hends.cons (number, outcome)⟩
            · rw [hboth, hworks]
              simp [rounds]
            · rcases List.mem_cons.mp hmem with rfl | hmem
              · exact Option.isNone_iff_eq_none.mpr hnone
              · exact hall entry hmem
          · rw [herror outcome _ hunwrap] at hmore
            obtain ⟨rfl, rfl⟩ := hmore.of_fail
            exact ⟨[], _, hboth.trans (List.append_nil _), (fun _ hmem => by cases hmem),
              .fails (Nat.succ_pos remaining) number outcome fault hfault⟩
      rw [rerun] at h
      by_cases hpositive : pause.isPositive = true
      · simp only [if_pos hpositive] at h
        obtain ⟨rest, rfl, ⟨rfl, waiting, rfl⟩ | hpath⟩ := h.of_sleep
        · exact ⟨[], _, by rw [works_cons_of_isWork rfl]; rfl, (fun _ hmem => by cases hmem),
            .pauses (Nat.succ_pos remaining) hpositive waiting .asleep⟩
        · obtain ⟨trail, tail, hworks, hall⟩ := hagain _ rest (fun outcome value hunwrap => by
            simp only [hunwrap]) (fun outcome fault hunwrap => by simp only [hunwrap]) hpath
          refine ⟨trail, tail, ?_, hall⟩
          rw [works_cons_of_isWork rfl, ← hworks, pausing, if_pos hpositive]
          rfl
      · simp only [if_neg hpositive] at h
        obtain ⟨trail, tail, hworks, hall⟩ := hagain _ labels (fun outcome value hunwrap => by
          simp only [hunwrap]) (fun outcome fault hunwrap => by simp only [hunwrap]) h
        refine ⟨trail, tail, ?_, hall⟩
        rw [← hworks, pausing, if_neg hpositive]
        rfl

/-- What an execution of the repetition does: it looks up the step that is noted, and executes that
step again; without one there is nothing to do. -/
theorem repeats_of_moves {count interval : String} {status : ThreadStatus Value}
    (h : Moves invocations own (.starts (repeatBody count interval)) labels (.rests status)) :
    (labels = [] ∧ ∃ waiting wake, status = .waiting waiting wake) ∨
      ∃ view rest, labels = (own, .asks .step view) :: rest ∧
        ((view.bind fun view => view.state.get? previousName) = some (.value .null) →
          works own rest = [] ∧ status = .finished (.ok (.integer 0))) ∧
        ∀ index invocation total pause,
          (view.bind fun view => view.state.get? previousName) = some (.step index) →
          invocations[index]? = some invocation → integerOfText count = .ok total →
          binary64OfText interval = .ok pause →
          ∃ trail tail, works own rest = rounds index pause invocation trail ++ tail ∧
            (∀ entry ∈ trail, entry.2.isSuccess = true) ∧
              Again (.integer (total - 1)) index pause invocation (total - 1).toNat trail tail
                status := by
  rcases h.of_starts with ⟨rfl, waiting, rfl⟩ | hpath
  · exact .inl ⟨rfl, waiting, .asleep, rfl⟩
  obtain ⟨view, rest, rfl, hrest⟩ := hpath.of_ask
  refine .inr ⟨view, rest, rfl, fun hnull => ?_,
    fun index invocation total pause hnoted hstep htotal hpause => ?_⟩
  · simp only [hnull] at hrest
    obtain ⟨rfl, rfl⟩ := hrest.of_finish
    exact ⟨rfl, rfl⟩
  · simp only [hnoted, hpause, htotal] at hrest
    have hbody : Moves invocations own (.goes ((rerun index pause (total - 1).toNat).bind fun _ =>
        .finish (Value.integer (total - 1)))) rest (.rests status) := hrest
    rcases hbody.of_bind with ⟨value, front, back, rfl, hfront, hback⟩ | ⟨waiting, wake, hwaits, rfl⟩ |
      ⟨fault, hfails, rfl⟩
    · obtain ⟨trail, tail, hworks, hall, hends⟩ := again_of_moves hstep hfront
      obtain ⟨rfl, rfl⟩ := hback.of_finish
      cases hends with
      | done length => exact ⟨trail, [], by rw [List.append_nil, hworks], hall, .done length⟩
    · obtain ⟨trail, tail, hworks, hall, hends⟩ := again_of_moves hstep hwaits
      refine ⟨trail, tail, hworks, hall, ?_⟩
      cases hends with
      | pauses left positive => exact .pauses left positive _ wake
      | waits left number => exact .waits left number _ wake
    · obtain ⟨trail, tail, hworks, hall, hends⟩ := again_of_moves hstep hfails
      refine ⟨trail, tail, hworks, hall, ?_⟩
      cases hends with
      | stops left number doings fault plays cancellation =>
          exact .stops left number doings fault plays cancellation
      | fails left number outcome fault failed => exact .fails left number outcome fault failed

/-! ### The initializer -/

/-- What is noted as the step before by code that sees a step. -/
def noteOf (view : StepView) : StateEntry :=
  view.previousStep.elim (.value .null) fun found => .step found.1

/-- What the initializer of the repetition can do. -/
inductive Notes : List Doing → Except Fault Unit → Prop
  | outside : Notes [.asks .step none] (.error Script.noCurrentStep)
  | miscounted (view : StepView) (cause : Fault)
      (checked : checkCount view.arguments = .error cause) :
      Notes [.asks .step (some view)] (.error cause)
  | repeated (view : StepView) (checked : checkCount view.arguments = .ok ())
      (previous : view.previous = some repeatName) :
      Notes [.asks .step (some view)]
        (.error (.because .value "repeat cannot repeat another repeat"))
  | noted (view : StepView) (warnings : List Item) (answer : Bool)
      (checked : checkCount view.arguments = .ok ()) (previous : view.previous ≠ some repeatName) :
      Notes (.asks .step (some view) :: warnings.map (fun item => .asks (.emit item) ()) ++
        [.asks (.setState previousName (noteOf view)) answer]) (.ok ())

theorem notes_of_plays {doings : List Doing} {result : Except Fault Unit}
    (h : prepareRepeat.Plays doings result) : Notes doings result := by
  cases h with
  | ask _ _ answer doings result hrest =>
      cases answer with
      | none =>
          cases hrest
          exact .outside
      | some view =>
          cases hcheck : checkCount view.arguments with
          | error cause =>
              simp only [hcheck] at hrest
              cases hrest
              exact .miscounted view cause hcheck
          | ok checked =>
              -- What comes after the check of the count and of the name before.
              have hnote : ∀ (entry : StateEntry) {doings result}, entry = noteOf view →
                  (Action.ask (.setState previousName entry) fun _ => Action.finish ()).Plays doings
                    result →
                  ∃ answer, doings = [.asks (.setState previousName (noteOf view)) answer] ∧
                    result = .ok () := by
                rintro entry doings result rfl hlast
                cases hlast with
                | ask _ _ answer doings result hend =>
                    cases hend
                    exact ⟨answer, rfl, rfl⟩
              have hentry : ∃ entry, entry = noteOf view ∧
                  (view.previous = none → (Action.ask (.emit (.printed .warning
                    "no previous cmd, repeat ignored.")) fun _ => Action.ask
                      (.setState previousName entry) fun _ => Action.finish ()).Plays doings
                        result) ∧
                  ∀ name, view.previous = some name → name ≠ repeatName →
                    (Action.ask (.setState previousName entry) fun _ => Action.finish ()).Plays doings
                      result := by
                rw [noteOf]
                cases hstep : view.previousStep with
                | none =>
                    simp only [hcheck] at hrest
                    rw [hstep] at hrest
                    refine ⟨_, rfl, fun hnone => ?_, fun name hname hne => ?_⟩
                    · simp only [hnone] at hrest
                      exact hrest
                    · simp only [hname, if_neg hne] at hrest
                      exact hrest
                | some found =>
                    simp only [hcheck] at hrest
                    rw [hstep] at hrest
                    refine ⟨_, rfl, fun hnone => ?_, fun name hname hne => ?_⟩
                    · simp only [hnone] at hrest
                      exact hrest
                    · simp only [hname, if_neg hne] at hrest
                      exact hrest
              obtain ⟨entry, hsame, hfirst, hlater⟩ := hentry
              cases hprevious : view.previous with
              | none =>
                  cases hfirst hprevious with
                  | ask _ _ unit doings result hlast =>
                      obtain ⟨answer, rfl, rfl⟩ := hnote entry hsame hlast
                      exact .noted view [.printed .warning "no previous cmd, repeat ignored."] answer
                        hcheck (by rw [hprevious]; exact fun h => by cases h)
              | some name =>
                  by_cases hname : name = repeatName
                  · simp only [hcheck, hprevious, if_pos hname] at hrest
                    cases hrest
                    exact .repeated view hcheck (by rw [hprevious, hname])
                  · obtain ⟨answer, rfl, rfl⟩ := hnote entry hsame (hlater name hprevious hname)
                    exact .noted view [] answer hcheck (by rw [hprevious]; simpa using hname)

end Library.System

end Cascade
