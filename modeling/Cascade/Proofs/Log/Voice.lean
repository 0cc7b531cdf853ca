import Cascade.Proofs.Log.Speech

/-!
What the program of a chain says to the error log and what it prints. Until it waits it says nothing but
its title. When it ends with a result, it has said one message if the result is a failure, and none
otherwise, and it has printed its title, the reason if no step was begun, and the summary. So between two
turns of its thread a chain that has not ended has said no message and has printed no summary, whatever
its commands do and whatever happens to it.
-/

namespace Cascade

/-- A message for the error log, with the name under which it is recorded. -/
abbrev Message := String × String

/-- The messages that a question adds to the error log. -/
def Query.said : Query → List Message
  | .record command message => [(command, message)]
  | _ => []

/-- The message that an event adds to the error log. -/
def Event.message? : Event → Option Message
  | .logged command message => some (command, message)
  | _ => none

def Event.line? : Event → Option Line
  | .item (.line line) => some line
  | _ => none

/-- What the program of a chain itself adds to the error log by an occurrence. -/
def Occurrence.said? (place : Nat) (occurrence : Occurrence) : Option Message :=
  if occurrence.strand = some place ∧ occurrence.thread = some .root ∧ occurrence.step = none then
    match occurrence.event with
    | .logged command message => some (command, message)
    | _ => none
  else none

namespace World

variable {α : Type}

/-- What the program of a chain itself has added to the error log, in the order of time. -/
def voice (world : World α) (place : Nat) : List Message :=
  (world.record.filterMap (Occurrence.said? place)).reverse

/-- The lines that the program of a chain itself has printed, in the order of time. -/
def recital (world : World α) (place : Nat) : List Line :=
  (world.speech place).filterMap Event.line?

theorem voice_eq (world : World α) (place : Nat) :
    world.voice place = (world.speech place).filterMap Event.message? := by
  have hone : ∀ occurrence : Occurrence,
      occurrence.said? place = (occurrence.spoken? place).bind Event.message? := by
    rintro ⟨strand, thread, step, event⟩
    simp only [Occurrence.said?, Occurrence.spoken?]
    split
    · rename_i hown
      cases event <;> simp [hown, Event.isSpeech, Event.message?]
    · rename_i hother
      rw [if_neg fun hown => hother ⟨hown.1, hown.2.1, hown.2.2.1⟩]
      rfl
  rw [voice, speech, List.filterMap_reverse, List.filterMap_filterMap]
  exact congrArg (fun view => (world.record.filterMap view).reverse) (funext hone)

end World

/-- The events by which lines are printed. -/
def Event.ofLines (lines : List Line) : List Event :=
  lines.map fun line => .item (.line line)

@[simp]
theorem Event.filterMap_message?_ofLines (lines : List Line) :
    (ofLines lines).filterMap message? = [] := by
  refine List.filterMap_eq_nil_iff.mpr fun event hmem => ?_
  obtain ⟨line, -, rfl⟩ := List.mem_map.mp hmem
  rfl

@[simp]
theorem Event.filterMap_line?_ofLines (lines : List Line) :
    (ofLines lines).filterMap line? = lines := by
  rw [ofLines, List.filterMap_map]
  exact List.filterMap_some

/-- The line that says why a chain ended before its steps. -/
def ChainResult.excuse (result : ChainResult) : List Line :=
  match result.failure, result.outcome with
  | some fault, none => [Line.of .error fault.message]
  | _, _ => []

namespace Chain

/-- The lines with which a chain begins. -/
def opening (chain : Chain) : List Line :=
  (if chain.isBatch then [Report.batchTitle chain.label] else []) ++ chain.title chain.invocations

/-- What a chain says by the end to which it comes: why it could not be read, why an initializer failed,
or why a step failed. A chain that succeeds or that an exception ends says nothing. -/
inductive Complaint (chain : Chain) : Except Fault ChainResult → List Message → Prop
  | stopped (fault : Fault) : Complaint chain (.error fault) []
  | unread (fault : Fault) (result : ChainResult) (reading : chain.reading = .error fault)
      (failure : result.failure = some fault) :
      Complaint chain (.ok result) [(recordName fault, fault.message)]
  | unprepared (index : Nat) (invocation : Invocation) (cause : Fault) (result : ChainResult)
      (reading : chain.reading = .ok result.invocations)
      (found : result.invocations[index]? = some invocation)
      (failure : result.failure = some (.initialization invocation.name cause)) :
      Complaint chain (.ok result) [(invocation.name, cause.message)]
  | failed (outcome : Outcome) (fault : Fault) (result : ChainResult)
      (reading : chain.reading = .ok result.invocations) (last : result.outcome = some outcome)
      (fails : outcome.fault? = some fault)
      (failure : result.failure = some (fault.ofCommand outcome.command)) :
      Complaint chain (.ok result) [(outcome.command, fault.message)]
  | succeeded (result : ChainResult) (failure : result.failure = none) :
      Complaint chain (.ok result) []

/-- What a chain has printed by the end to which it comes. An exception that ends it comes before it
begins or between its title and its summary. -/
inductive Prints (chain : Chain) : Except Fault ChainResult → List Line → Prop
  | silent (fault : Fault) : Prints chain (.error fault) []
  | stopped (fault : Fault) : Prints chain (.error fault) chain.opening
  | whole (result : ChainResult) : Prints chain (.ok result)
      (chain.opening ++ result.excuse ++ Report.summary chain.label
        (result.failure.map Fault.underlying) result.elapsed chain.isHidden)

/-- What a chain has said while it waits: its title, or nothing before its first turn. -/
def Begins (chain : Chain) (said : List Event) : Prop :=
  said = [] ∨ said = Event.ofLines chain.opening

/-- What a chain has said at its end. -/
structure Tells (chain : Chain) (ended : Except Fault ChainResult) (said : List Event) : Prop where
  complaint : chain.Complaint ended (said.filterMap Event.message?)
  prints : chain.Prints ended (said.filterMap Event.line?)

/-- An exception can end a chain wherever it waits. -/
theorem Begins.tells {chain : Chain} (fault : Fault) (said : List Event) (h : chain.Begins said) :
    chain.Tells (.error fault) said := by
  rcases h with rfl | rfl
  · exact ⟨.stopped fault, .silent fault⟩
  · exact ⟨by simpa using .stopped fault, by simpa using .stopped fault⟩

section Parts

variable {β : Type} {holds : List Event → Prop} {fits : Except Fault β → List Event → Prop}
  {said : List Event}

theorem says_emitLines {next : Unit → Routine β} (lines : List Line)
    (h : (next ()).Says holds fits (said ++ Event.ofLines lines)) :
    ((emitLines lines).bind next).Says holds fits said := by
  induction lines generalizing said with
  | nil => exact (List.append_nil said) ▸ h
  | cons line rest ih =>
      refine fun _ => ih ?_
      simpa [Event.ofLines, Query.speech] using h

theorem says_record {next : Unit → Routine β} {command message : String}
    (h : (next ()).Says holds fits (said ++ [.logged command message])) :
    ((Routine.ofAction (Action.query (.record command message))).bind next).Says holds fits said :=
  fun _ => h

theorem says_prepareSteps {fits : Except Fault (Option (Nat × Fault)) → List Event → Prop}
    {indexes : List Nat} (hholds : holds said) (hnone : fits (.ok none) said)
    (hsome : ∀ index ∈ indexes, ∀ cause, fits (.ok (some (index, cause))) said) :
    (prepareSteps indexes).Says holds fits said := by
  induction indexes with
  | nil => exact hnone
  | cons index rest ih =>
      refine ⟨hholds, fun failure => ?_⟩
      cases failure with
      | none => exact ih fun other hmem => hsome other (List.mem_cons_of_mem _ hmem)
      | some fault => exact hsome index List.mem_cons_self fault

theorem says_executeSteps {fits : Except Fault (Option Outcome) → List Event → Prop}
    (indexes : List Nat) (last : Option Outcome) (hholds : holds said)
    (h : ∀ last, fits (.ok last) said) : (executeSteps last indexes).Says holds fits said := by
  induction indexes generalizing last with
  | nil => exact h last
  | cons index rest ih =>
      refine ⟨hholds, fun outcome => ?_⟩
      dsimp only
      split
      · exact ih _
      · exact h _

end Parts

section Whole

variable (chain : Chain) (start : Binary64)

theorem isHidden_of_error {chain : Chain} {fault : Fault} (h : chain.reading = .error fault) :
    chain.isHidden = false := by
  simp [isHidden, invocations, h, Except.toOption]

theorem says_finish {holds : List Event → Prop} {said : List Event} (invocations : List Invocation)
    (outcome : Option Outcome) (failure : Option Fault)
    (hcomplaint : ∀ elapsed, chain.Complaint
      (.ok ⟨chain.label, invocations, outcome, failure, elapsed⟩) (said.filterMap Event.message?))
    (hlines : said.filterMap Event.line? =
      chain.opening ++ ChainResult.excuse ⟨chain.label, invocations, outcome, failure, start⟩) :
    (chain.finish start invocations outcome failure chain.isHidden).Says holds chain.Tells said := by
  refine fun now => says_emitLines _ ?_
  rw [show Query.speech .now = [] from rfl, List.append_nil]
  refine ⟨?_, ?_⟩
  · simpa using hcomplaint _
  · rw [List.filterMap_append, Event.filterMap_line?_ofLines, hlines]
    exact .whole ⟨chain.label, invocations, outcome, failure, now.sub start⟩

variable {chain}

theorem says_conclude {invocations : List Invocation} (hreading : chain.reading = .ok invocations)
    (last : Option Outcome) : (chain.conclude start invocations last).Says chain.Begins chain.Tells
      (Event.ofLines chain.opening) := by
  rw [conclude]
  cases last with
  | none =>
      refine chain.says_finish start _ _ _ (fun elapsed => ?_) ?_
      · simpa using .succeeded _ rfl
      · simp [ChainResult.excuse]
  | some outcome =>
      rw [Option.bind_some]
      cases hfault : outcome.fault? with
      | none =>
          refine chain.says_finish start _ _ _ (fun elapsed => ?_) ?_
          · simpa using .succeeded _ rfl
          · simp [ChainResult.excuse]
      | some fault =>
          refine says_record (chain.says_finish start _ _ _ (fun elapsed => ?_) ?_)
          · simpa [Event.message?] using .failed outcome fault _ hreading rfl hfault rfl
          · simp [ChainResult.excuse, Event.line?]

theorem says_reject {invocations : List Invocation} (hreading : chain.reading = .ok invocations)
    {index : Nat} (hindex : index < invocations.length) (cause : Fault) :
    (chain.reject start invocations index cause).Says chain.Begins chain.Tells
      (Event.ofLines chain.opening) := by
  have hfound : invocations[index]? = some invocations[index] := List.getElem?_eq_getElem hindex
  refine says_emitLines _ (says_record (chain.says_finish start _ _ _ (fun elapsed => ?_) ?_))
  · simp only [hfound, List.filterMap_append, Event.filterMap_message?_ofLines]
    exact .unprepared index invocations[index] cause _ hreading hfound rfl
  · simp [ChainResult.excuse, Event.line?]

theorem says_unread {fault : Fault} (hreading : chain.reading = .error fault) :
    ((emitLines [Line.of .error fault.message]).bind fun _ =>
      (Routine.ofAction (Action.query (.record (recordName fault) fault.message))).bind fun _ =>
        chain.finish start [] none (some fault) false).Says chain.Begins chain.Tells
          (Event.ofLines chain.opening) := by
  refine says_emitLines _ (says_record ?_)
  rw [← isHidden_of_error hreading]
  refine chain.says_finish start _ _ _ (fun elapsed => ?_) ?_
  · simp only [List.filterMap_append, Event.filterMap_message?_ofLines]
    exact .unread fault _ hreading rfl
  · simp [ChainResult.excuse, Event.line?]

theorem says_routine (chain : Chain) : chain.routine.Says chain.Begins chain.Tells [] := by
  refine fun start => says_emitLines _ ?_
  cases hreading : chain.reading with
  | error fault =>
      have hopening : [] ++ Query.speech .now ++
          Event.ofLines (if chain.isBatch then [Report.batchTitle chain.label] else []) =
            Event.ofLines chain.opening := by
        simp [opening, invocations, hreading, Except.toOption, title, Query.speech]
      rw [hopening]
      exact says_unread start hreading
  | ok invocations =>
      refine says_emitLines _ ?_
      have hopening : [] ++ Query.speech .now ++
          Event.ofLines (if chain.isBatch then [Report.batchTitle chain.label] else []) ++
          Event.ofLines (chain.title invocations) = Event.ofLines chain.opening := by
        simp [opening, Chain.invocations, hreading, Except.toOption, Query.speech, Event.ofLines]
      rw [hopening]
      refine Routine.Says.bind (says_prepareSteps (.inr rfl) ?_ fun index hmem cause => ?_)
      · exact Routine.Says.bind (says_executeSteps _ _ (.inr rfl) fun last =>
          says_conclude start hreading last)
      · exact says_reject start hreading (List.mem_range.mp hmem) cause

end Whole

/-! ### Every state of a run -/

/-- Between two turns of its thread a chain has said what fits how it stands. -/
def Vocal (chain : Chain) (place : Nat) (world : World ChainResult) : Prop :=
  world.Speaks chain.Begins chain.Tells place

variable {chain : Chain} {place : Nat} {world next : World ChainResult}

theorem Vocal.start {surroundings : Surroundings} {calls : Entries Nat}
    {programs : List (List Invocation × Routine ChainResult)} {invocations : List Invocation}
    (h : programs[place]? = some (invocations, chain.routine)) :
    Vocal chain place (World.start surroundings calls
      (programs.map fun program => Strand.start program.1 program.2)) :=
  World.Speaks.start h (.inl rfl) chain.says_routine

theorem Vocal.reaches (h : Vocal chain place world) (hreach : World.Reaches world next) :
    Vocal chain place next :=
  World.Speaks.reaches Begins.tells h hreach

theorem Vocal.of_result (h : Vocal chain place world) {result : Except Fault ChainResult}
    (hresult : Batch.result? world place = some result) :
    chain.Complaint result (world.voice place) := by
  rw [World.voice_eq]
  exact (World.Speaks.of_result h hresult).complaint

theorem Vocal.prints (h : Vocal chain place world) {result : Except Fault ChainResult}
    (hresult : Batch.result? world place = some result) :
    chain.Prints result (world.recital place) :=
  (World.Speaks.of_result h hresult).prints

theorem Vocal.begins (h : Vocal chain place world) (hresult : Batch.result? world place = none) :
    chain.Begins (world.speech place) :=
  World.Speaks.of_no_result h hresult

theorem Vocal.of_no_result (h : Vocal chain place world) (hresult : Batch.result? world place = none) :
    world.voice place = [] := by
  rw [World.voice_eq]
  rcases h.begins hresult with hnone | htitle
  · rw [hnone]
    rfl
  · rw [htitle, Event.filterMap_message?_ofLines]

end Chain

end Cascade
