import Cascade.Proofs.Chain.Discipline
import Cascade.Proofs.Reading.Written

/-!
Chains that cannot be read. A star inside an argument list cuts the list in two, and the first part opens a
list that it does not close, so the chain is refused as a whole: none of its initializers and commands
is called, and all that the refusal leaves are lines and a message in the error log
(`Chain.refuses_of_starsList`).
-/

namespace Cascade

open Text

/-- A failure to read a call. -/
inductive Fault.IsReading : Fault → Prop
  | malformed (message name token : String) : IsReading (.malformed message name token)
  | unterminated (token name closer : String) : IsReading (.unterminated token name closer)
  | emptyName (token : String) : IsReading (.emptyName token)
  | unknownCommand (name token : String) : IsReading (.unknownCommand name token)

/-- A star stands between an opening round mark and the next closing one. -/
def StarsList (token : String) : Prop :=
  ∃ front inside back, token.toList = front ++ '(' :: (inside ++ ')' :: back) ∧ ')' ∉ inside ∧
    cascadeMark ∈ inside

/-! ### Reading -/

namespace Call

theorem exists_readTrimmed_unterminated {token : List Char} (hopen : '(' ∈ token)
    (hclose : token.getLast? ≠ some ')') :
    ∃ name closer, readTrimmed token = .error (.unterminated (String.ofList token) name closer) := by
  have hmarks : marksOf? token = some ('(', ')') :=
    List.find?_cons_of_pos (List.contains_iff_mem.mpr hopen)
  refine ⟨String.ofList (Blank.trim (token.takeWhile (· != '('))), String.ofList [')'], ?_⟩
  simp only [readTrimmed, hmarks, bne_iff_ne, ne_eq, hclose, not_false_eq_true, if_true]

theorem isReading_of_readTrimmed {token : List Char} {fault : Fault}
    (h : readTrimmed token = .error fault) : fault.IsReading := by
  rw [readTrimmed] at h
  split at h
  · dsimp only at h
    split at h
    · cases h
      exact .unterminated ..
    · split at h
      · cases h
        exact .emptyName _
      · cases h
  · split at h
    · cases h
      exact .emptyName _
    · cases h

end Call

namespace Invocation

variable {registry : Registry} {token : String} {fault : Fault} {elements : List String}

theorem isReading_of_read (h : read registry token = .error fault) : fault.IsReading := by
  rw [read] at h
  cases hcall : Call.read token with
  | error other =>
      rw [hcall] at h
      cases h
      exact Call.isReading_of_readTrimmed hcall
  | ok call =>
      rw [hcall] at h
      simp only [bind, Except.bind] at h
      split at h
      · cases h
      · cases h
        exact .unknownCommand ..

theorem isReading_of_readAll (h : readAll registry elements = .error fault) : fault.IsReading := by
  obtain ⟨before, element, after, earlier, -, -, hread⟩ := exists_of_readAll_error h
  exact isReading_of_read hread

theorem exists_readAll_error (hmem : token ∈ elements) (h : read registry token = .error fault) :
    ∃ first, readAll registry elements = .error first := by
  induction elements with
  | nil => cases hmem
  | cons element rest ih =>
      cases hread : read registry element with
      | error first => exact ⟨first, by simp [readAll, hread, bind, Except.bind]⟩
      | ok invocation =>
          have hrest : token ∈ rest := by
            refine (List.mem_cons.mp hmem).resolve_left ?_
            rintro rfl
            rw [hread] at h
            cases h
          obtain ⟨first, hfirst⟩ := ih hrest
          exact ⟨first, by simp [readAll, hread, hfirst, bind, Except.bind]⟩

end Invocation

theorem mem_cascadeElements {token : String} {piece : List Char}
    (hpiece : piece ∈ Pieces.split cascadeMark token.toList) (hne : Blank.trim piece ≠ []) :
    String.ofList (Blank.trim piece) ∈ cascadeElements token :=
  List.mem_filterMap.mpr
    ⟨Blank.trim piece, List.mem_map_of_mem hpiece, if_neg (by simpa using hne)⟩

theorem exists_element_of_starsList {token : String} (h : StarsList token) :
    ∃ element ∈ cascadeElements token, '(' ∈ Blank.trim element.toList ∧
      (Blank.trim element.toList).getLast? ≠ some ')' := by
  obtain ⟨front, inside, back, htoken, hclose, hstar⟩ := h
  obtain ⟨first, rest, rfl, hfirst⟩ := List.eq_append_cons_of_mem hstar
  have hround : cascadeMark ∉ '(' :: first := by
    simpa [cascadeMark] using hfirst
  obtain ⟨pieces, last, -, hsplit⟩ := Pieces.exists_split_append hround front
  have hpiece : last ++ '(' :: first ∈ Pieces.split cascadeMark token.toList := by
    have hcut : token.toList = (front ++ '(' :: first) ++ cascadeMark :: (rest ++ ')' :: back) := by
      simp [htoken]
    rw [hcut, Pieces.split_append_mark, hsplit]
    simp
  have htrim : Blank.trim (last ++ '(' :: first) = Blank.trimLeft last ++ '(' :: Blank.trimRight first :=
    Blank.trim_append_cons (by decide) last first
  refine ⟨_, mem_cascadeElements hpiece (by simp [htrim]), ?_⟩
  rw [String.toList_ofList, Blank.trim_trim, htrim]
  refine ⟨by simp, fun hlast => ?_⟩
  rw [List.getLast?_append_of_ne_nil _ (List.cons_ne_nil _ _)] at hlast
  -- The last character is the opening mark itself or stands inside the list.
  rcases List.mem_cons.mp (List.mem_of_getLast? hlast) with hmark | hmem
  · cases hmark
  · obtain ⟨blanks, -, hkept⟩ := Blank.exists_append_of_trimRight first
    have hinside : ')' ∈ first := hkept ▸ List.mem_append_left blanks hmem
    exact hclose (List.mem_append_left _ hinside)

theorem exists_reading_of_starsList (registry : Registry) {token : String} (h : StarsList token) :
    ∃ fault, fault.IsReading ∧ Invocation.readChain registry token = .error fault := by
  obtain ⟨element, hmem, hopen, hclose⟩ := exists_element_of_starsList h
  obtain ⟨name, closer, hcall⟩ := Call.exists_readTrimmed_unterminated hopen hclose
  have hread : Invocation.read registry element =
      .error (.unterminated (String.ofList (Blank.trim element.toList)) name closer) := by
    rw [Invocation.read, Call.read, hcall]
    rfl
  obtain ⟨fault, hfault⟩ := Invocation.exists_readAll_error hmem hread
  exact ⟨fault, Invocation.isReading_of_readAll hfault, hfault⟩

/-! ### Running -/

/-- A line, or a message in the error log. -/
inductive Event.IsReport : Event → Prop
  | line (line : Line) : IsReport (.item (.line line))
  | logged (command message : String) : IsReport (.logged command message)

namespace Chain

/-- The events of a refusal: the title of a batch, the failure as a line and in the error log, and the
summary. -/
def refusal (chain : Chain) (fault : Fault) (elapsed : Binary64) : List Event :=
  ((if chain.isBatch then [Report.batchTitle chain.label] else []) ++
    [Line.of .error fault.message]).map (.item ∘ .line) ++
    .logged (recordName fault) fault.message ::
      (Report.summary chain.label (some fault.underlying) elapsed false).map (.item ∘ .line)

theorem isReport_of_mem_refusal {chain : Chain} {fault : Fault} {elapsed : Binary64} {event : Event}
    (h : event ∈ chain.refusal fault elapsed) : event.IsReport := by
  simp only [refusal, List.mem_append, List.mem_map, List.mem_cons] at h
  rcases h with ⟨line, -, rfl⟩ | rfl | ⟨line, -, rfl⟩
  · exact .line line
  · exact .logged ..
  · exact .line line

theorem run_of_reading_error {chain : Chain} {fault : Fault} (hreading : chain.reading = .error fault)
    (scope : Scope) (world : World ChainResult) :
    chain.routine.run scope world =
      ({ world with
          record := ((chain.refusal fault (world.clock.sub world.clock)).map
            scope.occurrence).reverse ++ world.record },
        .ended (.ok ⟨chain.label, [], none, some fault, world.clock.sub world.clock⟩)) := by
  let spoken (lines : List Line) : List Occurrence :=
    (lines.map fun line => scope.occurrence (.item (.line line))).reverse
  let elapsed := world.clock.sub world.clock
  let title : List Line := if chain.isBatch then [Report.batchTitle chain.label] else []
  let summary := Report.summary chain.label (some fault.underlying) elapsed false
  have hrecord : ((chain.refusal fault elapsed).map scope.occurrence).reverse ++ world.record =
      spoken summary ++ scope.occurrence (.logged (recordName fault) fault.message) ::
        (spoken [Line.of .error fault.message] ++ (spoken title ++ world.record)) := by
    simp [refusal, spoken, title, summary, Function.comp_def]
  rw [hrecord]
  refine (run_emitLines scope title _ world).trans ?_
  rw [hreading]
  refine (run_emitLines scope [Line.of .error fault.message] _ _).trans ?_
  exact run_emitLines scope summary _ _

/-- A program that ends its chain at once, in whatever state it runs: it gives a failed result without
invocations, and it leaves lines and messages in the record and changes nothing else. -/
def Refuses (fault : Fault) (routine : Routine ChainResult) : Prop :=
  ∀ (scope : Scope) (world : World ChainResult), ∃ (result : ChainResult) (events : List Event),
    routine.run scope world =
      ({ world with record := (events.map scope.occurrence).reverse ++ world.record },
        .ended (.ok result)) ∧
    result.isSuccess = false ∧ result.failure = some fault ∧ result.invocations = [] ∧
    result.outcome = none ∧ ∀ event ∈ events, event.IsReport

/-- A chain with a star inside an argument list cannot be read and is refused, whatever is registered. -/
theorem refuses_of_starsList (registry : Registry) {token : String} (h : StarsList token) :
    ∃ fault, fault.IsReading ∧ Invocation.readChain registry token = .error fault ∧
      Refuses fault (ofToken registry token).routine := by
  obtain ⟨fault, hfault, hreading⟩ := exists_reading_of_starsList registry h
  refine ⟨fault, hfault, hreading, fun scope world => ?_⟩
  exact ⟨_, _, run_of_reading_error hreading scope world, rfl, rfl, rfl, rfl,
    fun _ => isReport_of_mem_refusal⟩

/-- A call of a registered command, and another one with a star among its values. -/
def starredToken : String :=
  "note * note(x * y) * note"

theorem refuses_of_starsList_starredToken :
    StarsList starredToken ∧
    ∃ fault, fault.IsReading ∧
      Invocation.readChain ⟨[PlainCall.noteCommand], []⟩ starredToken = .error fault ∧
      Refuses fault (ofToken ⟨[PlainCall.noteCommand], []⟩ starredToken).routine := by
  have hstars : StarsList starredToken :=
    ⟨"note * note".toList, "x * y".toList, " * note".toList, rfl, by decide, by decide⟩
  exact ⟨hstars, refuses_of_starsList _ hstars⟩

end Chain

end Cascade
