import Cascade.Proofs.Chain.Phases
import Cascade.Proofs.Trace.Stretch

/-!
What the program of a chain itself says: the items that it leaves in the record and the messages that it
adds to the error log. What it has said when it waits and when it ends is decided by the program alone,
whatever its commands do and however its turns and those of others alternate (`World.Speaks.reaches`).
-/

namespace Cascade

/-- An item, or a message for the error log. -/
def Event.isSpeech : Event → Bool
  | .item _ | .logged _ _ => true
  | _ => false

def Query.speech : Query → List Event
  | .emit item => [.item item]
  | .record command message => [.logged command message]
  | _ => []

/-- What the program of a chain itself says by an occurrence. -/
def Occurrence.spoken? (place : Nat) (occurrence : Occurrence) : Option Event :=
  if occurrence.strand = some place ∧ occurrence.thread = some .root ∧ occurrence.step = none ∧
      occurrence.event.isSpeech = true then
    some occurrence.event
  else none

/-- What the program of a chain itself has said, in the order of time. -/
def World.speech {α : Type} (world : World α) (place : Nat) : List Event :=
  (world.record.filterMap (Occurrence.spoken? place)).reverse

/-! ### The record -/

namespace Occurrence

variable {scope : Scope} {occurrence : Occurrence} {place : Nat}

theorem spoken?_eq_none_of_thread (h : occurrence.thread ≠ some .root) :
    occurrence.spoken? place = none :=
  if_neg fun hown => h hown.2.1

theorem spoken?_eq_none_of_step (h : occurrence.step ≠ none) : occurrence.spoken? place = none :=
  if_neg fun hown => h hown.2.2.1

theorem spoken?_eq_none_of_event (h : occurrence.event.isSpeech = false) :
    occurrence.spoken? place = none :=
  if_neg fun hown => Bool.false_ne_true (h.symm.trans hown.2.2.2)

theorem Within.spoken?_eq_none {strand : Nat} {thread : ThreadId} (h : occurrence.Within strand thread)
    (hne : ¬ (strand = place ∧ thread = .root)) : occurrence.spoken? place = none := by
  refine if_neg fun hown => hne ?_
  obtain ⟨hstrand, hroot, -⟩ := hown
  obtain ⟨hown, hnone | hthread⟩ := h
  · cases hnone.symm.trans hroot
  · exact ⟨Option.some.inj (hown.symm.trans hstrand), Option.some.inj (hthread.symm.trans hroot)⟩

theorem OfAnswer.spoken?_eq_none (h : occurrence.OfAnswer scope) (hstep : scope.step ≠ none) :
    occurrence.spoken? place = none := by
  cases h with
  | item | logged => exact spoken?_eq_none_of_step hstep
  | completed | ignored => exact spoken?_eq_none_of_event rfl

theorem OfCall.spoken?_eq_none {number : Nat} (h : occurrence.OfCall scope number)
    (hstep : scope.step ≠ none) : occurrence.spoken? place = none := by
  cases h with
  | answer _ h => exact h.spoken?_eq_none hstep
  | told => exact spoken?_eq_none_of_event rfl

end Occurrence

namespace World

variable {α : Type} {before after world : World α} {place : Nat}

theorem speech_write (occurrence : Occurrence) (world : World α) (place : Nat) :
    (world.write occurrence).speech place =
      world.speech place ++ (occurrence.spoken? place).toList := by
  unfold speech write
  cases h : occurrence.spoken? place <;> simp [h]

theorem speech_of_adds (h : Adds (fun occurrence => occurrence.spoken? place = none) before after) :
    after.speech place = before.speech place := by
  obtain ⟨added, hrecord, hadded⟩ := h
  have hnone : added.filterMap (Occurrence.spoken? place) = [] := List.filterMap_eq_nil_iff.mpr hadded
  rw [speech, hrecord, List.filterMap_append, hnone]
  rfl

theorem speech_note {event : Event} (h : event.isSpeech = false) (scope : Scope) (world : World α) :
    (world.note scope event).speech place = world.speech place :=
  speech_of_adds (adds_write (Occurrence.spoken?_eq_none_of_event h) world)

theorem speech_answer (query : Query) (world : World α) :
    (world.answer ⟨place, .root, none, none⟩ query).1.speech place =
      world.speech place ++ query.speech := by
  have hsame : ∀ other : World α,
      Adds (fun occurrence => occurrence.spoken? place = none) world other →
        other.speech place = world.speech place ++ [] := fun other h =>
    (speech_of_adds h).trans (List.append_nil _).symm
  cases query with
  | record | emit =>
      exact (speech_write ..).trans (congrArg _ (congrArg _ (if_pos ⟨rfl, rfl, rfl, rfl⟩)))
  | signal event => exact hsame _ (adds_signal event world)
  | complete | completeLater | now | countCall | callCount | step | setState | menu =>
      exact hsame _ (.of_record_eq rfl)

theorem speech_begin (scope : Scope) (hstep : scope.step ≠ none) (command : Command)
    (arguments : Arguments) (world : World α) :
    (world.begin scope command arguments).1.speech place = world.speech place := by
  have hnote : ∀ (other : World α) happening,
      (other.noteExecution scope (world.cellCount scope.strand) command happening).speech place =
        other.speech place := fun other happening => speech_note rfl scope other
  refine begin_induction (fun state happening => hnote (world.openCell scope command state) happening)
    (fun other h => ?_) fun other outcome h => (hnote other _).trans h
  exact (speech_of_adds ((adds_call ..).mono fun _ h => h.spoken?_eq_none hstep)).trans h

end World

/-! ### Programs -/

variable {β γ : Type}

/-- A program that calls no command by its name and leaves no notices. Whenever it waits, something holds
of all that was said before, and what it has said at its end fits the end. What was said already is
given. -/
def Routine.Says (holds : List Event → Prop) (fits : Except Fault β → List Event → Prop)
    (said : List Event) : Routine β → Prop
  | finish value => fits (.ok value) said
  | fail fault => fits (.error fault) said
  | ask query next => ∀ answer, (next answer).Says holds fits (said ++ query.speech)
  | sleep _ notice next | await _ notice next =>
      notice = none ∧ holds said ∧ (next ()).Says holds fits said
  | invoke _ _ _ => False
  | prepare _ next => holds said ∧ ∀ failure, (next failure).Says holds fits said
  | execute _ next => holds said ∧ ∀ outcome, (next outcome).Says holds fits said

/-- A wait from which a program goes on to say what it has to. -/
def Waiting.Says (holds : List Event → Prop) (fits : Except Fault β → List Event → Prop)
    (said : List Event) : Waiting β → Prop
  | .turn notice next | .timer notice next | .event _ notice next =>
      notice = none ∧ (next ()).Says holds fits said
  | .cell _ next => ∀ outcome, (next outcome).Says holds fits said

/-- What a thread has said fits how it stands. -/
def ThreadStatus.Says (holds : List Event → Prop) (fits : Except Fault β → List Event → Prop)
    (said : List Event) : ThreadStatus β → Prop
  | .running => False
  | .waiting wait _ => holds said ∧ wait.Says holds fits said
  | .finished result => fits result said

/-- How a program goes on after another one has ended. -/
def Routine.Onward (next : β → Routine γ) (holds : List Event → Prop)
    (fits : Except Fault γ → List Event → Prop) : Except Fault β → List Event → Prop
  | .ok value, said => (next value).Says holds fits said
  | .error fault, said => fits (.error fault) said

section Says

variable {holds : List Event → Prop} {fits : Except Fault β → List Event → Prop} {said : List Event}
  {place : Nat}

theorem Routine.Says.bind {next : γ → Routine β} {routine : Routine γ}
    (h : routine.Says holds (Onward next holds fits) said) :
    (routine.bind next).Says holds fits said := by
  induction routine generalizing said with
  | finish value => exact h
  | fail fault => exact h
  | ask query rest ih => exact fun answer => ih answer (h answer)
  | sleep seconds notice rest ih => exact ⟨h.1, h.2.1, ih () h.2.2⟩
  | await event notice rest ih => exact ⟨h.1, h.2.1, ih () h.2.2⟩
  | invoke name given rest ih => exact h
  | prepare index rest ih => exact ⟨h.1, fun failure => ih failure (h.2 failure)⟩
  | execute index rest ih => exact ⟨h.1, fun outcome => ih outcome (h.2 outcome)⟩

theorem Routine.Calls.says (place : Nat) {scope : Scope} {world middle : World α} {routine : Routine β}
    {step : Option Nat} {command : Command} {arguments : Arguments} {doing : Doing}
    {next : Outcome → Routine β} {begun : Begun}
    (calls : routine.Calls scope world step command arguments doing next)
    (hbegun : world.begin { scope with step := step } command arguments = (middle, begun))
    (h : routine.Says holds fits said) :
    middle.speech place = world.speech place ∧ holds said ∧
      ∀ outcome, (next outcome).Says holds fits said := by
  cases calls with
  | @execute index next invocation found =>
      have hspeech : (world.begin { scope with step := some index } invocation.command
          invocation.arguments).1.speech place = world.speech place :=
        World.speech_begin _ (fun h => by cases h) invocation.command invocation.arguments world
      rw [hbegun] at hspeech
      exact ⟨hspeech, h⟩
  | invoke => exact h.elim

theorem Routine.speech_prepared {scope : Scope} {world middle : World α} {index : Nat}
    {initializer : Action Unit} {result : Except Fault Unit}
    (ran : initializer.run { scope with step := some index, cell := none } world = (middle, result))
    (failure : Option Fault) :
    (middle.note scope (.prepared index failure)).speech place = world.speech place := by
  have hran : (initializer.run { scope with step := some index, cell := none } world).1.speech place =
      world.speech place :=
    World.speech_of_adds ((initializer.adds_run { scope with step := some index, cell := none }
      world).mono fun _ h => h.spoken?_eq_none (fun h => by cases h))
  rw [ran] at hran
  exact (World.speech_note rfl scope middle).trans hran

theorem Routine.says_run (hbreaks : ∀ fault said, holds said → fits (.error fault) said)
    {routine : Routine β} (h : routine.Says holds fits said) (world : World α) :
    ∃ more, (routine.run ⟨place, .root, none, none⟩ world).1.speech place =
        world.speech place ++ more ∧
      (routine.run ⟨place, .root, none, none⟩ world).2.status.Says holds fits (said ++ more) := by
  have hhere : ∀ {after : World α} {status : ThreadStatus β} {said : List Event} {world : World α},
      after.speech place = world.speech place → status.Says holds fits said →
      ∃ more, after.speech place = world.speech place ++ more ∧
        status.Says holds fits (said ++ more) :=
    fun hspeech hspoken =>
      ⟨[], by rw [List.append_nil]; exact hspeech, by rwa [List.append_nil]⟩
  have hstretch := routine.stretch ⟨place, .root, none, none⟩ world
  generalize routine.acts ⟨place, .root, none, none⟩ world = acts at hstretch
  generalize routine.run ⟨place, .root, none, none⟩ world = ended at hstretch ⊢
  induction hstretch generalizing said with
  | finish | fail => exact hhere rfl h
  | @ask query next world _ _ _ ih =>
      obtain ⟨more, hspeech, hspoken⟩ := ih (h _)
      refine ⟨query.speech ++ more, ?_, by rwa [← List.append_assoc]⟩
      rw [← List.append_assoc, ← World.speech_answer]
      exact hspeech
  | turn | timer | moment | event => exact hhere rfl ⟨h.2.1, h.1, h.2.2⟩
  | happened _ _ ih => exact ih h.2.2
  | unknown => exact h.elim
  | lack | miss => exact hhere rfl (hbreaks _ _ h.1)
  | ready _ _ _ ih => exact ih (h.2 none)
  | prepared _ _ ran _ _ ih =>
      rw [← speech_prepared ran]
      exact ih (h.2 _)
  | escaped _ _ ran => exact hhere (speech_prepared ran _) (hbreaks _ _ h.1)
  | complete calls begun _ ih =>
      obtain ⟨hspeech, -, hnext⟩ := calls.says place begun h
      rw [← hspeech]
      exact ih (hnext _)
  | waits calls begun =>
      obtain ⟨hspeech, hholds, hnext⟩ := calls.says place begun h
      exact hhere hspeech ⟨hholds, hnext⟩
  | cancelled calls begun =>
      obtain ⟨hspeech, hholds, -⟩ := calls.says place begun h
      exact hhere hspeech (hbreaks _ _ hholds)

theorem speech_unwind (place : Nat) {waiting : Waiting β} (h : waiting.Says holds fits said)
    (world : World α) :
    (world.unwind ⟨place, .root, none, none⟩ waiting).speech place = world.speech place := by
  cases waiting with
  | turn notice next | timer notice next | event name notice next =>
      obtain ⟨rfl, -⟩ := h
      rfl
  | cell number next =>
      simp only [World.unwind]
      split
      · refine World.speech_of_adds (World.adds_cancel (fun number command => ?_) _ world)
        exact Occurrence.spoken?_eq_none_of_thread (fun h => by cases h)
      · rfl

theorem says_turn (hbreaks : ∀ fault said, holds said → fits (.error fault) said) (place : Nat)
    {waiting : Waiting β} (isCancelled : Bool) (hholds : holds said)
    (h : waiting.Says holds fits said) (world : World α) :
    ∃ more, (world.turn ⟨place, .root, none, none⟩ waiting isCancelled).1.speech place =
        world.speech place ++ more ∧
      (world.turn ⟨place, .root, none, none⟩ waiting isCancelled).2.Says holds fits
        (said ++ more) := by
  cases isCancelled with
  | true =>
      refine ⟨[], ?_, ?_⟩
      · rw [List.append_nil]
        exact speech_unwind place h world
      · rw [List.append_nil]
        exact hbreaks World.cancellation said hholds
  | false =>
      have hresumed : (world.resumed ⟨place, .root, none, none⟩ waiting).1.speech place =
            world.speech place ∧
          (world.resumed ⟨place, .root, none, none⟩ waiting).2.Says holds fits said := by
        cases waiting with
        | turn notice next | timer notice next | event name notice next => exact ⟨rfl, h.2⟩
        | cell number next =>
            simp only [World.resumed]
            split
            · exact ⟨World.speech_note rfl _ world, h _⟩
            · exact ⟨rfl, hbreaks _ said hholds⟩
      obtain ⟨hspeech, hspoken⟩ := hresumed
      rw [World.turn_of_not_cancelled, ← hspeech]
      exact Routine.says_run hbreaks hspoken _

end Says

/-! ### Every state of a run -/

namespace World

/-- Between two turns of its thread a chain has said what fits how it stands. -/
def Speaks (holds : List Event → Prop) (fits : Except Fault ChainResult → List Event → Prop)
    (place : Nat) (world : World ChainResult) : Prop :=
  ∃ invocations thread, world.outline? place = some (invocations, thread) ∧ thread.step = none ∧
    thread.cell = none ∧ thread.status.Says holds fits (world.speech place)

variable {holds : List Event → Prop} {fits : Except Fault ChainResult → List Event → Prop}
  {place : Nat} {world next : World ChainResult}

theorem Speaks.of_eq (h : world.Speaks holds fits place)
    (houtline : next.outline? place = world.outline? place)
    (hspeech : next.speech place = world.speech place) : next.Speaks holds fits place := by
  obtain ⟨invocations, thread, hthread, hstep, hcell, hspoken⟩ := h
  exact ⟨invocations, thread, houtline.trans hthread, hstep, hcell, hspeech ▸ hspoken⟩

/-- Completions, wakes and cancellations say nothing. -/
theorem Speaks.of_sameShape (h : world.Speaks holds fits place) (hshape : SameShape world next)
    (htold : Adds (fun occurrence => occurrence.thread = none) world next) :
    next.Speaks holds fits place := by
  refine h.of_eq ?_ (speech_of_adds (htold.mono fun occurrence hnone => ?_))
  · rw [outline?, congrFun hshape place, outline?]
  · exact occurrence.spoken?_eq_none_of_thread (fun hroot => by cases hnone.symm.trans hroot)

theorem Speaks.resume_other (h : world.Speaks holds fits place) {strand : Nat} {thread : ThreadId}
    (hne : ¬ (strand = place ∧ thread = .root)) :
    (world.resume strand thread).Speaks holds fits place := by
  refine h.of_eq ?_ (speech_of_adds ((world.within_resume strand thread).mono
    fun _ h => h.spoken?_eq_none hne))
  cases thread with
  | root =>
      have hplace : place ≠ strand := fun heq => hne ⟨heq.symm, rfl⟩
      rw [outline?, shape?_resume_root hplace, outline?]
  | child number => exact (world.inside_resume_child strand number).outline place

theorem Speaks.resume_root (hbreaks : ∀ fault said, holds said → fits (.error fault) said)
    (h : world.Speaks holds fits place) : (world.resume place .root).Speaks holds fits place := by
  rcases world.resume_root_cases place with hsame |
    ⟨current, waiting, isCancelled, after, status, hstrand, hstatus, hturn, hresume⟩
  · rw [hsame]
    exact h
  obtain ⟨invocations, thread, hthread, hstep, hcell, hspoken⟩ := h
  have hroot : thread = current.root.calm := by
    rw [outline?, shape?, hstrand] at hthread
    exact (Prod.mk.inj (Option.some.inj hthread)).2.symm
  have hwaits : thread.status = .waiting waiting .asleep := by
    rw [hroot, Thread.calm, hstatus]
    rfl
  rw [hwaits] at hspoken
  obtain ⟨hholds, hwaiting⟩ := hspoken
  let begun := world.modifyThread place .root Thread.begin
  have hscope : (⟨place, .root, current.root.step, current.root.cell⟩ : Scope) =
      ⟨place, .root, none, none⟩ := by
    rw [show current.root.step = none from (congrArg Thread.step hroot.symm).trans hstep,
      show current.root.cell = none from (congrArg Thread.cell hroot.symm).trans hcell]
  rw [hscope] at hturn
  obtain ⟨more, hspeech, hend⟩ := says_turn hbreaks place isCancelled hholds hwaiting begun
  have hinside := (inside_turn ⟨place, .root, none, none⟩ waiting isCancelled begun).own
  rw [hturn] at hspeech hend hinside
  have hbegun : begun.outline? place = some (invocations, { thread with status := .running }) := by
    refine Chain.outline?_modifyStrand ?_ hthread
    exact fun _ => ⟨rfl, rfl⟩
  have hafter : after.outline? place = some (invocations, { thread with status := .running }) :=
    hinside.trans hbegun
  have hstored : (after.setRoot place status).outline? place =
      some (invocations, { thread with status := status.calm }) := by
    refine (Chain.outline?_modifyStrand ?_ hafter).trans rfl
    exact fun _ => ⟨rfl, rfl⟩
  rw [hresume]
  have hset : (after.setRoot place status).Speaks holds fits place := by
    refine ⟨invocations, _, hstored, hstep, hcell, ?_⟩
    show status.calm.Says holds fits (after.speech place)
    rw [hspeech]
    cases status <;> exact hend
  cases status with
  | finished result => exact hset.of_eq rfl rfl
  | running => exact hset
  | waiting wait wake => exact hset

theorem Speaks.perform (hbreaks : ∀ fault said, holds said → fits (.error fault) said)
    (h : world.Speaks holds fits place) (job : Job) : (world.perform job).Speaks holds fits place := by
  cases job with
  | resume strand thread =>
      by_cases hroot : strand = place ∧ thread = .root
      · obtain ⟨rfl, rfl⟩ := hroot
        exact h.resume_root hbreaks
      · exact h.resume_other hroot
  | fire strand goal =>
      exact h.of_sameShape (sameShape_fire ..) ((told_fire ..).mono fun _ told => told.2)
  | deliver strand child =>
      exact h.of_sameShape (sameShape_deliver ..) ((told_deliver ..).mono fun _ told => told.2)
  | announce | supervise => exact h

theorem Speaks.step (hbreaks : ∀ fault said, holds said → fits (.error fault) said)
    (h : world.Speaks holds fits place) (hstep : Step world next) : next.Speaks holds fits place := by
  cases hstep with
  | perform before after job hqueue =>
      have htaken : Speaks holds fits place { world with queue := before ++ after } :=
        h.of_eq rfl rfl
      exact htaken.perform hbreaks job
  | advance next hnext =>
      obtain ⟨due, -, heq⟩ := Option.bind_eq_some_iff.mp hnext
      obtain rfl := Option.some.inj heq
      exact h.of_eq rfl rfl
  | cancel strand thread =>
      exact h.of_sameShape (sameShape_cancel ..) (adds_cancel (fun _ _ => rfl) thread world)
  | print item =>
      refine h.of_sameShape (.of_strands_eq rfl) (adds_write ?_ world)
      rfl
  | notify => exact h.of_eq rfl rfl
  | complete strand number result =>
      exact h.of_sameShape (sameShape_complete ..)
        ((told_fire strand (.complete number result) world).mono fun _ told => told.2)

theorem Speaks.reaches (hbreaks : ∀ fault said, holds said → fits (.error fault) said)
    (h : world.Speaks holds fits place) (hreach : Reaches world next) :
    next.Speaks holds fits place := by
  induction hreach with
  | refl => exact h
  | tail _ hstep ih => exact ih.step hbreaks hstep

/-- A chain that starts with nothing said. -/
theorem Speaks.start {surroundings : Surroundings} {calls : Entries Nat}
    {programs : List (List Invocation × Routine ChainResult)} {invocations : List Invocation}
    {routine : Routine ChainResult} (hprogram : programs[place]? = some (invocations, routine))
    (hholds : holds []) (hspoken : routine.Says holds fits []) :
    (World.start surroundings calls
      (programs.map fun program => Strand.start program.1 program.2)).Speaks holds fits place := by
  refine ⟨invocations, (Strand.start invocations routine).shape.root, ?_, rfl, rfl, hholds, rfl, hspoken⟩
  have hstrand : (World.start surroundings calls
      (programs.map fun program => Strand.start program.1 program.2)).strand? place =
        some (Strand.start invocations routine) := by
    simp [strand?, World.start, hprogram]
  rw [outline?, shape?, hstrand]
  rfl

theorem Speaks.of_result (h : world.Speaks holds fits place) {result : Except Fault ChainResult}
    (hresult : Batch.result? world place = some result) : fits result (world.speech place) := by
  obtain ⟨invocations, thread, hthread, -, -, hspoken⟩ := h
  obtain ⟨current, hstrand, hended⟩ := Option.bind_eq_some_iff.mp hresult
  have hroot : thread.status = .finished result := by
    rw [outline?, shape?, hstrand] at hthread
    obtain ⟨-, rfl⟩ := Prod.mk.inj (Option.some.inj hthread)
    rcases hcurrent : current.root with ⟨step, cell, delivers, _ | _ | ended⟩
    all_goals
      rw [hcurrent] at hended
      cases hended
    rw [Strand.shape, hcurrent]
    rfl
  rw [hroot] at hspoken
  exact hspoken

theorem Speaks.of_no_result (h : world.Speaks holds fits place)
    (hresult : Batch.result? world place = none) : holds (world.speech place) := by
  obtain ⟨invocations, thread, hthread, -, -, hspoken⟩ := h
  cases hstatus : thread.status with
  | running =>
      rw [hstatus] at hspoken
      exact hspoken.elim
  | waiting wait wake =>
      rw [hstatus] at hspoken
      exact hspoken.1
  | finished result =>
      have hended : Batch.result? world place = some result := by
        cases hstrand : world.strand? place with
        | none => simp [outline?, shape?, hstrand] at hthread
        | some current =>
            rw [outline?, shape?, hstrand] at hthread
            obtain ⟨-, rfl⟩ := Prod.mk.inj (Option.some.inj hthread)
            rw [Batch.result?, hstrand, Option.bind_some]
            rcases hcurrent : current.root with ⟨step, cell, delivers, _ | ⟨_, _⟩ | ended⟩
            all_goals
              rw [Strand.shape, hcurrent] at hstatus
              cases hstatus
            rfl
      cases hresult.symm.trans hended

end World

end Cascade
