import Cascade.Proofs.Run.Observation
import Cascade.Proofs.Run.Rule

/-!
What code that runs to its end at once can do: it adds to the record only what belongs to its scope,
it opens and closes no execution, and no thread gets or gives up its turn.
-/

namespace Cascade

/-- The occurrences that a question of the code of a scope can lead to: an item or a message of that
code, or a completion of the execution that the code belongs to. -/
inductive Occurrence.OfAnswer (scope : Scope) : Occurrence → Prop
  | item (content : Item) :
      OfAnswer scope ⟨some scope.strand, some scope.thread, scope.step, .item content⟩
  | logged (command message : String) :
      OfAnswer scope ⟨some scope.strand, some scope.thread, scope.step, .logged command message⟩
  | completed (number : Nat) (command : Command) (result : Except Fault Value)
      (h : scope.cell = some number) :
      OfAnswer scope ⟨some scope.strand, none, none, .execution number command (.completed result)⟩
  | ignored (number : Nat) (command : Command) (outcome : Outcome)
      (h : scope.cell = some number) :
      OfAnswer scope ⟨some scope.strand, none, none, .execution number command (.ignored outcome)⟩

/-- What is settled about an execution when it begins. -/
def Cell.origin (cell : Cell) : Command × ThreadId × Option Nat :=
  (cell.command, cell.caller, cell.step)

namespace World

variable {α : Type}

/-- Everything that the record gains has a property. -/
def Adds (allowed : Occurrence → Prop) (before after : World α) : Prop :=
  ∃ added, after.record = added ++ before.record ∧ ∀ occurrence ∈ added, allowed occurrence

/-- No thread gets or gives up its turn. -/
def SameTurns (before after : World α) : Prop :=
  ∀ place thread, after.posture? place thread = some .running ↔
    before.posture? place thread = some .running

/-- No execution begins and no thread gets or gives up its turn. -/
structure Frame (before after : World α) : Prop where
  running : SameTurns before after
  origin : ∀ place number,
    (after.cell? place number).map Cell.origin = (before.cell? place number).map Cell.origin

section Adds

variable {allowed : Occurrence → Prop} {before middle after : World α}

theorem Adds.of_record_eq (h : after.record = before.record) : Adds allowed before after :=
  ⟨[], by simpa using h, by simp⟩

theorem Adds.refl (world : World α) : Adds allowed world world :=
  .of_record_eq rfl

theorem Adds.trans (h : Adds allowed before middle) (k : Adds allowed middle after) :
    Adds allowed before after := by
  obtain ⟨first, hfirst, hfirsts⟩ := h
  obtain ⟨second, hsecond, hseconds⟩ := k
  refine ⟨second ++ first, by rw [hsecond, hfirst, List.append_assoc], ?_⟩
  intro occurrence hmem
  rcases List.mem_append.mp hmem with hmem | hmem
  · exact hseconds occurrence hmem
  · exact hfirsts occurrence hmem

theorem Adds.mono {others : Occurrence → Prop} (h : Adds allowed before after)
    (hall : ∀ occurrence, allowed occurrence → others occurrence) : Adds others before after := by
  obtain ⟨added, heq, hadded⟩ := h
  exact ⟨added, heq, fun occurrence hmem => hall occurrence (hadded occurrence hmem)⟩

theorem adds_write {occurrence : Occurrence} (h : allowed occurrence) (world : World α) :
    Adds allowed world (world.write occurrence) :=
  ⟨[occurrence], rfl, by simpa using h⟩

/-- What the past of an execution gains comes from what the record gains. -/
theorem Adds.past (h : Adds allowed before after) (place number : Nat) :
    ∃ later, after.past place number = later ++ before.past place number ∧
      ∀ happening ∈ later, ∃ occurrence, allowed occurrence ∧
        occurrence.happening? place number = some happening := by
  obtain ⟨added, heq, hadded⟩ := h
  refine ⟨added.filterMap (Occurrence.happening? place number), ?_, ?_⟩
  · rw [World.past, heq, List.filterMap_append]
    rfl
  · intro happening hmem
    obtain ⟨occurrence, hoccurrence, hhappening⟩ := List.mem_filterMap.mp hmem
    exact ⟨occurrence, hadded occurrence hoccurrence, hhappening⟩

end Adds

section Frame

variable {before middle after : World α}

theorem SameTurns.refl (world : World α) : SameTurns world world :=
  fun _ _ => Iff.rfl

theorem SameTurns.trans (h : SameTurns before middle) (k : SameTurns middle after) :
    SameTurns before after :=
  fun place thread => (k place thread).trans (h place thread)

theorem SameTurns.of_eq (h : ∀ place thread, after.posture? place thread =
    before.posture? place thread) : SameTurns before after :=
  fun place thread => by rw [h]

theorem Frame.refl (world : World α) : Frame world world :=
  ⟨.refl world, fun _ _ => rfl⟩

theorem Frame.trans (h : Frame before middle) (k : Frame middle after) : Frame before after :=
  ⟨h.running.trans k.running, fun place number => (k.origin place number).trans (h.origin place number)⟩

/-- A change of neither threads nor executions. -/
theorem Frame.of_eq (hposture : ∀ place thread, after.posture? place thread =
      before.posture? place thread)
    (hcell : ∀ place number, after.cell? place number = before.cell? place number) :
    Frame before after :=
  ⟨.of_eq hposture, fun place number => by rw [hcell]⟩

/-- An execution stays, with what was settled at its beginning. -/
theorem Frame.cell (h : Frame before after) {place number : Nat} {cell : Cell}
    (hcell : before.cell? place number = some cell) :
    ∃ later, after.cell? place number = some later ∧ later.origin = cell.origin := by
  have horigin := h.origin place number
  rw [hcell] at horigin
  exact Option.map_eq_some_iff.mp horigin

theorem Frame.cell_of_after (h : Frame before after) {place number : Nat} {cell : Cell}
    (hcell : after.cell? place number = some cell) :
    ∃ earlier, before.cell? place number = some earlier ∧ earlier.origin = cell.origin := by
  have horigin := h.origin place number
  rw [hcell] at horigin
  exact Option.map_eq_some_iff.mp horigin.symm

end Frame

/-! ### Waking and completing -/

theorem frame_modifyCell {change : Cell → Cell} (h : ∀ cell, (change cell).origin = cell.origin)
    (strand number : Nat) (world : World α) :
    Frame world (world.modifyCell strand number change) := by
  refine ⟨fun place thread => by rw [posture?_modifyCell], fun place execution => ?_⟩
  rw [cell?_modifyCell]
  split
  · cases world.cell? place execution <;> simp [h]
  · rfl

theorem frame_wake (strand : Nat) (thread : ThreadId) (cell : Option Nat) (world : World α) :
    Frame world (world.wake strand thread cell) := by
  refine ⟨fun place other => ?_, fun place execution => by rw [cell?_wake]⟩
  rw [posture?_wake]
  split
  · rename_i hwaits
    obtain ⟨rfl, rfl, hwaits⟩ := hwaits
    simp [hwaits]
  · rfl

theorem adds_wake {allowed : Occurrence → Prop} (strand : Nat) (thread : ThreadId)
    (cell : Option Nat) (world : World α) :
    Adds allowed world (world.wake strand thread cell) := by
  rw [wake]
  split
  · exact .of_record_eq rfl
  · exact .refl world

theorem frame_tell (strand number : Nat) (command : Command) (happening : Happening)
    (world : World α) : Frame world (world.tell strand number command happening) :=
  .of_eq (fun _ _ => rfl) fun _ _ => rfl

theorem frame_settle (strand number : Nat) (happening : Happening) (outcome : Outcome)
    (world : World α) : Frame world (world.settle strand number happening outcome) := by
  refine settle_induction (.refl world) (fun _ => frame_tell ..) (fun _ _ h => h.trans (frame_tell ..))
    (fun _ h => h.trans (frame_modifyCell ?_ strand number _)) fun _ _ h => h.trans (frame_wake ..)
  exact fun _ => rfl

/-- A completion writes itself, and that it is ignored if it comes too late. -/
theorem adds_settle {allowed : Occurrence → Prop} {strand number : Nat} {happening : Happening}
    {outcome : Outcome} (world : World α)
    (hhappening : ∀ command,
      allowed ⟨some strand, none, none, .execution number command happening⟩)
    (hignored : ∀ command,
      allowed ⟨some strand, none, none, .execution number command (.ignored outcome)⟩) :
    Adds allowed world (world.settle strand number happening outcome) :=
  settle_induction (.refl world) (fun command => adds_write (hhappening command) world)
    (fun other command h => h.trans (adds_write (hignored command) other))
    (fun _ h => h.trans (.of_record_eq rfl)) fun _ _ h => h.trans (adds_wake ..)

theorem frame_complete (strand number : Nat) (result : Except Fault Value) (world : World α) :
    Frame world (world.complete strand number result) :=
  complete_induction (.refl world) fun _ => frame_settle ..

theorem frame_signal (event : String) (world : World α) : Frame world (world.signal event) :=
  signal_induction (fun _ => .of_eq (fun _ _ => rfl) fun _ _ => rfl) fun _ _ _ h =>
    h.trans (frame_wake ..)

theorem adds_signal {allowed : Occurrence → Prop} (event : String) (world : World α) :
    Adds allowed world (world.signal event) :=
  signal_induction (fun _ => .of_record_eq rfl) fun _ _ _ h => h.trans (adds_wake ..)

/-! ### Answers -/

theorem frame_answer (scope : Scope) (query : Query) (world : World α) :
    Frame world (world.answer scope query).1 := by
  have hsame : ∀ other : World α, other.strands = world.strands → Frame world other := by
    intro other hstrands
    refine .of_eq (fun place thread => ?_) fun place number => ?_
    · simp only [posture?, strand?, hstrands]
    · simp only [cell?, strand?, hstrands]
  cases query with
  | complete result =>
      rw [answer]
      split
      · exact frame_complete ..
      · exact .refl world
  | completeLater delay result =>
      rw [answer]
      split
      · split <;> exact hsame _ rfl
      · exact .refl world
  | signal event => exact frame_signal event world
  | setState name entry =>
      rw [answer]
      split
      · exact .refl world
      · refine .of_eq (posture?_modifyStrand ?_ _ _) (cell?_modifyStrand ?_ _ _)
        · intro strand thread
          cases thread <;> rfl
        · exact fun _ => rfl
  | _ => exact hsame _ rfl

theorem adds_answer (scope : Scope) (query : Query) (world : World α) :
    Adds (Occurrence.OfAnswer scope) world (world.answer scope query).1 := by
  cases query with
  | emit content => exact adds_write (.item content) world
  | record command message => exact adds_write (.logged command message) world
  | complete result =>
      rw [answer]
      split
      · rename_i number hcell
        exact complete_induction (.refl world) fun _ =>
          adds_settle world (fun command => .completed number command result hcell)
            fun command => .ignored number command _ hcell
      · exact .refl world
  | completeLater delay result =>
      rw [answer]
      split
      · split <;> exact .of_record_eq rfl
      · exact .refl world
  | signal event => exact adds_signal event world
  | setState name entry =>
      rw [answer]
      split <;> exact .of_record_eq rfl
  | _ => exact .of_record_eq rfl

end World

/-! ### Actions -/

namespace Action

variable {α β : Type}

theorem frame_run (scope : Scope) (action : Action β) (world : World α) :
    world.Frame (action.run scope world).1 := by
  induction action generalizing world with
  | finish value => exact .refl world
  | fail fault => exact .refl world
  | ask query next ih => exact (World.frame_answer scope query world).trans (ih _ _)

theorem adds_run (scope : Scope) (action : Action β) (world : World α) :
    World.Adds (Occurrence.OfAnswer scope) world (action.run scope world).1 := by
  induction action generalizing world with
  | finish value => exact .refl world
  | fail fault => exact .refl world
  | ask query next ih => exact (World.adds_answer scope query world).trans (ih _ _)

end Action

/-! ### Calls -/

/-- Whether a happening tells what a call gave, or that it came too late. -/
def Happening.isReply : Happening → Bool
  | promised _ | returned _ | ignored _ => true
  | _ => false

/-- The occurrences that the call of a command can lead to after its beginning. -/
inductive Occurrence.OfCall (scope : Scope) (number : Nat) : Occurrence → Prop
  | answer (occurrence : Occurrence)
      (h : OfAnswer { scope with cell := some number } occurrence) : OfCall scope number occurrence
  | told (command : Command) (happening : Happening) :
      OfCall scope number ⟨some scope.strand, none, none, .execution number command happening⟩

namespace World

variable {α : Type}

theorem frame_spawn (scope : Scope) (cell : Nat) (delivers : Bool) (body : Routine Value)
    (world : World α) : Frame world (world.spawn scope cell delivers body) := by
  refine ⟨fun place thread => ?_, fun place number => by rw [cell?_spawn]⟩
  cases hstrand : world.strand? scope.strand with
  | none =>
      have hsame : (world.spawn scope cell delivers body).posture? place thread =
          world.posture? place thread := by
        change (World.modifyStrand scope.strand _ world).posture? place thread = _
        rw [posture?, strand?_modifyStrand, posture?]
        split
        · rename_i heq
          subst heq
          simp [hstrand]
        · rfl
      rw [hsame]
  | some strand =>
      rw [posture?_spawn hstrand]
      split
      · rename_i heq
        obtain ⟨rfl, rfl⟩ := heq
        simp [posture?_childCount]
      · rfl

theorem frame_adopt (scope : Scope) (cell : Nat) (body : Routine Value) (world : World α) :
    Frame world (world.adopt scope cell body) := by
  refine (frame_spawn scope cell true body world).trans (frame_modifyCell ?_ ..)
  exact fun _ => rfl

theorem frame_takeReply (scope : Scope) (command : Command) (cell : Nat) (reply : Reply)
    (world : World α) : Frame world (world.takeReply scope command cell reply) :=
  takeReply_induction (fun _ => frame_tell ..) (fun _ => frame_tell ..)
    (fun _ _ h => h.trans (frame_spawn ..)) (fun _ _ h => h.trans (frame_adopt ..))
    fun _ => frame_settle ..

theorem adds_takeReply {allowed : Occurrence → Prop} {scope : Scope} {cell : Nat}
    (h : ∀ command happening, happening.isReply = true →
      allowed ⟨some scope.strand, none, none, .execution cell command happening⟩)
    (command : Command) (reply : Reply) (world : World α) :
    Adds allowed world (world.takeReply scope command cell reply) := by
  have htell : ∀ happening, happening.isReply = true →
      Adds allowed world (world.tell scope.strand cell command happening) :=
    fun happening hreply => adds_write (h command happening hreply) world
  exact takeReply_induction (fun _ => htell _ rfl) (fun _ => htell _ rfl)
    (fun _ _ h => h.trans (.of_record_eq rfl)) (fun _ _ h => h.trans (.of_record_eq rfl))
    fun _ => adds_settle world (fun other => h other _ rfl) fun other => h other _ rfl

theorem frame_call (scope : Scope) (number : Nat) (command : Command) (arguments : Arguments)
    (world : World α) : Frame world (world.call scope number command arguments).1 :=
  call_induction (Action.frame_run ..) (fun _ _ _ h => h.trans (frame_takeReply ..))
    (fun _ _ h => h.trans (frame_tell ..)) fun _ _ h => h.trans (frame_settle ..)

theorem adds_call (scope : Scope) (number : Nat) (command : Command) (arguments : Arguments)
    (world : World α) :
    Adds (Occurrence.OfCall scope number) world
      (world.call scope number command arguments).1 :=
  call_induction ((Action.adds_run ..).mono .answer)
    (fun other _ _ h => h.trans (adds_takeReply (fun command happening _ => .told command happening)
      _ _ other))
    (fun other _ h => h.trans (adds_write (.told ..) other))
    fun other _ h => h.trans (adds_settle other (fun command => .told command _) fun command =>
      .told command _)

/-! ### Executions -/

theorem sameTurns_begin (scope : Scope) (command : Command) (arguments : Arguments)
    (world : World α) : SameTurns world (world.begin scope command arguments).1 :=
  begin_induction (fun state _ => .of_eq (posture?_openCell scope command state world))
    (fun _ h => h.trans (frame_call ..).running) fun _ _ h => h.trans (.of_eq fun _ _ => rfl)

end World

/-! ### Routines -/

theorem Routine.sameTurns_run {α β : Type} (scope : Scope) (routine : Routine β) (world : World α) :
    world.SameTurns (routine.run scope world).1 := by
  have hsame : ∀ {other another : World α}, world.SameTurns other →
      another.strands = other.strands → world.SameTurns another :=
    fun hturns hstrands => hturns.trans <| .of_eq fun place thread => by
      simp only [World.posture?, World.strand?, hstrands]
  have hrule : Rule scope world.SameTurns fun (_ : Suspension β) => world.SameTurns := {
    ended := fun _ _ h => h
    answer := fun query other h => h.trans (World.frame_answer scope query other).running
    turn := fun _ _ _ h => hsame h rfl
    timer := fun _ _ _ _ h _ => hsame h rfl
    moment := fun _ _ _ h => hsame h rfl
    event := fun _ _ _ _ h => hsame h rfl
    prepared := fun index _ initializer _ other h _ _ =>
      hsame (h.trans (initializer.frame_run _ other).running) rfl
    complete := fun _ _ _ _ _ h _ _ => h.trans (World.sameTurns_begin _ _ _ _)
    waits := fun _ _ _ _ _ _ h _ _ => h.trans (World.sameTurns_begin _ _ _ _)
    cancelled := fun _ _ _ _ _ h _ _ => h.trans (World.sameTurns_begin _ _ _ _) }
  exact hrule.run routine (.refl world)

/-! ### Cancelling -/

namespace World

variable {α : Type}

theorem frame_drop (strand number : Nat) (world : World α) :
    Frame world (world.drop strand number) := by
  refine drop_induction (.refl world) fun _ => (frame_tell ..).trans (frame_modifyCell ?_ ..)
  exact fun _ => rfl

theorem adds_drop {allowed : Occurrence → Prop} {strand : Nat}
    (h : ∀ number command, allowed ⟨some strand, none, none, .execution number command .dropped⟩)
    (number : Nat) (world : World α) : Adds allowed world (world.drop strand number) :=
  drop_induction (.refl world) fun _ => (adds_write (h ..) world).trans (.of_record_eq rfl)

theorem frame_mark (wake : Wake) (strand : Nat) (thread : ThreadId) (world : World α) :
    Frame world (world.modifyThread strand thread (Thread.mark wake)) := by
  refine ⟨fun place other => ?_, fun place number => by rw [cell?_modifyThread]⟩
  rw [posture?_mark]
  split
  · rcases world.posture? place other with _ | _ | ⟨_, _⟩ | _ <;> simp [Posture.mark]
  · rfl

theorem frame_cancel (strand : Nat) (thread : ThreadId) (world : World α) :
    Frame world (world.cancel strand thread) := by
  refine cancel_induction (.refl world) (fun _ => frame_drop ..) (fun other h => ?_) (frame_mark ..)
  refine (h.trans (frame_mark .cancelled strand thread other)).trans (.of_eq ?_ ?_) <;>
    exact fun _ _ => rfl

theorem adds_cancel {allowed : Occurrence → Prop} {strand : Nat}
    (h : ∀ number command, allowed ⟨some strand, none, none, .execution number command .dropped⟩)
    (thread : ThreadId) (world : World α) : Adds allowed world (world.cancel strand thread) :=
  cancel_induction (.refl world) (fun _ => adds_drop h ..) (fun _ h => h.trans (.of_record_eq rfl))
    (.of_record_eq rfl)

theorem frame_unwind {β : Type} (scope : Scope) (waiting : Waiting β) (world : World α) :
    Frame world (world.unwind scope waiting) := by
  have hnotice : ∀ notice : Option Item, Frame world (world.leave scope notice) := by
    intro notice
    cases notice <;> exact .of_eq (fun _ _ => rfl) fun _ _ => rfl
  exact unwind_induction hnotice fun _ => frame_cancel ..

theorem adds_unwind {allowed : Occurrence → Prop} {scope : Scope}
    (hitem : ∀ item, allowed ⟨some scope.strand, some scope.thread, scope.step, .item item⟩)
    (hdrop : ∀ number command,
      allowed ⟨some scope.strand, none, none, .execution number command .dropped⟩)
    {β : Type} (waiting : Waiting β) (world : World α) :
    Adds allowed world (world.unwind scope waiting) := by
  have hnotice : ∀ notice : Option Item, Adds allowed world (world.leave scope notice) := by
    intro notice
    cases notice with
    | some item => exact adds_write (hitem item) world
    | none => exact .refl world
  exact unwind_induction hnotice fun _ => adds_cancel hdrop ..

end World

/-! ### Turns and jobs -/

/-- An occurrence that the code of a thread or the operations that it leads to can add. -/
def Occurrence.Within (strand : Nat) (thread : ThreadId) (occurrence : Occurrence) : Prop :=
  occurrence.strand = some strand ∧ (occurrence.thread = none ∨ occurrence.thread = some thread)

/-- An occurrence that comes from outside all code. -/
def Occurrence.Told (strand : Nat) (occurrence : Occurrence) : Prop :=
  occurrence.strand = some strand ∧ occurrence.thread = none

theorem Occurrence.OfAnswer.within {scope : Scope} {occurrence : Occurrence}
    (h : occurrence.OfAnswer scope) : occurrence.Within scope.strand scope.thread := by
  cases h with
  | item | logged => exact ⟨rfl, .inr rfl⟩
  | completed | ignored => exact ⟨rfl, .inl rfl⟩

theorem Occurrence.OfCall.within {scope : Scope} {number : Nat} {occurrence : Occurrence}
    (h : occurrence.OfCall scope number) : occurrence.Within scope.strand scope.thread := by
  cases h with
  | answer _ h => exact h.within
  | told => exact ⟨rfl, .inl rfl⟩

namespace World

variable {α : Type}

/-- Executions stay, with what was settled at their beginning. -/
structure Keeps (before after : World α) : Prop where
  cell : ∀ place number cell, before.cell? place number = some cell →
    ∃ later, after.cell? place number = some later ∧ later.origin = cell.origin

theorem Keeps.refl (world : World α) : Keeps world world :=
  ⟨fun _ _ cell hcell => ⟨cell, hcell, rfl⟩⟩

theorem Keeps.trans {before middle after : World α} (h : Keeps before middle)
    (k : Keeps middle after) : Keeps before after := by
  refine ⟨fun place number cell hcell => ?_⟩
  obtain ⟨found, hfound, hsame⟩ := h.cell place number cell hcell
  obtain ⟨last, hlast, horigin⟩ := k.cell place number found hfound
  exact ⟨last, hlast, horigin.trans hsame⟩

theorem Frame.keeps {before after : World α} (h : Frame before after) : Keeps before after :=
  ⟨fun _ _ _ hcell => h.cell hcell⟩

theorem Keeps.of_eq {before after : World α}
    (h : ∀ place number, after.cell? place number = before.cell? place number) :
    Keeps before after :=
  ⟨fun place number cell hcell => ⟨cell, (h place number).trans hcell, rfl⟩⟩

theorem keeps_openCell (scope : Scope) (command : Command) (state : CellState) (world : World α) :
    Keeps world (world.openCell scope command state) := by
  refine ⟨fun place number cell hcell => ⟨cell, ?_, rfl⟩⟩
  cases hstrand : world.strand? scope.strand with
  | some strand =>
      rw [cell?_openCell hstrand, if_neg ?_]
      · exact hcell
      · rintro ⟨rfl, rfl⟩
        rw [cell?_cellCount] at hcell
        cases hcell
  | none =>
      rw [openCell, cell?, strand?_modifyStrand]
      split
      · rename_i hsame
        rw [cell?, ← hsame, hstrand] at hcell
        cases hcell
      · exact hcell

theorem keeps_begin (scope : Scope) (command : Command) (arguments : Arguments)
    (world : World α) : Keeps world (world.begin scope command arguments).1 :=
  begin_induction
    (fun state _ => (keeps_openCell scope command state world).trans (.of_eq fun _ _ => rfl))
    (fun _ h => h.trans (frame_call ..).keeps) fun _ _ h => h.trans (.of_eq fun _ _ => rfl)

theorem within_begin (scope : Scope) (command : Command) (arguments : Arguments)
    (world : World α) :
    Adds (Occurrence.Within scope.strand scope.thread) world
      (world.begin scope command arguments).1 := by
  have hnote : ∀ (other : World α) (happening : Happening),
      Adds (Occurrence.Within scope.strand scope.thread) other
        (other.noteExecution scope (world.cellCount scope.strand) command happening) :=
    fun other _ => adds_write ⟨rfl, .inr rfl⟩ other
  exact begin_induction
    (fun state happening => Adds.trans (.of_record_eq rfl)
      (hnote (world.openCell scope command state) happening))
    (fun _ h => h.trans ((adds_call ..).mono fun _ h => h.within)) fun _ _ h => h.trans (hnote _ _)

end World

namespace Routine

variable {α β : Type}

theorem keeps_run (scope : Scope) (routine : Routine β) (world : World α) :
    world.Keeps (routine.run scope world).1 := by
  have hsame : ∀ {other another : World α}, world.Keeps other → another.strands = other.strands →
      world.Keeps another := fun hkeeps hstrands =>
    hkeeps.trans <| .of_eq fun place number => by simp only [World.cell?, World.strand?, hstrands]
  have hrule : Rule scope world.Keeps fun (_ : Suspension β) => world.Keeps := {
    ended := fun _ _ h => h
    answer := fun query other h => h.trans (World.frame_answer scope query other).keeps
    turn := fun _ _ _ h => hsame h rfl
    timer := fun _ _ _ _ h _ => hsame h rfl
    moment := fun _ _ _ h => hsame h rfl
    event := fun _ _ _ _ h => hsame h rfl
    prepared := fun index _ initializer _ other h _ _ =>
      hsame (h.trans (initializer.frame_run _ other).keeps) rfl
    complete := fun _ _ _ _ _ h _ _ => h.trans (World.keeps_begin _ _ _ _)
    waits := fun _ _ _ _ _ _ h _ _ => h.trans (World.keeps_begin _ _ _ _)
    cancelled := fun _ _ _ _ _ h _ _ => h.trans (World.keeps_begin _ _ _ _) }
  exact hrule.run routine (.refl world)

theorem within_run (scope : Scope) (routine : Routine β) (world : World α) :
    World.Adds (Occurrence.Within scope.strand scope.thread) world
      (routine.run scope world).1 := by
  have hrule : Rule scope (World.Adds (Occurrence.Within scope.strand scope.thread) world)
      fun (_ : Suspension β) => World.Adds (Occurrence.Within scope.strand scope.thread) world := {
    ended := fun _ _ h => h
    answer := fun query other h => h.trans
      ((World.adds_answer scope query other).mono fun _ h => h.within)
    turn := fun _ _ _ h => h.trans (.of_record_eq rfl)
    timer := fun _ _ _ _ h _ => h.trans (.of_record_eq rfl)
    moment := fun _ _ _ h => h.trans (.of_record_eq rfl)
    event := fun _ _ _ _ h => h.trans (.of_record_eq rfl)
    prepared := by
      intro index _ initializer _ other h _ _
      let inner : Scope := { scope with step := some index, cell := none }
      exact (h.trans ((initializer.adds_run inner other).mono fun _ h => h.within)).trans
        (World.adds_write ⟨rfl, .inr rfl⟩ _)
    complete := fun _ _ _ _ _ h _ _ => h.trans (World.within_begin _ _ _ _)
    waits := fun _ _ _ _ _ _ h _ _ => h.trans (World.within_begin _ _ _ _)
    cancelled := fun _ _ _ _ _ h _ _ => h.trans (World.within_begin _ _ _ _) }
  exact hrule.run routine (.refl world)

end Routine

namespace World

variable {α : Type}

theorem keeps_turn {β : Type} (scope : Scope) (waiting : Waiting β) (isCancelled : Bool)
    (world : World α) : Keeps world (world.turn scope waiting isCancelled).1 :=
  turn_induction (frame_unwind ..).keeps
    (resumed_induction (.refl world) fun _ _ _ _ => .of_eq fun _ _ => rfl)
    fun other routine h => h.trans (routine.keeps_run scope other)

theorem within_turn_of_resumed {β : Type} (scope : Scope) (waiting : Waiting β) (world : World α) :
    Adds (Occurrence.Within scope.strand scope.thread) (world.resumed scope waiting).1
      (world.turn scope waiting false).1 := by
  simp only [turn, Bool.false_eq_true, if_false]
  rcases world.resumed scope waiting with ⟨middle, routine⟩
  have hrun := routine.within_run scope middle
  rcases hend : routine.run scope middle with ⟨after, suspension⟩
  rw [hend] at hrun
  cases suspension <;> exact hrun

theorem within_turn {β : Type} (scope : Scope) (waiting : Waiting β) (isCancelled : Bool)
    (world : World α) : Adds (Occurrence.Within scope.strand scope.thread) world
      (world.turn scope waiting isCancelled).1 := by
  cases isCancelled with
  | true => exact adds_unwind (fun _ => ⟨rfl, .inr rfl⟩) (fun _ _ => ⟨rfl, .inl rfl⟩) ..
  | false =>
      exact Adds.trans (resumed_induction (.refl world) fun _ _ _ _ =>
        adds_write ⟨rfl, .inr rfl⟩ world) (within_turn_of_resumed scope waiting world)

theorem keeps_resume (strand : Nat) (thread : ThreadId) (world : World α) :
    Keeps world (world.resume strand thread) := by
  rcases world.resume_cases strand thread with ⟨hsame, -⟩ |
    ⟨β, step, cell, waiting, isCancelled, after, status, -, hturn, hstored⟩
  · rw [hsame]
    exact .refl world
  · have hrun := keeps_turn ⟨strand, thread, step, cell⟩ waiting isCancelled
      (world.modifyThread strand thread Thread.begin)
    rw [hturn] at hrun
    have hbegin := Keeps.of_eq (cell?_modifyThread strand thread Thread.begin world)
    exact (hbegin.trans hrun).trans (.of_eq hstored.cell)

theorem within_resume (strand : Nat) (thread : ThreadId) (world : World α) :
    Adds (Occurrence.Within strand thread) world (world.resume strand thread) := by
  rcases world.resume_cases strand thread with ⟨hsame, -⟩ |
    ⟨β, step, cell, waiting, isCancelled, after, status, -, hturn, hstored⟩
  · rw [hsame]
    exact .refl world
  · have hrun := within_turn ⟨strand, thread, step, cell⟩ waiting isCancelled
      (world.modifyThread strand thread Thread.begin)
    rw [hturn] at hrun
    exact (Adds.trans (.of_record_eq rfl) hrun).trans (.of_record_eq hstored.record)

theorem frame_deliver (strand child : Nat) (world : World α) :
    Frame world (world.deliver strand child) :=
  deliver_induction (.refl world) fun _ _ _ => frame_settle ..

theorem frame_fire (strand : Nat) (goal : Goal) (world : World α) :
    Frame world (world.fire strand goal) := by
  cases goal with
  | wake thread => exact frame_wake ..
  | complete cell result => exact frame_complete ..

theorem told_deliver (strand child : Nat) (world : World α) :
    Adds (Occurrence.Told strand) world (world.deliver strand child) :=
  deliver_induction (.refl world) fun _ _ _ =>
    adds_settle world (fun _ => ⟨rfl, rfl⟩) fun _ => ⟨rfl, rfl⟩

theorem told_fire (strand : Nat) (goal : Goal) (world : World α) :
    Adds (Occurrence.Told strand) world (world.fire strand goal) := by
  cases goal with
  | wake thread => exact adds_wake ..
  | complete cell result =>
      exact complete_induction (.refl world) fun _ =>
        adds_settle world (fun _ => ⟨rfl, rfl⟩) fun _ => ⟨rfl, rfl⟩

theorem keeps_perform (job : Job) (world : World α) : Keeps world (world.perform job) := by
  cases job with
  | resume strand thread => exact keeps_resume strand thread world
  | fire strand goal => exact (frame_fire strand goal world).keeps
  | deliver strand child => exact (frame_deliver strand child world).keeps
  | announce | supervise => exact .refl world

end World

end Cascade
