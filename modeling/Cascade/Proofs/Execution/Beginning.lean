import Cascade.Proofs.Execution.Completion

/-!
The beginning of an execution keeps the law of executions: the cell is opened, the command is called,
and the answer of the call is taken. At the end of the call the execution is closed, or it is
complete, or its caller has to wait for it.
-/

namespace Cascade

open Past

/-- Happenings that do not end the call of an execution. -/
def Past.Quiet (later : List Happening) : Prop :=
  ∀ happening ∈ later, happening.yielded? = none ∧ (∀ fault, happening ≠ .escaped fault) ∧
    happening ≠ .dropped

/-- An occurrence that does not end the call of an execution. -/
def Occurrence.IsQuiet (occurrence : Occurrence) : Prop :=
  ∀ place number happening, occurrence.happening? place number = some happening →
    happening.yielded? = none ∧ (∀ fault, happening ≠ .escaped fault) ∧ happening ≠ .dropped

theorem Occurrence.OfAnswer.happening {scope : Scope} {occurrence : Occurrence}
    (h : OfAnswer scope occurrence) {place number : Nat} {happening : Happening}
    (hhappening : occurrence.happening? place number = some happening) :
    (∃ result, happening = .completed result) ∨ ∃ outcome, happening = .ignored outcome := by
  cases h with
  | item content => cases hhappening
  | logged command message => cases hhappening
  | completed execution command result hcell =>
      simp only [happening?, Option.ite_none_right_eq_some, Option.some.injEq] at hhappening
      exact .inl ⟨result, hhappening.2.symm⟩
  | ignored execution command outcome hcell =>
      simp only [happening?, Option.ite_none_right_eq_some, Option.some.injEq] at hhappening
      exact .inr ⟨outcome, hhappening.2.symm⟩

theorem Occurrence.OfAnswer.isQuiet {scope : Scope} {occurrence : Occurrence}
    (h : OfAnswer scope occurrence) : occurrence.IsQuiet := by
  intro place number happening hhappening
  rcases h.happening hhappening with ⟨result, rfl⟩ | ⟨outcome, rfl⟩
  · exact ⟨rfl, by simp, fun h => by cases h⟩
  · exact ⟨rfl, by simp, fun h => by cases h⟩

theorem Occurrence.isQuiet_of_isReply {strand execution : Nat} {command : Command}
    {happening : Happening} (h : happening.isReply = true) :
    Occurrence.IsQuiet ⟨some strand, none, none, .execution execution command happening⟩ := by
  intro place number other hother
  simp only [happening?, Option.ite_none_right_eq_some, Option.some.injEq] at hother
  obtain ⟨-, rfl⟩ := hother
  cases happening <;> simp_all [Happening.isReply, Happening.yielded?]

theorem Past.Quiet.isClosed_append_iff {later past : List Happening} (h : Past.Quiet later) :
    IsClosed (later ++ past) ↔ IsClosed past := by
  induction later with
  | nil => rfl
  | cons happening rest ih =>
      obtain ⟨hyield, hescape, -⟩ := h happening (by simp)
      rw [List.cons_append, isClosed_cons_iff hyield hescape]
      exact ih fun other hmem => h other (List.mem_cons_of_mem _ hmem)

namespace World

variable {α : Type}

theorem strand?_of_posture? {world : World α} {place : Nat} {thread : ThreadId} {posture : Posture}
    (h : world.posture? place thread = some posture) :
    ∃ strand, world.strand? place = some strand := by
  cases hstrand : world.strand? place with
  | none => simp [posture?, hstrand] at h
  | some strand => exact ⟨strand, rfl⟩

theorem strand?_of_cell? {world : World α} {place number : Nat} {cell : Cell}
    (h : world.cell? place number = some cell) :
    ∃ strand, world.strand? place = some strand := by
  cases hstrand : world.strand? place with
  | none => simp [cell?, hstrand] at h
  | some strand => exact ⟨strand, rfl⟩

/-- The first happening of an execution fits the state in which its cell is opened. -/
def OpensWith (command : Command) (state : CellState) (happening : Happening) : Prop :=
  (∃ arguments, happening = .called arguments ∧ command.accepts arguments.kind = true ∧
      state = .pending) ∨
    ∃ arguments, happening = .refused arguments ∧ command.accepts arguments.kind = false ∧
      state = .settled (.failure command.name (refusal command.info arguments.kind))

section OpensWith

variable {command : Command} {state : CellState} {happening : Happening}

theorem OpensWith.opens (h : OpensWith command state happening) : Opens command [happening] := by
  refine ⟨[], happening, rfl, by simp, ?_⟩
  rcases h with ⟨arguments, rfl, haccepts, -⟩ | ⟨arguments, rfl, haccepts, -⟩
  · exact .inl ⟨arguments, rfl, haccepts⟩
  · exact .inr ⟨arguments, rfl, haccepts⟩

theorem OpensWith.accounts (h : OpensWith command state happening) :
    Accounts command [happening] state := by
  rcases h with ⟨arguments, rfl, -, rfl⟩ | ⟨arguments, rfl, -, rfl⟩
  · exact ⟨rfl, rfl, rfl, by simp⟩
  · exact ⟨rfl, rfl, .inl rfl, by simp⟩

theorem OpensWith.promise (h : OpensWith command state happening) :
    KeepsPromise command [happening] := by
  have hnothing : KeepsPromise command [] := ⟨by simp, fun later _ _ heq => by simp at heq⟩
  rcases h with ⟨arguments, rfl, -, -⟩ | ⟨arguments, rfl, -, -⟩
  · exact hnothing.cons rfl fun _ h => by cases h
  · exact hnothing.cons rfl fun _ h => by cases h

end OpensWith

theorem Sound.open {world : World α} (h : world.Sound) {scope : Scope} {command : Command}
    {state : CellState} {happening : Happening} (hopens : OpensWith command state happening)
    (hrunning : world.posture? scope.strand scope.thread = some .running) :
    ((world.openCell scope command state).noteExecution scope (world.cellCount scope.strand)
      command happening).Sound := by
  obtain ⟨strand, hstrand⟩ := strand?_of_posture? hrunning
  let number := world.cellCount scope.strand
  let opened := (world.openCell scope command state).noteExecution scope number command happening
  have hnone : world.cell? scope.strand number = none := world.cell?_cellCount scope.strand
  have hcells : ∀ place execution, opened.cell? place execution =
      if scope.strand = place ∧ number = execution then
        some ⟨command, scope.thread, scope.step, state, none⟩
      else world.cell? place execution := by
    intro place execution
    refine (cell?_openCell hstrand command state place execution).trans ?_
    simp only [eq_comm (a := execution), number]
  have hpasts : ∀ place execution, opened.past place execution =
      if scope.strand = place ∧ number = execution then [happening]
      else world.past place execution := by
    intro place execution
    refine (past_noteExecution ..).trans ?_
    split
    · rename_i heq
      obtain ⟨rfl, rfl⟩ := heq
      exact congrArg (List.cons happening) (h.unopened _ _ hnone)
    · rfl
  have hpostures : ∀ place thread, opened.posture? place thread = world.posture? place thread :=
    posture?_openCell scope command state world
  have hkept : ∀ {place execution cell}, world.cell? place execution = some cell →
      opened.cell? place execution = some cell ∧
        opened.past place execution = world.past place execution := by
    intro place execution cell hcell
    have hne : ¬ (scope.strand = place ∧ number = execution) := by
      rintro ⟨rfl, rfl⟩
      cases hnone.symm.trans hcell
    exact ⟨by rw [hcells, if_neg hne, hcell], by rw [hpasts, if_neg hne]⟩
  obtain ⟨hunopened, hbegun, haccounts, hpromise⟩ :=
    h.tallies.replace hcells hpasts hopens.opens hopens.accounts hopens.promise
  change opened.Sound
  refine ⟨hunopened, hbegun, haccounts, hpromise, fun place child execution delivers hchild => ?_,
    fun place execution cell hcell hopen => ?_, fun place thread execution wake hwaits => ?_⟩
  · obtain ⟨cell, hcell, howes⟩ := h.errand place child execution delivers
      ((errand?_openCell scope command state world place child).symm.trans hchild)
    obtain ⟨hlater, hsame⟩ := hkept hcell
    exact ⟨cell, hlater, hsame ▸ howes⟩
  · rw [hcells] at hcell
    rw [hpasts] at hopen
    rw [hpostures]
    split at hcell
    · rename_i heq
      obtain rfl := Option.some.inj hcell
      obtain ⟨rfl, rfl⟩ := heq
      rw [hrunning]
      trivial
    · rename_i hne
      rw [if_neg hne] at hopen
      exact h.attended place execution cell hcell hopen
  · rw [hpostures] at hwaits
    obtain ⟨cell, hcell, hcaller, hopen⟩ := h.awaited place thread execution wake hwaits
    obtain ⟨hlater, hsame⟩ := hkept hcell
    exact ⟨cell, hlater, hcaller, hsame ▸ hopen⟩

theorem Sound.spawn {world : World α} (h : world.Sound) {scope : Scope} {number : Nat} {cell : Cell}
    {delivers : Bool} (hcell : world.cell? scope.strand number = some cell)
    (howes : Owes cell.command delivers (world.past scope.strand number)) (body : Routine Value) :
    (world.spawn scope number delivers body).Sound := by
  obtain ⟨strand, hstrand⟩ := strand?_of_cell? hcell
  have hcells : ∀ place execution, (world.spawn scope number delivers body).cell? place execution =
      world.cell? place execution := cell?_spawn scope number delivers body world
  have hpostures := posture?_spawn hstrand number delivers body
  have hnone : world.posture? scope.strand (.child (world.childCount scope.strand)) = none :=
    posture?_childCount world scope.strand
  obtain ⟨hunopened, hopens, haccounts, hpromise⟩ := h.tallies.congr hcells fun _ _ => rfl
  refine ⟨hunopened, hopens, haccounts, hpromise, fun place child execution gives hchild => ?_,
    fun place execution found hfound hopen => ?_, fun place thread execution wake hwaits => ?_⟩
  · rw [hcells]
    rw [errand?_spawn hstrand] at hchild
    split at hchild
    · rename_i heq
      obtain ⟨rfl, -⟩ := heq
      simp only [Option.some.injEq, Prod.mk.injEq] at hchild
      obtain ⟨rfl, rfl⟩ := hchild
      exact ⟨cell, hcell, howes⟩
    · exact h.errand place child execution gives hchild
  · rw [hcells] at hfound
    have hattends := h.attended place execution found hfound hopen
    rw [hpostures]
    split
    · rename_i heq
      -- nobody can have asked for an execution under the number of the new thread
      obtain ⟨rfl, hcaller⟩ := heq
      rw [hcaller, hnone] at hattends
      exact hattends.elim
    · exact hattends
  · rw [hcells]
    rw [hpostures] at hwaits
    split at hwaits
    · cases hwaits
    · exact h.awaited place thread execution wake hwaits

theorem Sound.link {world : World α} (h : world.Sound) {place number : Nat} {cell : Cell}
    (hcell : world.cell? place number = some cell) (child : Nat) :
    (world.modifyCell place number fun cell => { cell with child := some child }).Sound := by
  refine h.change { cell with child := some child } [] (world.posture? place cell.caller) hcell
    (fun strand execution => ?_) (fun strand execution => ?_) (errand?_modifyCell _ _ _ _)
    (fun strand thread => ?_) rfl rfl (by simp) (h.accounts place number cell hcell)
    (h.promise place number cell hcell) (h.attended place number cell hcell) (.inl rfl)
    fun execution wake hwaits => ?_
  · rw [cell?_modifyCell]
    split
    · rename_i heq
      obtain ⟨rfl, rfl⟩ := heq
      rw [hcell]
      rfl
    · rfl
  · change world.past strand execution = _
    split
    · rename_i heq
      obtain ⟨rfl, rfl⟩ := heq
      rfl
    · rfl
  · rw [posture?_modifyCell]
    split
    · rename_i heq
      obtain ⟨rfl, rfl⟩ := heq
      rfl
    · rfl
  · refine ⟨fun hsame => ?_, wake, hwaits⟩
    obtain ⟨found, hfound, -, hopen⟩ := h.awaited place cell.caller execution wake hwaits
    exact hsame ▸ hopen

/-! ### Calls -/

/-- An execution during its call: nobody else can have closed it or given it up. -/
structure Calling (scope : Scope) (number : Nat) (command : Command) (world : World α) : Prop where
  sound : world.Sound
  running : world.posture? scope.strand scope.thread = some .running
  cell : ∃ cell, world.cell? scope.strand number = some cell ∧ cell.command = command ∧
    cell.caller = scope.thread
  isOpen : ¬ IsClosed (world.past scope.strand number)
  kept : .dropped ∉ world.past scope.strand number

/-- A change during a call that leaves the call as it was. -/
theorem Calling.step {scope : Scope} {number : Nat} {command : Command} {world other : World α}
    (h : Calling scope number command world) (hsound : other.Sound) (hframe : Frame world other)
    (hadds : Adds Occurrence.IsQuiet world other) : Calling scope number command other := by
  obtain ⟨later, hpast, hlater⟩ := hadds.past scope.strand number
  have hquiet : Past.Quiet later := by
    intro happening hmem
    obtain ⟨occurrence, hall, hhappening⟩ := hlater happening hmem
    exact hall _ _ _ hhappening
  obtain ⟨cell, hcell, hcommand, hcaller⟩ := h.cell
  obtain ⟨found, hfound, horigin⟩ := hframe.cell hcell
  obtain ⟨hsame, hthread⟩ : found.command = cell.command ∧ found.caller = cell.caller := by
    simp only [Cell.origin, Prod.mk.injEq] at horigin
    exact ⟨horigin.1, horigin.2.1⟩
  refine ⟨hsound, (hframe.running _ _).mpr h.running,
    ⟨found, hfound, hsame.trans hcommand, hthread.trans hcaller⟩, ?_, ?_⟩
  · rw [hpast, hquiet.isClosed_append_iff]
    exact h.isOpen
  · rw [hpast, List.mem_append]
    rintro (hmem | hmem)
    · exact (hquiet _ hmem).2.2 rfl
    · exact h.kept hmem

theorem Calling.state {scope : Scope} {number : Nat} {command : Command} {world : World α}
    (h : Calling scope number command world) :
    ∃ cell, world.cell? scope.strand number = some cell ∧ cell.command = command ∧
      cell.caller = scope.thread ∧
      (cell.state = .pending ∧ world.outcome? scope.strand number = none ∨
        ∃ outcome, cell.state = .settled outcome ∧
          world.outcome? scope.strand number = some outcome) := by
  obtain ⟨cell, hcell, hcommand, hcaller⟩ := h.cell
  refine ⟨cell, hcell, hcommand, hcaller, ?_⟩
  have haccounts := h.sound.accounts _ _ _ hcell
  cases hstate : cell.state with
  | pending => exact .inl ⟨rfl, by simp [outcome?, hcell, hstate]⟩
  | settled outcome => exact .inr ⟨outcome, rfl, by simp [outcome?, hcell, hstate]⟩
  | dropped =>
      rw [hstate] at haccounts
      obtain ⟨-, -, later, earlier, hpast, -⟩ := haccounts
      exact absurd (hpast ▸ by simp) h.kept

theorem Sound.answered {world : World α} (h : world.Sound) {place number : Nat} {cell : Cell}
    (hcell : world.cell? place number = some cell) {happening : Happening}
    (hreply : happening.isReply = true) (hignored : happening.ignored? = none)
    (hattempt : happening.attempt? cell.command
      (!(attempts cell.command (world.past place number)).isEmpty) = none)
    (hpromise : KeepsPromise cell.command (happening :: world.past place number)) :
    (world.tell place number cell.command happening).Sound := by
  have hquiet : happening.yielded? = none ∧ (∀ fault, happening ≠ .escaped fault) ∧
      happening ≠ .dropped ∧ happening.isOpening = false := by
    cases happening <;>
      simp_all [Happening.isReply, Happening.yielded?, Happening.isOpening]
  obtain ⟨hyield, hescape, hdrop, hopening⟩ := hquiet
  refine h.tell hcell hopening ?_ hpromise fun hnow => .inl ?_
  · exact (h.accounts place number cell hcell).cons hattempt hignored hyield hdrop
  · exact (isClosed_cons_iff hyield hescape).mp hnow

theorem Calling.takeReply {scope : Scope} {number : Nat} {command : Command} {world : World α}
    (h : Calling scope number command world)
    (hnone : (world.past scope.strand number).countP Happening.isPromise = 0) (reply : Reply) :
    Calling scope number command (world.takeReply scope command number reply) := by
  refine h.step ?_ (frame_takeReply ..)
    (adds_takeReply (fun _ _ hreply => Occurrence.isQuiet_of_isReply hreply) ..)
  obtain ⟨cell, hcell, rfl, hcaller, hstate⟩ := h.state
  have haccounts := h.sound.accounts _ _ _ hcell
  have hpromise := h.sound.promise _ _ _ hcell
  have hpast : ∀ happening, (world.tell scope.strand number cell.command happening).past
      scope.strand number = happening :: world.past scope.strand number := by
    intro happening
    rw [past_tell, if_pos ⟨rfl, rfl⟩]
  have hpromised : ∀ started, (world.tell scope.strand number cell.command
      (.promised started)).Sound := fun started =>
    h.sound.answered hcell rfl rfl rfl (hpromise.promise hnone started)
  have hreturned : ∀ value, Happening.attempt? cell.command
      (!(attempts cell.command (world.past scope.strand number)).isEmpty) (.returned value) = none →
      (world.tell scope.strand number cell.command (.returned value)).Sound := fun value hattempt =>
    h.sound.answered hcell rfl rfl hattempt (hpromise.cons rfl fun _ h => by cases h)
  rcases hstate with ⟨hpending, houtcome⟩ | ⟨outcome, hsettled, houtcome⟩
  · rw [hpending] at haccounts
    cases reply with
    | awaitable started body =>
        simp only [World.takeReply, houtcome]
        have howes : Owes cell.command true ((world.tell scope.strand number cell.command
            (.promised started)).past scope.strand number) := by
          rw [hpast]
          exact ⟨[], started, _, rfl, .inl haccounts.1⟩
        exact ((hpromised started).spawn hcell howes body).link
          ((cell?_spawn ..).trans hcell) _
    | value result =>
        simp only [World.takeReply, houtcome]
        split
        · rename_i hcallback
          exact hreturned result (by simp [Happening.attempt?, hcallback])
        · rename_i hcallback
          refine h.sound.settle hcell ?_ rfl fun _ h => by cases h
          simp [Happening.attempt?, hcallback, hpending, CellState.isSettled]
  · rw [hsettled] at haccounts
    have hcomplete : attempts cell.command (world.past scope.strand number) ≠ [] := by
      intro hempty
      simp [Accounts, hempty] at haccounts
    cases reply with
    | awaitable started body =>
        simp only [World.takeReply, houtcome]
        split
        · rename_i hstarted
          refine (hpromised started).spawn hcell ?_ body
          rw [hpast]
          exact ⟨[], started, _, rfl, .inr ⟨hstarted, rfl⟩⟩
        · exact hpromised started
    | value result =>
        simp only [World.takeReply, houtcome]
        exact hreturned result (by simp [Happening.attempt?, hcomplete])

/-- How an execution stands at the end of its call. -/
def Stands (scope : Scope) (number : Nat) (command : Command) (world : World α) : Begun → Prop
  | .complete outcome =>
      Calling scope number command world ∧ world.outcome? scope.strand number = some outcome
  | .waits other =>
      other = number ∧ Calling scope number command world ∧
        world.outcome? scope.strand number = none
  | .cancelled _ =>
      world.Sound ∧ world.posture? scope.strand scope.thread = some .running ∧
        IsClosed (world.past scope.strand number)

theorem Calling.standing {scope : Scope} {number : Nat} {command : Command} {world : World α}
    (h : Calling scope number command world) :
    Stands scope number command world (world.standing scope.strand number) := by
  rw [World.standing]
  cases houtcome : world.outcome? scope.strand number with
  | none => exact ⟨rfl, h, houtcome⟩
  | some outcome => exact ⟨h, houtcome⟩

theorem Calling.call {scope : Scope} {number : Nat} {command : Command} {world : World α}
    (h : Calling scope number command world)
    (hnone : (world.past scope.strand number).countP Happening.isPromise = 0)
    (arguments : Arguments) :
    Stands scope number command (world.call scope number command arguments).1
      (world.call scope number command arguments).2 := by
  have hsound := Action.sound_run { scope with cell := some number } (command.run arguments) h.sound
  have hframe := Action.frame_run { scope with cell := some number } (command.run arguments) world
  have hadds := Action.adds_run { scope with cell := some number } (command.run arguments) world
  cases hcall : (command.run arguments).run { scope with cell := some number } world with
  | mk middle result =>
      rw [hcall] at hsound hframe hadds
      have hmiddle : Calling scope number command middle :=
        h.step hsound hframe (hadds.mono fun _ hanswer => hanswer.isQuiet)
      obtain ⟨cell, hcell, rfl, hcaller⟩ := hmiddle.cell
      have haccounts := hmiddle.sound.accounts _ _ _ hcell
      have hpromise := hmiddle.sound.promise _ _ _ hcell
      simp only [World.call, hcall]
      cases result with
      | ok reply =>
          refine (hmiddle.takeReply ?_ reply).standing
          obtain ⟨later, hpast, hlater⟩ := hadds.past scope.strand number
          rw [hpast, List.countP_append, hnone, Nat.add_zero, List.countP_eq_zero]
          intro happening hmem
          obtain ⟨occurrence, hanswer, hhappening⟩ := hlater happening hmem
          rcases hanswer.happening hhappening with ⟨result, rfl⟩ | ⟨outcome, rfl⟩ <;> exact fun h => by cases h
      | error fault =>
          dsimp only
          split
          · refine ⟨?_, hmiddle.running, ?_⟩
            · refine hmiddle.sound.tell hcell rfl (haccounts.cons rfl rfl rfl (fun h => by cases h))
                (hpromise.cons rfl fun _ h => by cases h) fun _ => .inr ?_
              rw [hcaller]
              exact hmiddle.running
            · rw [past_tell, if_pos ⟨rfl, rfl⟩]
              exact .inr ⟨fault, by simp⟩
          · refine (hmiddle.step ?_ (frame_settle ..) (adds_settle _ ?_ ?_)).standing
            · exact hmiddle.sound.settle hcell rfl rfl fun _ h => by cases h
            · intro other place execution happening hhappening
              simp only [Occurrence.happening?, Option.ite_none_right_eq_some,
                Option.some.injEq] at hhappening
              obtain ⟨-, rfl⟩ := hhappening
              exact ⟨rfl, by simp, fun h => by cases h⟩
            · exact fun other => Occurrence.isQuiet_of_isReply rfl

/-! ### Turns -/

/-- A thread at its turn: it has got an outcome from every execution that it asked for, apart from
the one that it is going to wait for. -/
structure Turn (place : Nat) (thread : ThreadId) (awaits : Option Nat) (world : World α) :
    Prop where
  sound : world.Sound
  running : world.posture? place thread = some .running
  closed : ∀ number cell, world.cell? place number = some cell → cell.caller = thread →
    awaits ≠ some number → IsClosed (world.past place number)
  awaited : ∀ number, awaits = some number → ∃ cell, world.cell? place number = some cell ∧
    cell.caller = thread ∧ cell.state = .pending ∧ ¬ IsClosed (world.past place number)

/-- The execution that a caller has to wait for. -/
def awaits? : Begun → Option Nat
  | .waits number => some number
  | _ => none

theorem Adds.isClosed {allowed : Occurrence → Prop} {before after : World α}
    (h : Adds allowed before after) {place number : Nat}
    (hclosed : IsClosed (before.past place number)) : IsClosed (after.past place number) := by
  obtain ⟨later, hpast, -⟩ := h.past place number
  rw [hpast]
  clear hpast
  induction later with
  | nil => exact hclosed
  | cons happening rest ih => exact ih.cons happening

/-- Code that runs to its end at once leaves the turn as it was. -/
theorem Turn.step {place : Nat} {thread : ThreadId} {world other : World α}
    (h : Turn place thread none world) (hsound : other.Sound) (hframe : Frame world other)
    {allowed : Occurrence → Prop} (hadds : Adds allowed world other) :
    Turn place thread none other := by
  refine ⟨hsound, (hframe.running _ _).mpr h.running, ?_, fun _ h => by cases h⟩
  intro number cell hcell hcaller _
  obtain ⟨earlier, hearlier, horigin⟩ := hframe.cell_of_after hcell
  simp only [Cell.origin, Prod.mk.injEq] at horigin
  exact hadds.isClosed (h.closed number earlier hearlier (horigin.2.1.trans hcaller) (fun h => by cases h))

theorem Turn.open {scope : Scope} {world : World α} (h : Turn scope.strand scope.thread none world)
    {command : Command} {state : CellState} {happening : Happening}
    (hopens : OpensWith command state happening) :
    Calling scope (world.cellCount scope.strand) command
        ((world.openCell scope command state).noteExecution scope (world.cellCount scope.strand)
          command happening) ∧
      ((world.openCell scope command state).noteExecution scope (world.cellCount scope.strand)
        command happening).past scope.strand (world.cellCount scope.strand) = [happening] := by
  obtain ⟨strand, hstrand⟩ := strand?_of_posture? h.running
  have hnone := world.cell?_cellCount scope.strand
  have hpast : ((world.openCell scope command state).noteExecution scope
      (world.cellCount scope.strand) command happening).past scope.strand
        (world.cellCount scope.strand) = [happening] := by
    rw [past_noteExecution, if_pos ⟨rfl, rfl⟩]
    exact congrArg (List.cons happening) (h.sound.unopened _ _ hnone)
  refine ⟨⟨h.sound.open hopens h.running, ?_, ?_, ?_, ?_⟩, hpast⟩
  · exact (posture?_openCell scope command state world _ _).trans h.running
  · refine ⟨_, (cell?_openCell hstrand command state _ _).trans (if_pos ⟨rfl, rfl⟩), rfl, rfl⟩
  · rw [hpast]
    rcases hopens with ⟨arguments, rfl, -⟩ | ⟨arguments, rfl, -⟩ <;> simp [Past.IsClosed]
  · rw [hpast]
    rcases hopens with ⟨arguments, rfl, -⟩ | ⟨arguments, rfl, -⟩ <;> simp

theorem cell_of_openCell {scope : Scope} {world : World α} {strand : Strand α}
    (h : world.strand? scope.strand = some strand) {command : Command} {state : CellState}
    {number : Nat} {cell : Cell}
    (hcell : (world.openCell scope command state).cell? scope.strand number = some cell)
    (hne : number ≠ world.cellCount scope.strand) :
    world.cell? scope.strand number = some cell := by
  rw [cell?_openCell h, if_neg fun hall => hne hall.2] at hcell
  exact hcell

theorem Turn.enter {scope : Scope} {world : World α}
    (h : Turn scope.strand scope.thread none world) (command : Command) (arguments : Arguments) :
    ∃ state happening, OpensWith command state happening ∧
      Frame ((world.openCell scope command state).noteExecution scope
        (world.cellCount scope.strand) command happening)
        (world.enter scope (world.cellCount scope.strand) command arguments).1 ∧
      Adds (Occurrence.OfCall scope (world.cellCount scope.strand))
        ((world.openCell scope command state).noteExecution scope (world.cellCount scope.strand)
          command happening)
        (world.enter scope (world.cellCount scope.strand) command arguments).1 ∧
      Stands scope (world.cellCount scope.strand) command
        (world.enter scope (world.cellCount scope.strand) command arguments).1
        (world.enter scope (world.cellCount scope.strand) command arguments).2 := by
  rw [World.enter]
  split
  · rename_i haccepts
    have hopens : OpensWith command .pending (.called arguments) :=
      .inl ⟨arguments, rfl, haccepts, rfl⟩
    obtain ⟨hcalling, hpast⟩ := h.open hopens
    refine ⟨.pending, .called arguments, hopens, frame_call .., adds_call .., hcalling.call ?_ _⟩
    rw [hpast]
    rfl
  · rename_i haccepts
    have hopens : OpensWith command (.settled (.failure command.name
        (refusal command.info arguments.kind))) (.refused arguments) :=
      .inr ⟨arguments, rfl, by simpa using haccepts, rfl⟩
    obtain ⟨hcalling, -⟩ := h.open hopens
    obtain ⟨strand, hstrand⟩ := strand?_of_posture? h.running
    have hcell := (cell?_openCell hstrand command (.settled (.failure command.name
      (refusal command.info arguments.kind))) scope.strand (world.cellCount scope.strand)).trans
        (if_pos ⟨rfl, rfl⟩)
    refine ⟨_, _, hopens, .refl _, .refl _, hcalling, ?_⟩
    exact congrArg (Option.bind · _) hcell

theorem Turn.begin (scope : Scope) {world : World α}
    (h : Turn scope.strand scope.thread none world) (command : Command) (arguments : Arguments) :
    Turn scope.strand scope.thread (awaits? (world.begin scope command arguments).2)
      (world.begin scope command arguments).1 := by
  obtain ⟨strand, hstrand⟩ := strand?_of_posture? h.running
  obtain ⟨state, happening, hopens, hframe, hadds, hstands⟩ := h.enter command arguments
  obtain ⟨hopened, -⟩ := h.open hopens
  let number := world.cellCount scope.strand
  have hothers : ∀ execution cell,
      (world.enter scope number command arguments).1.cell? scope.strand execution = some cell →
      cell.caller = scope.thread → execution ≠ number →
        IsClosed ((world.enter scope number command arguments).1.past scope.strand execution) := by
    intro execution cell hcell hcaller hne
    obtain ⟨earlier, hearlier, horigin⟩ := hframe.cell_of_after hcell
    simp only [Cell.origin, Prod.mk.injEq] at horigin
    have hold := cell_of_openCell hstrand hearlier hne
    refine hadds.isClosed ?_
    rw [past_noteExecution, if_neg fun hall => hne hall.2.symm]
    exact h.closed execution earlier hold (horigin.2.1.trans hcaller) (fun h => by cases h)
  rcases hentered : world.enter scope number command arguments with ⟨entered, begun⟩
  rw [hentered] at hstands hothers
  simp only [World.begin]
  rw [hentered]
  cases begun with
  | complete outcome =>
      obtain ⟨hcalling, houtcome⟩ := hstands
      obtain ⟨cell, hcell, rfl, hcaller⟩ := hcalling.cell
      have hsettled : cell.state = .settled outcome := by
        simp only [outcome?, hcell, Option.bind_some] at houtcome
        split at houtcome
        · rename_i found hfound
          rw [hfound, Option.some.inj houtcome]
        · cases houtcome
      refine ⟨hcalling.sound.give scope hcell hsettled hcalling.isOpen (hcaller ▸ hcalling.running),
        hcalling.running, fun execution other hother hcaller' _ => ?_, fun _ h => by cases h⟩
      rw [past_noteExecution]
      split
      · exact .inl ⟨outcome, by simp⟩
      · rename_i hne
        exact hothers execution other hother hcaller' fun heq => hne ⟨rfl, heq.symm⟩
  | waits other =>
      obtain ⟨rfl, hcalling, houtcome⟩ := hstands
      obtain ⟨cell, hcell, rfl, hcaller, hstate⟩ := hcalling.state
      have hpending : cell.state = .pending := by
        rcases hstate with ⟨hpending, -⟩ | ⟨outcome, -, hsome⟩
        · exact hpending
        · rw [houtcome] at hsome
          cases hsome
      refine ⟨hcalling.sound, hcalling.running, fun execution found hfound hcaller' hne => ?_, ?_⟩
      · exact hothers execution found hfound hcaller' fun heq => hne (congrArg some heq.symm)
      · intro execution heq
        obtain rfl := Option.some.inj heq
        exact ⟨cell, hcell, hcaller, hpending, hcalling.isOpen⟩
  | cancelled fault =>
      obtain ⟨hsound, hrunning, hclosed⟩ := hstands
      refine ⟨hsound, hrunning, fun execution found hfound hcaller' _ => ?_, fun _ h => by cases h⟩
      by_cases heq : execution = number
      · exact heq ▸ hclosed
      · exact hothers execution found hfound hcaller' heq

end World

end Cascade
