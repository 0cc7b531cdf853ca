import Cascade.Proofs.Chain.Deeds
import Cascade.Proofs.Trace.Changes

/-!
What a thread does at its turn fits the acts, up to the call of a command: questions, initializers and
the beginning of an execution.
-/

namespace Cascade

theorem Scope.labels_of_scope {own scope : Scope} {acts : List Act}
    (hscope : ∀ act ∈ acts, act.scope = scope) (hstrand : scope.strand = own.strand)
    (hthread : scope.thread = own.thread) (hcell : scope.cell = none ∨ scope.cell = own.cell) :
    own.labels acts = acts.map fun act => (scope.step, act.doing) := by
  induction acts with
  | nil => rfl
  | cons act rest ih =>
      have hact := hscope act List.mem_cons_self
      have hrest := ih fun other hmem => hscope other (List.mem_cons_of_mem _ hmem)
      rw [Scope.labels] at hrest ⊢
      rw [List.filterMap_cons_some (b := (scope.step, act.doing)), hrest]
      · rfl
      · rw [hact, if_pos ⟨hstrand, hthread, hcell⟩]

theorem Scope.labels_of_cell {own : Scope} {acts : List Act} {number : Nat}
    (hcell : ∀ act ∈ acts, act.scope.cell = some number) (hne : own.cell ≠ some number) :
    own.labels acts = [] := by
  refine List.filterMap_eq_nil_iff.mpr fun act hmem => if_neg fun hown => ?_
  rcases hown.2.2 with hnone | hsame
  · cases (hcell act hmem).symm.trans hnone
  · exact hne (hsame.symm.trans (hcell act hmem))

namespace World

variable {α : Type} {programs : List (Routine α)} {held : Scope → Routine Value → Prop}
  {ending : Nat → ThreadId → Prop}
  {acts : List Act} {world other : World α}

/-- A thread has its turn, and the acts so far fit. -/
structure Acting (programs : List (Routine α))
    (held : Scope → Routine Value → Prop) (ending : Nat → ThreadId → Prop)
    (invocations : List Invocation) (scope : Scope) (acts : List Act) (world : World α) : Prop where
  chronicle : world.Chronicle programs held ending acts
  running : world.posture? scope.strand scope.thread = some .running
  shape : ∃ shape, world.shape? scope.strand = some shape ∧ shape.invocations = invocations ∧
    ∀ number, scope.cell = some number → number < shape.cells.length

section Acting

variable {invocations : List Invocation} {scope : Scope}

theorem Grounds.of_happening {strand number : Nat} {thread : Option ThreadId} {step : Option Nat}
    {command : Command} {happening : Happening}
    (h : happening.Grounded acts world strand number) :
    world.Grounds acts ⟨some strand, thread, step, .execution number command happening⟩ := by
  intro place execution other hother
  simp only [Occurrence.happening?] at hother
  split at hother
  · rename_i heq
    obtain ⟨rfl, rfl⟩ := heq
    exact Option.some.inj hother ▸ h
  · cases hother

theorem Acting.quiet (h : Acting programs held ending invocations scope acts world)
    (hquiet : Quiet (world.Grounds acts) (Reports acts) world other) :
    Acting programs held ending invocations scope acts other := by
  obtain ⟨shape, hshape, hall⟩ := h.shape
  refine ⟨h.chronicle.quiet hquiet, ?_, shape, (congrFun hquiet.shape _).trans hshape, hall⟩
  rcases hquiet.posture _ _ _ h.running with hsame | ⟨cell, hwaits, -⟩
  · exact hsame
  · cases hwaits

theorem Acting.inner (h : Acting programs held ending invocations scope acts world) (step : Option Nat)
    {cell : Option Nat} (hcell : cell = none ∨ cell = scope.cell) :
    Acting programs held ending invocations { scope with step := step, cell := cell } acts world := by
  obtain ⟨shape, hshape, hinvocations, hbound⟩ := h.shape
  refine ⟨h.chronicle, h.running, shape, hshape, hinvocations, fun number hnumber => ?_⟩
  rcases hcell with hnone | hsame
  · cases hnone.symm.trans hnumber
  · exact hbound number (hsame.symm.trans hnumber)

theorem Acting.act (h : Acting programs held ending invocations scope acts world) (past : World α)
    (doing : Doing) (hbegun : ∀ number arguments, doing.beginning? = some (number, arguments) →
      .called arguments ∈ world.past scope.strand number ∨
        .refused arguments ∈ world.past scope.strand number)
    (hgot : ∀ number outcome, doing = .gets number outcome →
      .yielded outcome ∈ world.past scope.strand number) :
    Acting programs held ending invocations scope (acts ++ [past.act scope doing]) world :=
  have hacted : world.Chronicle programs held ending (acts ++ [past.act scope doing]) :=
    h.chronicle.act h.running hbegun hgot
  ⟨hacted, h.running, h.shape⟩

theorem Acting.note (h : Acting programs held ending invocations scope acts world) {event : Event}
    (hevent : ∀ number command happening, event ≠ .execution number command happening) :
    Acting programs held ending invocations scope acts (world.note scope event) := by
  refine h.quiet (quiet_write (fun place number happening hhappening => ?_) world)
  cases event with
  | execution other command found => exact absurd rfl (hevent other command found)
  | _ => cases hhappening

/-! ### Questions -/

theorem Acting.answer (h : Acting programs held ending invocations scope acts world) (query : Query) :
    Acting programs held ending invocations scope
      (acts ++ [world.act scope (.asks query (world.answer scope query).2)])
      (world.answer scope query).1 := by
  have hacted := h.act world (.asks query (world.answer scope query).2)
    (fun _ _ h => by cases h) (fun _ _ h => by cases h)
  have hsaid : ∀ event : Event, (∀ number command happening,
      event ≠ .execution number command happening) →
      Acting programs held ending invocations scope
        (acts ++ [world.act scope (.asks query (world.answer scope query).2)])
        (world.note scope event) := fun event hevent => hacted.note hevent
  have hreports : ∀ number result, scope.cell = some number →
      (Doing.asks query (world.answer scope query).2).report? = some result →
        Reports (acts ++ [world.act scope (.asks query (world.answer scope query).2)])
          scope.strand number result :=
    fun number result hcell hreport =>
      ⟨_, List.mem_append_right _ List.mem_cons_self, rfl, hcell, hreport⟩
  cases query with
  | emit content => exact hsaid _ (fun _ _ _ h => by cases h)
  | record command message => exact hsaid _ (fun _ _ _ h => by cases h)
  | complete result =>
      rw [World.answer] at hacted hreports ⊢
      cases hcell : scope.cell with
      | none => simpa only [hcell] using hacted
      | some number =>
          simp only [hcell] at hacted hreports ⊢
          exact hacted.quiet (quiet_complete world
            (fun _ => .of_happening (hreports number result rfl rfl)) fun _ _ => .of_happening trivial)
  | completeLater delay result =>
      rw [World.answer] at hacted hreports ⊢
      cases hcell : scope.cell with
      | none => simpa only [hcell] using hacted
      | some number =>
          simp only [hcell] at hacted hreports ⊢
          by_cases hpositive : delay.isPositive = true
          · simp only [if_pos hpositive] at hacted hreports ⊢
            refine hacted.quiet (quiet_schedule (fun other value hgoal => ?_) delay world)
            cases hgoal
            exact hreports number result rfl rfl
          · simp only [if_neg hpositive] at hacted hreports ⊢
            refine hacted.quiet (quiet_enqueue (fun place other value hfire => ?_) world)
            cases hfire
            exact hreports number result rfl rfl
  | signal event => exact hacted.quiet (quiet_signal event world)
  | setState name entry =>
      refine hacted.quiet ⟨sameShape_answer scope _ world, fun place thread posture hposture => .inl ?_,
        fun place number => ?_, ?_, fun place number result hpledges => .inl ?_⟩
      · rw [World.answer]
        cases scope.step with
        | none => exact hposture
        | some index =>
            refine (posture?_modifyStrand ?_ scope.strand world place thread).trans hposture
            intro strand id
            cases id <;> rfl
      · rw [World.answer]
        cases scope.step with
        | none => rfl
        | some index =>
            refine congrArg (Option.map Cell.child)
              (cell?_modifyStrand ?_ scope.strand world place number)
            exact fun _ => rfl
      · rw [World.answer]
        cases scope.step <;> exact .of_record_eq rfl
      · rw [World.answer] at hpledges
        cases hstep : scope.step with
        | none => simpa only [hstep] using hpledges
        | some index =>
            simp only [hstep] at hpledges
            exact hpledges
  | _ => exact hacted.quiet (.of_strands_eq rfl (.of_record_eq rfl) fun _ _ _ hpledges => .inl hpledges)

end Acting

end World

theorem Action.acting_run {α β : Type} {programs : List (Routine α)}
    {held : Scope → Routine Value → Prop} {ending : Nat → ThreadId → Prop} {invocations : List Invocation} {scope : Scope}
    (action : Action β) {acts : List Act} {world : World α}
    (h : world.Acting programs held ending invocations scope acts) :
    (action.run scope world).1.Acting programs held ending invocations scope
        (acts ++ action.acts scope world) ∧
      action.Plays ((action.acts scope world).map Act.doing) (action.run scope world).2 := by
  induction action generalizing acts world with
  | finish value => exact ⟨(List.append_nil acts).symm ▸ h, .finish value⟩
  | fail fault => exact ⟨(List.append_nil acts).symm ▸ h, .fail fault⟩
  | ask query next ih =>
      obtain ⟨hacting, hplays⟩ := ih (world.answer scope query).2 (h.answer query)
      rw [List.append_assoc] at hacting
      exact ⟨hacting, .ask query next _ _ _ hplays⟩

namespace World

variable {α : Type} {programs : List (Routine α)} {held : Scope → Routine Value → Prop}
  {ending : Nat → ThreadId → Prop}
  {acts : List Act} {world : World α} {invocations : List Invocation} {scope : Scope}

/-! ### Calls -/

/-- A call that has begun: its execution has a cell and no thread yet. -/
structure Beginning (scope : Scope) (number : Nat) (command : Command) (arguments : Arguments)
    (acts : List Act) (world : World α) : Prop where
  origin : ∃ shape, world.shape? scope.strand = some shape ∧
    shape.cells[number]? = some (command, scope.thread, scope.step) ∧
    ∀ (child : Nat) (thread : Thread Value), shape.children[child]? = some thread →
      thread.cell ≠ some number
  called : .called arguments ∈ world.past scope.strand number
  begun : ∃ act ∈ acts, act.scope.strand = scope.strand ∧
    act.doing.beginning? = some (number, arguments)

theorem Beginning.mono {number : Nat} {command : Command} {arguments : Arguments} {more : List Act}
    {other : World α} (h : Beginning scope number command arguments acts world)
    (hshape : SameShape world other)
    (hpast : ∀ happening ∈ world.past scope.strand number,
      happening ∈ other.past scope.strand number)
    (hmem : ∀ act ∈ acts, act ∈ more) : Beginning scope number command arguments more other := by
  obtain ⟨shape, hsome, hall⟩ := h.origin
  obtain ⟨act, hact, hbegins⟩ := h.begun
  exact ⟨⟨shape, (congrFun hshape _).trans hsome, hall⟩, hpast _ h.called,
    ⟨act, hmem act hact, hbegins⟩⟩

/-- What a call has come to. -/
theorem Beginning.ended {number : Nat} {command : Command} {arguments : Arguments}
    (h : Beginning scope number command arguments acts world) {doings : List Doing}
    {result : Except Fault Reply} (hplays : (command.run arguments).Plays doings result) :
    world.Called scope.strand number result := by
  obtain ⟨shape, hshape, horigin, -⟩ := h.origin
  exact ⟨shape, command, scope.thread, scope.step, arguments, doings, hshape, horigin, h.called, hplays⟩

theorem Acting.spawn {number : Nat} {command : Command} {arguments : Arguments}
    (h : world.Acting programs held ending invocations scope acts)
    (hbeginning : Beginning scope number command arguments acts world) {doings : List Doing}
    {started : Bool} {body : Routine Value}
    (hplays : (command.run arguments).Plays doings (.ok (.awaitable started body)))
    (delivers : Bool) :
    (world.spawn scope number delivers body).Acting programs held ending invocations scope acts ∧
      ∃ shape thread, (world.spawn scope number delivers body).shape? scope.strand = some shape ∧
        shape.children[world.childCount scope.strand]? = some thread ∧
          thread.cell = some number := by
  obtain ⟨shape, hshape, horigin, hfresh⟩ := hbeginning.origin
  obtain ⟨same, hsame, hinvocations, hbound⟩ := h.shape
  obtain rfl := Option.some.inj (hshape.symm.trans hsame)
  obtain ⟨current, hstrand, hcurrent⟩ := Option.map_eq_some_iff.mp hshape
  have hspawned := shape?_spawn scope number delivers body world scope.strand
  rw [if_pos rfl, hshape, Option.map_some] at hspawned
  refine ⟨⟨h.chronicle.spawn hshape horigin hfresh hbeginning.called hplays hbeginning.begun delivers,
    ?_, _, hspawned, hinvocations, hbound⟩, _,
    (Thread.start scope.step (some number) delivers body).calm, hspawned, ?_, rfl⟩
  · exact ((frame_spawn scope number delivers body world).running _ _).mpr h.running
  · rw [childCount_eq_of_strand? hstrand, Shape.spawn, ← hcurrent, Strand.shape]
    simp

theorem Acting.takeReply {number : Nat} {command : Command} {arguments : Arguments}
    (h : world.Acting programs held ending invocations scope acts)
    (hbeginning : Beginning scope number command arguments acts world) {doings : List Doing}
    {reply : Reply} (hplays : (command.run arguments).Plays doings (.ok reply)) :
    (world.takeReply scope command number reply).Acting programs held ending invocations scope acts := by
  have htold : ∀ happening, happening.Grounded acts world scope.strand number →
      (world.tell scope.strand number command happening).Acting programs held ending invocations scope
        acts := fun happening hgrounded => h.quiet (quiet_write (.of_happening hgrounded) world)
  have hpromised : ∀ started, Beginning scope number command arguments acts
      (world.tell scope.strand number command (.promised started)) := by
    refine fun started => hbeginning.mono (.of_strands_eq rfl) (fun happening hmem => ?_) fun _ h => h
    rw [past_tell, if_pos ⟨rfl, rfl⟩]
    exact List.mem_cons_of_mem _ hmem
  unfold World.takeReply
  split
  · rename_i started body _ _
    split
    · exact ((htold (.promised started) trivial).spawn (hpromised started) hplays false).1
    · exact htold (.promised started) trivial
  · rename_i started body _
    obtain ⟨hacting, shape, thread, hshape, hchild, hcell⟩ :=
      (htold (.promised started) trivial).spawn (hpromised started) hplays true
    obtain ⟨same, hsame, hall⟩ := hacting.shape
    refine ⟨hacting.chronicle.adopt hshape hchild hcell, ?_, same, ?_, hall⟩
    · rw [adopt, posture?_modifyCell]
      exact hacting.running
    · refine (congrFun (sameShape_modifyCell ?_ _ _ _) _).trans hsame
      exact fun _ => rfl
  · exact htold _ (hbeginning.ended hplays)
  · split
    · exact htold _ (hbeginning.ended hplays)
    · exact h.quiet (quiet_settle world (fun _ => .of_happening (hbeginning.ended hplays))
        fun _ => .of_happening trivial)

theorem Acting.call {number : Nat} {command : Command} {arguments : Arguments}
    (h : world.Acting programs held ending invocations scope acts)
    (hbeginning : Beginning scope number command arguments acts world) :
    (world.call scope number command arguments).1.Acting programs held ending invocations scope
        (acts ++ (command.run arguments).acts { scope with cell := some number } world) ∧
      (∀ fault, (world.call scope number command arguments).2 = .cancelled fault →
        fault.isCancellation = true ∧
          ∃ doings, (command.run arguments).Plays doings (.error fault)) := by
  let inner : Scope := { scope with cell := some number }
  have hinner : world.Acting programs held ending invocations inner acts := by
    obtain ⟨shape, hshape, hinvocations, -⟩ := h.shape
    obtain ⟨same, hsame, horigin, -⟩ := hbeginning.origin
    obtain rfl := Option.some.inj (hshape.symm.trans hsame)
    refine ⟨h.chronicle, h.running, shape, hshape, hinvocations, fun other hother => ?_⟩
    obtain rfl := Option.some.inj hother
    exact (List.getElem?_eq_some_iff.mp horigin).1
  obtain ⟨hran, hplays⟩ := (command.run arguments).acting_run hinner
  have hpast := (command.run arguments).adds_run inner world
  have hbegun := hbeginning.mono ((command.run arguments).sameShape_run inner world)
    (fun happening hmem => by
      obtain ⟨later, heq, -⟩ := hpast.past scope.strand number
      rw [heq]
      exact List.mem_append_right _ hmem)
    fun act hmem => List.mem_append_left ((command.run arguments).acts inner world) hmem
  have howned : (((command.run arguments).run inner world).1).Acting programs held ending invocations
      scope (acts ++ (command.run arguments).acts inner world) := by
    obtain ⟨shape, hshape, hall⟩ := h.shape
    exact ⟨hran.chronicle, hran.running, shape,
      (congrFun ((command.run arguments).sameShape_run inner world) _).trans hshape, hall⟩
  simp only [World.call]
  rcases hrun : (command.run arguments).run inner world with ⟨middle, result⟩
  rw [hrun] at hplays hbegun howned
  cases result with
  | ok reply =>
      exact ⟨howned.takeReply hbegun hplays, fun fault hcancelled => by
        cases hstanding : (middle.takeReply scope command number reply).outcome? scope.strand number <;>
          simp [World.standing, hstanding] at hcancelled⟩
  | error fault =>
      dsimp only
      by_cases hcancellation : fault.isCancellation = true
      · simp only [if_pos hcancellation]
        refine ⟨howned.quiet (quiet_write (.of_happening ⟨hcancellation, hbegun.ended hplays⟩) middle),
          fun other hother => ?_⟩
        obtain rfl := Begun.cancelled.inj hother
        exact ⟨hcancellation, _, hplays⟩
      · simp only [if_neg hcancellation]
        refine ⟨howned.quiet (quiet_settle middle (fun _ => .of_happening (hbegun.ended hplays))
          fun _ => .of_happening trivial), fun other hother => ?_⟩
        cases hstanding : World.outcome? (World.settle scope.strand number (.raised fault)
          (.failure command.name fault) middle) scope.strand number <;>
          simp [World.standing, hstanding] at hother

theorem Acting.openCell (h : world.Acting programs held ending invocations scope acts)
    (command : Command) (state : CellState) (happening : Happening)
    (hgrounded : ∀ other : World α,
      happening.Grounded acts other scope.strand (world.cellCount scope.strand)) :
    ((world.openCell scope command state).noteExecution scope (world.cellCount scope.strand) command
        happening).Acting programs held ending invocations scope acts ∧
      ∃ shape, ((world.openCell scope command state).noteExecution scope
          (world.cellCount scope.strand) command happening).shape? scope.strand = some shape ∧
        shape.cells[world.cellCount scope.strand]? = some (command, scope.thread, scope.step) ∧
        ∀ (child : Nat) (thread : Thread Value), shape.children[child]? = some thread →
          thread.cell ≠ some (world.cellCount scope.strand) := by
  obtain ⟨shape, hshape, hinvocations, hbound⟩ := h.shape
  obtain ⟨current, hstrand, hcurrent⟩ := Option.map_eq_some_iff.mp hshape
  have hnumber : world.cellCount scope.strand = shape.cells.length := by
    rw [cellCount_eq_of_strand? hstrand, ← hcurrent, Strand.shape, List.length_map]
  have hopened := shape?_openCell scope command state world scope.strand
  rw [if_pos rfl, hshape, Option.map_some] at hopened
  have hacting : (world.openCell scope command state).Acting programs held ending invocations scope acts := by
    refine ⟨h.chronicle.openCell scope command state,
      (posture?_openCell scope command state world _ _).trans h.running, _, hopened, hinvocations,
      fun number hcell => ?_⟩
    rw [Shape.opened, List.length_append]
    exact Nat.lt_add_right _ (hbound number hcell)
  refine ⟨hacting.quiet (quiet_write (.of_happening (hgrounded _)) _), _, hopened, ?_,
    fun child thread hchild hcell => ?_⟩
  · rw [hnumber, Shape.opened]
    exact List.getElem?_concat_length
  · obtain ⟨number, outer, caller, hdescends⟩ :=
      h.chronicle.children scope.strand shape child thread hshape hchild
    have hlt := (List.getElem?_eq_some_iff.mp hdescends.origin).1
    have hsame := Option.some.inj (hdescends.cell.symm.trans hcell)
    omega

theorem actsOfBegin_scope {step : Option Nat} {command : Command} {arguments : Arguments} {act : Act}
    (h : act ∈ world.actsOfBegin { scope with step := step } command arguments) :
    act.scope = { scope with step := step, cell := some (world.cellCount scope.strand) } := by
  rw [actsOfBegin] at h
  split at h
  · exact Action.scope_of_mem_acts h
  · cases h

/-- What is known of an execution when its call is over. -/
structure Opens (programs : List (Routine α))
    (held : Scope → Routine Value → Prop) (ending : Nat → ThreadId → Prop)
    (invocations : List Invocation) (scope : Scope) (acts : List Act) (number : Nat)
    (command : Command) (arguments : Arguments) (world : World α) (begun : Begun) : Prop where
  acting : world.Acting programs held ending invocations scope acts
  complete : ∀ outcome, begun = .complete outcome →
    .yielded outcome ∈ world.past scope.strand number
  waits : ∀ other, begun = .waits other → other = number
  cancelled : ∀ fault, begun = .cancelled fault → fault.isCancellation = true ∧
    ∃ doings, (command.run arguments).Plays doings (.error fault)

theorem Acting.begin (h : world.Acting programs held ending invocations scope acts) (step : Option Nat)
    (command : Command) {arguments : Arguments} {doing : Doing}
    (hdoing : doing.beginning? = some (world.cellCount scope.strand, arguments)) :
    Opens programs held ending invocations scope
      (acts ++ world.act scope doing ::
        world.actsOfBegin { scope with step := step } command arguments)
      (world.cellCount scope.strand) command arguments
      (world.begin { scope with step := step } command arguments).1
      (world.begin { scope with step := step } command arguments).2 := by
  let inner : Scope := { scope with step := step }
  let number := world.cellCount scope.strand
  have hinner : world.Acting programs held ending invocations inner acts := h.inner step (.inr rfl)
  have hacts : acts ++ world.act scope doing :: world.actsOfBegin inner command arguments =
      acts ++ [world.act scope doing] ++ world.actsOfBegin inner command arguments := by simp
  have hgets : ∀ other outcome, doing ≠ .gets other outcome := by
    rintro other outcome rfl
    cases hdoing
  have hact : ∀ {other : World α}, other.Acting programs held ending invocations inner acts →
      (.called arguments ∈ other.past scope.strand number ∨
        .refused arguments ∈ other.past scope.strand number) →
      other.Acting programs held ending invocations inner (acts ++ [world.act scope doing]) := by
    intro other hother hopened
    have hscope : other.Acting programs held ending invocations scope acts :=
      hother.inner scope.step (.inr rfl)
    refine Acting.inner (hscope.act world doing (fun found others hfound => ?_)
      fun found outcome hgot => absurd hgot (hgets found outcome)) step (.inr rfl)
    obtain ⟨rfl, rfl⟩ := Prod.mk.inj (Option.some.inj (hdoing.symm.trans hfound))
    exact hopened
  have hnoted : ∀ state happening, happening ∈ ((world.openCell inner command state).noteExecution
      inner number command happening).past scope.strand number := by
    intro state happening
    rw [past_noteExecution, if_pos ⟨rfl, rfl⟩]
    exact List.mem_cons_self
  have henter : (world.enter inner number command arguments).1.Acting programs held ending invocations
        inner (acts ++ world.act scope doing :: world.actsOfBegin inner command arguments) ∧
      (∀ other, (world.enter inner number command arguments).2 = .waits other → other = number) ∧
      ∀ fault, (world.enter inner number command arguments).2 = .cancelled fault →
        fault.isCancellation = true ∧
          ∃ doings, (command.run arguments).Plays doings (.error fault) := by
    rw [hacts, actsOfBegin, enter]
    by_cases haccepts : command.accepts arguments.kind = true
    · simp only [if_pos haccepts]
      obtain ⟨hopened, horigin⟩ := hinner.openCell command .pending (.called arguments) fun _ => trivial
      have hcalled := hnoted .pending (.called arguments)
      obtain ⟨hcall, hcancelled⟩ := (hact hopened (.inl hcalled)).call ⟨horigin, hcalled, world.act
        scope doing, List.mem_append_right _ List.mem_cons_self, rfl, hdoing⟩
      exact ⟨hcall, fun other hwaits => (eq_of_call _ hwaits).symm, hcancelled⟩
    · simp only [if_neg haccepts, List.append_nil]
      obtain ⟨hopened, -⟩ := hinner.openCell command
        (.settled (.failure command.name (refusal command.info arguments.kind)))
        (.refused arguments) fun _ => trivial
      exact ⟨hact hopened (.inr (hnoted _ _)), (fun _ h => by cases h), (fun _ h => by cases h)⟩
  rcases hentered : world.enter inner number command arguments with ⟨entered, begun⟩
  rw [hentered] at henter
  obtain ⟨hacting, hwaits, hcancelled⟩ := henter
  simp only [World.begin]
  rw [hentered]
  cases begun with
  | complete outcome =>
      refine ⟨Acting.inner (hacting.quiet (quiet_write (.of_happening trivial) entered)) scope.step
        (.inr rfl), fun other hother => ?_, (fun _ h => by cases h), (fun _ h => by cases h)⟩
      obtain rfl := Begun.complete.inj hother
      rw [past_noteExecution, if_pos ⟨rfl, rfl⟩]
      exact List.mem_cons_self
  | waits other =>
      exact ⟨hacting.inner scope.step (.inr rfl), (fun _ h => by cases h), hwaits,
        (fun _ h => by cases h)⟩
  | cancelled fault =>
      exact ⟨hacting.inner scope.step (.inr rfl), (fun _ h => by cases h), (fun _ h => by cases h),
        hcancelled⟩

end World

end Cascade
