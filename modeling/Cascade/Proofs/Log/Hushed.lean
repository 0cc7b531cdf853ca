import Cascade.Proofs.Context.Turns
import Cascade.Proofs.Log.Voice

/-!
Discreet commands add nothing to the error log of their own accord. In a run in which all commands are
discreet, whatever is added to the error log is said by the program of a chain.
-/

namespace Cascade

/-- The rights of code that adds nothing to the error log. -/
def Rights.discreet : Rights where
  asks query := query.said = []
  invokes := True
  prepares := True
  executes _ := True
  hears _ _ := True

/-- A command whose code adds nothing to the error log. -/
structure Command.IsDiscreet (command : Command) : Prop where
  initializer : ∀ action, command.initializer = some action → action.Minds .discreet fun _ => True
  run : ∀ arguments, (command.run arguments).Minds .discreet (Reply.Minds .discreet)

/-- An occurrence that adds to the error log only what the program of a chain says. -/
def Occurrence.IsProper (places : Nat → Prop) (occurrence : Occurrence) : Prop :=
  ∀ command message, occurrence.event = .logged command message →
    ∃ place, places place ∧ occurrence.strand = some place ∧ occurrence.thread = some .root ∧
      occurrence.step = none

/-- The scope of the program of a chain. -/
def Scope.IsChain (places : Nat → Prop) (scope : Scope) : Prop :=
  places scope.strand ∧ scope.thread = .root ∧ scope.step = none

/-- A strand whose commands are discreet, and whose other threads than that of the chain run discreet
code. -/
structure Shape.IsHushed {α : Type} (shape : Shape α) : Prop where
  commands : ∀ invocation ∈ shape.invocations, invocation.command.IsDiscreet
  root : shape.root.step = none
  children : ∀ thread ∈ shape.children, thread.status.Minds .discreet

namespace World

variable {α : Type} {places : Nat → Prop} {world next : World α} {scope : Scope}

/-- A state in which all commands and threads besides those of the chains are discreet, and always
were. -/
structure IsHushed (places : Nat → Prop) (world : World α) : Prop where
  registered : ∀ name command, world.surroundings.registry.lookup name = .ok command →
    command.IsDiscreet
  shapes : ∀ place shape, world.shape? place = some shape → places place ∧ shape.IsHushed
  record : ∀ occurrence ∈ world.record, occurrence.IsProper places

/-! ### Changes -/

theorem isProper_execution {strand : Option Nat} {thread : Option ThreadId} {step : Option Nat}
    {number : Nat} {command : Command} {happening : Happening} :
    Occurrence.IsProper places ⟨strand, thread, step, .execution number command happening⟩ :=
  fun _ _ h => by cases h

theorem isProper_item {strand : Option Nat} {thread : Option ThreadId} {step : Option Nat}
    {item : Item} : Occurrence.IsProper places ⟨strand, thread, step, .item item⟩ :=
  fun _ _ h => by cases h

theorem IsHushed.of_sameShape (h : world.IsHushed places) (hshape : SameShape world next)
    (hsurroundings : next.surroundings = world.surroundings)
    (hadds : Adds (Occurrence.IsProper places) world next) : next.IsHushed places := by
  refine ⟨hsurroundings ▸ h.registered, fun place shape hsome =>
    h.shapes place shape ((congrFun hshape place).symm.trans hsome), fun occurrence hmem => ?_⟩
  obtain ⟨added, hrecord, hadded⟩ := hadds
  rw [hrecord] at hmem
  rcases List.mem_append.mp hmem with hnew | hold
  · exact hadded occurrence hnew
  · exact h.record occurrence hold

theorem IsHushed.of_change (h : world.IsHushed places) {strand : Nat} (change : Shape α → Shape α)
    (hshape : ∀ place, next.shape? place =
      if strand = place then (world.shape? place).map change else world.shape? place)
    (hsurroundings : next.surroundings = world.surroundings) (hrecord : next.record = world.record)
    (hchange : ∀ shape : Shape α, shape.IsHushed → (change shape).IsHushed) : next.IsHushed places := by
  refine ⟨hsurroundings ▸ h.registered, fun place shape hsome => ?_, hrecord ▸ h.record⟩
  rw [hshape] at hsome
  split at hsome
  · obtain ⟨old, hold, rfl⟩ := Option.map_eq_some_iff.mp hsome
    exact ⟨(h.shapes place old hold).1, hchange old (h.shapes place old hold).2⟩
  · exact h.shapes place shape hsome

theorem IsHushed.settle (h : world.IsHushed places) (strand number : Nat) (happening : Happening)
    (outcome : Outcome) : (world.settle strand number happening outcome).IsHushed places :=
  h.of_sameShape (sameShape_settle ..) (mute_settle ..).surroundings
    (adds_settle world (fun _ => isProper_execution) fun _ => isProper_execution)

theorem IsHushed.complete (h : world.IsHushed places) (strand number : Nat)
    (result : Except Fault Value) : (world.complete strand number result).IsHushed places :=
  complete_induction h fun _ => h.settle ..

theorem IsHushed.tell (h : world.IsHushed places) (strand number : Nat) (command : Command)
    (happening : Happening) : (world.tell strand number command happening).IsHushed places :=
  h.of_sameShape (.of_strands_eq rfl) rfl (adds_write (isProper_execution) world)

theorem IsHushed.noteExecution (h : world.IsHushed places) (scope : Scope) (number : Nat)
    (command : Command) (happening : Happening) :
    (world.noteExecution scope number command happening).IsHushed places :=
  h.of_sameShape (.of_strands_eq rfl) rfl (adds_write (isProper_execution) world)

theorem IsHushed.cancel (h : world.IsHushed places) (strand : Nat) (thread : ThreadId) :
    (world.cancel strand thread).IsHushed places :=
  h.of_sameShape (sameShape_cancel ..) (mute_cancel ..).surroundings
    (adds_cancel (fun _ _ => isProper_execution) ..)

theorem IsHushed.deliver (h : world.IsHushed places) (strand child : Nat) :
    (world.deliver strand child).IsHushed places :=
  deliver_induction h fun _ _ _ => h.settle ..

theorem IsHushed.fire (h : world.IsHushed places) (strand : Nat) (goal : Goal) :
    (world.fire strand goal).IsHushed places := by
  cases goal with
  | wake thread => exact h.of_sameShape (sameShape_wake ..) (mute_wake ..).surroundings (adds_wake ..)
  | complete cell result => exact h.complete ..

/-! ### Code that runs at once -/

/-- Only the program of a chain may add to the error log. -/
theorem IsHushed.answer (h : world.IsHushed places) {query : Query}
    (hquery : query.said = [] ∨ scope.IsChain places) :
    (world.answer scope query).1.IsHushed places := by
  refine h.of_sameShape (sameShape_answer ..) ?_ ?_
  · have himprint := congrArg Imprint.surroundings (imprint_answer scope query world)
    rwa [Act.surroundings_mark] at himprint
  · cases query with
    | record command message =>
        obtain ⟨hplace, hroot, hstep⟩ := hquery.resolve_left (List.cons_ne_nil _ _)
        exact adds_write (fun _ _ _ => ⟨scope.strand, hplace, rfl, congrArg some hroot, hstep⟩) world
    | emit item => exact adds_write (isProper_item) world
    | complete result =>
        rw [World.answer]
        split
        · exact complete_induction (.refl world) fun _ =>
            adds_settle world (fun _ => isProper_execution) fun _ => isProper_execution
        · exact .refl world
    | completeLater delay result =>
        rw [World.answer]
        split
        · split <;> exact .of_record_eq rfl
        · exact .refl world
    | signal event => exact adds_signal event world
    | setState name entry =>
        rw [World.answer]
        split <;> exact .of_record_eq rfl
    | _ => exact .of_record_eq rfl

end World

theorem Action.isHushed_run {α β : Type} {places : Nat → Prop} {proper : β → Prop}
    {action : Action β} (hminds : action.Minds .discreet proper) (scope : Scope) {world : World α}
    (h : world.IsHushed places) :
    (action.run scope world).1.IsHushed places ∧
      ∀ value, (action.run scope world).2 = .ok value → proper value := by
  induction action generalizing world with
  | finish value => exact ⟨h, fun other hother => Except.ok.inj hother ▸ hminds⟩
  | fail fault => exact ⟨h, fun _ hvalue => by cases hvalue⟩
  | ask query next ih => exact ih _ (hminds.2 _ trivial) (h.answer (.inl hminds.1))

/-! ### Executions -/

namespace World

variable {α : Type} {places : Nat → Prop} {world next : World α}

theorem IsHushed.spawn (h : world.IsHushed places) (scope : Scope) (cell : Nat) (delivers : Bool)
    {body : Routine Value} (hbody : body.Minds .discreet) :
    (world.spawn scope cell delivers body).IsHushed places := by
  refine h.of_change _ (shape?_spawn scope cell delivers body world) rfl rfl fun shape hshape => ?_
  refine ⟨hshape.commands, hshape.root, fun thread hmem => ?_⟩
  rcases List.mem_append.mp hmem with hold | hnew
  · exact hshape.children thread hold
  · obtain rfl := List.mem_singleton.mp hnew
    exact hbody

theorem IsHushed.takeReply (h : world.IsHushed places) (scope : Scope) (command : Command)
    (cell : Nat) {reply : Reply} (hreply : reply.Minds .discreet) :
    (world.takeReply scope command cell reply).IsHushed places := by
  unfold World.takeReply
  split
  · split
    · exact (h.tell ..).spawn scope cell false hreply
    · exact h.tell ..
  · rename_i started body _
    have hspawned := (h.tell scope.strand cell command
      (.promised started)).spawn scope cell true hreply
    refine hspawned.of_sameShape (sameShape_modifyCell ?_ ..) rfl (.of_record_eq rfl)
    exact fun _ => rfl
  · exact h.tell ..
  · split
    · exact h.tell ..
    · exact h.settle ..

theorem IsHushed.call (h : world.IsHushed places) (scope : Scope) (number : Nat) {command : Command}
    (hcommand : command.IsDiscreet) (arguments : Arguments) :
    (world.call scope number command arguments).1.IsHushed places := by
  obtain ⟨hran, hreply⟩ :=
    Action.isHushed_run (hcommand.run arguments) { scope with cell := some number } h
  exact call_induction hran
    (fun _ reply hcall h => h.takeReply scope command number (hreply reply (congrArg Prod.snd hcall)))
    (fun _ _ h => h.tell ..) fun _ _ h => h.settle ..

/-- The execution of a discreet command. -/
theorem IsHushed.begin (h : world.IsHushed places) (scope : Scope) {command : Command}
    (hcommand : command.IsDiscreet) (arguments : Arguments) :
    (world.begin scope command arguments).1.IsHushed places := by
  have hopen : ∀ state, (world.openCell scope command state).IsHushed places := fun state =>
    h.of_change _ (shape?_openCell scope command state world) rfl rfl fun _ hshape =>
      ⟨hshape.commands, hshape.root, hshape.children⟩
  exact begin_induction (fun state _ => (hopen state).noteExecution ..)
    (fun _ h => h.call scope _ hcommand arguments) fun _ _ h => h.noteExecution ..

theorem IsHushed.isDiscreet_of_lookup (h : world.IsHushed places) {strand index : Nat}
    {invocation : Invocation}
    (hfound : ((world.strand? strand).bind fun strand => strand.invocations[index]?) =
      some invocation) : invocation.command.IsDiscreet := by
  obtain ⟨current, hstrand, hinvocation⟩ := Option.bind_eq_some_iff.mp hfound
  have hshape : world.shape? strand = some current.shape := by rw [shape?, hstrand]; rfl
  exact (h.shapes strand _ hshape).2.commands _ (List.mem_of_getElem? hinvocation)

end World

namespace Routine

variable {α β : Type} {places : Nat → Prop} {world : World α} {scope : Scope} {routine : Routine β}

theorem Calls.isDiscreet {step : Option Nat} {command : Command} {arguments : Arguments}
    {doing : Doing} {next : Outcome → Routine β}
    (calls : routine.Calls scope world step command arguments doing next)
    (h : world.IsHushed places) (hminds : scope.IsChain places ∨ routine.Minds .discreet) :
    command.IsDiscreet ∧ ∀ outcome, scope.IsChain places ∨ (next outcome).Minds .discreet := by
  cases calls with
  | execute found =>
      exact ⟨h.isDiscreet_of_lookup found, fun outcome => hminds.imp_right fun hminds =>
        hminds.2 outcome⟩
  | invoke known taken =>
      exact ⟨h.registered _ _ known, fun outcome => hminds.imp_right fun hminds => hminds.2 outcome⟩

theorem isHushed_prepared (h : world.IsHushed places) {index : Nat} {invocation : Invocation}
    {initializer : Action Unit} {middle : World α} {result : Except Fault Unit}
    (found : ((world.strand? scope.strand).bind fun strand => strand.invocations[index]?) =
      some invocation) (initial : invocation.command.initializer = some initializer)
    (ran : initializer.run { scope with step := some index, cell := none } world = (middle, result))
    (failure : Option Fault) : (middle.note scope (.prepared index failure)).IsHushed places := by
  have hran := (Action.isHushed_run ((h.isDiscreet_of_lookup found).initializer _ initial)
    { scope with step := some index, cell := none } h).1
  rw [ran] at hran
  exact hran.of_sameShape (.of_strands_eq rfl) rfl (World.adds_write (fun _ _ h => by cases h) middle)

theorem isHushed_run (hminds : scope.IsChain places ∨ routine.Minds .discreet)
    (h : world.IsHushed places) :
    (routine.run scope world).1.IsHushed places ∧
      (scope.IsChain places ∨ (routine.run scope world).2.status.Minds .discreet) := by
  have hstretch := routine.stretch scope world
  generalize routine.acts scope world = acts at hstretch
  generalize routine.run scope world = ended at hstretch ⊢
  induction hstretch with
  | finish | fail | unknown | lack | miss => exact ⟨h, .inr trivial⟩
  | @ask query next world _ _ _ ih =>
      refine ih (hminds.imp_right fun hminds => hminds.2 _ trivial) (h.answer ?_)
      exact hminds.symm.imp_left fun hminds => hminds.1
  | turn | timer | moment | event =>
      exact ⟨h.of_sameShape (.of_strands_eq rfl) rfl (.of_record_eq rfl), hminds⟩
  | happened _ _ ih => exact ih hminds h
  | ready _ _ _ ih => exact ih (hminds.imp_right fun hminds => hminds.2 none) h
  | prepared found initial ran _ _ ih =>
      exact ih (hminds.imp_right fun hminds => hminds.2 _) (isHushed_prepared h found initial ran _)
  | escaped found initial ran => exact ⟨isHushed_prepared h found initial ran _, .inr trivial⟩
  | @complete _ step _ arguments _ _ _ _ outcome _ _ calls begun _ ih =>
      obtain ⟨hcommand, hnext⟩ := calls.isDiscreet h hminds
      have hbegin := h.begin { scope with step := step } hcommand arguments
      rw [begun] at hbegin
      exact ih (hnext outcome) hbegin
  | @waits _ step _ arguments _ _ _ _ _ calls begun =>
      obtain ⟨hcommand, hnext⟩ := calls.isDiscreet h hminds
      have hbegin := h.begin { scope with step := step } hcommand arguments
      rw [begun] at hbegin
      exact ⟨hbegin, forall_or_left.mp hnext⟩
  | @cancelled _ step _ arguments _ _ _ _ _ calls begun =>
      have hbegin := h.begin { scope with step := step } (calls.isDiscreet h hminds).1 arguments
      rw [begun] at hbegin
      exact ⟨hbegin, .inr trivial⟩

end Routine

/-! ### Turns and steps -/

namespace World

variable {α : Type} {places : Nat → Prop} {world next : World α}

theorem IsHushed.turn {β : Type} (h : world.IsHushed places) {scope : Scope} {waiting : Waiting β}
    (hminds : scope.IsChain places ∨ waiting.Minds .discreet) (isCancelled : Bool) :
    (world.turn scope waiting isCancelled).1.IsHushed places ∧
      (scope.IsChain places ∨ (world.turn scope waiting isCancelled).2.Minds .discreet) := by
  cases isCancelled with
  | true =>
      refine ⟨h.of_sameShape (sameShape_unwind ..) ?_ ?_, .inr trivial⟩
      · exact (tells_turn scope waiting true world).surroundings
      · exact adds_unwind (fun _ => isProper_item) (fun _ _ => isProper_execution) ..
  | false =>
      have hresumed : (world.resumed scope waiting).1.IsHushed places ∧
          (scope.IsChain places ∨ (world.resumed scope waiting).2.Minds .discreet) := by
        cases waiting with
        | turn notice rest => exact ⟨h, hminds⟩
        | timer notice rest => exact ⟨h, hminds⟩
        | event name notice rest => exact ⟨h, hminds⟩
        | cell number rest =>
            simp only [World.resumed]
            split
            · exact ⟨h.noteExecution .., hminds.imp_right fun hminds => hminds _⟩
            · exact ⟨h, .inr trivial⟩
      rw [turn_of_not_cancelled]
      exact Routine.isHushed_run hresumed.2 hresumed.1

theorem IsHushed.close {β : Type} (h : world.IsHushed places) (job : Job) (status : ThreadStatus β) :
    (world.close job status).IsHushed places := by
  cases status <;> exact h.of_sameShape (.of_strands_eq rfl) rfl (.of_record_eq rfl)

theorem Resumes.isHushed {strand : Nat} {id : ThreadId} {acts : List Act}
    (h : Resumes strand world id acts next) (hworld : world.IsHushed places) :
    next.IsHushed places := by
  cases h with
  | idle => exact hworld
  | root current waiting isCancelled after status found due turn =>
      have hshape : world.shape? strand = some current.shape := by rw [shape?, found]; rfl
      obtain ⟨hplace, hcurrent⟩ := hworld.shapes strand _ hshape
      have hbegun : (world.modifyThread strand .root Thread.begin).IsHushed places := by
        refine hworld.of_change (Shape.setRoot .running)
          (shape?_modifyStrand (fun _ => rfl) strand world) rfl rfl fun shape hshape => ?_
        exact ⟨hshape.commands, hshape.root, hshape.children⟩
      let scope : Scope := ⟨strand, .root, current.root.step, current.root.cell⟩
      have hchain : scope.IsChain places ∨ waiting.Minds .discreet :=
        .inl ⟨hplace, rfl, hcurrent.root⟩
      have hafter := (hbegun.turn hchain isCancelled).1
      rw [turn] at hafter
      refine IsHushed.close (hafter.of_change (Shape.setRoot status.calm)
        (shape?_modifyStrand (fun _ => rfl) strand after) rfl rfl fun shape hshape => ?_) _ _
      exact ⟨hshape.commands, hshape.root, hshape.children⟩
  | child current number thread waiting isCancelled after status found child due turn =>
      have hshape : world.shape? strand = some current.shape := by rw [shape?, found]; rfl
      have hset : ∀ {status : ThreadStatus Value} {shape : Shape α}, status.Minds .discreet →
          shape.IsHushed → (shape.setChild number status).IsHushed := by
        intro status shape hstatus hshape
        refine ⟨hshape.commands, hshape.root, ?_⟩
        refine forall_mem_modify (fun thread _ => ?_) hshape.children number
        exact hstatus
      have hwaiting : waiting.Minds .discreet :=
        minds_of_due? ((hworld.shapes strand _ hshape).2.children _
          (List.mem_map_of_mem (List.mem_of_getElem? child))) due
      have hbegun : (world.modifyThread strand (.child number) Thread.begin).IsHushed places :=
        hworld.of_change (Shape.setChild number .running)
          (shape?_modifyStrand (Shape.shape_setChild number .running) strand world) rfl rfl
          fun _ hshape => hset trivial hshape
      let scope : Scope := ⟨strand, .child number, thread.step, thread.cell⟩
      have hdiscreet : scope.IsChain places ∨ waiting.Minds .discreet := .inr hwaiting
      obtain ⟨hafter, hends⟩ := hbegun.turn hdiscreet isCancelled
      rw [turn] at hafter hends
      have hstatus : status.Minds .discreet := hends.resolve_left fun hchain => by cases hchain.2.1
      refine IsHushed.close (hafter.of_change (Shape.setChild number status.calm)
        (shape?_modifyStrand (Shape.shape_setChild number status) strand after) rfl rfl
        fun _ hshape => hset ?_ hshape) _ _
      cases status <;> exact hstatus

theorem IsHushed.does {acts : List Act} (h : world.IsHushed places) (hdoes : world.Does acts next) :
    next.IsHushed places := by
  have hquiet : ∀ other : World α, other.strands = world.strands →
      other.surroundings = world.surroundings → other.record = world.record →
      other.IsHushed places := fun other hstrands hsame hrecord =>
    h.of_sameShape (.of_strands_eq hstrands) hsame (.of_record_eq hrecord)
  cases hdoes with
  | perform before after job hqueue =>
      have htaken := hquiet { world with queue := before ++ after } rfl rfl rfl
      cases job with
      | resume strand thread => exact (World.resumes strand thread _).isHushed htaken
      | fire strand goal => exact htaken.fire strand goal
      | deliver strand child => exact htaken.deliver strand child
      | announce | supervise => exact htaken
  | advance _ hnext =>
      obtain ⟨due, -, heq⟩ := Option.bind_eq_some_iff.mp hnext
      obtain rfl := Option.some.inj heq
      exact hquiet _ rfl rfl rfl
  | cancel strand => exact h.cancel strand .root
  | print item => exact h.of_sameShape (.of_strands_eq rfl) rfl (adds_write isProper_item world)
  | notify => exact hquiet _ rfl rfl rfl

theorem Course.isHushed {acts : List Act} {first : World α} (h : Course first acts world)
    (hfirst : first.IsHushed places) : world.IsHushed places := by
  induction h with
  | start => exact hfirst
  | step _ hdoes ih => exact ih.does hdoes

end World

end Cascade
