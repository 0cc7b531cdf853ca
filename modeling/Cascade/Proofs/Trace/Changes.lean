import Cascade.Proofs.Trace.Chronicle

/-!
The changes that begin or end something fit the acts: an execution gets its cell, a thread is started,
gets its turn and gives it up, or is cancelled.
-/

namespace Cascade

namespace World

variable {α : Type} {programs : List (Routine α)} {held : Scope → Routine Value → Prop}
  {ending : Nat → ThreadId → Prop}
  {acts : List Act} {world other : World α} {strand : Nat}

/-! ### Executions and threads -/

theorem Grows.of_change {change : Shape α → Shape α}
    (hshape : ∀ place, other.shape? place =
      if strand = place then (world.shape? place).map change else world.shape? place)
    (hchange : ∀ shape : Shape α, shape.Grows (change shape)) : Grows world other := by
  intro place shape hsome
  rw [hshape]
  split
  · exact ⟨change shape, by rw [hsome, Option.map_some], hchange shape⟩
  · exact ⟨shape, hsome, .refl shape⟩

theorem exists_of_change {change : Shape α → Shape α}
    (hshape : ∀ place, other.shape? place =
      if strand = place then (world.shape? place).map change else world.shape? place)
    {place : Nat} {shape : Shape α} (hsome : other.shape? place = some shape) :
    (strand = place ∧ ∃ old, world.shape? place = some old ∧ shape = change old) ∨
      (strand ≠ place ∧ world.shape? place = some shape) := by
  rw [hshape] at hsome
  split at hsome
  · rename_i heq
    obtain ⟨old, hold, hchange⟩ := Option.map_eq_some_iff.mp hsome
    exact .inl ⟨heq, old, hold, hchange.symm⟩
  · rename_i hne
    exact .inr ⟨hne, hsome⟩

theorem cell_or_bare_of_openCell {scope : Scope} {command : Command} {state : CellState} {place number : Nat}
    {cell : Cell} (h : (world.openCell scope command state).cell? place number = some cell) :
    world.cell? place number = some cell ∨ cell.child = none := by
  cases hstrand : world.strand? scope.strand with
  | some current =>
      rw [cell?_openCell hstrand] at h
      split at h
      · obtain rfl := Option.some.inj h
        exact .inr rfl
      · exact .inl h
  | none =>
      rw [openCell, cell?, strand?_modifyStrand] at h
      split at h
      · rename_i heq
        rw [← heq, hstrand] at h
        cases h
      · exact .inl h

/-- An execution gets its cell. -/
theorem Chronicle.openCell (h : world.Chronicle programs held ending acts) (scope : Scope)
    (command : Command) (state : CellState) :
    (world.openCell scope command state).Chronicle programs held ending acts := by
  have hshape := shape?_openCell scope command state world
  have hposture := posture?_openCell scope command state world
  have hold : ∀ {place shape}, (world.openCell scope command state).shape? place = some shape →
      ∃ old, world.shape? place = some old ∧ old.Grows shape ∧ shape.root = old.root ∧
        shape.children = old.children := by
    intro place shape hsome
    rcases exists_of_change hshape hsome with ⟨-, old, hold, rfl⟩ | ⟨-, hsame⟩
    · exact ⟨old, hold, old.grows_opened _, rfl, rfl⟩
    · exact ⟨shape, hsame, .refl shape, rfl, rfl⟩
  have hgrows : Grows world (world.openCell scope command state) :=
    .of_change hshape fun shape => shape.grows_opened _
  have hcarries : Carries world (world.openCell scope command state) := by
    refine ⟨hgrows, fun place thread posture hsome => ⟨posture, (hposture place thread).trans hsome,
      fun _ _ => rfl⟩, fun _ _ _ hmem => hmem, fun place shape child thread result hsome hchild _ => ?_⟩
    obtain ⟨later, hlater, -⟩ := hgrows place shape hsome
    obtain ⟨old, hfound, -, -, hchildren⟩ := hold hlater
    obtain rfl := Option.some.inj (hfound.symm.trans hsome)
    exact ⟨later, hlater, hchildren ▸ hchild⟩
  refine h.change hcarries (.of_record_eq rfl) (fun _ _ _ hpledges => .inl hpledges)
    (fun place number cell child hcell hsome => ?_)
    (fun place shape first second one two hsome => ?_) (fun place shape hsome => ?_)
    fun place shape child thread hsome hchild => ?_
  · rcases cell_or_bare_of_openCell hcell with hbefore | hnone
    · exact h.adopted_later hcarries hbefore hsome
    · cases hnone.symm.trans hsome
  · obtain ⟨old, hfound, -, -, hchildren⟩ := hold hsome
    rw [hchildren]
    exact h.sole place old first second one two hfound
  · obtain ⟨old, hfound, hmore, hroot, -⟩ := hold hsome
    exact h.root_later hcarries hfound hroot hmore.invocations
  · obtain ⟨old, hfound, hmore, -, hchildren⟩ := hold hsome
    exact h.child_later hcarries hfound hmore (hchildren ▸ hchild) fun cell hcancelled =>
      (hposture place _).symm.trans hcancelled

theorem Chronicle.spawn (h : world.Chronicle programs held ending acts) {scope : Scope} {number : Nat}
    {shape : Shape α} (hshape : world.shape? scope.strand = some shape) {command : Command}
    (horigin : shape.cells[number]? = some (command, scope.thread, scope.step))
    (hfresh : ∀ (child : Nat) (thread : Thread Value), shape.children[child]? = some thread →
      thread.cell ≠ some number)
    {arguments : Arguments} (hcalled : .called arguments ∈ world.past scope.strand number)
    {doings : List Doing} {started : Bool} {body : Routine Value}
    (hplays : (command.run arguments).Plays doings (.ok (.awaitable started body)))
    (hbegun : ∃ act ∈ acts, act.scope.strand = scope.strand ∧
      act.doing.beginning? = some (number, arguments)) (delivers : Bool) :
    (world.spawn scope number delivers body).Chronicle programs held ending acts := by
  obtain ⟨current, hstrand, hcurrent⟩ := Option.map_eq_some_iff.mp hshape
  have hshapes := shape?_spawn scope number delivers body world
  have hposture := posture?_spawn hstrand number delivers body
  have hcount : world.childCount scope.strand = shape.children.length := by
    rw [childCount_eq_of_strand? hstrand, ← hcurrent, Strand.shape, List.length_map]
  have hgrows : Grows world (world.spawn scope number delivers body) :=
    .of_change hshapes fun shape => shape.grows_spawn _
  have hkept : ∀ {place thread posture}, world.posture? place thread = some posture →
      (world.spawn scope number delivers body).posture? place thread = some posture := by
    intro place thread posture hsome
    rw [hposture, if_neg]
    · exact hsome
    · rintro ⟨rfl, rfl⟩
      rw [posture?_childCount] at hsome
      cases hsome
  have hcarries : Carries world (world.spawn scope number delivers body) := by
    refine ⟨hgrows, fun place thread posture hsome => ⟨posture, hkept hsome, fun _ _ => rfl⟩,
      fun _ _ _ hmem => hmem, fun place shape child thread result hsome hchild _ => ?_⟩
    have hlater := hshapes place
    rw [hsome] at hlater
    split at hlater
    · exact ⟨_, hlater, List.getElem?_append_left (List.getElem?_eq_some_iff.mp hchild).1 ▸ hchild⟩
    · exact ⟨_, hlater, hchild⟩
  -- The threads of the strand are those it had and the new one, which belongs to the execution.
  let newborn : Thread Value := (Thread.start scope.step (some number) delivers body).calm
  have hthreads : ∀ {child : Nat} {thread : Thread Value},
      (shape.spawn newborn).children[child]? = some thread →
        shape.children[child]? = some thread ∨
          child = shape.children.length ∧ thread = newborn := Shape.of_getElem?_concat
  refine h.change hcarries (.of_record_eq rfl) (fun place execution result hpledges => .inl ?_)
    (fun place execution cell child hcell hsome => ?_)
    (fun place later first second one two hsome hone htwo hsame => ?_) (fun place later hsome => ?_)
    fun place later child thread hsome hchild => ?_
  · rcases hpledges with htimer | hjob
    · exact .inl htimer
    · rcases List.mem_append.mp hjob with hold | hnew
      · exact .inr hold
      · cases List.mem_singleton.mp hnew
  · rw [cell?_spawn] at hcell
    exact h.adopted_later hcarries hcell hsome
  · rcases exists_of_change hshapes hsome with ⟨rfl, old, hfound, rfl⟩ | ⟨-, hbefore⟩
    · obtain rfl := Option.some.inj (hshape.symm.trans hfound)
      rcases hthreads hone with hone | ⟨rfl, rfl⟩ <;> rcases hthreads htwo with htwo | ⟨rfl, rfl⟩
      · exact h.sole _ shape first second one two hfound hone htwo hsame
      · exact absurd hsame (hfresh first one hone)
      · exact absurd hsame.symm (hfresh second two htwo)
      · rfl
    · exact h.sole place later first second one two hbefore hone htwo hsame
  · rcases exists_of_change hshapes hsome with ⟨rfl, old, hfound, rfl⟩ | ⟨-, hbefore⟩
    · exact h.root_later hcarries hfound rfl rfl
    · exact h.root_later hcarries hbefore rfl rfl
  · have hold : ∀ {old}, world.shape? place = some old → old.Grows later →
        old.children[child]? = some thread → ∃ execution outer caller,
          (world.spawn scope number delivers body).Descends held ending acts place later child thread
            execution outer caller := by
      intro old hfound hmore hbefore
      obtain ⟨posture, hstands⟩ := exists_posture_of_shape? hfound hbefore
      refine h.child_later hcarries hfound hmore hbefore fun cell hcancelled => ?_
      rw [hstands, ← hkept hstands, hcancelled]
    rcases exists_of_change hshapes hsome with ⟨rfl, old, hfound, rfl⟩ | ⟨-, hbefore⟩
    · obtain rfl := Option.some.inj (hshape.symm.trans hfound)
      rcases hthreads hchild with hbefore | ⟨rfl, rfl⟩
      · exact hold hfound (shape.grows_spawn _) hbefore
      · have hunknown : Scope.labels ⟨scope.strand, .child shape.children.length, newborn.step,
            newborn.cell⟩ acts = [] := by
          refine Scope.labels_of_ne fun act hmem hown => ?_
          obtain ⟨posture, hstands⟩ := h.known act hmem
          rw [hown.1, hown.2, ← hcount, posture?_childCount] at hstands
          cases hstands
        refine ⟨number, command, scope.thread, rfl, horigin, fun cell hcancelled => ?_, arguments,
          doings, started, body, hcalled, hplays, ⟨acts, [], (List.append_nil acts).symm, hbegun,
            hunknown⟩, .inr (.inr ?_)⟩
        · rw [hposture, if_pos ⟨rfl, by rw [hcount]⟩] at hcancelled
          cases hcancelled
        · rw [hunknown]
          exact .refl _
    · exact hold hbefore (.refl later) hchild

theorem Chronicle.adopt (h : world.Chronicle programs held ending acts) {number child : Nat}
    {shape : Shape α} {thread : Thread Value} (hshape : world.shape? strand = some shape)
    (hchild : shape.children[child]? = some thread) (hcell : thread.cell = some number) :
    (world.modifyCell strand number fun cell => { cell with child := some child }).Chronicle programs
      held ending acts := by
  have hsame : SameShape world
      (world.modifyCell strand number fun cell => { cell with child := some child }) := by
    refine sameShape_modifyCell ?_ strand number world
    exact fun _ => rfl
  have hposture := posture?_modifyCell strand number (fun cell => { cell with child := some child })
    world
  have hcarries : Carries world
      (world.modifyCell strand number fun cell => { cell with child := some child }) :=
    ⟨.of_sameShape hsame, fun place thread posture hsome => ⟨posture,
      (hposture place thread).trans hsome, fun _ _ => rfl⟩, fun _ _ _ hmem => hmem,
      fun place shape _ _ _ hsome hchild _ => ⟨shape, (congrFun hsame place).trans hsome, hchild⟩⟩
  have hold : ∀ {place shape}, World.shape? (world.modifyCell strand number fun cell =>
      { cell with child := some child }) place = some shape → world.shape? place = some shape :=
    fun {place shape} hsome => (congrFun hsame place).symm.trans hsome
  refine h.change hcarries (.of_record_eq rfl) (fun _ _ _ hpledges => .inl hpledges)
    (fun place execution cell found hfound hsome => ?_)
    (fun place shape first second one two hsome =>
      h.sole place shape first second one two (hold hsome))
    (fun place shape hsome => ?_) fun place shape other thread hsome hother => ?_
  · rw [cell?_modifyCell] at hfound
    split at hfound
    · rename_i heq
      obtain ⟨rfl, rfl⟩ := heq
      obtain ⟨old, -, rfl⟩ := Option.map_eq_some_iff.mp hfound
      obtain rfl := Option.some.inj hsome
      exact ⟨shape, thread, (congrFun hsame strand).trans hshape, hchild, hcell⟩
    · exact h.adopted_later hcarries hfound hsome
  · exact h.root_later hcarries (hold hsome) rfl rfl
  · exact h.child_later hcarries (hold hsome) (.refl shape) hother fun cell hcancelled =>
      (hposture place _).symm.trans hcancelled

/-! ### Turns -/

/-- A thread stands differently, and nothing else is different but the shape of its strand. -/
structure Restates (strand : Nat) (thread : ThreadId) (posture : Posture)
    (change : Shape α → Shape α) (before after : World α) : Prop where
  shape : ∀ place, after.shape? place =
    if strand = place then (before.shape? place).map change else before.shape? place
  posture : ∀ place id, after.posture? place id =
    if strand = place ∧ thread = id then (before.posture? place id).map fun _ => posture
    else before.posture? place id
  cell : ∀ place number, after.cell? place number = before.cell? place number
  record : after.record = before.record
  pledges : ∀ place number result, after.Pledges place number result →
    before.Pledges place number result

section Restates

variable {thread : ThreadId} {posture : Posture} {change : Shape α → Shape α}
  {before middle after : World α}

theorem Restates.close {β : Type} (h : Restates strand thread posture change before after) (job : Job)
    (hjob : ∀ place goal, job ≠ .fire place goal) (status : ThreadStatus β) :
    Restates strand thread posture change before (after.close job status) := by
  cases status with
  | finished result =>
      refine ⟨h.shape, h.posture, h.cell, h.record, fun place number result hpledges => ?_⟩
      refine h.pledges place number result ?_
      rcases hpledges with htimer | hmem
      · exact .inl htimer
      · rcases List.mem_append.mp hmem with hold | hnew
        · exact .inr hold
        · exact absurd (List.mem_singleton.mp hnew).symm (hjob _ _)
  | running => exact h
  | waiting wait wake => exact h

theorem restates_begin_root (strand : Nat) (world : World α) :
    Restates strand .root .running (Shape.setRoot .running) world
      (world.modifyThread strand .root Thread.begin) :=
  ⟨shape?_modifyStrand (fun _ => rfl) strand world, posture?_begin strand .root world,
    cell?_modifyThread strand .root Thread.begin world, rfl, fun _ _ _ h => h⟩

theorem restates_setRoot (strand : Nat) (status : ThreadStatus α) (world : World α) :
    Restates strand .root status.posture (Shape.setRoot status.calm) world
      (world.setRoot strand status) :=
  ⟨shape?_modifyStrand (fun _ => rfl) strand world, posture?_setRoot strand status world,
    cell?_setRoot strand status world, rfl, fun _ _ _ h => h⟩

theorem restates_begin_child (strand number : Nat) (world : World α) :
    Restates strand (.child number) .running (Shape.setChild number .running) world
      (world.modifyThread strand (.child number) Thread.begin) :=
  ⟨shape?_modifyStrand (Shape.shape_setChild number .running) strand world,
    posture?_begin strand (.child number) world,
    cell?_modifyThread strand (.child number) Thread.begin world, rfl, fun _ _ _ h => h⟩

theorem restates_setChild (strand number : Nat) (status : ThreadStatus Value) (world : World α) :
    Restates strand (.child number) status.posture (Shape.setChild number status.calm) world
      (world.setChild strand number status) :=
  ⟨shape?_modifyStrand (Shape.shape_setChild number status) strand world,
    posture?_setChild strand number status world, cell?_setChild strand number status world, rfl,
    fun _ _ _ h => h⟩

theorem Restates.carries (h : Restates strand thread posture change before after)
    (hgrows : ∀ shape : Shape α, shape.Grows (change shape))
    (hawake : ∀ isCancelled, before.posture? strand thread ≠ some (.finished isCancelled))
    (hdone : ∀ (shape : Shape α) (child : Nat) (other : Thread Value) result,
      before.shape? strand = some shape → shape.children[child]? = some other →
        other.status = .finished result → (change shape).children[child]? = some other) :
    Carries before after := by
  refine ⟨.of_change h.shape hgrows, fun place id stance hstands => ?_,
    fun place number happening hmem => ?_, fun place shape child other result hsome hchild hresult => ?_⟩
  · rw [h.posture]
    split
    · rename_i heq
      obtain ⟨rfl, rfl⟩ := heq
      exact ⟨posture, by rw [hstands, Option.map_some], fun isCancelled hfinished =>
        absurd (hfinished ▸ hstands) (hawake isCancelled)⟩
    · exact ⟨stance, hstands, fun _ _ => rfl⟩
  · rwa [past, h.record]
  · have hlater := h.shape place
    rw [hsome] at hlater
    split at hlater
    · rename_i heq
      subst heq
      exact ⟨_, hlater, hdone shape child other result hsome hchild hresult⟩
    · exact ⟨_, hlater, hchild⟩

end Restates

theorem Chronicle.setRoot (h : world.Chronicle programs held ending acts) {status : ThreadStatus α}
    {posture : Posture} (hrestates : Restates strand .root posture (Shape.setRoot status) world other)
    (hawake : ∀ isCancelled, world.posture? strand .root ≠ some (.finished isCancelled))
    (htale : ∀ shape routine, world.shape? strand = some shape → programs[strand]? = some routine →
      other.IsLost ending strand .root ∨
        Stance.Tale True shape.invocations none (.starts routine)
          (Scope.labels ⟨strand, .root, none, none⟩ acts) status) :
    other.Chronicle programs held ending acts := by
  have hcarries := hrestates.carries (fun shape => shape.grows_setRoot status) hawake
    fun _ _ _ _ _ hchild _ => hchild
  refine h.change hcarries (.of_record_eq hrestates.record)
    (fun _ _ _ hpledges => .inl (hrestates.pledges _ _ _ hpledges))
    (fun place number cell child hcell hsome => ?_)
    (fun place shape first second one two hsome => ?_) (fun place shape hsome => ?_)
    fun place shape child thread hsome hchild => ?_
  · rw [hrestates.cell] at hcell
    exact h.adopted_later hcarries hcell hsome
  · rcases exists_of_change hrestates.shape hsome with ⟨-, old, hfound, rfl⟩ | ⟨-, hbefore⟩
    · exact h.sole place old first second one two hfound
    · exact h.sole place shape first second one two hbefore
  · rcases exists_of_change hrestates.shape hsome with ⟨rfl, old, hfound, rfl⟩ | ⟨-, hbefore⟩
    · obtain ⟨hstep, hcell, routine, hprogram, -⟩ := h.root _ old hfound
      exact ⟨hstep, hcell, routine, hprogram, htale old routine hfound hprogram⟩
    · exact h.root_later hcarries hbefore rfl rfl
  · have hspared : ∀ cell, other.posture? place (.child child) = some (.waits cell .cancelled) →
        world.posture? place (.child child) = some (.waits cell .cancelled) := by
      intro cell hcancelled
      rwa [hrestates.posture, if_neg (fun heq => by cases heq.2)] at hcancelled
    rcases exists_of_change hrestates.shape hsome with ⟨-, old, hfound, rfl⟩ | ⟨-, hbefore⟩
    · exact h.child_later hcarries hfound (old.grows_setRoot status) hchild hspared
    · exact h.child_later hcarries hbefore (.refl shape) hchild hspared

theorem Chronicle.setChild (h : world.Chronicle programs held ending acts) {number : Nat}
    {status : ThreadStatus Value} {posture : Posture}
    (hrestates : Restates strand (.child number) posture (Shape.setChild number status) world other)
    (hawake : ∀ isCancelled, world.posture? strand (.child number) ≠ some (.finished isCancelled))
    (hopen : ∀ shape thread result, world.shape? strand = some shape →
      shape.children[number]? = some thread → thread.status ≠ .finished result)
    (hspared : ∀ cell, posture ≠ .waits cell .cancelled)
    (htale : ∀ shape thread execution command caller, world.shape? strand = some shape →
      shape.children[number]? = some thread →
      world.Descends held ending acts strand shape number thread execution command caller →
      ∀ arguments doings started body, .called arguments ∈ world.past strand execution →
        (command.run arguments).Plays doings (.ok (.awaitable started body)) →
        Stance.Tale (held ⟨strand, .child number, thread.step, thread.cell⟩ body)
          shape.invocations thread.step (.starts body)
          (Scope.labels ⟨strand, .child number, thread.step, thread.cell⟩ acts) thread.status →
        world.IsLost ending strand caller ∨
          Stance.Tale (held ⟨strand, .child number, thread.step, thread.cell⟩ body)
            shape.invocations thread.step (.starts body)
            (Scope.labels ⟨strand, .child number, thread.step, thread.cell⟩ acts) status) :
    other.Chronicle programs held ending acts := by
  have hcells : ∀ {shape : Shape α} {child : Nat} {thread : Thread Value},
      (shape.setChild number status).children[child]? = some thread →
        ∃ old, shape.children[child]? = some old ∧ old.cell = thread.cell := by
    intro shape child thread hchild
    rcases Shape.child_of_setChild hchild with ⟨-, hold⟩ | ⟨rfl, old, hold, rfl⟩
    · exact ⟨thread, hold, rfl⟩
    · exact ⟨old, hold, rfl⟩
  have hcarries : Carries world other := by
    refine hrestates.carries (fun shape => shape.grows_setChild number status) hawake ?_
    intro shape child thread result hsome hchild hresult
    have hne : number ≠ child := by
      rintro rfl
      exact hopen shape thread result hsome hchild hresult
    simp [Shape.setChild, hne, hchild]
  refine h.change hcarries (.of_record_eq hrestates.record)
    (fun _ _ _ hpledges => .inl (hrestates.pledges _ _ _ hpledges))
    (fun place execution cell child hcell hsome => ?_)
    (fun place shape first second one two hsome hone htwo hsame => ?_) (fun place shape hsome => ?_)
    fun place shape child thread hsome hchild => ?_
  · rw [hrestates.cell] at hcell
    exact h.adopted_later hcarries hcell hsome
  · rcases exists_of_change hrestates.shape hsome with ⟨-, old, hfound, rfl⟩ | ⟨-, hbefore⟩
    · obtain ⟨one', hone', hfirst⟩ := hcells hone
      obtain ⟨two', htwo', hsecond⟩ := hcells htwo
      exact h.sole place old first second one' two' hfound hone' htwo'
        (hfirst.trans (hsame.trans hsecond.symm))
    · exact h.sole place shape first second one two hbefore hone htwo hsame
  · rcases exists_of_change hrestates.shape hsome with ⟨-, old, hfound, rfl⟩ | ⟨-, hbefore⟩
    · exact h.root_later hcarries hfound rfl rfl
    · exact h.root_later hcarries hbefore rfl rfl
  · have hother : ∀ {old}, world.shape? place = some old → old.Grows shape →
        ¬ (strand = place ∧ number = child) → old.children[child]? = some thread →
          ∃ execution command caller, other.Descends held ending acts place shape child thread execution
            command caller := by
      intro old hfound hmore hne hbefore
      refine h.child_later hcarries hfound hmore hbefore fun cell hcancelled => ?_
      rwa [hrestates.posture, if_neg fun heq => hne ⟨heq.1, ThreadId.child.inj heq.2⟩] at hcancelled
    rcases exists_of_change hrestates.shape hsome with ⟨rfl, old, hfound, rfl⟩ | ⟨hne, hbefore⟩
    · rcases Shape.child_of_setChild hchild with ⟨hne, hbefore⟩ | ⟨rfl, before, hbefore, rfl⟩
      · exact hother hfound (old.grows_setChild number status) (fun heq => hne heq.2) hbefore
      · obtain ⟨execution, command, caller, hdescends⟩ :=
          h.children _ old number before hfound hbefore
        obtain ⟨arguments, doings, started, body, hpast, hplays, hbirth, hkept⟩ := hdescends.tale
        refine ⟨execution, command, caller, hdescends.cell, hdescends.origin,
          fun cell hcancelled => ?_, arguments, doings, started, body,
          hcarries.past _ _ _ hpast, hplays, hbirth, ?_⟩
        · rw [hrestates.posture, if_pos ⟨rfl, rfl⟩] at hcancelled
          obtain ⟨-, -, hposture⟩ := Option.map_eq_some_iff.mp hcancelled
          exact absurd hposture (hspared cell)
        · rcases hkept with hlost | hkept
          · exact .inl (hcarries.isLost hlost)
          · exact (htale old before execution command caller hfound hbefore hdescends arguments doings
              started body hpast hplays hkept).imp_left hcarries.isLost
    · exact hother hbefore (.refl shape) (fun heq => hne heq.1) hchild

/-! ### Cancelling -/

/-- A thread that an execution has started may be cancelled if the thread that asked for the
execution is about to end. -/
def Spared (ending : Nat → ThreadId → Prop) (world : World α) (strand : Nat) (thread : ThreadId) :
    Prop :=
  ∀ child, thread = .child child → ∀ (shape : Shape α) (other : Thread Value) number command caller
    step, world.shape? strand = some shape → shape.children[child]? = some other →
      other.cell = some number → shape.cells[number]? = some (command, caller, step) →
        ending strand caller

theorem Chronicle.mark (h : world.Chronicle programs held ending acts) {thread : ThreadId}
    (hspared : world.Spared ending strand thread) :
    (world.modifyThread strand thread (Thread.mark .cancelled)).Chronicle programs held ending acts := by
  have hsame := sameShape_mark .cancelled strand thread world
  have hposture := posture?_mark .cancelled strand thread world
  have hcarries : Carries world (world.modifyThread strand thread (Thread.mark .cancelled)) := by
    refine ⟨.of_sameShape hsame, fun place id posture hstands => ?_, fun _ _ _ hmem => hmem,
      fun place shape _ _ _ hsome hchild _ => ⟨shape, (congrFun hsame place).trans hsome, hchild⟩⟩
    rw [hposture, hstands]
    split
    · refine ⟨posture.mark .cancelled, rfl, fun isCancelled hfinished => ?_⟩
      subst hfinished
      rfl
    · exact ⟨posture, rfl, fun _ _ => rfl⟩
  have hold : ∀ {place shape},
      (world.modifyThread strand thread (Thread.mark .cancelled)).shape? place = some shape →
        world.shape? place = some shape :=
    fun {place shape} hsome => (congrFun hsame place).symm.trans hsome
  refine h.change hcarries (.of_record_eq rfl) (fun _ _ _ hpledges => .inl hpledges)
    (fun place number cell child hcell hsome => ?_)
    (fun place shape first second one two hsome =>
      h.sole place shape first second one two (hold hsome))
    (fun place shape hsome => ?_) fun place shape child other hsome hchild => ?_
  · rw [cell?_modifyThread] at hcell
    exact h.adopted_later hcarries hcell hsome
  · exact h.root_later hcarries (hold hsome) rfl rfl
  · obtain ⟨number, command, caller, hdescends⟩ :=
      h.children place shape child other (hold hsome) hchild
    obtain ⟨arguments, doings, started, body, hpast, hplays, hbirth, htale⟩ := hdescends.tale
    refine ⟨number, command, caller, hdescends.cell, hdescends.origin, fun cell hcancelled => ?_,
      arguments, doings, started, body, hpast, hplays, hbirth, htale.imp_left hcarries.isLost⟩
    by_cases hown : strand = place ∧ thread = .child child
    · obtain ⟨rfl, rfl⟩ := hown
      exact .inl (hspared child rfl shape other number command caller _ (hold hsome) hchild
        hdescends.cell hdescends.origin)
    · rw [hposture, if_neg hown] at hcancelled
      exact hcarries.isLost (hdescends.spared cell hcancelled)

theorem Chronicle.cancel (h : world.Chronicle programs held ending acts) {thread : ThreadId}
    (hspared : world.Spared ending strand thread) :
    (world.cancel strand thread).Chronicle programs held ending acts := by
  have hgrounds : ∀ (other : World α) number command, Grounds acts other
      ⟨some strand, none, none, .execution number command .dropped⟩ := by
    intro other number command place execution happening hhappening
    simp only [Occurrence.happening?] at hhappening
    split at hhappening
    · exact Option.some.inj hhappening ▸ trivial
    · cases hhappening
  have hdrop : ∀ number, Quiet (world.Grounds acts) (Reports acts) world (world.drop strand number) :=
    fun number => quiet_drop (hgrounds world) number world
  refine cancel_induction (.refl world) hdrop (fun middle hquiet => ?_) (h.mark hspared)
  have hgone := hquiet.trans (quiet_forget strand thread middle)
  have hstill : (middle.forget strand thread).Spared ending strand thread :=
    fun child heq shape other number command caller step hsome =>
      hspared child heq shape other number command caller step
        ((congrFun hgone.shape strand).symm.trans hsome)
  have hmarked := (h.quiet hgone).mark hstill
  exact hmarked.quiet (quiet_enqueue (fun _ _ _ h => by cases h) _)

end World

end Cascade
