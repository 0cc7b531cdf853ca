import Cascade.Proofs.Execution.FirstOutcome
import Cascade.Proofs.Trace.Turns

/-!
The history of a run. In every course the acts fit the states, whichever job comes next and whichever
chain is cancelled.
-/

namespace Cascade

namespace World

open Stance

variable {α β : Type} {programs : List (Routine α)} {held others : Scope → Routine Value → Prop}
  {ending : Nat → ThreadId → Prop} {acts more : List Act} {world next first last : World α}
  {invocations : List Invocation} {scope : Scope} {strand : Nat}

/-! ### Turns -/

theorem Acting.turn (h : world.Acting programs held ending invocations scope acts)
    (waiting : Waiting β) (hsettled : ∀ number rest, waiting = .cell number rest →
      ∃ cell outcome, world.cell? scope.strand number = some cell ∧
        world.outcome? scope.strand number = some outcome) :
    (world.turn scope waiting false).1.Acting programs held ending invocations scope
        (acts ++ world.actsOfTurn scope waiting false) ∧
      Moves invocations scope.step (.waits waiting)
        (scope.labels (world.actsOfTurn scope waiting false))
        (.rests (world.turn scope waiting false).2.calm) := by
  have hresumed : (world.resumed scope waiting).1.Acting programs held ending invocations scope
        (acts ++ world.actsOfResumed scope waiting) ∧
      Moves invocations scope.step (.waits waiting)
        (scope.labels (world.actsOfResumed scope waiting))
        (.goes (world.resumed scope waiting).2) := by
    cases waiting with
    | turn notice rest => exact ⟨(List.append_nil acts).symm ▸ h, .single (.turn notice rest)⟩
    | timer notice rest => exact ⟨(List.append_nil acts).symm ▸ h, .single (.timer notice rest)⟩
    | event name notice rest => exact ⟨(List.append_nil acts).symm ▸ h, .single (.event name notice rest)⟩
    | cell number rest =>
        obtain ⟨cell, outcome, hcell, houtcome⟩ := hsettled number rest rfl
        rw [resumed_cell hcell houtcome]
        simp only [actsOfResumed, houtcome, Option.map_some, Option.toList_some]
        let noted := world.noteExecution { scope with step := cell.step } number cell.command
          (.yielded outcome)
        have hnoted : noted.Acting programs held ending invocations scope acts :=
          h.quiet (quiet_write (.of_happening trivial) world)
        have hyielded : .yielded outcome ∈ noted.past scope.strand number := by
          rw [past_noteExecution, if_pos ⟨rfl, rfl⟩]
          exact List.mem_cons_self
        refine ⟨hnoted.act world (.gets number outcome) (fun _ _ h => by cases h)
          fun other value hgets => ?_, ?_⟩
        · cases hgets
          exact hyielded
        · rw [Scope.labels_cons]
          exact .single (.get number rest outcome)
  obtain ⟨hstart, hpath⟩ := hresumed
  obtain ⟨hacting, hrest⟩ := (world.resumed scope waiting).2.acting_run hstart
  rw [List.append_assoc] at hacting
  rw [turn_of_not_cancelled]
  simp only [actsOfTurn, Bool.false_eq_true, if_false, Scope.labels_append]
  exact ⟨hacting, hpath.trans hrest⟩

theorem Acting.unwind (h : world.Acting programs held ending invocations scope acts)
    (waiting : Waiting β) (hending : ending scope.strand scope.thread)
    (hcaller : ∀ number rest cell, waiting = .cell number rest →
      world.cell? scope.strand number = some cell → cell.caller = scope.thread) :
    (world.unwind scope waiting).Chronicle programs held ending
      (acts ++ world.actsOfUnwind scope waiting) := by
  have hleaves : ∀ notice : Option Item, (world.leave scope notice).Chronicle programs held ending
      (acts ++ (notice.map fun item => world.act scope (.leaves item)).toList) := by
    intro notice
    cases notice with
    | none => exact (List.append_nil acts).symm ▸ h.chronicle
    | some item =>
        have hacted := h.act world (.leaves item) (fun _ _ h => by cases h) (fun _ _ h => by cases h)
        have hnoted : (world.note scope (.item item)).Acting programs held ending invocations scope
            (acts ++ [world.act scope (.leaves item)]) := hacted.note (fun _ _ _ h => by cases h)
        exact hnoted.chronicle
  cases waiting with
  | turn notice rest => exact hleaves notice
  | timer notice rest => exact hleaves notice
  | event name notice rest => exact hleaves notice
  | cell number rest =>
      simp only [World.unwind, actsOfUnwind, List.append_nil]
      cases hchild : (world.cell? scope.strand number).bind Cell.child with
      | none => exact h.chronicle
      | some child =>
          obtain ⟨cell, hcell, hstarted⟩ := Option.bind_eq_some_iff.mp hchild
          have hasked := hcaller number rest cell rfl hcell
          obtain ⟨shape, thread, hshape, hthread, hown⟩ :=
            h.chronicle.adopted scope.strand number cell child hcell hstarted
          refine h.chronicle.cancel fun other heq same found execution command caller step hsame
            hfound hexecution horigin => ?_
          obtain rfl := ThreadId.child.inj heq
          obtain rfl := Option.some.inj (hshape.symm.trans hsame)
          obtain rfl := Option.some.inj (hthread.symm.trans hfound)
          obtain rfl := Option.some.inj (hown.symm.trans hexecution)
          rw [cells_of_cell? hcell hshape, Cell.origin] at horigin
          obtain ⟨-, rfl, -⟩ := Prod.mk.inj (Option.some.inj horigin) |>.imp_right Prod.mk.inj
          exact hasked ▸ hending

theorem posture_run_ne_cancelled (scope : Scope) (routine : Routine β) (world : World α)
    (cell : Option Nat) : (routine.run scope world).2.status.posture ≠ .waits cell .cancelled := by
  have hended : ∀ result : Except Fault β,
      (Suspension.ended result).status.posture ≠ .waits cell .cancelled := by
    intro result
    cases result <;> exact fun h => by cases h
  have hrule : Routine.Rule scope (fun _ : World α => True)
      fun (suspension : Suspension β) (_ : World α) =>
        suspension.status.posture ≠ .waits cell .cancelled := {
    ended := fun result _ _ => hended result
    answer := fun _ _ _ => trivial
    turn := fun _ _ _ _ => fun h => by cases h
    timer := fun _ _ _ _ _ _ => fun h => by cases h
    moment := fun _ _ _ _ => fun h => by cases h
    event := fun _ _ _ _ _ => fun h => by cases h
    prepared := fun _ _ _ _ _ _ _ _ => trivial
    complete := fun _ _ _ _ _ _ _ _ => trivial
    waits := fun _ _ _ _ _ _ _ _ _ => fun h => by cases h
    cancelled := fun _ _ _ fault _ _ _ _ => hended (.error fault) }
  exact hrule.run routine trivial

/-! ### Jobs -/

theorem Chronicle.hold (h : world.Chronicle programs held ending acts)
    (hidle : ∀ place child, world.posture? place (.child child) ≠ some .running) :
    world.Chronicle programs others ending acts := by
  refine { h with children := fun place shape child thread hsome hchild => ?_ }
  have hstatus : thread.status ≠ .running := by
    intro hrunning
    obtain ⟨current, hstrand, rfl⟩ := Option.map_eq_some_iff.mp hsome
    rw [Strand.shape, List.getElem?_map] at hchild
    obtain ⟨found, hfound, rfl⟩ := Option.map_eq_some_iff.mp hchild
    refine hidle place child ?_
    rw [posture?, hstrand, Option.bind_some, Strand.posture?, hfound, Option.map_some]
    rcases found with ⟨_, _, _, _ | _ | _⟩
    · rfl
    · cases hrunning
    · cases hrunning
  obtain ⟨number, command, caller, hdescends⟩ := h.children place shape child thread hsome hchild
  obtain ⟨arguments, doings, started, body, hpast, hplays, hbirth, htale⟩ := hdescends.tale
  exact ⟨number, command, caller, hdescends.cell, hdescends.origin, hdescends.spared, arguments,
    doings, started, body, hpast, hplays, hbirth, htale.imp_right fun htale => .inr (htale.moves hstatus)⟩

/-- The acts of a run so far fit a state in which no thread has its turn. -/
abbrev Recounts (programs : List (Routine α)) (acts : List Act) (world : World α) : Prop :=
  world.Chronicle programs (fun _ _ => True) (fun _ _ => False) acts

theorem calm_status_of_due? {thread : Thread β} {waiting : Waiting β} {isCancelled : Bool}
    (h : thread.due? = some (waiting, isCancelled)) :
    thread.calm.status = .waiting waiting .asleep := by
  rcases thread with ⟨_, _, _, _ | ⟨wait, wake⟩ | _⟩
  · cases h
  · cases wake <;> cases h <;> rfl
  · cases h

theorem Sound.awaits (h : world.Sound) {thread : ThreadId} {waiting : Waiting β} {isCancelled : Bool}
    (hstands : world.posture? strand thread =
      some (.waits waiting.cell? (if isCancelled then .cancelled else .woken)))
    (number : Nat) (rest : Outcome → Routine β) (hwaiting : waiting = .cell number rest) :
    (isCancelled = false → ∃ cell outcome, world.cell? strand number = some cell ∧
      world.outcome? strand number = some outcome) ∧
    ∀ cell, world.cell? strand number = some cell → cell.caller = thread := by
  subst hwaiting
  refine ⟨fun hfalse => ?_, fun cell hcell => ?_⟩
  · subst hfalse
    exact h.exists_settled hstands
  · obtain ⟨found, hfound, hcaller, -⟩ := h.awaited strand thread number _ hstands
    obtain rfl := Option.some.inj (hfound.symm.trans hcell)
    exact hcaller

theorem Restates.awaits {thread : ThreadId} {posture : Posture} {change : Shape α → Shape α}
    (h : Restates strand thread posture change world next) (hsound : world.Sound)
    {waiting : Waiting β} {isCancelled : Bool}
    (hstands : world.posture? strand thread =
      some (.waits waiting.cell? (if isCancelled then .cancelled else .woken)))
    (number : Nat) (rest : Outcome → Routine β) (hwaiting : waiting = .cell number rest) :
    (isCancelled = false → ∃ cell outcome, next.cell? strand number = some cell ∧
      next.outcome? strand number = some outcome) ∧
    ∀ cell, next.cell? strand number = some cell → cell.caller = thread := by
  have hcell := h.cell strand number
  rw [outcome?, hcell, ← outcome?]
  exact hsound.awaits hstands number rest hwaiting

theorem Chronicle.begin_root (h : world.Chronicle programs held ending acts) {shape : Shape α}
    {cell : Option Nat} {wake : Wake} (hshape : world.shape? strand = some shape)
    (hstands : world.posture? strand .root = some (.waits cell wake)) :
    (world.modifyThread strand .root Thread.begin).Acting programs held ending shape.invocations
      ⟨strand, .root, none, none⟩ acts := by
  have hrestates := restates_begin_root strand world
  refine ⟨h.setRoot hrestates (fun isCancelled hfinished => ?_)
    (fun _ _ _ _ => .inr (.inl ⟨rfl, trivial⟩)), ?_, ?_⟩
  · cases hstands.symm.trans hfinished
  · rw [hrestates.posture, if_pos ⟨rfl, rfl⟩, hstands, Option.map_some]
  · exact ⟨_, (hrestates.shape strand).trans (if_pos rfl) |>.trans (congrArg _ hshape), rfl,
      fun number hnumber => by cases hnumber⟩

theorem Chronicle.begin_child (h : world.Chronicle programs held ending acts) {shape : Shape α}
    {number : Nat} {thread : Thread Value} {waiting : Waiting Value} {cell : Option Nat} {wake : Wake}
    (hshape : world.shape? strand = some shape) (hchild : shape.children[number]? = some thread)
    (hstatus : thread.status = .waiting waiting .asleep)
    (hstands : world.posture? strand (.child number) = some (.waits cell wake))
    (hheld : ∀ execution command caller body,
      world.Descends held ending acts strand shape number thread execution command caller →
      Moves shape.invocations thread.step (.starts body)
        (Scope.labels ⟨strand, .child number, thread.step, thread.cell⟩ acts) (.waits waiting) →
      world.IsLost ending strand caller ∨
        held ⟨strand, .child number, thread.step, thread.cell⟩ body) :
    (world.modifyThread strand (.child number) Thread.begin).Acting programs held ending
      shape.invocations ⟨strand, .child number, thread.step, thread.cell⟩ acts := by
  have hrestates := restates_begin_child strand number world
  refine ⟨h.setChild hrestates (fun isCancelled hfinished => ?_)
    (fun same other result hsome hother hfinished => ?_) (fun _ h => by cases h)
    fun same other execution command caller hsome hother hdescends arguments doings started body
      hpast hplays htale => ?_, ?_, ?_⟩
  · cases hstands.symm.trans hfinished
  · obtain rfl := Option.some.inj (hshape.symm.trans hsome)
    obtain rfl := Option.some.inj (hchild.symm.trans hother)
    cases hstatus.symm.trans hfinished
  · obtain rfl := Option.some.inj (hshape.symm.trans hsome)
    obtain rfl := Option.some.inj (hchild.symm.trans hother)
    rw [hstatus] at htale
    exact (hheld execution command caller body hdescends (htale.moves fun h => by cases h)).imp_right
      fun hheld => .inl ⟨rfl, hheld⟩
  · rw [hrestates.posture, if_pos ⟨rfl, rfl⟩, hstands, Option.map_some]
  · refine ⟨_, (hrestates.shape strand).trans (if_pos rfl) |>.trans (congrArg _ hshape), rfl,
      fun execution hcell => ?_⟩
    obtain ⟨_, command, caller, hdescends⟩ := h.children strand _ number _ hshape hchild
    obtain rfl := Option.some.inj (hdescends.cell.symm.trans hcell)
    exact (List.getElem?_eq_some_iff.mp hdescends.origin).1

theorem Recounts.turn_root (h : world.Recounts programs acts) (hlawful : world.Lawful)
    {current : Strand α} {waiting : Waiting α} {isCancelled : Bool} {after : World α}
    {status : ThreadStatus α} (found : world.strand? strand = some current)
    (due : current.root.due? = some (waiting, isCancelled))
    (turn : (world.modifyThread strand .root Thread.begin).turn
      ⟨strand, .root, current.root.step, current.root.cell⟩ waiting isCancelled = (after, status)) :
    ((after.setRoot strand status).close (.announce strand) status).Recounts programs
      (acts ++ (world.modifyThread strand .root Thread.begin).actsOfTurn
        ⟨strand, .root, current.root.step, current.root.cell⟩ waiting isCancelled) := by
  have hshape : world.shape? strand = some current.shape := by rw [shape?, found]; rfl
  have hstands : world.posture? strand .root =
      some (.waits waiting.cell? (if isCancelled then .cancelled else .woken)) := by
    rw [posture?, found]
    exact congrArg some (Thread.due?_eq_some due)
  obtain ⟨hstep, hcell, routine, hprogram, htale⟩ := h.root strand _ hshape
  have hscope : (⟨strand, .root, current.root.step, current.root.cell⟩ : Scope) =
      ⟨strand, .root, none, none⟩ := by
    rw [show current.root.step = none from hstep, show current.root.cell = none from hcell]
  have hpath : Moves current.shape.invocations none (.starts routine)
      (Scope.labels ⟨strand, .root, none, none⟩ acts) (.waits waiting) := by
    rcases htale with hlost | htale
    · rcases hlost with hfalse | hfinished
      · exact hfalse.elim
      · cases hstands.symm.trans hfinished
    · have hstatus : current.shape.root.status = .waiting waiting .asleep := calm_status_of_due? due
      rw [hstatus] at htale
      exact htale.moves (fun h => by cases h)
  rw [hscope] at turn ⊢
  have hawaits := (restates_begin_root strand world).awaits hlawful.sound hstands
  cases isCancelled with
  | false =>
      obtain ⟨hacting, hmoves⟩ := (h.begin_root hshape hstands).turn waiting fun number rest hwaiting =>
        (hawaits number rest hwaiting).1 rfl
      rw [turn] at hacting hmoves
      refine hacting.chronicle.setRoot ((restates_setRoot strand status after).close
        (.announce strand) (fun _ _ h => by cases h) status) (fun isCancelled hfinished => ?_)
        fun shape other hsome hother => .inr (.inr ?_)
      · cases hacting.running.symm.trans hfinished
      · obtain ⟨same, hsame, hinvocations, -⟩ := hacting.shape
        obtain rfl := Option.some.inj (hsame.symm.trans hsome)
        obtain rfl := Option.some.inj (hprogram.symm.trans hother)
        rw [hinvocations, Scope.labels_append]
        exact hpath.trans hmoves
  | true =>
      let ending : Nat → ThreadId → Prop := fun place thread => place = strand ∧ thread = .root
      have hexpects : world.Chronicle programs (fun _ _ => True) ending acts :=
        h.expect fun _ _ h => h.elim
      have hstart := hexpects.begin_root hshape hstands
      have hunwound := hstart.unwind waiting ⟨rfl, rfl⟩ fun number rest cell hwaiting =>
        (hawaits number rest hwaiting).2 cell
      let status : ThreadStatus α := .finished (.error cancellation)
      obtain ⟨rfl, rfl⟩ := Prod.mk.inj turn
      have hrunning := ((frame_unwind (⟨strand, .root, none, none⟩ : Scope) waiting
        (world.modifyThread strand .root Thread.begin)).running strand .root).mpr hstart.running
      have hstored := (restates_setRoot strand status (World.unwind ⟨strand, .root, none, none⟩
        waiting (world.modifyThread strand .root Thread.begin))).close (.announce strand)
          (fun _ _ h => by cases h) status
      refine (hunwound.setRoot hstored (fun isCancelled hfinished => ?_)
        fun _ _ _ _ => .inl (.inl ⟨rfl, rfl⟩)).expect fun place thread hending => .inr ?_
      · cases hrunning.symm.trans hfinished
      · obtain ⟨rfl, rfl⟩ := hending
        rw [hstored.posture, if_pos ⟨rfl, rfl⟩, hrunning]
        rfl

theorem posture_turn_ne_cancelled (scope : Scope) (waiting : Waiting β) (world : World α)
    (cell : Option Nat) : (world.turn scope waiting false).2.posture ≠ .waits cell .cancelled := by
  rw [turn_of_not_cancelled]
  exact posture_run_ne_cancelled scope _ _ cell

theorem Recounts.turn_child (h : world.Recounts programs acts) (hlawful : world.Lawful)
    {current : Strand α} {number : Nat} {thread : Thread Value} {waiting : Waiting Value}
    {isCancelled : Bool} {after : World α} {status : ThreadStatus Value}
    (found : world.strand? strand = some current) (child : current.children[number]? = some thread)
    (due : thread.due? = some (waiting, isCancelled))
    (turn : (world.modifyThread strand (.child number) Thread.begin).turn
      ⟨strand, .child number, thread.step, thread.cell⟩ waiting isCancelled = (after, status)) :
    ∃ held, ((after.setChild strand number status).close (.deliver strand number) status).Chronicle
      programs held (fun _ _ => False)
      (acts ++ (world.modifyThread strand (.child number) Thread.begin).actsOfTurn
        ⟨strand, .child number, thread.step, thread.cell⟩ waiting isCancelled) := by
  let own : Scope := ⟨strand, .child number, thread.step, thread.cell⟩
  have hshape : world.shape? strand = some current.shape := by rw [shape?, found]; rfl
  have hchild : current.shape.children[number]? = some thread.calm := by
    rw [Strand.shape, List.getElem?_map, child, Option.map_some]
  have hstands : world.posture? strand (.child number) =
      some (.waits waiting.cell? (if isCancelled then .cancelled else .woken)) := by
    rw [posture?, found, Option.bind_some, Strand.posture?, child, Option.map_some]
    exact congrArg some (Thread.due?_eq_some due)
  have hstatus : thread.calm.status = .waiting waiting .asleep := calm_status_of_due? due
  have hawaits := (restates_begin_child strand number world).awaits hlawful.sound hstands
  have hfresh : ∀ held, world.Chronicle programs held (fun _ _ => False) acts := fun held =>
    h.hold fun place child => hlawful.idle place (.child child)
  cases isCancelled with
  | false =>
      let held : Scope → Routine Value → Prop := fun scope body =>
        scope.strand = strand → scope.thread = .child number → scope = own ∧
          Moves current.shape.invocations thread.step (.starts body) (own.labels acts) (.waits waiting)
      have hstart : (world.modifyThread strand (.child number) Thread.begin).Acting programs held
          (fun _ _ => False) current.shape.invocations own acts :=
        ((hfresh held).begin_child hshape hchild hstatus hstands
          fun _ _ _ _ _ hpath => .inr fun _ _ => ⟨rfl, hpath⟩ :)
      obtain ⟨hacting, hmoves⟩ := hstart.turn waiting fun number rest hwaiting =>
        (hawaits number rest hwaiting).1 rfl
      have hfair := posture_turn_ne_cancelled own waiting
        (world.modifyThread strand (.child number) Thread.begin)
      rw [turn] at hacting hmoves hfair
      refine ⟨held, hacting.chronicle.setChild ((restates_setChild strand number status after).close
        (.deliver strand number) (fun _ _ h => by cases h) status) (fun isCancelled hfinished => ?_)
        (fun shape other result hsome hother hfinished => ?_) hfair
        fun shape other execution command caller hsome hother hdescends arguments doings started body
          hpast hplays htale => .inr (.inr ?_)⟩
      · cases hacting.running.symm.trans hfinished
      · cases (child_status_of_running hsome hother hacting.running).symm.trans hfinished
      · rw [child_status_of_running hsome hother hacting.running] at htale
        obtain ⟨hown, hpath⟩ := htale.known rfl rfl
        obtain ⟨same, hsame, hinvocations, -⟩ := hacting.shape
        obtain rfl := Option.some.inj (hsame.symm.trans hsome)
        obtain ⟨hstep, -⟩ := Scope.mk.inj hown |>.2.2
        rw [hown, hstep, hinvocations, Scope.labels_append]
        exact hpath.trans hmoves
  | true =>
      let ending : Nat → ThreadId → Prop := fun place thread => place = strand ∧ thread = .child number
      let held : Scope → Routine Value → Prop := fun scope _ =>
        ¬ (scope.strand = strand ∧ scope.thread = .child number)
      let status : ThreadStatus Value := .finished (.error cancellation)
      have hexpects : world.Chronicle programs held ending acts :=
        (hfresh held).expect fun _ _ h => h.elim
      have hstart : (world.modifyThread strand (.child number) Thread.begin).Acting programs held
          ending current.shape.invocations own acts :=
        (hexpects.begin_child hshape hchild hstatus hstands fun _ _ _ _ hdescends _ =>
          .inl (hdescends.spared _ hstands) :)
      have hunwound := hstart.unwind waiting ⟨rfl, rfl⟩ fun number rest cell hwaiting =>
        (hawaits number rest hwaiting).2 cell
      obtain ⟨rfl, rfl⟩ := Prod.mk.inj turn
      have hrunning := ((frame_unwind own waiting
        (world.modifyThread strand (.child number) Thread.begin)).running strand
          (.child number)).mpr hstart.running
      have hstored := (restates_setChild strand number status (World.unwind own waiting
        (world.modifyThread strand (.child number) Thread.begin))).close (.deliver strand number)
          (fun _ _ h => by cases h) status
      refine ⟨held, (hunwound.setChild hstored (fun isCancelled hfinished => ?_)
        (fun shape other result hsome hother hfinished => ?_) (fun _ h => by cases h)
        fun shape other execution command caller hsome hother hdescends arguments doings started body
          hpast hplays htale => ?_).expect fun place thread hending => .inr ?_⟩
      · cases hrunning.symm.trans hfinished
      · cases (child_status_of_running hsome hother hrunning).symm.trans hfinished
      · rw [child_status_of_running hsome hother hrunning] at htale
        exact absurd ⟨rfl, rfl⟩ htale.known
      · obtain ⟨rfl, rfl⟩ := hending
        rw [hstored.posture, if_pos ⟨rfl, rfl⟩, hrunning]
        rfl

theorem Recounts.resumes (h : world.Recounts programs acts) (hlawful : world.Lawful)
    (hnext : next.Lawful) {id : ThreadId} (hresumes : Resumes strand world id more next) :
    next.Recounts programs (acts ++ more) := by
  cases hresumes with
  | idle => exact (List.append_nil acts).symm ▸ h
  | root current waiting isCancelled after status found due turn =>
      exact h.turn_root hlawful found due turn
  | child current number thread waiting isCancelled after status found child due turn =>
      obtain ⟨held, hchronicle⟩ := h.turn_child hlawful found child due turn
      exact hchronicle.hold fun place child => hnext.idle place (.child child)

theorem quiet_deliver (strand child : Nat) (world : World α) :
    Quiet (world.Grounds acts) (Reports acts) world (world.deliver strand child) := by
  cases hstrand : world.strand? strand with
  | none =>
      rw [deliver, hstrand]
      exact .refl world
  | some current =>
      cases hchild : current.children[child]? with
      | none =>
          simp only [deliver, hstrand, Option.bind_some, hchild]
          exact .refl world
      | some thread =>
          simp only [deliver, hstrand, Option.bind_some, hchild]
          split
          · rename_i number result _ hcell hresult
            split
            · refine quiet_settle world (fun command => .of_happening ?_)
                fun command => .of_happening trivial
              have hfinished : thread.status = .finished result := by
                rcases thread with ⟨_, _, _, _ | _ | other⟩
                · cases hresult
                · cases hresult
                · exact congrArg ThreadStatus.finished (Option.some.inj hresult)
              refine ⟨current.shape, child, thread.calm, by rw [shape?, hstrand]; rfl, ?_, hcell, ?_⟩
              · rw [Strand.shape, List.getElem?_map, hchild, Option.map_some]
              · rw [Thread.calm, hfinished]
                rfl
            · exact .refl world
          · exact .refl world

theorem Recounts.does (h : world.Recounts programs acts) (hlawful : world.Lawful)
    (hdoes : world.Does more next) : next.Recounts programs (acts ++ more) := by
  have hnext : next.Lawful := hlawful.step hdoes.step
  have hquiet : ∀ {other : World α}, Quiet (world.Grounds acts) (Reports acts) world other →
      other.Recounts programs (acts ++ []) :=
    fun hquiet => (List.append_nil acts).symm ▸ Chronicle.quiet h hquiet
  cases hdoes with
  | perform before after job hqueue =>
      have htaken : Quiet (world.Grounds acts) (Reports acts) world
          { world with queue := before ++ after } := by
        refine .of_strands_eq rfl (.of_record_eq rfl) fun place number result hpledges => .inl ?_
        refine hpledges.imp_right fun hmem => ?_
        rw [hqueue]
        rcases List.mem_append.mp hmem with hbefore | hafter
        · exact List.mem_append_left _ hbefore
        · exact List.mem_append_right _ (List.mem_cons_of_mem job hafter)
      cases job with
      | resume strand id =>
          exact Recounts.resumes (h.quiet htaken) (hlawful.of_eq rfl rfl) hnext
            (World.resumes strand id _)
      | fire strand goal =>
          cases goal with
          | wake thread => exact hquiet (htaken.trans (quiet_wake strand thread none _))
          | complete number result =>
              have hreport : Reports acts strand number result :=
                h.pledged strand number result (.inr (by rw [hqueue]; simp))
              exact hquiet (htaken.trans (quiet_complete _ (fun _ => .of_happening hreport)
                fun _ _ => .of_happening trivial))
      | deliver strand child => exact hquiet (htaken.trans ((quiet_deliver strand child _).mono (fun _ h => h)
            fun _ _ _ h => h))
      | announce strand => exact hquiet htaken
      | supervise => exact hquiet htaken
  | advance _ hadvance => exact hquiet (quiet_advance hadvance)
  | cancel strand =>
      exact (List.append_nil acts).symm ▸ Chronicle.cancel h fun child heq => by cases heq
  | print item =>
      exact hquiet (quiet_write (fun _ _ _ hhappening => by cases hhappening) world)
  | notify => exact hquiet (quiet_enqueue (fun _ _ _ hjob => by cases hjob) world)

/-! ### Runs -/

/-- At the beginning nothing has been done. -/
theorem Recounts.start (surroundings : Surroundings) (calls : Entries Nat)
    (chains : List (List Invocation × Routine α)) :
    (World.start surroundings calls
      (chains.map fun chain => Strand.start chain.1 chain.2)).Recounts (chains.map Prod.snd) [] := by
  have hstrand : ∀ {place shape}, (World.start surroundings calls
      (chains.map fun chain => Strand.start chain.1 chain.2)).shape? place = some shape →
      ∃ chain, chains[place]? = some chain ∧ shape = (Strand.start chain.1 chain.2).shape := by
    intro place shape hshape
    obtain ⟨strand, hstrand, rfl⟩ := Option.map_eq_some_iff.mp hshape
    obtain ⟨chain, hchain, rfl⟩ := Option.map_eq_some_iff.mp ((List.getElem?_map ..).symm.trans hstrand)
    exact ⟨chain, hchain, rfl⟩
  refine ⟨(fun _ h => by cases h), (fun _ h => by cases h), (fun _ h => by cases h),
    (fun _ _ _ h => by cases h), fun place number result hpledges => ?_,
    fun place number cell child hcell => ?_, fun place shape first second one two hshape hone => ?_,
    fun place shape hshape => ?_, fun place shape child thread hshape hchild => ?_⟩
  · rcases hpledges with ⟨timer, hmem, -⟩ | hmem
    · cases hmem
    · obtain ⟨place, -, heq⟩ := List.mem_map.mp hmem
      cases heq
  · rw [cell?] at hcell
    obtain ⟨strand, hsome, hfound⟩ := Option.bind_eq_some_iff.mp hcell
    obtain ⟨chain, -, rfl⟩ := Option.map_eq_some_iff.mp ((List.getElem?_map ..).symm.trans hsome)
    cases hfound
  · obtain ⟨chain, -, rfl⟩ := hstrand hshape
    cases hone
  · obtain ⟨chain, hchain, rfl⟩ := hstrand hshape
    exact ⟨rfl, rfl, chain.2, by rw [List.getElem?_map, hchain, Option.map_some],
      .inr (.inr (.refl _))⟩
  · obtain ⟨chain, -, rfl⟩ := hstrand hshape
    cases hchild

theorem Course.recounts (h : Course first acts last) (hlawful : first.Lawful)
    (hfirst : first.Recounts programs []) : last.Recounts programs acts := by
  induction h with
  | start => exact hfirst
  | step hcourse hdoes ih => exact ih.does (hlawful.reaches hcourse.reaches) hdoes

end World

end Cascade
