import Cascade.Proofs.Trace.Imprint

/-!
The states of the steps in a run of chains. Every step starts with an empty state, and its state is
what the acts that belong to it have set. So what code sees as its step is the step itself, with that
state and with the step before.
-/

namespace Cascade

/-- What an act makes of the state of a step: only acts of that step in that chain change it. -/
def Act.write (place index : Nat) (act : Act) (state : StepState) : StepState :=
  match act.doing with
  | .asks (.setState name entry) _ =>
      if act.scope.strand = place ∧ act.scope.step = some index then Entries.put name entry state
      else state
  | _ => state

/-- The state of a step that was empty before some acts. -/
def written (acts : List Act) (place index : Nat) : StepState :=
  acts.foldl (fun state act => act.write place index state) []

theorem Act.write_setState {act : Act} {name : String} {entry : StateEntry} {answer : Bool}
    (h : act.doing = .asks (.setState name entry) answer) (place index : Nat) :
    act.write place index = fun state =>
      if act.scope.strand = place ∧ act.scope.step = some index then Entries.put name entry state
      else state := by
  funext state
  simp only [Act.write, h]

theorem Act.write_of_not_setState {act : Act}
    (h : ∀ name entry answer, act.doing ≠ .asks (.setState name entry) answer) (place index : Nat) :
    act.write place index = fun state => state := by
  funext state
  rw [Act.write]
  split
  · rename_i name entry answer hdoing
    exact absurd hdoing (h name entry answer)
  · rfl

theorem exists_of_foldl_write {acts : List Act} {place index : Nat} {name : String}
    {entry : StateEntry} {state : StepState}
    (h : (acts.foldl (fun state act => act.write place index state) state).get? name = some entry) :
    state.get? name = some entry ∨
      ∃ act ∈ acts, act.scope.strand = place ∧ act.scope.step = some index ∧
        ∃ answer, act.doing = .asks (.setState name entry) answer := by
  induction acts generalizing state with
  | nil => exact .inl h
  | cons act rest ih =>
      rcases ih h with hold | ⟨found, hmem, hfound⟩
      · by_cases hset : ∃ other value answer, act.doing = .asks (.setState other value) answer
        · obtain ⟨other, value, answer, hdoing⟩ := hset
          change (Act.write place index act state).get? name = some entry at hold
          rw [Act.write_setState hdoing] at hold
          dsimp only at hold
          split at hold
          · rename_i hplace
            by_cases hname : name = other
            · subst hname
              rw [Entries.get?_put_self] at hold
              obtain rfl := Option.some.inj hold
              exact .inr ⟨act, List.mem_cons_self, hplace.1, hplace.2, answer, hdoing⟩
            · rw [Entries.get?_put_of_ne hname] at hold
              exact .inl hold
          · exact .inl hold
        · change (Act.write place index act state).get? name = some entry at hold
          rw [Act.write_of_not_setState fun other value answer hdoing =>
            hset ⟨other, value, answer, hdoing⟩] at hold
          exact .inl hold
      · exact .inr ⟨found, List.mem_cons_of_mem _ hmem, hfound⟩

/-- What the state of a step holds under a name was set by an act of that step. -/
theorem exists_of_written {acts : List Act} {place index : Nat} {name : String} {entry : StateEntry}
    (h : (written acts place index).get? name = some entry) :
    ∃ act ∈ acts, act.scope.strand = place ∧ act.scope.step = some index ∧
      ∃ answer, act.doing = .asks (.setState name entry) answer := by
  rcases exists_of_foldl_write h with hempty | hact
  · cases hempty
  · exact hact

theorem get?_written_ne_none {acts : List Act} {act : Act} (hact : act ∈ acts) {place index : Nat}
    (hplace : act.scope.strand = place) (hstep : act.scope.step = some index) {name : String}
    {entry : StateEntry} {answer : Bool} (hdoing : act.doing = .asks (.setState name entry) answer) :
    (written acts place index).get? name ≠ none := by
  have hkeeps : ∀ (more : List Act) (state : StepState), state.get? name ≠ none →
      (more.foldl (fun state act => act.write place index state) state).get? name ≠ none := by
    intro more
    induction more with
    | nil => exact fun _ h => h
    | cons other rest ih =>
        refine fun state hsome => ih _ ?_
        change (Act.write place index other state).get? name ≠ none
        by_cases hset : ∃ other' value answer, other.doing = .asks (.setState other' value) answer
        · obtain ⟨other', value, answer, hother⟩ := hset
          rw [Act.write_setState hother]
          dsimp only
          split
          · by_cases hname : name = other'
            · rw [hname, Entries.get?_put_self]
              exact fun h => by cases h
            · rwa [Entries.get?_put_of_ne hname]
          · exact hsome
        · rwa [Act.write_of_not_setState fun other' value answer hother =>
            hset ⟨other', value, answer, hother⟩]
  obtain ⟨before, after, rfl⟩ := List.append_of_mem hact
  rw [written, List.foldl_append, List.foldl_cons]
  refine hkeeps after _ ?_
  rw [Act.write_setState hdoing]
  dsimp only
  rw [if_pos ⟨hplace, hstep⟩, Entries.get?_put_self]
  exact fun h => by cases h

/-- A step as its own code sees it: by its invocation, its state and the step before. -/
structure StepView.Shows (invocations : List Invocation) (states : Nat → StepState) (own : Nat)
    (view : StepView) : Prop where
  index : view.index = own
  total : view.total = invocations.length
  invocation : ∃ invocation, invocations[own]? = some invocation ∧ view.name = invocation.name ∧
    view.arguments = invocation.arguments
  state : view.state = states own
  previous : view.previous =
    if own = 0 then none else (invocations[own - 1]?).map Invocation.name
  previousStep : view.previousStep = if own = 0 then none else some (own - 1, states (own - 1))

namespace StepContext

theorem element?_ofNat {γ : Type} (items : List γ) (index : Nat) :
    element? items (index : Int) = (items[index]?).map fun item => (index, item) := by
  have hnot : ¬ ((index : Int) < 0) := by omega
  by_cases hlt : index < items.length
  · have hposition : position? items.length (index : Int) = some index := by
      simp [position?, hnot, hlt]
    simp [element?, hposition, List.getElem?_eq_getElem hlt]
  · have hposition : position? items.length (index : Int) = none := by
      simp [position?, hnot, hlt]
    simp [element?, hposition, List.getElem?_eq_none (Nat.not_lt.mp hlt)]

theorem element?_pred {γ : Type} (items : List γ) {index : Nat} (h : index ≠ 0) :
    element? items ((index : Int) - 1) =
      (items[index - 1]?).map fun item => (index - 1, item) := by
  rw [← element?_ofNat, Int.ofNat_sub (by omega)]
  rfl

theorem previousStep_eq {context : StepContext} {index : Nat} (hindex : context.index = index)
    (hlt : index < context.steps.length) :
    context.previousStep =
      .ok (if index = 0 then none
        else (context.steps[index - 1]?).map fun state => (index - 1, state)) := by
  have hshort : ¬ ((context.steps.length : Int) < index) := by omega
  by_cases hzero : index = 0
  · simp [previousStep, hindex, hzero]
  · have hstate : context.steps[index - 1]? = some context.steps[index - 1] :=
      List.getElem?_eq_getElem (by omega)
    simp [previousStep, hindex, element?_pred _ hzero, hzero, hshort, hstate]

theorem previous_eq (names : List String) (index : Nat) :
    (if (0 : Int) < index then (element? names ((index : Int) - 1)).map Prod.snd else none) =
      if index = 0 then none else names[index - 1]? := by
  by_cases hzero : index = 0
  · simp [hzero]
  · have hpositive : (0 : Int) < index := by omega
    rw [if_pos hpositive, if_neg hzero, element?_pred _ hzero, Option.map_map]
    exact Option.map_id' ..

theorem toOption_view {context : StepContext} {index : Nat} (hindex : context.index = index)
    {name : String} (hname : context.names[index]? = some name)
    (hlength : context.steps.length = context.names.length) :
    context.view.toOption = some {
      index := index
      total := context.names.length
      name := name
      arguments := context.arguments
      previous := if index = 0 then none else context.names[index - 1]?
      previousStep :=
        if index = 0 then none else (context.steps[index - 1]?).map fun state => (index - 1, state)
      state := context.state } := by
  have hlt : index < context.names.length := (List.getElem?_eq_some_iff.mp hname).1
  rw [view, previousStep_eq hindex (hlength ▸ hlt), hindex, previous_eq, element?_ofNat, hname]
  rfl

end StepContext

namespace Imprint

def state? (imprint : Imprint) (place index : Nat) : Option StepState :=
  (imprint.pages[place]?).bind fun page => page.2[index]?

/-- The invocations of a chain, and the number of the states of its steps. -/
def outline? (imprint : Imprint) (place : Nat) : Option (List Invocation × Nat) :=
  (imprint.pages[place]?).map fun page => (page.1, page.2.length)

theorem state?_mark (act : Act) (imprint : Imprint) (place index : Nat) :
    (act.mark imprint).state? place index =
      (imprint.state? place index).map (act.write place index) := by
  have hput : ∀ (strand own : Nat) (name : String) (entry : StateEntry),
      (imprint.put strand own name entry).state? place index =
        (imprint.state? place index).map fun state =>
          if strand = place ∧ own = index then Entries.put name entry state else state := by
    intro strand own name entry
    simp only [state?, put, List.getElem?_modify]
    cases imprint.pages[place]? with
    | none => rfl
    | some page =>
        by_cases hplace : strand = place
        · by_cases hindex : own = index
          · simp [hplace, hindex]
          · simp [hplace, hindex]
        · simp [hplace]
  by_cases hset : ∃ name entry answer, act.doing = .asks (.setState name entry) answer
  · obtain ⟨name, entry, answer, hdoing⟩ := hset
    rw [Act.write_setState hdoing]
    simp only [Act.mark, hdoing]
    cases hstep : act.scope.step with
    | none => simp
    | some own =>
        dsimp only
        rw [hput]
        simp
  · have hnot : ∀ name entry answer, act.doing ≠ .asks (.setState name entry) answer :=
      fun name entry answer hdoing => hset ⟨name, entry, answer, hdoing⟩
    rw [Act.write_of_not_setState hnot, Option.map_id', Act.mark]
    split
    · rfl
    · rfl
    · rename_i name entry answer hdoing
      exact absurd hdoing (hnot name entry answer)
    · rfl
    · rfl

theorem outline?_mark (act : Act) (imprint : Imprint) (place : Nat) :
    (act.mark imprint).outline? place = imprint.outline? place := by
  have hput : ∀ (strand own : Nat) (name : String) (entry : StateEntry),
      (imprint.put strand own name entry).outline? place = imprint.outline? place := by
    intro strand own name entry
    simp only [outline?, put, List.getElem?_modify]
    cases imprint.pages[place]? with
    | none => rfl
    | some page => by_cases hplace : strand = place <;> simp [hplace]
  rw [Act.mark]
  split
  · rfl
  · rfl
  · split
    · exact hput ..
    · rfl
  · rfl
  · rfl

theorem state?_foldl (acts : List Act) (imprint : Imprint) (place index : Nat) :
    (acts.foldl (fun imprint act => act.mark imprint) imprint).state? place index =
      (imprint.state? place index).map fun state =>
        acts.foldl (fun state act => act.write place index state) state := by
  induction acts generalizing imprint with
  | nil => simp
  | cons act rest ih =>
      rw [List.foldl_cons, ih, state?_mark, Option.map_map]
      rfl

theorem outline?_foldl (acts : List Act) (imprint : Imprint) (place : Nat) :
    (acts.foldl (fun imprint act => act.mark imprint) imprint).outline? place =
      imprint.outline? place := by
  induction acts generalizing imprint with
  | nil => rfl
  | cons act rest ih => rw [List.foldl_cons, ih, outline?_mark]

theorem bound_of_view? {imprint : Imprint} {scope : Scope} {view : StepView}
    (h : imprint.view? scope = some view) {index : Nat} (hstep : scope.step = some index) :
    ∃ outline, imprint.outline? scope.strand = some outline ∧ index < outline.1.length := by
  simp only [view?, hstep, Option.bind_eq_bind, Option.bind_some, Option.bind_eq_some_iff] at h
  obtain ⟨page, hpage, invocation, hinvocation, -⟩ := h
  exact ⟨(page.1, page.2.length), by rw [outline?, hpage, Option.map_some],
    (List.getElem?_eq_some_iff.mp hinvocation).1⟩

theorem exists_view {imprint : Imprint} {scope : Scope} {index : Nat}
    (hstep : scope.step = some index) {invocations : List Invocation}
    (houtline : imprint.outline? scope.strand = some (invocations, invocations.length))
    (hlt : index < invocations.length) {states : Nat → StepState}
    (hstates : ∀ other, other < invocations.length →
      imprint.state? scope.strand other = some (states other)) :
    ∃ view, imprint.view? scope = some view ∧ view.Shows invocations states index := by
  obtain ⟨⟨commands, entries⟩, hpage, hsame⟩ := Option.map_eq_some_iff.mp houtline
  obtain ⟨rfl, hlength⟩ := Prod.mk.inj hsame
  dsimp only at hlength hlt
  have hentry : ∀ other, other < commands.length → entries[other]? = some (states other) := by
    intro other hother
    have hstate := hstates other hother
    rwa [state?, hpage, Option.bind_some] at hstate
  have hinvocation : commands[index]? = some commands[index] := List.getElem?_eq_getElem hlt
  have hname : (commands.map Invocation.name)[index]? = some commands[index].name := by
    rw [List.getElem?_map, hinvocation, Option.map_some]
  have hview : imprint.view? scope = some {
      index := index
      total := commands.length
      name := commands[index].name
      arguments := commands[index].arguments
      previous := if index = 0 then none else (commands[index - 1]?).map Invocation.name
      previousStep := if index = 0 then none else some (index - 1, states (index - 1))
      state := states index } := by
    simp only [view?, hstep, hpage, hinvocation, hentry index hlt, Option.bind_eq_bind,
      Option.bind_some, Option.getD_some]
    rw [StepContext.toOption_view rfl hname (by rw [List.length_map, hlength])]
    by_cases hzero : index = 0
    · simp [hzero]
    · simp [hzero, hentry (index - 1) (by omega)]
  exact ⟨_, hview, rfl, rfl, ⟨_, hinvocation, rfl, rfl⟩, rfl, rfl, rfl⟩

end Imprint

end Cascade
