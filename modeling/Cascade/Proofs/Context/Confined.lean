import Cascade.Library.Arithmetic
import Cascade.Proofs.Context.Rights

/-!
Commands that are confined: every command of the libraries besides the repetition has other commands
executed by their names only.
-/

namespace Cascade

/-- Code whose calls have other commands executed by their names only. -/
def CommandCode.IsConfined (code : CommandCode) : Prop :=
  ∀ arguments, (code.run arguments).Minds .plain (Reply.Minds .plain)

theorem Command.isConfined_of_toCommand {draft : Draft} {group : String} {command : Command}
    {code : CommandCode} (h : draft.toCommand group = .ok command) (hcode : draft.code = some code)
    (hconfined : code.IsConfined) : command.IsConfined := by
  obtain ⟨name, given, -, hgiven, rfl⟩ := Draft.exists_of_toCommand_eq_ok h
  obtain rfl := Option.some.inj (hcode.symm.trans hgiven)
  exact hconfined

variable {β γ : Type}

/-- Nothing that runs at once is denied to plain code. -/
theorem Action.minds_plain (action : Action β) : action.Minds .plain fun _ => True := by
  induction action with
  | finish value => trivial
  | fail fault => trivial
  | ask query next ih => exact ⟨trivial, fun answer _ => ih answer⟩

theorem Action.minds_bind {next : β → Action γ} {proper : γ → Prop} (action : Action β)
    (hnext : ∀ value, (next value).Minds .plain proper) :
    (action.bind next).Minds .plain proper :=
  action.minds_plain.bind fun value _ => hnext value

theorem Routine.minds_ofAction (action : Action β) : (Routine.ofAction action).Minds .plain :=
  action.minds_plain.ofAction

namespace Library

theorem System.minds_delayBody (seconds : String) :
    (System.delayBody seconds).Minds .plain := by
  have hpause : ∀ pause, ((Routine.ofExcept pause).bind fun pause =>
      (Routine.sleep pause none fun _ => .finish Value.null)).Minds .plain :=
    fun pause => (Routine.minds_ofExcept pause).bind fun _ => trivial
  exact (Routine.minds_ofAction (System.say .message _)).bind fun _ => hpause _

theorem System.isConfined_of_mem {draft : Draft} (hdraft : draft ∈ System.drafts) {group : String}
    {command : Command} (h : draft.toCommand group = .ok command) :
    command.IsRepetition ∨ command.IsConfined := by
  simp only [System.drafts, List.mem_cons, List.not_mem_nil, or_false] at hdraft
  rcases hdraft with rfl | rfl | rfl
  · refine .inr (Command.isConfined_of_toCommand h rfl fun arguments => ?_)
    exact Action.minds_bind _ fun _ => System.minds_delayBody _
  · exact .inl (Command.isRepetition_of_toCommand h)
  · refine .inr (Command.isConfined_of_toCommand h rfl fun arguments => ?_)
    refine Action.minds_bind _ fun _ => ?_
    exact ⟨trivial, fun view _ => Action.minds_bind _ fun _ => trivial⟩

theorem Greeting.isConfined_of_mem {config : Entries Value} {draft : Draft}
    (hdraft : draft ∈ Greeting.drafts config) {group : String} {command : Command}
    (h : draft.toCommand group = .ok command) : command.IsConfined := by
  simp only [Greeting.drafts, List.mem_cons, List.not_mem_nil, or_false] at hdraft
  rcases hdraft with rfl | rfl | rfl | rfl | rfl <;>
    refine Command.isConfined_of_toCommand h rfl fun arguments => Action.minds_bind _ fun _ => ?_
  · exact Action.minds_bind _ fun _ => ⟨trivial, fun _ _ => trivial⟩
  · exact Routine.minds_ofAction _
  · exact Action.minds_bind _ fun _ => trivial
  · exact Action.minds_bind _ fun _ => trivial
  · exact Routine.minds_ofAction _

theorem Arithmetic.isConfined_of_mem {draft : Draft} (hdraft : draft ∈ Arithmetic.drafts)
    {group : String} {command : Command} (h : draft.toCommand group = .ok command) :
    command.IsConfined := by
  simp only [Arithmetic.drafts, List.mem_cons, List.not_mem_nil, or_false] at hdraft
  rcases hdraft with rfl | rfl <;>
    refine Command.isConfined_of_toCommand h rfl fun arguments => Action.minds_bind _ fun _ => ?_ <;>
    exact Routine.minds_ofAction _

end Library

end Cascade
