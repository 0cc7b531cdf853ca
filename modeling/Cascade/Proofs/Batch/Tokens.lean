import Cascade.Engine
import Cascade.Proofs.Batch.Watch
import Cascade.Proofs.Reading.Elements

/-!
The tokens of a batch. A token is a chain of the batch if it has an element, and otherwise the batch is
the one without it. With what holds of the elements of any text this makes the tokens that are left out
those of blanks and stars only (`cascadeElements_onto_normal`).
-/

namespace Cascade

open Elements

namespace Engine

variable (registry : Registry) (token : String) (before after : List String)

theorem chainsOf_append (tokens others : List String) :
    chainsOf registry (tokens ++ others) = chainsOf registry tokens ++ chainsOf registry others := by
  rw [chainsOf, List.filter_append, List.map_append, ← chainsOf, ← chainsOf]

theorem chainsOf_singleton :
    chainsOf registry [token] =
      if cascadeElements token = [] then [] else [Chain.ofToken registry token] := by
  cases helements : cascadeElements token <;> simp [chainsOf, helements]

theorem chainsOf_insert :
    chainsOf registry (before ++ token :: after) =
      chainsOf registry before ++
        ((if cascadeElements token = [] then [] else [Chain.ofToken registry token]) ++
          chainsOf registry after) := by
  rw [← chainsOf_singleton, ← chainsOf_append, ← chainsOf_append, List.singleton_append]

end Engine

namespace Batch

variable (surroundings : Surroundings) (exitOnError : Bool) (calls : Entries Nat)

theorem strands_start (chains : List Chain) :
    (Batch.start surroundings exitOnError calls chains).world.strands =
      chains.map fun chain => Strand.start chain.invocations chain.routine := by
  rw [Batch.start]
  split
  · exact strands_dumpErrors _
  · rfl

theorem start_insert_eq_iff (registry : Registry) (token : String) (before after : List String) :
    Batch.start surroundings exitOnError calls
          (Engine.chainsOf registry (before ++ token :: after)) =
        Batch.start surroundings exitOnError calls (Engine.chainsOf registry (before ++ after)) ↔
      cascadeElements token = [] := by
  rw [Engine.chainsOf_insert, Engine.chainsOf_append]
  constructor
  · intro hsame
    by_contra hsome
    rw [if_neg hsome] at hsame
    have hlength := congrArg (fun batch => batch.world.strands.length) hsame
    simp [strands_start] at hlength
  · intro hnone
    rw [if_pos hnone, List.nil_append]

end Batch

/-- Cutting a cascade is a homomorphism onto normal forms. A star between two texts stands for the
concatenation of their elements. Each element is a normal form, and a text has certain elements exactly
if they are normal forms that are joined in it by stars and blanks. There is no element exactly in texts
of stars and blanks only, and these are the tokens without which a batch starts as it starts with
them. -/
theorem cascadeElements_onto_normal (text : String) :
    (∀ other, cascadeElements (text ++ "*" ++ other) =
      cascadeElements text ++ cascadeElements other) ∧
    (∀ element ∈ cascadeElements text, IsNormal element) ∧
    (∀ elements, cascadeElements text = elements ↔
      (∀ element ∈ elements, IsNormal element) ∧ Joins elements text.toList) ∧
    (cascadeElements text = [] ↔ IsFiller text.toList) ∧
    ∀ (surroundings : Surroundings) (exitOnError : Bool) (calls : Entries Nat)
      (before after : List String),
      Batch.start surroundings exitOnError calls
          (Engine.chainsOf surroundings.registry (before ++ text :: after)) =
        Batch.start surroundings exitOnError calls
          (Engine.chainsOf surroundings.registry (before ++ after)) ↔ IsFiller text.toList := by
  refine ⟨cascadeElements_star text, fun _ => isNormal_of_mem_cascadeElements,
    fun _ => cascadeElements_eq_iff, cascadeElements_eq_nil_iff, ?_⟩
  intro surroundings exitOnError calls before after
  rw [← cascadeElements_eq_nil_iff]
  exact Batch.start_insert_eq_iff ..

/-- Two elements among blanks and stars. -/
theorem cascadeElements_onto_normal_spacedPair :
    "b(1)" ∈ cascadeElements " a **\tb(1) * " ∧ IsNormal "b(1)" ∧
      Joins ["a", "b(1)"] " a **\tb(1) * ".toList := by
  have helements : cascadeElements " a **\tb(1) * " = ["a", "b(1)"] := by decide
  have hmem : "b(1)" ∈ cascadeElements " a **\tb(1) * " := by decide
  obtain ⟨-, hnormal, hiff, -⟩ := cascadeElements_onto_normal " a **\tb(1) * "
  exact ⟨hmem, hnormal _ hmem, ((hiff _).mp helements).2⟩

end Cascade
