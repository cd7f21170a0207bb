import MethodContracts.Proofs.Clause.Passing
import MethodContracts.Proofs.NormalForm.Normal
import MethodContracts.Proofs.Resolution.Calls
import MethodContracts.Proofs.Resolution.Contribution

/-!
# The arity of what is resolved

Clauses that are found for a method have one slot for each of its parameters, provided that the
clauses stated in its descriptors do (`Subject.arity_of_mem_infer`). For the others this holds by
itself, however many slots the clauses of other methods have: restating a clause starts from the
unconstrained domain of the caller, and states of another arity are dropped.
-/

namespace MethodContracts

variable {facts : Facts} {m : Subject} {n : Nat}

namespace Clause

variable {cs out : List Clause}

theorem arity_of_mem_throughNegations {k : Nat} (h : ∀ c ∈ cs, c.arity = n) :
    ∀ c ∈ throughNegations k cs, c.arity = n := by
  intro c hc
  unfold throughNegations at hc
  split at hc
  · exact h c hc
  · obtain ⟨x, hx, rfl⟩ := List.mem_map.1 hc
    have harity := h x (List.mem_of_mem_filter hx)
    split
    · exact harity
    · exact harity

theorem arity_of_mem_normalize? (h : normalize? cs = some out) (hcs : ∀ c ∈ cs, c.arity = n) :
    ∀ c ∈ out, c.arity = n :=
  forall_mem_normalize? (fun _ _ _ hc hcarve => (arity_of_carve? hcarve).trans hc) h hcs

theorem arity_of_mem_getD_normalize? (hcs : ∀ c ∈ cs, c.arity = n) :
    ∀ c ∈ (normalize? cs).getD [], c.arity = n := by
  cases h : normalize? cs with
  | none => exact fun c hc => absurd hc List.not_mem_nil
  | some out => exact arity_of_mem_normalize? h hcs

end Clause

namespace Subject

theorem arity_of_mem_restated {target : Signature} {negated : Bool} {call : Call}
    {clauses : List Clause} :
    ∀ c ∈ m.restated target call negated clauses, c.arity = m.arity := by
  intro t ht
  obtain ⟨c, -, hct⟩ := List.mem_filterMap.1 ht
  exact Clause.arity_of_throughCall? hct

theorem arity_of_mem_inherited {target : Signature} {neverNull negated : Bool} {call : Call}
    {clauses : List Clause} :
    ∀ c ∈ m.inherited target neverNull call negated clauses, c.arity = m.arity := by
  cases neverNull with
  | false => exact arity_of_mem_restated
  | true =>
      intro c hc
      rw [inherited_true, List.mem_append] at hc
      rcases hc with hc | hc
      · obtain ⟨c', hc', rfl⟩ := List.mem_map.1 hc
        rw [Clause.arity, domain_withoutNull]
        exact arity_of_mem_restated c' hc'
      · rw [List.mem_singleton.1 hc]
        exact Domain.arity_unconstrained m.arity

theorem arity_of_mem_delegate {range : TextRange} {negated : Bool} :
    ∀ c ∈ m.delegate facts range negated, c.arity = m.arity := by
  intro c hc
  obtain ⟨call, target, clauses, -, -, -, -, hmem⟩ := mem_delegate hc
  exact Clause.arity_of_mem_getD_normalize? arity_of_mem_inherited c hmem

theorem arity_of_mem_nonNullStates {range : TextRange} {states : List Domain} :
    ∀ c ∈ m.nonNullStates facts range states, c.arity = m.arity := by
  intro c hc
  obtain ⟨call, target, -, -, -, -, d, -, harity, rfl⟩ := mem_nonNullStates hc
  exact harity

end Subject

namespace Descriptor

/-- Whether the clauses that are stated anywhere in a descriptor speak of `n` parameters. -/
def StatesArity (n : Nat) (d : Descriptor) : Prop :=
  ∀ l ∈ d.leaves, ∀ c, l.source = .known c → c.arity = n

theorem Source.arity_of_mem_clauses {source : Source}
    (hknown : ∀ c, source = .known c → c.arity = m.arity) :
    ∀ c ∈ source.clauses facts m, c.arity = m.arity := by
  cases source with
  | known clause =>
      intro c hc
      rw [List.mem_singleton.1 hc]
      exact hknown clause rfl
  | delegation call negated => exact Subject.arity_of_mem_delegate
  | nonNullCall call states => exact Subject.arity_of_mem_nonNullStates

theorem arity_of_mem_resolve {d : Descriptor} (h : d.StatesArity m.arity) (depth : Nat) :
    ∀ c ∈ d.resolve facts m depth, c.arity = m.arity := by
  intro c hc
  rw [resolve_eq_flatMap_leaves] at hc
  obtain ⟨l, hl, hc⟩ := List.mem_flatMap.1 hc
  have hsource : ∀ c ∈ l.source.clauses facts m, c.arity = m.arity :=
    Source.arity_of_mem_clauses (h l hl)
  unfold Leaf.contribution Leaf.clauses at hc
  split at hc
  · exact absurd hc List.not_mem_nil
  · split at hc
    · exact absurd hc List.not_mem_nil
    · exact Clause.arity_of_mem_throughNegations hsource c hc

end Descriptor

/-- **What is inferred has the arity of the method.** -/
theorem Subject.arity_of_mem_infer {ds : List Descriptor}
    (h : ∀ d ∈ ds, d.StatesArity m.arity) (depth : Nat) :
    ∀ c ∈ m.infer facts depth ds, c.arity = m.arity := by
  refine Clause.arity_of_mem_getD_normalize? fun c hc => ?_
  rw [Descriptor.resolveAll_eq_flatMap] at hc
  obtain ⟨d, hd, hc⟩ := List.mem_flatMap.1 hc
  exact Descriptor.arity_of_mem_resolve (h d hd) depth c hc

/-! ### What is resolved in normal form -/

/-- The clauses of a delegation are normal, whatever is known of its target. -/
theorem Subject.normal_delegate (facts : Facts) (m : Subject) (range : TextRange)
    (negated : Bool) : Clause.Normal (m.delegate facts range negated) := by
  unfold delegate
  split
  · exact Clause.normal_nil
  · split
    · exact Clause.normal_nil
    · split
      · exact Clause.normal_nil
      · split
        · exact Clause.normal_nil
        · exact Clause.normal_nil
        · exact Clause.normal_getD_normalize? _

/-- **What is inferred is normal**, also when the clauses conflict and nothing is left. -/
theorem Subject.normal_infer (depth : Nat) (ds : List Descriptor) :
    Clause.Normal (m.infer facts depth ds) :=
  Clause.normal_getD_normalize? _

end MethodContracts
