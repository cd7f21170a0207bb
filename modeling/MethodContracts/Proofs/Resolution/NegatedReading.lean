import MethodContracts.Proofs.NormalForm.Agreement
import MethodContracts.Proofs.NormalForm.Reading
import MethodContracts.Proofs.Resolution.Arity
import MethodContracts.Proofs.Resolution.Negation

/-!
# Reading negated descriptors

A list of clauses is read in order, and negating it drops the clauses whose outcome is not boolean.
A dropped clause can have stood before a boolean one and taken precedence over it, so what the
negated list promises is the negation of the first *boolean* outcome of the list. This is the first
outcome at all unless one that is not boolean comes before it
(`Descriptor.resolve_negating_reading`), which does happen (`Descriptor.negating_uncovers_boolean`).

It takes guards with several descriptors behind them. What a single leaf stands for is one clause,
or a normal form, or promises the same throughout, so the clauses of a descriptor with at most one
leaf agree, and for these negation respects the order.
-/

namespace MethodContracts

namespace Clause

variable {a b c : Clause} {cs : List Clause} {args : List Value} {o : Outcome}

/-! ### Lists of clauses, in order -/

theorem outcomeOn?_cons :
    outcomeOn? (c :: cs) args =
      if c.domain.Admits args then some c.outcome else outcomeOn? cs args := by
  by_cases hargs : c.domain.Admits args
  · simp [outcomeOn?, hargs]
  · simp [outcomeOn?, hargs]

/-- Negating a list flips its first boolean outcome. -/
theorem outcomeOn?_filterMap_negate? (cs : List Clause) (args : List Value) :
    outcomeOn? (cs.filterMap negate?) args =
      (outcomeOn? (cs.filter fun c => c.outcome.isBool) args).map Outcome.flip := by
  rw [filterMap_negate?_eq, outcomeOn?, outcomeOn?, List.find?_map, Option.map_map, Option.map_map]
  rfl

/-- The first boolean outcome is the first outcome, or one that is not boolean comes before it. -/
theorem outcomeOn?_of_filter_isBool
    (h : outcomeOn? (cs.filter fun c => c.outcome.isBool) args = some o) :
    outcomeOn? cs args = some o ∨
      ∃ first, outcomeOn? cs args = some first ∧ first.isBool = false := by
  induction cs with
  | nil => exact Or.inl h
  | cons c cs ih =>
      rw [outcomeOn?_cons]
      rw [List.filter_cons] at h
      by_cases hargs : c.domain.Admits args
      · rw [if_pos hargs]
        by_cases hbool : c.outcome.isBool = true
        · rw [if_pos hbool, outcomeOn?_cons, if_pos hargs] at h
          exact Or.inl h
        · exact Or.inr ⟨c.outcome, rfl, Bool.eq_false_iff.2 hbool⟩
      · rw [if_neg hargs]
        refine ih ?_
        by_cases hbool : c.outcome.isBool = true
        · rwa [if_pos hbool, outcomeOn?_cons, if_neg hargs] at h
        · rwa [if_neg hbool] at h

/-- Where clauses agree, each that applies has the outcome that is promised. -/
theorem outcomeOn?_of_agrees (hagree : ∀ a ∈ cs, ∀ b ∈ cs, a.Agrees b) (hc : c ∈ cs)
    (hargs : c.domain.Admits args) : outcomeOn? cs args = some c.outcome := by
  obtain ⟨o, ho⟩ := exists_outcomeOn? hc hargs
  obtain ⟨k, hk, hkargs, rfl⟩ := exists_mem_of_outcomeOn? ho
  rw [ho, hagree k hk c hc (overlaps_iff.2 ⟨args, hkargs, hargs⟩)]

theorem Agrees.flip (h : a.Agrees b) : a.flip.Agrees b.flip := fun hover =>
  congrArg Outcome.flip (h hover)

theorem agrees_of_mem_throughNegations {k : Nat} (h : ∀ a ∈ cs, ∀ b ∈ cs, a.Agrees b) :
    ∀ a ∈ throughNegations k cs, ∀ b ∈ throughNegations k cs, a.Agrees b := by
  unfold throughNegations
  split
  · exact h
  · intro a ha b hb
    obtain ⟨x, hx, rfl⟩ := List.mem_map.1 ha
    obtain ⟨y, hy, rfl⟩ := List.mem_map.1 hb
    have hxy := h x (List.mem_of_mem_filter hx) y (List.mem_of_mem_filter hy)
    split
    · exact hxy.flip
    · exact hxy

end Clause

namespace Descriptor

variable {facts : Facts} {m : Subject} {d : Descriptor} {maxDepth : Nat} {args : List Value}

/-! ### Descriptors with one leaf -/

theorem Source.agrees_of_mem_clauses (source : Source) :
    ∀ a ∈ source.clauses facts m, ∀ b ∈ source.clauses facts m, a.Agrees b := by
  cases source with
  | known clause =>
      intro a ha b hb _
      rw [List.mem_singleton.1 ha, List.mem_singleton.1 hb]
  | delegation call negated => exact (m.normal_delegate facts call negated).outcome_eq
  | nonNullCall call states =>
      intro a ha b hb _
      obtain ⟨_, _, -, -, -, -, _, -, -, rfl⟩ := Subject.mem_nonNullStates ha
      obtain ⟨_, _, -, -, -, -, _, -, -, rfl⟩ := Subject.mem_nonNullStates hb
      rfl

theorem Leaf.agrees_of_mem_contribution (l : Leaf) :
    ∀ a ∈ l.contribution facts m maxDepth, ∀ b ∈ l.contribution facts m maxDepth, a.Agrees b := by
  unfold contribution clauses
  split
  · exact fun a ha => absurd ha List.not_mem_nil
  · split
    · exact fun a ha => absurd ha List.not_mem_nil
    · exact Clause.agrees_of_mem_throughNegations l.source.agrees_of_mem_clauses

/-- The clauses of a descriptor that is not made of several parts agree. -/
theorem agrees_of_mem_resolve (h : d.leaves.length ≤ 1) :
    ∀ a ∈ d.resolve facts m maxDepth, ∀ b ∈ d.resolve facts m maxDepth, a.Agrees b := by
  rw [resolve_eq_flatMap_leaves]
  match d.leaves, h with
  | [], _ => exact fun a ha => absurd ha List.not_mem_nil
  | [l], _ =>
      rw [List.flatMap_singleton]
      exact l.agrees_of_mem_contribution

/-! ### The first clause that applies -/

/-- **Negation respects the order of boolean outcomes.** If a negated descriptor promises a boolean
for some arguments, then the first boolean outcome of the descriptor for them is the other one. The
descriptor itself promises that, or an outcome that is not boolean; the latter only if it has
several leaves. -/
theorem resolve_negating_reading {b : Bool} (hdepth : d.depth < maxDepth)
    (h : Clause.outcomeOn? ((negating d).resolve facts m maxDepth) args = some (.bool b)) :
    Clause.outcomeOn? ((d.resolve facts m maxDepth).filter fun c => c.outcome.isBool) args =
        some (.bool !b) ∧
      (Clause.outcomeOn? (d.resolve facts m maxDepth) args = some (.bool !b) ∨
        ∃ o, Clause.outcomeOn? (d.resolve facts m maxDepth) args = some o ∧ o.isBool = false) ∧
      (d.leaves.length ≤ 1 →
        Clause.outcomeOn? (d.resolve facts m maxDepth) args = some (.bool !b)) := by
  rw [resolve_negating fun l hl => Nat.lt_of_le_of_lt (leafDepth_le hl) hdepth,
    Clause.outcomeOn?_filterMap_negate?] at h
  obtain ⟨o, ho, hflip⟩ := Option.map_eq_some_iff.1 h
  have hfirst : o = .bool !b := by
    rw [← o.flip_flip, hflip]
    rfl
  rw [hfirst] at ho
  refine ⟨ho, Clause.outcomeOn?_of_filter_isBool ho, fun hleaf => ?_⟩
  obtain ⟨c, hc, hargs, hout⟩ := Clause.exists_mem_of_outcomeOn? ho
  rw [Clause.outcomeOn?_of_agrees (agrees_of_mem_resolve hleaf) (List.mem_of_mem_filter hc) hargs,
    hout]

/-- Failure for null, and *true* for everything: two leaves that do not agree. -/
def failsForNull : Descriptor :=
  .guarded [] [.known ⟨⟨[.null]⟩, .fail⟩, .known ⟨⟨[.any]⟩, .bool true⟩]

/-- A boolean outcome that comes second, and the only leaf behind a negation. -/
theorem resolve_negating_reading_failsForNull :
    Clause.outcomeOn? ((failsForNull.resolve noMethods literalAndAssignment 3).filter
      fun c => c.outcome.isBool) [.null] = some (.bool true) ∧
    Clause.outcomeOn? ((negating (known ⟨⟨[.any]⟩, .bool true⟩)).resolve noMethods
      literalAndAssignment 3) [.object] = some (.bool false) :=
  ⟨(resolve_negating_reading (b := false) (by decide +kernel) (by decide +kernel)).1,
    (resolve_negating_reading (b := true) (by decide +kernel) (by decide +kernel)).2.2
      (by decide +kernel)⟩

/-- The clause of the failure, which comes first, has no negation and does not count behind one:
for null the descriptor promises failure, and negated it promises *false*. -/
theorem negating_uncovers_boolean :
    failsForNull.depth < defaultDepth ∧
    Clause.outcomeOn? ((negating failsForNull).resolve noMethods literalAndAssignment
      defaultDepth) [.null] = some (.bool false) ∧
    Clause.outcomeOn? (failsForNull.resolve noMethods literalAndAssignment defaultDepth) [.null] =
      some .fail := by
  decide +kernel

end Descriptor

end MethodContracts
