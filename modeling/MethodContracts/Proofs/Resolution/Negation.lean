import MethodContracts.Proofs.Resolution.Calls
import MethodContracts.Proofs.Resolution.Contribution

/-!
# Negating descriptors

`Descriptor.negate?` rewrites a descriptor into one for the negated result: it flips stated
clauses, goes through guards, drops what has no boolean outcome, and puts a negation around the
rest. Resolving the negated descriptor gives the negated clauses of the descriptor itself, as
long as the negations it adds stay within the levels that resolution looks through
(`resolve_negate?`).

Each negation adds at most one level to each leaf (`depth_of_negate?`), so the step can be repeated:
`resolve_negateTimes?` is the induction over the number of negations.
-/

namespace MethodContracts

namespace Descriptor

/-! ### What negating does to a descriptor -/

theorem negate?_guarded_eq_none_iff {guards : List TextRange} {inner : List Descriptor} :
    (guarded guards inner).negate? = none ↔ ∀ d ∈ inner, d.negate? = none := by
  rw [negate?, negateAll_eq_filterMap, ← List.filterMap_eq_nil_iff]
  cases inner.filterMap negate? <;> simp

theorem negate?_guarded_eq_some {guards : List TextRange} {inner : List Descriptor}
    {negated : Descriptor} (h : (guarded guards inner).negate? = some negated) :
    negated = guarded guards (inner.filterMap negate?) := by
  rw [negate?, negateAll_eq_filterMap] at h
  cases hinner : inner.filterMap negate? with
  | nil => simp [hinner] at h
  | cons d ds =>
      rw [hinner] at h
      exact (Option.some.inj h).symm

/-- What could be negated once can be negated again. -/
theorem isSome_negate?_of_negate? {d negated : Descriptor} (h : d.negate? = some negated) :
    negated.negate?.isSome = true := by
  induction d using induction_on_parts generalizing negated with
  | known clause =>
      obtain ⟨c, hc, rfl⟩ := Option.map_eq_some_iff.1 h
      obtain ⟨o, ho, rfl⟩ := Option.map_eq_some_iff.1 hc
      obtain ⟨b, -, rfl⟩ := Outcome.negate?_eq_some_iff.1 ho
      rfl
  | delegation call flag =>
      obtain rfl : negating (delegation call flag) = negated := Option.some.inj h
      rfl
  | nonNullCall call states => simp [negate?] at h
  | negating inner ih =>
      obtain rfl : negating (negating inner) = negated := Option.some.inj h
      rfl
  | guarded guards inner ih =>
      obtain rfl := negate?_guarded_eq_some h
      rw [Option.isSome_iff_ne_none, Ne, negate?_guarded_eq_none_iff]
      intro hnone
      have hsome : ¬∀ d ∈ inner, d.negate? = none := fun hall => by
        rw [negate?_guarded_eq_none_iff.2 hall] at h
        simp at h
      -- a part that has a negation keeps one, by the hypothesis for that part
      obtain ⟨d, hd, hne⟩ : ∃ d ∈ inner, d.negate? ≠ none := by simpa using hsome
      obtain ⟨n, hn⟩ := Option.ne_none_iff_exists'.1 hne
      have hagain := ih d hd hn
      rw [hnone n (List.mem_filterMap.2 ⟨d, hd, hn⟩)] at hagain
      simp at hagain

/-- A negation adds at most one level to each leaf. -/
theorem depth_of_negate? {d negated : Descriptor} (h : d.negate? = some negated) :
    ∀ l ∈ negated.leaves, ∃ l' ∈ d.leaves, l.depth ≤ l'.depth + 1 := by
  induction d using induction_on_parts generalizing negated with
  | known clause =>
      obtain ⟨c, -, rfl⟩ := Option.map_eq_some_iff.1 h
      simp [leaves, Leaf.depth]
  | delegation call flag =>
      obtain rfl : negating (delegation call flag) = negated := Option.some.inj h
      intro l hl
      obtain ⟨l', hl', rfl⟩ := mem_leaves_negating.1 hl
      exact ⟨l', hl', Nat.le_refl _⟩
  | nonNullCall call states => simp [negate?] at h
  | negating inner ih =>
      obtain rfl : negating (negating inner) = negated := Option.some.inj h
      intro l hl
      obtain ⟨l', hl', rfl⟩ := mem_leaves_negating.1 hl
      exact ⟨l', hl', Nat.le_refl _⟩
  | guarded guards inner ih =>
      obtain rfl := negate?_guarded_eq_some h
      intro l hl
      obtain ⟨n, hn, l', hl', rfl⟩ := mem_leaves_guarded.1 hl
      obtain ⟨d, hd, hdn⟩ := List.mem_filterMap.1 hn
      obtain ⟨x, hx, hle⟩ := ih d hd hdn l' hl'
      exact ⟨x.under (.guarded guards), mem_leaves_guarded.2 ⟨d, hd, x, hx, rfl⟩,
        Nat.succ_le_succ hle⟩

/-! ### Resolving a negated descriptor -/

variable {facts : Facts} {m : Subject}

/-- A descriptor without a negation describes no clause with a boolean outcome. -/
theorem isBool_of_negate?_eq_none {d : Descriptor} (h : d.negate? = none) {maxDepth : Nat} :
    ∀ c ∈ d.resolve facts m maxDepth, c.outcome.isBool = false := by
  induction d using induction_on_parts generalizing maxDepth with
  | known clause =>
      intro c hc
      obtain rfl : c = clause := by simpa [resolve] using hc
      have hnone : c.negate? = none := Option.map_eq_none_iff.1 h
      rw [Clause.negate?_eq_ite] at hnone
      simpa using hnone
  | delegation call flag => simp [negate?] at h
  | negating inner ih => simp [negate?] at h
  | nonNullCall call states =>
      intro c hc
      rw [resolve] at hc
      obtain ⟨_, _, -, -, -, -, d, -, -, rfl⟩ := Subject.mem_nonNullStates hc
      rfl
  | guarded guards inner ih =>
      rw [negate?_guarded_eq_none_iff] at h
      intro c hc
      cases maxDepth with
      | zero => simp at hc
      | succ maxDepth =>
          rw [resolve_guarded_succ] at hc
          split at hc
          · exact absurd hc List.not_mem_nil
          · obtain ⟨d, hd, hcd⟩ := List.mem_flatMap.1 hc
            exact ih d hd (h d hd) c hcd

theorem filterMap_negate?_eq_nil {cs : List Clause} (h : ∀ c ∈ cs, c.outcome.isBool = false) :
    cs.filterMap Clause.negate? = [] := by
  rw [List.filterMap_eq_nil_iff]
  intro c hc
  rw [Clause.negate?_eq_ite, h c hc]
  rfl

/-- A negation around a descriptor negates its clauses: it takes a level, and the levels left still
reach all leaves. -/
theorem resolve_negating {d : Descriptor} {maxDepth : Nat}
    (h : ∀ l ∈ d.leaves, l.depth + 1 ≤ maxDepth) :
    (negating d).resolve facts m maxDepth =
      (d.resolve facts m maxDepth).filterMap Clause.negate? := by
  cases maxDepth with
  | zero =>
      have hnone : d.leaves = [] :=
        List.eq_nil_iff_forall_not_mem.2 fun l hl => Nat.not_succ_le_zero _ (h l hl)
      rw [resolve_negating_zero, resolve_eq_flatMap_leaves facts m d, hnone]
      rfl
  | succ maxDepth =>
      have hfits : ∀ l ∈ d.leaves, l.depth ≤ maxDepth := fun l hl => Nat.le_of_succ_le_succ (h l hl)
      rw [resolve_negating_succ, resolve_of_depth_le facts m hfits,
        resolve_of_depth_le facts m fun l hl => Nat.le_succ_of_le (hfits l hl)]

/-- **Negating a descriptor negates its clauses**, if resolution looks one level further than its
leaves lie. -/
theorem resolve_negate? {d negated : Descriptor} (h : d.negate? = some negated) {maxDepth : Nat}
    (hdepth : ∀ l ∈ d.leaves, l.depth + 1 ≤ maxDepth) :
    negated.resolve facts m maxDepth =
      (d.resolve facts m maxDepth).filterMap Clause.negate? := by
  induction d using induction_on_parts generalizing negated maxDepth with
  | known clause =>
      obtain ⟨c, hc, rfl⟩ := Option.map_eq_some_iff.1 h
      simp [resolve, hc]
  | delegation call flag =>
      obtain rfl : negating (delegation call flag) = negated := Option.some.inj h
      exact resolve_negating hdepth
  | nonNullCall call states => simp [negate?] at h
  | negating inner ih =>
      obtain rfl : negating (negating inner) = negated := Option.some.inj h
      exact resolve_negating hdepth
  | guarded guards inner ih =>
      obtain rfl := negate?_guarded_eq_some h
      cases maxDepth with
      | zero => simp
      | succ maxDepth =>
          rw [resolve_guarded_succ, resolve_guarded_succ]
          split
          · rfl
          · rw [List.filterMap_eq_flatMap_toList, List.flatMap_assoc, List.filterMap_flatMap]
            refine List.flatMap_congr fun d hd => ?_
            -- a part without a negation is dropped, and negating its clauses drops them too
            cases hneg : d.negate? with
            | none =>
                rw [filterMap_negate?_eq_nil (isBool_of_negate?_eq_none hneg)]
                rfl
            | some n =>
                rw [Option.toList_some, List.flatMap_singleton]
                refine ih d hd hneg fun l hl => ?_
                exact Nat.le_of_succ_le_succ
                  (hdepth (l.under (.guarded guards))
                    (mem_leaves_guarded.2 ⟨d, hd, l, hl, rfl⟩))

/-! ### Negating several times -/

/-- The descriptor negated `n` times in a row; `none` when it has no negation. -/
def negateTimes? : Nat → Descriptor → Option Descriptor
  | 0, d => some d
  | n + 1, d => (negateTimes? n d).bind negate?

/-- A descriptor that can be negated can be negated any number of times. -/
theorem exists_negateTimes? {d : Descriptor} (h : d.negate?.isSome = true) (n : Nat) :
    ∃ negated, negateTimes? n d = some negated ∧ negated.negate?.isSome = true := by
  induction n with
  | zero => exact ⟨d, rfl, h⟩
  | succ n ih =>
      obtain ⟨negated, hn, hsome⟩ := ih
      obtain ⟨next, hnext⟩ := Option.isSome_iff_exists.1 hsome
      refine ⟨next, ?_, isSome_negate?_of_negate? hnext⟩
      rw [negateTimes?, hn, Option.bind_some, hnext]

theorem depth_of_negateTimes? {d negated : Descriptor} {n : Nat}
    (h : negateTimes? n d = some negated) : ∀ l ∈ negated.leaves, l.depth ≤ d.depth + n := by
  induction n generalizing negated with
  | zero =>
      obtain rfl : d = negated := Option.some.inj h
      exact fun l hl => leafDepth_le hl
  | succ n ih =>
      obtain ⟨before, hbefore, hneg⟩ := Option.bind_eq_some_iff.1 h
      intro l hl
      obtain ⟨l', hl', hle⟩ := depth_of_negate? hneg l hl
      have := ih hbefore l' hl'
      omega

theorem resolve_negateTimes? {d negated : Descriptor} {n maxDepth : Nat}
    (h : negateTimes? n d = some negated) (hdepth : d.depth + n ≤ maxDepth) :
    negated.resolve facts m maxDepth =
      Clause.throughNegations n (d.resolve facts m maxDepth) := by
  induction n generalizing negated with
  | zero =>
      obtain rfl : d = negated := Option.some.inj h
      rw [Clause.throughNegations_zero]
  | succ n ih =>
      obtain ⟨before, hbefore, hneg⟩ := Option.bind_eq_some_iff.1 h
      have hfits : ∀ l ∈ before.leaves, l.depth + 1 ≤ maxDepth := by
        intro l hl
        have := depth_of_negateTimes? hbefore l hl
        omega
      rw [resolve_negate? hneg hfits, ih hbefore (by omega),
        Clause.filterMap_negate?_throughNegations]

/-- **Negation of descriptors means negation.** A descriptor without a negation describes no
clause with a boolean outcome. Any other can be negated again and again, and `n` negations, if
resolution looks through as many more levels, give its clauses with a boolean outcome, in order,
and flipped if `n` is odd. -/
theorem negate?_means_negation (facts : Facts) (m : Subject) (d : Descriptor) (maxDepth : Nat) :
    (d.negate? = none → ∀ c ∈ d.resolve facts m maxDepth, c.outcome.isBool = false) ∧
    (d.negate?.isSome = true → ∀ n, ∃ negated, negateTimes? n d = some negated ∧
      (1 ≤ n → d.depth + n ≤ maxDepth →
        negated.resolve facts m maxDepth =
          ((d.resolve facts m maxDepth).filter fun c => c.outcome.isBool).map
            fun c => if n % 2 = 1 then c.flip else c)) := by
  refine ⟨fun h => isBool_of_negate?_eq_none h, ?_⟩
  intro h n
  obtain ⟨negated, hn, -⟩ := exists_negateTimes? h n
  refine ⟨negated, hn, ?_⟩
  intro hpos hdepth
  rw [resolve_negateTimes? hn hdepth, Clause.throughNegations, if_neg (Nat.ne_of_gt hpos)]

/-- Three negations of a tree with stated clauses behind guards and negations. -/
theorem negate?_means_negation_mixedTree :
    (Descriptor.guarded [] [.known ⟨⟨[.any]⟩, .fail⟩]).negate? = none ∧
    (∀ c ∈ (Descriptor.guarded [] [.known ⟨⟨[.any]⟩, .fail⟩]).resolve noMethods
      literalAndAssignment 1, c.outcome.isBool = false) ∧
    mixedTree.negate?.isSome = true ∧
    ∃ negated, negateTimes? 3 mixedTree = some negated ∧
      negated.resolve noMethods literalAndAssignment 7 =
        [⟨⟨[.null]⟩, .bool false⟩, ⟨⟨[.nonNull]⟩, .bool false⟩] := by
  have hnone : (Descriptor.guarded [] [.known ⟨⟨[.any]⟩, .fail⟩]).negate? = none := rfl
  have hsome : mixedTree.negate?.isSome = true := rfl
  obtain ⟨negated, hn, hresolve⟩ :=
    (negate?_means_negation noMethods literalAndAssignment mixedTree 7).2 hsome 3
  refine ⟨hnone, (negate?_means_negation noMethods literalAndAssignment _ 1).1 hnone, hsome,
    negated, hn, ?_⟩
  rw [hresolve (by decide) (by decide +kernel)]
  decide +kernel

end Descriptor

end MethodContracts
