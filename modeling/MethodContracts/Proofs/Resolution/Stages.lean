import MethodContracts.Proofs.Resolution.Arity

/-!
# Normalizing in stages

On their way to a method, clauses are normalized several times: the clauses of a target, what a
caller inherits from them, and finally all that is found for the caller. This does no harm. The
first clauses of a list may be normalized by themselves, and once normal they stay as they are,
whatever comes after them (`normalize?_in_stages`). A delegation that is the only descriptor of a
method is therefore inferred just as it was resolved, and one that is followed by others either
stays in front of them or is lost with them in a conflict (`Subject.delegate_prefix_infer`).
-/

namespace MethodContracts

namespace Subject

variable (facts : Facts) (m : Subject) (range : TextRange) (negated : Bool) (depth : Nat)

theorem infer_delegation :
    m.infer facts depth [.delegation range negated] = m.delegate facts range negated := by
  have hnormal := Clause.normalize?_eq_self_iff.2 (m.normal_delegate facts range negated)
  rw [infer, Descriptor.resolveAll, Descriptor.resolveAll, List.append_nil, Descriptor.resolve,
    hnormal, Option.getD_some]

theorem delegate_prefix_infer (ds : List Descriptor) :
    m.infer facts depth (.delegation range negated :: ds) = [] ∨
      m.delegate facts range negated <+: m.infer facts depth (.delegation range negated :: ds) := by
  have hnormal := Clause.normalize?_eq_self_iff.2 (m.normal_delegate facts range negated)
  rw [infer, Descriptor.resolveAll, Descriptor.resolve]
  cases hout : Clause.normalize? (m.delegate facts range negated ++
      Descriptor.resolveAll facts m depth ds) with
  | none => exact Or.inl rfl
  | some out => exact Or.inr (Clause.prefix_of_normalize?_append hnormal hout)

end Subject

namespace Clause

/-- **Normalization is compositional.** A list has no normal form if its first clauses have none.
Otherwise these can be replaced by their normal form, which is its own normal form, and at which
the normal form of the whole list starts. So the clauses of a delegation, which are normal, come
through inference unchanged. -/
theorem normalize?_in_stages (xs ys : List Clause) :
    (normalize? xs = none → normalize? (xs ++ ys) = none) ∧
    (∀ kept, normalize? xs = some kept →
      normalize? (xs ++ ys) = normalize? (kept ++ ys) ∧
      (∀ out, normalize? (xs ++ ys) = some out → kept <+: out) ∧
      normalize? kept = some kept) ∧
    ∀ (facts : Facts) (m : Subject) (range : TextRange) (negated : Bool) (depth : Nat),
      m.infer facts depth [.delegation range negated] = m.delegate facts range negated := by
  refine ⟨fun h => ?_, fun kept h => ⟨?_, fun out hout => ?_, ?_⟩, Subject.infer_delegation⟩
  · rw [normalize?_append, h, Option.bind_none]
  · rw [normalize?_append, h, Option.bind_some]
  · exact prefix_of_normalize?_append h hout
  · exact normalize?_eq_self_iff.2 (normal_of_normalize? h)

/-- The second clause is narrowed before the third comes in, which is then narrowed by what was
kept of the first two; clauses that conflict do so whatever follows. -/
theorem normalize?_in_stages_narrowed :
    let conflicting : List Clause := [⟨⟨[.null, .any]⟩, .fail⟩, ⟨⟨[.any, .null]⟩, .bool true⟩]
    let xs : List Clause := [⟨⟨[.null, .null]⟩, .fail⟩, ⟨⟨[.any, .null]⟩, .bool true⟩]
    let ys : List Clause := [⟨⟨[.null, .any]⟩, .nonNull⟩]
    let kept : List Clause := [⟨⟨[.null, .null]⟩, .fail⟩, ⟨⟨[.nonNull, .null]⟩, .bool true⟩]
    let out : List Clause := [⟨⟨[.null, .null]⟩, .fail⟩, ⟨⟨[.nonNull, .null]⟩, .bool true⟩,
      ⟨⟨[.null, .nonNull]⟩, .nonNull⟩]
    normalize? conflicting = none ∧ normalize? (conflicting ++ ys) = none ∧
    normalize? xs = some kept ∧ normalize? kept = some kept ∧
    normalize? (xs ++ ys) = some out ∧ normalize? (kept ++ ys) = some out ∧ kept <+: out := by
  intro conflicting xs ys kept out
  have hconflict : normalize? conflicting = none := by decide +kernel
  have hkept : normalize? xs = some kept := by decide +kernel
  have hout : normalize? (xs ++ ys) = some out := by decide +kernel
  obtain ⟨heq, hprefix, hsame⟩ := (normalize?_in_stages xs ys).2.1 kept hkept
  exact ⟨hconflict, (normalize?_in_stages conflicting ys).1 hconflict, hkept, hsame, hout,
    heq.symm.trans hout, hprefix out hout⟩

end Clause

end MethodContracts
