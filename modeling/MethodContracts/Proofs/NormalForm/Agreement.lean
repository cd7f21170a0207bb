import MethodContracts.Proofs.NormalForm.Normal

/-!
# Clauses that agree

Where clauses that overlap promise the same, nothing is narrowed and nothing conflicts. A clause
that meets clauses it agrees with is dropped if one of them covers it, and stands beside them as
it is otherwise (`settle?_of_agrees`). So the normal form of a list whose clauses all agree is the
list without the clauses that an earlier one covers (`normalize?_of_agreeing`).

A list of clauses of one arity that has no normal form therefore has two clauses that disagree
(`normalize?_conflict_is_disagreement`), although the conflict is noticed between a clause and what
is kept of another, and both may have been narrowed.
-/

namespace MethodContracts

namespace Clause

variable {a b c k : Clause} {cs kept : List Clause}

/-- Whether two clauses promise the same if they overlap. -/
def Agrees (a b : Clause) : Prop := a.overlaps b = true → a.outcome = b.outcome

/-- A clause that agrees with a kept one is neither narrowed nor in conflict with it. -/
theorem encounter_of_agrees (h : k.Agrees c) :
    k.encounter c = if k.domain.covers c.domain then .absorbed else .passes := by
  by_cases hcov : k.domain.covers c.domain = true
  · rw [if_pos hcov, encounter_eq_absorbed_iff]
    exact hcov
  · rw [if_neg hcov, encounter_eq_passes_iff]
    exact ⟨h, Bool.eq_false_iff.2 hcov⟩

theorem confront_of_agrees (h : ∀ k ∈ kept, k.Agrees c) :
    confront kept c =
      if kept.any fun k => k.domain.covers c.domain then .absorbed else .passes := by
  induction kept with
  | nil => rfl
  | cons k ks ih =>
      have hrest := ih fun k hk => h k (List.mem_cons_of_mem _ hk)
      rw [confront, encounter_of_agrees (h k List.mem_cons_self), List.any_cons]
      by_cases hcov : k.domain.covers c.domain = true
      · simp [hcov]
      · simp [hcov, hrest]

/-- What is left of a clause that agrees with all kept ones: nothing if one of them covers it, and
all of it otherwise. -/
theorem settle?_of_agrees (h : ∀ k ∈ kept, k.Agrees c) :
    settle? kept c =
      some (if kept.any fun k => k.domain.covers c.domain then none else some c) := by
  have hconfront := confront_of_agrees h
  by_cases hcov : (kept.any fun k => k.domain.covers c.domain) = true
  · rw [if_pos hcov] at hconfront ⊢
    exact settle?_of_absorbed hconfront
  · rw [if_neg hcov] at hconfront ⊢
    exact settle?_of_passes hconfront

/-! ### Lists of clauses that agree -/

/-- The clauses of a list that no earlier one covers, in order. -/
def uncovered : List Clause → List Clause
  | [] => []
  | c :: cs => c :: (uncovered cs).filter fun d => !c.domain.covers d.domain

theorem uncovered_sublist (cs : List Clause) : (uncovered cs).Sublist cs := by
  induction cs with
  | nil => exact List.Sublist.refl _
  | cons c cs ih => exact (List.filter_sublist.trans ih).cons_cons c

/-- What a dropped clause covers is covered by the clauses that stay. -/
theorem exists_mem_uncovered {d : Domain} (hk : k ∈ cs) (hcov : k.domain.covers d = true) :
    ∃ k' ∈ uncovered cs, k'.domain.covers d = true := by
  induction cs with
  | nil => exact absurd hk List.not_mem_nil
  | cons c cs ih =>
      rcases List.mem_cons.1 hk with rfl | hk
      · exact ⟨k, List.mem_cons_self, hcov⟩
      · obtain ⟨k', hk', hcov'⟩ := ih hk
        by_cases hc : c.domain.covers k'.domain = true
        · exact ⟨c, List.mem_cons_self, Domain.covers_trans hc hcov'⟩
        · exact ⟨k', List.mem_cons_of_mem _ (List.mem_filter.2 ⟨hk', by simp [hc]⟩), hcov'⟩

theorem any_covers_uncovered (cs : List Clause) (d : Domain) :
    ((uncovered cs).any fun k => k.domain.covers d) = cs.any fun k => k.domain.covers d := by
  rw [Bool.eq_iff_iff, List.any_eq_true, List.any_eq_true]
  constructor
  · rintro ⟨k, hk, hcov⟩
    exact ⟨k, (uncovered_sublist cs).mem hk, hcov⟩
  · rintro ⟨k, hk, hcov⟩
    exact exists_mem_uncovered hk hcov

theorem uncovered_concat (cs : List Clause) (c : Clause) :
    uncovered (cs ++ [c]) =
      uncovered cs ++ if cs.any fun k => k.domain.covers c.domain then [] else [c] := by
  induction cs with
  | nil => rfl
  | cons k cs ih =>
      rw [List.cons_append, uncovered, ih, List.filter_append, List.any_cons, uncovered]
      by_cases hk : k.domain.covers c.domain = true
      · by_cases hcs : (cs.any fun k => k.domain.covers c.domain) = true <;> simp [hk, hcs]
      · by_cases hcs : (cs.any fun k => k.domain.covers c.domain) = true <;> simp [hk, hcs]

/-- **The normal form of clauses that agree** consists of those that no earlier one covers. -/
theorem normalize?_of_agreeing (harity : ∀ a ∈ cs, ∀ b ∈ cs, a.arity = b.arity)
    (hagree : ∀ a ∈ cs, ∀ b ∈ cs, a.Agrees b) : normalize? cs = some (uncovered cs) := by
  -- the last clause of the list meets the normal form of the others
  induction cs using List.reverseRecOn with
  | nil => exact normalize?_nil
  | append_singleton cs c ih =>
      have hcs : ∀ k ∈ cs, k ∈ cs ++ [c] := fun k hk => List.mem_append_left _ hk
      have hc : c ∈ cs ++ [c] := List.mem_append_right _ (List.mem_singleton.2 rfl)
      have hkept : ∀ k ∈ uncovered cs, k ∈ cs ++ [c] :=
        fun k hk => hcs k ((uncovered_sublist cs).mem hk)
      have hrest := ih (fun a ha b hb => harity a (hcs a ha) b (hcs b hb))
        (fun a ha b hb => hagree a (hcs a ha) b (hcs b hb))
      rw [normalize?_concat, hrest, Option.bind_some,
        insert?_eq_map_settle? fun k hk => harity k (hkept k hk) c hc,
        settle?_of_agrees fun k hk => hagree k (hkept k hk) c hc,
        any_covers_uncovered, uncovered_concat, Option.map_some]
      split
      · rfl
      · rfl

/-! ### Conflicts -/

/-- Clauses that all agree have a normal form, so in a list without one some do not. -/
theorem exists_disagreement_of_normalize?_eq_none
    (harity : ∀ a ∈ cs, ∀ b ∈ cs, a.arity = b.arity) (h : normalize? cs = none) :
    ∃ a ∈ cs, ∃ b ∈ cs, a.overlaps b = true ∧ a.outcome ≠ b.outcome := by
  by_contra hno
  have hagree : ∀ a ∈ cs, ∀ b ∈ cs, a.Agrees b := by
    intro a ha b hb hover
    by_contra hne
    exact hno ⟨a, ha, b, hb, hover, hne⟩
  rw [normalize?_of_agreeing harity hagree] at h
  simp at h

/-- **A conflict is a disagreement.** Where clauses of one arity have no normal form, two of them
overlap and promise different things. Where any two of them are disjoint or promise the same, the
normal form consists of those that no earlier one covers. -/
theorem normalize?_conflict_is_disagreement (harity : ∀ a ∈ cs, ∀ b ∈ cs, a.arity = b.arity) :
    (normalize? cs = none → ∃ a ∈ cs, ∃ b ∈ cs, a.overlaps b = true ∧ a.outcome ≠ b.outcome) ∧
    ((∀ a ∈ cs, ∀ b ∈ cs, a.overlaps b = false ∨ a.outcome = b.outcome) →
      normalize? cs = some (uncovered cs)) := by
  refine ⟨exists_disagreement_of_normalize?_eq_none harity, fun hagree => ?_⟩
  refine normalize?_of_agreeing harity fun a ha b hb hover => ?_
  rcases hagree a ha b hb with hno | hout
  · rw [hover] at hno
    exact absurd hno.symm Bool.false_ne_true
  · exact hout

/-- The last clause conflicts with what is left of the second, which is narrowed by the first; it
disagrees with the second itself. Without a disagreement, clauses are only left out. -/
theorem normalize?_conflict_is_disagreement_narrowed :
    (normalize? [⟨⟨[.null, .null]⟩, .fail⟩, ⟨⟨[.any, .null]⟩, .bool true⟩,
        ⟨⟨[.any, .any]⟩, .fail⟩] = none ∧
      ∃ a ∈ [(⟨⟨[.null, .null]⟩, .fail⟩ : Clause), ⟨⟨[.any, .null]⟩, .bool true⟩,
        ⟨⟨[.any, .any]⟩, .fail⟩],
      ∃ b ∈ [(⟨⟨[.null, .null]⟩, .fail⟩ : Clause), ⟨⟨[.any, .null]⟩, .bool true⟩,
        ⟨⟨[.any, .any]⟩, .fail⟩], a.overlaps b = true ∧ a.outcome ≠ b.outcome) ∧
    normalize? [⟨⟨[.nonNull]⟩, .nonNull⟩, ⟨⟨[.any]⟩, .nonNull⟩, ⟨⟨[.bool true]⟩, .nonNull⟩] =
      some [⟨⟨[.nonNull]⟩, .nonNull⟩, ⟨⟨[.any]⟩, .nonNull⟩] := by
  have hnone : normalize? [⟨⟨[.null, .null]⟩, .fail⟩, ⟨⟨[.any, .null]⟩, .bool true⟩,
      ⟨⟨[.any, .any]⟩, .fail⟩] = none := by decide +kernel
  exact ⟨⟨hnone, (normalize?_conflict_is_disagreement (by decide)).1 hnone⟩,
    (normalize?_conflict_is_disagreement (by decide)).2 (by decide)⟩

end Clause

end MethodContracts
