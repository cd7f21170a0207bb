import Mathlib.Tactic.ByContra
import MethodContracts.Proofs.Domain.Meaning

/-!
# When a difference of domains is a domain

Taking one domain out of a larger one leaves the argument lists of a domain only if the two differ
in one slot whose constraint has a complement. `Domain.subtract?` therefore misses nothing: if
there is a domain with exactly these argument lists, it is found (`Domain.subtract?_eq_some_iff`).

A domain is a product of its slots. If two domains differ in two slots, then an argument list that
is left because of the first slot and one that is left because of the second can be recombined into
one that was taken out; no product contains the two without it. The induction meets this case where
the first slots differ and the rests differ too.
-/

namespace MethodContracts

namespace Constraint

variable {a b d : Constraint} {as bs ds : List Constraint}

/-- A value of the larger of two different constraints that the smaller one does not admit. -/
theorem exists_admits_of_covers_of_ne (hcov : a.covers b = true) (hne : a ≠ b) :
    ∃ v, a.Admits v ∧ ¬b.Admits v := by
  by_contra hnone
  refine hne (eq_of_admits_iff fun v => ⟨fun ha => ?_, covers_iff.1 hcov v⟩)
  by_contra hb
  exact hnone ⟨v, ha, hb⟩

/-- A difference of two constraints is a constraint only if the smaller one has a complement. -/
theorem complement?_eq_some_of_difference (hcov : a.covers b = true) (hne : a ≠ b)
    (h : ∀ v, d.Admits v ↔ a.Admits v ∧ ¬b.Admits v) : b.complement? = some d := by
  have hnull := h .null
  have htrue := h (.bool true)
  have hfalse := h (.bool false)
  have hobject := h .object
  clear h
  rcases a with _ | _ | _ | (_ | _) <;> rcases b with _ | _ | _ | (_ | _) <;>
    rcases d with _ | _ | _ | (_ | _) <;> simp_all [Admits, covers, meet, complement?]

/-- Lists of constraints are determined by the argument lists that satisfy them. -/
theorem eq_of_admitAll_iff (h : ∀ vs, AdmitAll as vs ↔ AdmitAll bs vs) : as = bs := by
  induction as generalizing bs with
  | nil =>
      obtain ⟨vs, hvs⟩ := exists_admitAll bs
      have hlen := (length_of_admitAll hvs).symm.trans (length_of_admitAll ((h vs).2 hvs))
      exact (List.length_eq_zero_iff.1 hlen).symm
  | cons a as ih =>
      obtain ⟨vs, hvs⟩ := exists_admitAll (a :: as)
      have hlen := (length_of_admitAll ((h vs).1 hvs)).symm.trans (length_of_admitAll hvs)
      obtain ⟨b, bs, rfl⟩ := List.exists_cons_of_length_eq_add_one hlen
      obtain ⟨w, ws, rfl⟩ := List.exists_cons_of_length_eq_add_one (length_of_admitAll hvs)
      have hws := (h (w :: ws)).1 hvs
      have hab : a = b := eq_of_admits_iff fun v =>
        ⟨fun ha => ((h (v :: ws)).1 ⟨ha, hvs.2⟩).1, fun hb => ((h (v :: ws)).2 ⟨hb, hws.2⟩).1⟩
      have hrest : as = bs := ih fun vs =>
        ⟨fun ha => ((h (w :: vs)).1 ⟨hvs.1, ha⟩).2, fun hb => ((h (w :: vs)).2 ⟨hws.1, hb⟩).2⟩
      rw [hab, hrest]

theorem exists_admitAll_of_coverAll_of_ne (hcov : coverAll as bs = true) (hne : as ≠ bs) :
    ∃ vs, AdmitAll as vs ∧ ¬AdmitAll bs vs := by
  by_contra hnone
  refine hne (eq_of_admitAll_iff fun vs => ⟨fun ha => ?_, coverAll_iff.1 hcov vs⟩)
  by_contra hb
  exact hnone ⟨vs, ha, hb⟩

/-! A difference of two products, seen from an argument list `w :: ws` that is left: one slot varies
and the others keep their values. -/

theorem head_of_difference
    (h : ∀ vs, AdmitAll (d :: ds) vs ↔ AdmitAll (a :: as) vs ∧ ¬AdmitAll (b :: bs) vs)
    {w : Value} {ws : List Value} (hleft : AdmitAll (d :: ds) (w :: ws)) (v : Value) :
    d.Admits v ↔ a.Admits v ∧ ¬(b.Admits v ∧ AdmitAll bs ws) := by
  have hw := (h (w :: ws)).1 hleft
  have hv := h (v :: ws)
  simp only [admitAll_cons] at hleft hw hv
  tauto

theorem tail_of_difference
    (h : ∀ vs, AdmitAll (d :: ds) vs ↔ AdmitAll (a :: as) vs ∧ ¬AdmitAll (b :: bs) vs)
    {w : Value} {ws : List Value} (hleft : AdmitAll (d :: ds) (w :: ws)) (vs : List Value) :
    AdmitAll ds vs ↔ AdmitAll as vs ∧ ¬(b.Admits w ∧ AdmitAll bs vs) := by
  have hw := (h (w :: ws)).1 hleft
  have hvs := h (w :: vs)
  simp only [admitAll_cons] at hleft hw hvs
  tauto

/-- Of two products that differ in the first slot and in the rest, the difference is no product. -/
theorem not_difference_of_ne_of_ne (hcov : a.covers b = true) (hne : a ≠ b)
    (hcovs : coverAll as bs = true) (hnes : as ≠ bs) :
    ¬∀ vs, AdmitAll (d :: ds) vs ↔ AdmitAll (a :: as) vs ∧ ¬AdmitAll (b :: bs) vs := by
  intro h
  obtain ⟨v, hav, hbv⟩ := exists_admits_of_covers_of_ne hcov hne
  obtain ⟨vs, havs, hbvs⟩ := exists_admitAll_of_coverAll_of_ne hcovs hnes
  obtain ⟨x, hbx⟩ := b.exists_admits
  obtain ⟨xs, hbxs⟩ := exists_admitAll bs
  -- `v :: xs` is left because of the first slot and `x :: vs` because of the rest
  have hfirst : AdmitAll (d :: ds) (v :: xs) :=
    (h (v :: xs)).2 ⟨⟨hav, coverAll_iff.1 hcovs xs hbxs⟩, fun hb => hbv hb.1⟩
  have hrest : AdmitAll (d :: ds) (x :: vs) :=
    (h (x :: vs)).2 ⟨⟨covers_iff.1 hcov x hbx, havs⟩, fun hb => hbvs hb.2⟩
  have htaken : AdmitAll (d :: ds) (x :: xs) := ⟨hrest.1, hfirst.2⟩
  exact ((h (x :: xs)).1 htaken).2 ⟨hbx, hbxs⟩

/-- If some list of constraints is satisfied by what satisfies one list and not another, then
subtracting finds it. -/
theorem subtractAll_eq_some_of_difference (hcov : coverAll as bs = true)
    (h : ∀ vs, AdmitAll ds vs ↔ AdmitAll as vs ∧ ¬AdmitAll bs vs) :
    subtractAll as bs = some ds := by
  induction as generalizing bs ds with
  | nil =>
      cases bs with
      | nil =>
          obtain ⟨vs, hvs⟩ := exists_admitAll ds
          have hnot := (h vs).1 hvs
          exact absurd hnot.1 hnot.2
      | cons b bs => simp [coverAll] at hcov
  | cons a as ih =>
      cases bs with
      | nil => simp [coverAll] at hcov
      | cons b bs =>
          simp only [coverAll, Bool.and_eq_true] at hcov
          obtain ⟨vs, hvs⟩ := exists_admitAll ds
          obtain ⟨w, ws, rfl⟩ := List.exists_cons_of_length_eq_add_one
            (length_of_admitAll ((h vs).1 hvs).1)
          obtain ⟨d, ds, rfl⟩ := List.exists_cons_of_length_eq_add_one
            (length_of_admitAll hvs).symm
          have hhead := head_of_difference h hvs
          have htail := tail_of_difference h hvs
          have hw : ¬(b.Admits w ∧ AdmitAll bs ws) := ((hhead w).1 hvs.1).2
          have haw : a.Admits w := ((hhead w).1 hvs.1).1
          have haws : AdmitAll as ws := ((htail ws).1 hvs.2).1
          rw [subtractAll]
          by_cases hab : a = b
          · -- the first slots agree, and the rests have a difference
            subst hab
            have hbws : ¬AdmitAll bs ws := fun hbs => hw ⟨haw, hbs⟩
            have hd : d = a := eq_of_admits_iff fun v => by
              simpa [hbws] using hhead v
            have hds : subtractAll as bs = some ds := ih hcov.2 fun vs => by
              simpa [haw] using htail vs
            rw [if_pos rfl, hds, hd]
            rfl
          · rw [if_neg hab]
            by_cases hrest : as = bs
            · -- the rests agree, and the first slots have a difference
              subst hrest
              have hbw : ¬b.Admits w := fun hb => hw ⟨hb, haws⟩
              have hds : ds = as := eq_of_admitAll_iff fun vs => by
                simpa [hbw] using htail vs
              have hd : b.complement? = some d :=
                complement?_eq_some_of_difference hcov.1 hab fun v => by
                  simpa [haws] using hhead v
              rw [if_pos rfl, hd, hds]
              rfl
            · exact absurd h (not_difference_of_ne_of_ne hcov.1 hab hcov.2 hrest)

end Constraint

namespace Domain

variable {a b d : Domain}

/-- **Subtraction finds the difference of two domains whenever it is a domain.** -/
theorem subtract?_eq_some_iff : a.subtract? b = some d ↔
    (∀ args, b.Admits args → a.Admits args) ∧
      ∀ args, d.Admits args ↔ a.Admits args ∧ ¬b.Admits args := by
  constructor
  · intro h
    refine ⟨?_, admits_of_subtract? h⟩
    unfold subtract? at h
    split at h
    · rename_i hcov
      exact covers_iff.1 hcov
    · simp at h
  · rintro ⟨hsub, hdiff⟩
    have hcov : a.covers b = true := covers_iff.2 hsub
    rw [subtract?, if_pos hcov, Constraint.subtractAll_eq_some_of_difference hcov hdiff]
    rfl

end Domain

end MethodContracts
