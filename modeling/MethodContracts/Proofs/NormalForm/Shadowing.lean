import MethodContracts.Proofs.NormalForm.Agreement
import MethodContracts.Proofs.NormalForm.Carving

/-!
# Clauses that an earlier clause shadows

A clause is **shadowed** by a list in normal form if one of its clauses covers it. As the earlier
clause wins, a shadowed clause says nothing; but the scan may come to a conflict before it comes to
the clause that covers it. Taking in a shadowed clause never changes the list: it is dropped, or
there is a conflict. `normalize?_concat_of_covered` says which of the two happens.

A clause that promises what the clause that shadows it does agrees with all others, and is dropped.
Any other disagrees with each clause that it overlaps. These are taken out of it one after the
other, until nothing is left: this succeeds if each clause that applies to what is left applies to
all of it, or else to nothing beyond it, leaving the argument lists of a single domain
(`GivesWay`).
-/

namespace MethodContracts

namespace Clause

variable {c k rest : Clause} {cs kept out : List Clause} {args : List Value}

/-! ### Taking clauses out of a clause -/

/-- Whether an argument list is one of a clause's that none of some other clauses applies to. -/
def LeftBy (ks : List Clause) (c : Clause) (args : List Value) : Prop :=
  c.domain.Admits args ∧ ∀ k ∈ ks, ¬k.domain.Admits args

/-- Whether a clause can be taken out of the argument lists that are left: if it applies to some of
them, then to all, or else to no others, and those that it does not apply to form a domain. -/
def CanBeTakenOut (left : List Value → Prop) (k : Clause) : Prop :=
  (∃ args, left args ∧ k.domain.Admits args) →
    (∀ args, left args → k.domain.Admits args) ∨
      (∀ args, k.domain.Admits args → left args) ∧
        ∃ d : Domain, ∀ args, d.Admits args ↔ left args ∧ ¬k.domain.Admits args

/-- Whether the clauses of a list can be taken out of a clause one after the other. -/
def GivesWay (kept : List Clause) (c : Clause) : Prop :=
  ∀ i k, kept[i]? = some k → CanBeTakenOut (LeftBy (kept.take i) c) k

theorem not_admits_of_not_overlaps (h : k.overlaps c = false) (hc : c.domain.Admits args) :
    ¬k.domain.Admits args := by
  intro hk
  rw [overlaps_iff.2 ⟨args, hk, hc⟩] at h
  exact Bool.false_ne_true h.symm

theorem leftBy_iff_of_not_overlaps {ks : List Clause} (h : ∀ k ∈ ks, k.overlaps c = false) :
    LeftBy ks c args ↔ c.domain.Admits args :=
  ⟨fun hleft => hleft.1, fun hc => ⟨hc, fun k hk => not_admits_of_not_overlaps (h k hk) hc⟩⟩

/-- A clause that applies to nothing that is left can be taken out. -/
theorem canBeTakenOut_of_disjoint {left : List Value → Prop}
    (h : ∀ args, left args → ¬k.domain.Admits args) : CanBeTakenOut left k :=
  fun ⟨args, hleft, hk⟩ => absurd hk (h args hleft)

/-! ### The scan of a shadowed clause -/

/-- Nothing is left of a shadowed clause, if there is no conflict. -/
theorem settle?_of_covered (hk : k ∈ kept) (hcov : k.domain.covers c.domain = true)
    {left : Option Clause} (h : settle? kept c = some left) : left = none := by
  cases left with
  | none => rfl
  | some rest =>
      have hrest : k.domain.covers rest.domain = true :=
        settle?_preserves (fun _ _ _ hcov hcarve => covers_of_carve? hcarve hcov) h hcov rest rfl
      have hpass := passes_of_settle? h rest rfl k hk
      rw [encounter_eq_absorbed_iff.2 hrest] at hpass
      exact absurd hpass (by simp)

/-- If a clause disagrees with all clauses that it overlaps, then the first that it overlaps decides
its scan. -/
theorem exists_first_overlap {e : Encounter}
    (hne : ∀ j ∈ kept, j.overlaps c = true → j.outcome ≠ c.outcome) (h : confront kept c = e)
    (he : e ≠ .passes) : ∃ i k, kept[i]? = some k ∧ k.encounter c = e ∧
      ∀ j ∈ kept.take i, j.overlaps c = false := by
  obtain ⟨i, k, hget, henc, hbefore⟩ := exists_getElem?_of_confront h he
  refine ⟨i, k, hget, henc, fun j hj => Bool.eq_false_iff.2 fun hover => ?_⟩
  exact hne j (List.mem_of_mem_take hj) hover
    ((encounter_eq_passes_iff.1 (hbefore j hj)).1 hover)

theorem mem_take_of_getElem? {i n : Nat} (h : kept[i]? = some k) (hi : i < n) :
    k ∈ kept.take n := by
  refine List.mem_of_getElem? (i := i) ?_
  rw [List.getElem?_take_of_lt hi, h]

section FirstEncounter

variable {i : Nat} (hget : kept[i]? = some k) (hbefore : ∀ j ∈ kept.take i, j.overlaps c = false)

include hget hbefore

/-- If the first clause that overlaps covers, then nothing is left for the others. -/
theorem givesWay_of_covers (hcov : k.domain.covers c.domain = true) : GivesWay kept c := by
  intro n k' hget'
  rcases Nat.lt_trichotomy n i with hlt | rfl | hgt
  · have hk' := hbefore k' (mem_take_of_getElem? hget' hlt)
    exact canBeTakenOut_of_disjoint fun args hleft => not_admits_of_not_overlaps hk' hleft.1
  · obtain rfl : k = k' := Option.some.inj (hget.symm.trans hget')
    exact fun _ => Or.inl fun args hleft => Domain.covers_iff.1 hcov args hleft.1
  · refine canBeTakenOut_of_disjoint fun args hleft => ?_
    have hk := hleft.2 k (mem_take_of_getElem? hget hgt)
    exact absurd (Domain.covers_iff.1 hcov args hleft.1) hk

/-- If the first clause that overlaps can be carved out, then what matters for the others is what
it leaves. -/
theorem givesWay_iff_of_carve? (hcarve : c.carve? k = some rest) :
    GivesWay kept c ↔ GivesWay kept rest := by
  have hrest := admits_of_carve? hcarve
  refine forall_congr' fun n => forall_congr' fun k' => imp_congr_right fun hget' => ?_
  rcases Nat.lt_trichotomy n i with hlt | rfl | hgt
  · have hk' := hbefore k' (mem_take_of_getElem? hget' hlt)
    refine iff_of_true (canBeTakenOut_of_disjoint fun args hleft => ?_)
      (canBeTakenOut_of_disjoint fun args hleft => ?_)
    · exact not_admits_of_not_overlaps hk' hleft.1
    · exact not_admits_of_not_overlaps hk' ((hrest args).1 hleft.1).1
  · obtain rfl : k = k' := Option.some.inj (hget.symm.trans hget')
    refine iff_of_true (fun _ => Or.inr ⟨fun args hk => ?_, rest.domain, fun args => ?_⟩)
      (canBeTakenOut_of_disjoint fun args hleft => ((hrest args).1 hleft.1).2)
    · exact (leftBy_iff_of_not_overlaps hbefore).2 ((carve?_eq_some_iff.1 hcarve).1 args hk)
    · rw [leftBy_iff_of_not_overlaps hbefore]
      exact hrest args
  · -- after the clause that is carved out, the same is left of both
    have hsame : LeftBy (kept.take n) c = LeftBy (kept.take n) rest := by
      funext args
      refine propext ⟨fun hleft => ⟨(hrest args).2 ⟨hleft.1, ?_⟩, hleft.2⟩,
        fun hleft => ⟨((hrest args).1 hleft.1).1, hleft.2⟩⟩
      exact hleft.2 k (mem_take_of_getElem? hget hgt)
    rw [hsame]

/-- If the first clause that overlaps neither covers nor can be carved out, then it cannot be taken
out. -/
theorem not_givesWay_of_conflict (hover : k.overlaps c = true)
    (hcov : k.domain.covers c.domain = false) (hcarve : c.carve? k = none) :
    ¬GivesWay kept c := by
  intro h
  obtain ⟨args, hk, hc⟩ := overlaps_iff.1 hover
  have hleft : ∀ args, LeftBy (kept.take i) c args ↔ c.domain.Admits args :=
    fun _ => leftBy_iff_of_not_overlaps hbefore
  rcases h i k hget ⟨args, (hleft args).2 hc, hk⟩ with hall | ⟨hsub, d, hdiff⟩
  · have hyes := Domain.covers_iff.2 fun args hc => hall args ((hleft args).2 hc)
    rw [hcov] at hyes
    exact Bool.false_ne_true hyes
  · have hsome : c.carve? k = some ⟨d, c.outcome⟩ :=
      carve?_eq_some_iff.2 ⟨fun args hk => (hleft args).1 (hsub args hk), rfl,
        fun args => by rw [hdiff args, hleft args]⟩
    rw [hcarve] at hsome
    exact absurd hsome (by simp)

end FirstEncounter

/-- A shadowed clause that disagrees with all clauses that it overlaps is dropped just when these
can be taken out of it one after the other. -/
theorem settle?_eq_some_none_iff (hk : k ∈ kept) (hcov : k.domain.covers c.domain = true)
    (hne : ∀ j ∈ kept, j.overlaps c = true → j.outcome ≠ c.outcome) :
    settle? kept c = some none ↔ GivesWay kept c := by
  -- the induction is on how often the clause is narrowed
  induction c using settle?.induct kept with
  | case1 c hpass =>
      have hpasses := confront_eq_passes_iff.1 hpass k hk
      rw [encounter_eq_absorbed_iff.2 hcov] at hpasses
      exact absurd hpasses (by simp)
  | case2 c habs =>
      obtain ⟨i, k', hget, henc, hbefore⟩ := exists_first_overlap hne habs (by simp)
      rw [settle?_of_absorbed habs]
      exact iff_of_true rfl (givesWay_of_covers hget hbefore (covers_of_absorbed henc))
  | case3 c rest hnarrow ih =>
      obtain ⟨i, k', hget, henc, hbefore⟩ := exists_first_overlap hne hnarrow (by simp)
      have hcarve := carve?_of_narrowed henc
      have hne' : ∀ j ∈ kept, j.overlaps rest = true → j.outcome ≠ rest.outcome := by
        intro j hj hover
        rw [outcome_of_carve? hcarve]
        exact hne j hj (overlaps_of_carve? hcarve hover)
      rw [settle?_of_narrowed hnarrow, givesWay_iff_of_carve? hget hbefore hcarve]
      exact ih (covers_of_carve? hcarve hcov) hne'
  | case4 c hconf =>
      obtain ⟨i, k', hget, henc, hbefore⟩ := exists_first_overlap hne hconf (by simp)
      have hspec := encounter_spec k' c
      rw [henc] at hspec
      have hcov' : k'.domain.covers c.domain = false := by
        refine Bool.eq_false_iff.2 fun hyes => ?_
        rw [encounter_eq_absorbed_iff.2 hyes] at henc
        exact absurd henc (by simp)
      rw [settle?_of_conflict hconf]
      exact iff_of_false (by simp)
        (not_givesWay_of_conflict hget hbefore hspec.1 hcov' hspec.2.2)

/-! ### Shadowed clauses -/

/-- What overlaps a covered clause also overlaps the clause that covers it, and agrees with it. -/
theorem Normal.outcome_eq_of_covers (h : Normal kept) (hk : k ∈ kept)
    (hcov : k.domain.covers c.domain = true) {j : Clause} (hj : j ∈ kept)
    (hover : j.overlaps c = true) : j.outcome = k.outcome := by
  obtain ⟨args, hjargs, hargs⟩ := overlaps_iff.1 hover
  exact h.outcome_eq j hj k hk
    (overlaps_iff.2 ⟨args, hjargs, Domain.covers_iff.1 hcov args hargs⟩)

theorem settle?_eq_some_none_iff_of_covered (h : Normal kept) (hk : k ∈ kept)
    (hcov : k.domain.covers c.domain = true) :
    settle? kept c = some none ↔ k.outcome = c.outcome ∨ GivesWay kept c := by
  have hout : ∀ j ∈ kept, j.overlaps c = true → j.outcome = k.outcome :=
    fun j hj => h.outcome_eq_of_covers hk hcov hj
  by_cases hsame : k.outcome = c.outcome
  · have hagrees : ∀ j ∈ kept, j.Agrees c := fun j hj hover => (hout j hj hover).trans hsame
    have hany : (kept.any fun j => j.domain.covers c.domain) = true :=
      List.any_eq_true.2 ⟨k, hk, hcov⟩
    rw [settle?_of_agrees hagrees, if_pos hany]
    exact iff_of_true rfl (Or.inl hsame)
  · have hne : ∀ j ∈ kept, j.overlaps c = true → j.outcome ≠ c.outcome := by
      intro j hj hover
      rw [hout j hj hover]
      exact hsame
    rw [settle?_eq_some_none_iff hk hcov hne]
    exact ⟨Or.inr, fun hor => hor.resolve_left hsame⟩

/-- **A shadowed clause is dropped, or else there is a conflict.** It is dropped just when it
promises the same as the clause that covers it, or the clauses that it overlaps can be taken out of
it one after the other. -/
theorem normalize?_concat_of_covered (h : normalize? cs = some out) (hk : k ∈ out)
    (hcov : k.domain.covers c.domain = true) :
    (normalize? (cs ++ [c]) = some out ∨ normalize? (cs ++ [c]) = none) ∧
      (normalize? (cs ++ [c]) = some out ↔ k.outcome = c.outcome ∨ GivesWay out c) := by
  have hnormal := normal_of_normalize? h
  have harity : ∀ j ∈ out, j.arity = c.arity := fun j hj =>
    (hnormal.arity_eq j hj k hk).trans (Domain.arity_eq_of_covers hcov)
  have hinsert : normalize? (cs ++ [c]) =
      (settle? out c).map fun rest => out ++ rest.toList := by
    rw [normalize?_concat, h, Option.bind_some, insert?_eq_map_settle? harity]
  rw [← settle?_eq_some_none_iff_of_covered hnormal hk hcov, hinsert]
  cases hleft : settle? out c with
  | none => simp
  | some left =>
      obtain rfl := settle?_of_covered hk hcov hleft
      simp

/-- The clause for all arguments is narrowed by the one for arguments that are not null, and what
is left of it is then dropped; it gives way. -/
theorem normalize?_concat_of_covered_narrowed :
    normalize? [⟨⟨[.nonNull]⟩, .nonNull⟩, ⟨⟨[.any]⟩, .nonNull⟩, ⟨⟨[.any]⟩, .fail⟩] =
      some [⟨⟨[.nonNull]⟩, .nonNull⟩, ⟨⟨[.any]⟩, .nonNull⟩] ∧
    GivesWay [⟨⟨[.nonNull]⟩, .nonNull⟩, ⟨⟨[.any]⟩, .nonNull⟩] ⟨⟨[.any]⟩, .fail⟩ := by
  have h : normalize? [⟨⟨[.nonNull]⟩, .nonNull⟩, ⟨⟨[.any]⟩, .nonNull⟩] =
      some [⟨⟨[.nonNull]⟩, .nonNull⟩, ⟨⟨[.any]⟩, .nonNull⟩] := by decide +kernel
  have hdropped : normalize? ([⟨⟨[.nonNull]⟩, .nonNull⟩, ⟨⟨[.any]⟩, .nonNull⟩] ++
      [⟨⟨[.any]⟩, .fail⟩]) =
      some [⟨⟨[.nonNull]⟩, .nonNull⟩, ⟨⟨[.any]⟩, .nonNull⟩] := by decide +kernel
  have hiff := (normalize?_concat_of_covered (k := ⟨⟨[.any]⟩, .nonNull⟩) (c := ⟨⟨[.any]⟩, .fail⟩)
    h (by simp) (by decide)).2
  exact ⟨hdropped, (hiff.1 hdropped).resolve_left (by decide)⟩

/-- The last clause applies only where the second one does, but meets the first one before, which
it overlaps in part: there is a conflict. -/
theorem normalize?_conflict_of_covered :
    normalize? [⟨⟨[.null, .any]⟩, .nonNull⟩, ⟨⟨[.any, .null]⟩, .nonNull⟩] =
      some [⟨⟨[.null, .any]⟩, .nonNull⟩, ⟨⟨[.any, .null]⟩, .nonNull⟩] ∧
    (∃ k ∈ [(⟨⟨[.null, .any]⟩, .nonNull⟩ : Clause), ⟨⟨[.any, .null]⟩, .nonNull⟩],
      k.domain.covers ⟨[.any, .null]⟩ = true) ∧
    normalize? ([⟨⟨[.null, .any]⟩, .nonNull⟩, ⟨⟨[.any, .null]⟩, .nonNull⟩] ++
      [⟨⟨[.any, .null]⟩, .fail⟩]) = none := by
  decide +kernel

end Clause

end MethodContracts
