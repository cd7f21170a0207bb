import MethodContracts.Proofs.NormalForm.Scan

/-!
# Normal forms keep the meaning of clause lists

A list of clauses is read in order: for given arguments it promises what the first clause that
applies does (`outcomeOn?`). Its normal form applies to the same arguments, and may be read in any
order: whichever of its clauses applies has that outcome (`normalize?_keeps_reading`).

`ReadsAs` relates the clauses taken in so far to the clauses kept. It is an invariant of
insertion, because a clause loses only arguments that a kept clause applies to, and because what
is left of it passes every kept clause, so where two apply they agree.
-/

namespace MethodContracts

namespace Clause

/-- What a list of clauses promises for some arguments: the outcome of the first clause that
applies to them. -/
def outcomeOn? (cs : List Clause) (args : List Value) : Option Outcome :=
  (cs.find? fun c => decide (c.domain.Admits args)).map outcome

variable {c : Clause} {cs ds kept kept' out : List Clause} {args : List Value}

theorem outcomeOn?_append :
    outcomeOn? (cs ++ ds) args = (outcomeOn? cs args).or (outcomeOn? ds args) := by
  unfold outcomeOn?
  rw [List.find?_append]
  cases cs.find? fun c => decide (c.domain.Admits args) <;> simp

theorem outcomeOn?_eq_none (h : ¬∃ c ∈ cs, c.domain.Admits args) :
    outcomeOn? cs args = none := by
  unfold outcomeOn?
  rw [Option.map_eq_none_iff, List.find?_eq_none]
  intro c hc hadmits
  exact h ⟨c, hc, of_decide_eq_true hadmits⟩

theorem outcomeOn?_singleton (h : c.domain.Admits args) :
    outcomeOn? [c] args = some c.outcome := by
  simp [outcomeOn?, h]

theorem exists_outcomeOn? (hc : c ∈ cs) (h : c.domain.Admits args) :
    ∃ o, outcomeOn? cs args = some o := by
  rw [← Option.isSome_iff_exists, outcomeOn?, Option.isSome_map, List.find?_isSome]
  exact ⟨c, hc, decide_eq_true h⟩

/-- What a list promises is the outcome of one of its clauses that applies. -/
theorem exists_mem_of_outcomeOn? {o : Outcome} (h : outcomeOn? cs args = some o) :
    ∃ c ∈ cs, c.domain.Admits args ∧ c.outcome = o := by
  obtain ⟨c, hfound, hout⟩ := Option.map_eq_some_iff.1 h
  have hadmits := List.find?_some hfound
  exact ⟨c, List.mem_of_find?_eq_some hfound, of_decide_eq_true hadmits, hout⟩

/-- The clauses of `out`, read in any order, say what those of `cs` say in order. -/
structure ReadsAs (cs out : List Clause) : Prop where
  /-- Both apply to the same arguments. -/
  applies_iff : ∀ args, (∃ c ∈ cs, c.domain.Admits args) ↔ ∃ c ∈ out, c.domain.Admits args
  /-- Every clause that applies has the outcome that is promised. -/
  outcome_eq : ∀ args, ∀ c ∈ out, c.domain.Admits args → outcomeOn? cs args = some c.outcome

/-- No clause is empty, so each clause of `cs` shares arguments with one of `out`. -/
theorem ReadsAs.exists_overlaps (h : ReadsAs cs out) (hc : c ∈ cs) :
    ∃ k ∈ out, k.overlaps c = true := by
  obtain ⟨args, hargs⟩ := c.domain.exists_admits
  obtain ⟨k, hk, hkargs⟩ := (h.applies_iff args).1 ⟨c, hc, hargs⟩
  exact ⟨k, hk, overlaps_iff.2 ⟨args, hkargs, hargs⟩⟩

/-- One more clause on both sides: inserting it keeps the two lists saying the same. -/
theorem ReadsAs.insert? (hk : ReadsAs cs kept) (h : insert? kept c = some kept') :
    ReadsAs (cs ++ [c]) kept' := by
  obtain ⟨-, left, hleft, rfl⟩ := insert?_eq_some h
  have hpass := passes_of_settle? hleft
  -- what is left of `c` promises the same for some of its arguments
  have hpart : ∀ c' ∈ left, c'.outcome = c.outcome ∧
      ∀ args, c'.domain.Admits args → c.domain.Admits args := by
    refine settle?_preserves ?_ hleft ⟨rfl, fun _ hargs => hargs⟩
    rintro x k rest ⟨hout, hsub⟩ hcarve
    exact ⟨(outcome_of_carve? hcarve).trans hout,
      fun args hargs => hsub args ((admits_of_carve? hcarve args).1 hargs).1⟩
  constructor
  · intro args
    constructor
    · rintro ⟨x, hx, hargs⟩
      rcases List.mem_append.1 hx with hcs | hlast
      · obtain ⟨k, hkept, hkargs⟩ := (hk.applies_iff args).1 ⟨x, hcs, hargs⟩
        exact ⟨k, List.mem_append_left _ hkept, hkargs⟩
      · obtain rfl := List.mem_singleton.1 hlast
        rcases admits_of_settle? hleft hargs with ⟨k, hkept, hkargs⟩ | ⟨c', hc', hcargs⟩
        · exact ⟨k, List.mem_append_left _ hkept, hkargs⟩
        · exact ⟨c', List.mem_append_right _ (by simpa using hc'), hcargs⟩
    · rintro ⟨x, hx, hargs⟩
      rcases List.mem_append.1 hx with hkept | hlast
      · obtain ⟨y, hy, hyargs⟩ := (hk.applies_iff args).2 ⟨x, hkept, hargs⟩
        exact ⟨y, List.mem_append_left _ hy, hyargs⟩
      · exact ⟨c, by simp, (hpart x (by simpa using hlast)).2 args hargs⟩
  · intro args x hx hargs
    rw [outcomeOn?_append]
    rcases List.mem_append.1 hx with hkept | hlast
    · rw [hk.outcome_eq args x hkept hargs, Option.some_or]
    · have hx' : x ∈ left := by simpa using hlast
      by_cases hearlier : ∃ k ∈ kept, k.domain.Admits args
      · -- an earlier clause decides, and what is left of `c` has passed it
        obtain ⟨k, hkept, hkargs⟩ := hearlier
        rw [hk.outcome_eq args k hkept hkargs, Option.some_or,
          outcome_eq_of_passes (hpass x hx' k hkept) hkargs hargs]
      · have hcargs := (hpart x hx').2 args hargs
        rw [outcomeOn?_eq_none (mt (hk.applies_iff args).1 hearlier), Option.none_or,
          outcomeOn?_singleton hcargs, (hpart x hx').1]

theorem readsAs_normalize? (h : normalize? cs = some out) : ReadsAs cs out :=
  normalize?_induction ⟨fun _ => Iff.rfl, by simp⟩ (fun _ _ _ _ => ReadsAs.insert?) h

/-- **Normalization keeps the meaning of a clause list and makes it independent of the order.**
The normal form applies to the same arguments as the list, and each of its clauses that applies
has the outcome of the first clause of the list that does. -/
theorem normalize?_keeps_reading (h : normalize? cs = some out) (args : List Value) :
    ((∃ c ∈ cs, c.domain.Admits args) ↔ ∃ c ∈ out, c.domain.Admits args) ∧
      ∀ c ∈ out, c.domain.Admits args → outcomeOn? cs args = some c.outcome :=
  have hreads := readsAs_normalize? h
  ⟨hreads.applies_iff args, hreads.outcome_eq args⟩

/-- The last clause is narrowed twice, once by each clause before it. -/
theorem normalize?_keeps_reading_narrowed_twice :
    normalize? [⟨⟨[.null, .any]⟩, .fail⟩, ⟨⟨[.nonNull, .null]⟩, .bool true⟩,
        ⟨⟨[.any, .any]⟩, .nonNull⟩] =
      some [⟨⟨[.null, .any]⟩, .fail⟩, ⟨⟨[.nonNull, .null]⟩, .bool true⟩,
        ⟨⟨[.nonNull, .nonNull]⟩, .nonNull⟩] ∧
    ∀ c ∈ [(⟨⟨[.null, .any]⟩, .fail⟩ : Clause), ⟨⟨[.nonNull, .null]⟩, .bool true⟩,
        ⟨⟨[.nonNull, .nonNull]⟩, .nonNull⟩], c.domain.Admits [.object, .bool false] →
      outcomeOn? [⟨⟨[.null, .any]⟩, .fail⟩, ⟨⟨[.nonNull, .null]⟩, .bool true⟩,
        ⟨⟨[.any, .any]⟩, .nonNull⟩] [.object, .bool false] = some c.outcome :=
  have h : normalize? [⟨⟨[.null, .any]⟩, .fail⟩, ⟨⟨[.nonNull, .null]⟩, .bool true⟩,
        ⟨⟨[.any, .any]⟩, .nonNull⟩] =
      some [⟨⟨[.null, .any]⟩, .fail⟩, ⟨⟨[.nonNull, .null]⟩, .bool true⟩,
        ⟨⟨[.nonNull, .nonNull]⟩, .nonNull⟩] := by decide +kernel
  ⟨h, (normalize?_keeps_reading h [.object, .bool false]).2⟩

end Clause

end MethodContracts
