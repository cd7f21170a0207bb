import Mathlib.Data.List.Induction
import MethodContracts.NormalForm
import MethodContracts.Proofs.Domain.Meaning

/-!
# How a clause gets into a normal form

The steps of `Clause.normalize?`, one lemma each, from the inside out:

* `encounter_spec` says everything that an encounter with one kept clause can result in, with
  the conditions under which it does;
* `confront_eq_passes_iff` and `exists_encounter_of_confront` reduce a scan of the kept clauses
  to encounters;
* `settle?_of_passes` and its companions say what a scan leads to, `settle?_induction` follows a
  clause through any number of starts over, and `passes_of_settle?`, `settle?_preserves` and
  `admits_of_settle?` say what is left of it;
* `normalize?_induction` lifts what one insertion preserves to the whole list.

Proofs about normal forms start from these lemmas.
-/

namespace MethodContracts

namespace Clause

variable {k c rest : Clause} {kept kept' cs out : List Clause} {args : List Value}

/-! ### One encounter -/

theorem overlaps_iff :
    k.overlaps c = true ↔ ∃ args, k.domain.Admits args ∧ c.domain.Admits args :=
  Domain.overlaps_iff

/-- Clauses overlap only if they speak of the same number of parameters. -/
theorem arity_eq_of_overlaps (h : k.overlaps c = true) : k.arity = c.arity := by
  obtain ⟨args, hk, hc⟩ := overlaps_iff.1 h
  exact (Domain.length_of_admits hk).symm.trans (Domain.length_of_admits hc)

/-- A clause covers only what it overlaps, because no domain is empty. -/
theorem overlaps_of_covers (h : k.domain.covers c.domain = true) : k.overlaps c = true := by
  obtain ⟨args, hargs⟩ := c.domain.exists_admits
  exact overlaps_iff.2 ⟨args, Domain.covers_iff.1 h args hargs, hargs⟩

/-- Everything an encounter with one kept clause can result in. -/
theorem encounter_spec (k c : Clause) :
    match k.encounter c with
    | .passes => (k.overlaps c = false ∨ k.outcome = c.outcome) ∧
        k.domain.covers c.domain = false
    | .absorbed => k.domain.covers c.domain = true
    | .narrowed rest => k.outcome ≠ c.outcome ∧ k.domain.covers c.domain = false ∧
        c.carve? k = some rest
    | .conflict => k.overlaps c = true ∧ k.outcome ≠ c.outcome ∧ c.carve? k = none := by
  unfold encounter
  by_cases hover : k.overlaps c = true
  · rw [if_pos hover]
    by_cases hcov : k.domain.covers c.domain = true
    · rw [if_pos hcov]
      exact hcov
    · rw [if_neg hcov]
      have hcov' : k.domain.covers c.domain = false := Bool.eq_false_iff.2 hcov
      by_cases hout : k.outcome = c.outcome
      · rw [if_pos hout]
        exact ⟨Or.inr hout, hcov'⟩
      · rw [if_neg hout]
        cases hcarve : c.carve? k with
        | none => exact ⟨hover, hout, rfl⟩
        | some rest => exact ⟨hout, hcov', rfl⟩
  · rw [if_neg hover]
    exact ⟨Or.inl (Bool.eq_false_iff.2 hover),
      Bool.eq_false_iff.2 fun hcov => hover (overlaps_of_covers hcov)⟩

/-- A clause that passes another promises the same wherever both apply. -/
theorem outcome_eq_of_passes (h : k.encounter c = .passes) (hk : k.domain.Admits args)
    (hc : c.domain.Admits args) : k.outcome = c.outcome := by
  have hspec := encounter_spec k c
  rw [h] at hspec
  rcases hspec.1 with hno | hout
  · have hyes : k.overlaps c = true := overlaps_iff.2 ⟨args, hk, hc⟩
    rw [hno] at hyes
    exact absurd hyes Bool.false_ne_true
  · exact hout

theorem covers_of_absorbed (h : k.encounter c = .absorbed) :
    k.domain.covers c.domain = true := by
  have hspec := encounter_spec k c
  rwa [h] at hspec

theorem carve?_of_narrowed (h : k.encounter c = .narrowed rest) : c.carve? k = some rest := by
  have hspec := encounter_spec k c
  rw [h] at hspec
  exact hspec.2.2

theorem encounter_eq_absorbed_iff :
    k.encounter c = .absorbed ↔ k.domain.covers c.domain = true := by
  refine ⟨covers_of_absorbed, fun hcov => ?_⟩
  unfold encounter
  rw [if_pos (overlaps_of_covers hcov), if_pos hcov]

/-! ### Carving -/

theorem outcome_of_carve? (h : c.carve? k = some rest) : rest.outcome = c.outcome := by
  obtain ⟨d, -, rfl⟩ := Option.map_eq_some_iff.1 h
  rfl

/-- A carved clause applies where the clause did and the other one does not. -/
theorem admits_of_carve? (h : c.carve? k = some rest) (args : List Value) :
    rest.domain.Admits args ↔ c.domain.Admits args ∧ ¬k.domain.Admits args := by
  obtain ⟨d, hd, rfl⟩ := Option.map_eq_some_iff.1 h
  exact Domain.admits_of_subtract? hd args

/-- Carving keeps a clause inside what covers it. -/
theorem covers_of_carve? {d : Domain} (h : c.carve? k = some rest)
    (hcov : d.covers c.domain = true) : d.covers rest.domain = true :=
  Domain.covers_iff.2 fun args hrest =>
    Domain.covers_iff.1 hcov args ((admits_of_carve? h args).1 hrest).1

/-- A carved clause overlaps only what the clause did. -/
theorem overlaps_of_carve? {other : Clause} (h : c.carve? k = some rest)
    (hover : other.overlaps rest = true) : other.overlaps c = true := by
  obtain ⟨args, hargs, hrest⟩ := overlaps_iff.1 hover
  exact overlaps_iff.2 ⟨args, hargs, ((admits_of_carve? h args).1 hrest).1⟩

theorem arity_of_carve? (h : c.carve? k = some rest) : rest.arity = c.arity := by
  obtain ⟨d, hd, rfl⟩ := Option.map_eq_some_iff.1 h
  exact Domain.arity_of_subtract? hd

theorem exists_settles_of_carve? (h : c.carve? k = some rest) :
    ∃ i, c.domain.Settles i rest.domain := by
  obtain ⟨d, hd, rfl⟩ := Option.map_eq_some_iff.1 h
  exact Domain.exists_settles_of_subtract? hd

theorem slot?_of_carve? (h : c.carve? k = some rest) (i : Nat) :
    rest.domain.slot? i = c.domain.slot? i ∨ c.domain.slot? i = some .any ∧
      (rest.domain.slot? i = some .null ∨ rest.domain.slot? i = some .nonNull) := by
  obtain ⟨_, hsettles⟩ := exists_settles_of_carve? h
  exact hsettles.slot? i

/-! ### A scan of the kept clauses -/

theorem confront_eq_passes_iff :
    confront kept c = .passes ↔ ∀ k ∈ kept, k.encounter c = .passes := by
  induction kept with
  | nil => simp [confront]
  | cons k ks ih =>
      unfold confront
      cases h : k.encounter c <;> simp [h, ih]

/-- A scan that does not pass ends as the first encounter did that does not let the clause pass. -/
theorem exists_getElem?_of_confront {e : Encounter} (h : confront kept c = e)
    (he : e ≠ .passes) : ∃ i k, kept[i]? = some k ∧ k.encounter c = e ∧
      ∀ j ∈ kept.take i, j.encounter c = .passes := by
  induction kept with
  | nil => exact absurd h.symm he
  | cons k ks ih =>
      unfold confront at h
      split at h
      · rename_i hpass
        obtain ⟨i, k', hk', henc, hbefore⟩ := ih h
        refine ⟨i + 1, k', hk', henc, fun j hj => ?_⟩
        rcases List.mem_cons.1 hj with rfl | hj
        · exact hpass
        · exact hbefore j hj
      · exact ⟨0, k, rfl, h, fun j hj => absurd hj List.not_mem_nil⟩

/-- The first encounter that does not let a clause pass decides its scan. -/
theorem confront_eq_of_getElem? {i : Nat} (hk : kept[i]? = some k)
    (hbefore : ∀ j ∈ kept.take i, j.encounter c = .passes) (he : k.encounter c ≠ .passes) :
    confront kept c = k.encounter c := by
  induction kept generalizing i with
  | nil => simp at hk
  | cons first others ih =>
      cases i with
      | zero =>
          obtain rfl : first = k := by simpa using hk
          rw [confront]
          split
          · rename_i hpass
            exact absurd hpass he
          · rfl
      | succ i =>
          rw [confront, hbefore first (by simp)]
          exact ih hk fun j hj => hbefore j (by simp [hj])

theorem exists_encounter_of_confront {e : Encounter} (h : confront kept c = e)
    (he : e ≠ .passes) : ∃ k ∈ kept, k.encounter c = e := by
  obtain ⟨i, k, hget, henc, -⟩ := exists_getElem?_of_confront h he
  exact ⟨k, List.mem_of_getElem? hget, henc⟩

/-! ### What is left of a clause -/

theorem settle?_of_passes (h : confront kept c = .passes) :
    settle? kept c = some (some c) := by
  rw [settle?.eq_def, h]

theorem settle?_of_absorbed (h : confront kept c = .absorbed) : settle? kept c = some none := by
  rw [settle?.eq_def, h]

theorem settle?_of_narrowed (h : confront kept c = .narrowed rest) :
    settle? kept c = settle? kept rest := by
  rw [settle?.eq_def, h]

theorem settle?_of_conflict (h : confront kept c = .conflict) : settle? kept c = none := by
  rw [settle?.eq_def, h]

/-- To prove something of a clause and what is left of it, prove it for a clause that passes and
for one that is absorbed, and carry it from a narrowed clause back to the clause. -/
theorem settle?_induction {motive : Clause → Option Clause → Prop}
    (passes : ∀ c, confront kept c = .passes → motive c (some c))
    (absorbed : ∀ c, confront kept c = .absorbed → motive c none)
    (narrowed : ∀ c rest left, confront kept c = .narrowed rest → motive rest left →
      motive c left)
    {left : Option Clause} (h : settle? kept c = some left) : motive c left := by
  -- one case per encounter; only a narrowed clause starts over
  induction c using settle?.induct kept with
  | case1 c hpass =>
      rw [settle?_of_passes hpass] at h
      obtain rfl : some c = left := by simpa using h
      exact passes c hpass
  | case2 c habs =>
      rw [settle?_of_absorbed habs] at h
      obtain rfl : none = left := by simpa using h
      exact absorbed c habs
  | case3 c rest hnarrow ih =>
      rw [settle?_of_narrowed hnarrow] at h
      exact narrowed c rest left hnarrow (ih h)
  | case4 c hconf =>
      rw [settle?_of_conflict hconf] at h
      simp at h

variable {left : Option Clause}

theorem passes_of_settle? (h : settle? kept c = some left) :
    ∀ c' ∈ left, ∀ k ∈ kept, k.encounter c' = .passes := by
  refine settle?_induction (motive := fun _ left => ∀ c' ∈ left, ∀ k ∈ kept,
    k.encounter c' = .passes) ?_ ?_ ?_ h
  · intro c hpass c' hc'
    obtain rfl : c = c' := by simpa using hc'
    exact confront_eq_passes_iff.1 hpass
  · intro c habs c' hc'
    simp at hc'
  · intro c rest left hnarrow ih
    exact ih

/-- What is left of a clause has every property of the clause that carving keeps. -/
theorem settle?_preserves {P : Clause → Prop}
    (carve : ∀ c k rest, P c → c.carve? k = some rest → P rest)
    (h : settle? kept c = some left) (hc : P c) : ∀ c' ∈ left, P c' := by
  refine settle?_induction (motive := fun c left => P c → ∀ c' ∈ left, P c') ?_ ?_ ?_ h hc
  · intro c hpass hc c' hc'
    obtain rfl : c = c' := by simpa using hc'
    exact hc
  · intro c habs hc c' hc'
    simp at hc'
  · intro c rest left hnarrow ih hc
    obtain ⟨k, -, hk⟩ := confront_eq_narrowed hnarrow
    exact ih (carve c k rest hc hk)

/-- No argument list gets lost: where a clause applied, a kept clause does or what is left. -/
theorem admits_of_settle? (h : settle? kept c = some left) (hc : c.domain.Admits args) :
    (∃ k ∈ kept, k.domain.Admits args) ∨ ∃ c' ∈ left, c'.domain.Admits args := by
  refine settle?_induction (motive := fun c left => c.domain.Admits args →
    (∃ k ∈ kept, k.domain.Admits args) ∨ ∃ c' ∈ left, c'.domain.Admits args) ?_ ?_ ?_ h hc
  · intro c hpass hc
    exact Or.inr ⟨c, rfl, hc⟩
  · intro c habs hc
    obtain ⟨k, hk, henc⟩ := exists_encounter_of_confront habs (by simp)
    exact Or.inl ⟨k, hk, Domain.covers_iff.1 (covers_of_absorbed henc) args hc⟩
  · intro c rest left hnarrow ih hc
    obtain ⟨k, hk, hcarve⟩ := confront_eq_narrowed hnarrow
    by_cases hargs : k.domain.Admits args
    · exact Or.inl ⟨k, hk, hargs⟩
    · exact ih ((admits_of_carve? hcarve args).2 ⟨hc, hargs⟩)

/-! ### Insertion and the whole list -/

theorem insert?_eq_some (h : insert? kept c = some kept') :
    (∀ k ∈ kept.head?, k.arity = c.arity) ∧
      ∃ left, settle? kept c = some left ∧ kept' = kept ++ left.toList := by
  unfold insert? at h
  split at h
  · simp at h
  · rename_i harity
    obtain ⟨left, hleft, rfl⟩ := Option.map_eq_some_iff.1 h
    refine ⟨?_, left, hleft, rfl⟩
    intro k hk
    rw [Option.mem_def] at hk
    simpa [hk] using harity

/-- Insertion compares arities with the first kept clause only, so it is enough that the arities
agree with those of all kept ones. -/
theorem insert?_eq_map_settle? (h : ∀ k ∈ kept, k.arity = c.arity) :
    insert? kept c = (settle? kept c).map fun rest => kept ++ rest.toList := by
  have hhead : kept.head?.any (fun k => k.arity ≠ c.arity) = false := by
    cases kept with
    | nil => rfl
    | cons first others => simp [h first List.mem_cons_self]
  rw [insert?, hhead, if_neg Bool.false_ne_true]

@[simp] theorem normalize?_nil : normalize? [] = some [] := rfl

theorem normalize?_concat (cs : List Clause) (c : Clause) :
    normalize? (cs ++ [c]) = (normalize? cs).bind (insert? · c) := by
  unfold normalize?
  rw [List.foldlM_append]
  cases h : cs.foldlM insert? [] <;> simp

/-- What holds of the empty list and is kept by inserting one clause holds of every list that
has a normal form. -/
theorem normalize?_induction {motive : List Clause → List Clause → Prop} (nil : motive [] [])
    (insert : ∀ cs kept c kept', motive cs kept → insert? kept c = some kept' →
      motive (cs ++ [c]) kept')
    (h : normalize? cs = some out) : motive cs out := by
  -- clauses come in from the left, so the last of them is inserted last
  induction cs using List.reverseRecOn generalizing out with
  | nil =>
      obtain rfl : [] = out := by simpa using h
      exact nil
  | append_singleton cs c ih =>
      rw [normalize?_concat] at h
      obtain ⟨kept, hkept, hinsert⟩ := Option.bind_eq_some_iff.1 h
      exact insert cs kept c out (ih hkept) hinsert

/-- Every clause of a normal form has each property that all clauses of the list have and that
carving keeps. -/
theorem forall_mem_normalize? {P : Clause → Prop}
    (carve : ∀ c k rest, P c → c.carve? k = some rest → P rest)
    (h : normalize? cs = some out) (hcs : ∀ c ∈ cs, P c) : ∀ c ∈ out, P c := by
  refine normalize?_induction (motive := fun cs out => (∀ c ∈ cs, P c) → ∀ c ∈ out, P c)
    ?_ ?_ h hcs
  · intro _ c hc
    simp at hc
  · intro cs kept c kept' ih hinsert hcs c' hc'
    obtain ⟨-, left, hleft, rfl⟩ := insert?_eq_some hinsert
    rcases List.mem_append.1 hc' with hkept | hrest
    · exact ih (fun c hc => hcs c (List.mem_append_left _ hc)) c' hkept
    · exact settle?_preserves carve hleft (hcs c (by simp)) c' (by simpa using hrest)

end Clause

end MethodContracts
