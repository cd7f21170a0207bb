import Mathlib.Data.List.OfFn
import MethodContracts.Proofs.Domain.Difference
import MethodContracts.Proofs.NormalForm.Symmetry

/-!
# The order of the parameters

Normalization does not depend on the order in which a method declares its parameters. Reordering
them in all clauses is a symmetry (`Clause.symmetry_reorder`), and so is reordering them and
renaming the outcomes (`Clause.normalize?_of_reordered`).

That carving looks for the differing slot from the first parameter on makes no difference: what it
finds is the only domain with the argument lists that are left. So it is enough that reordering a
domain and an argument list in the same way does not change whether the one admits the other
(`Domain.admits_reorder`), and that each argument list is a reordered one.
-/

namespace MethodContracts

/-! ### Lists in another order -/

/-- A list of `n` members in another order: each position has the member from where the permutation
sends it. Lists of other lengths stay as they are. -/
def reordered {α : Type} {n : Nat} (p : Equiv.Perm (Fin n)) (l : List α) : List α :=
  if h : l.length = n then List.ofFn fun i => l.get ((p i).cast h.symm) else l

section Lists

variable {α : Type} {n : Nat} (p : Equiv.Perm (Fin n)) {l : List α}

theorem reordered_of_length_ne (h : l.length ≠ n) : reordered p l = l := dif_neg h

@[simp] theorem length_reordered : (reordered p l).length = l.length := by
  unfold reordered
  split
  · rename_i h
    rw [List.length_ofFn, h]
  · rfl

theorem getElem?_reordered (h : l.length = n) (i : Fin n) :
    (reordered p l)[(i : Nat)]? = l[(p i : Nat)]? := by
  rw [reordered, dif_pos h, List.getElem?_ofFn, dif_pos i.isLt]
  simp

/-- Reordering back restores the order. -/
theorem reordered_symm_reordered (l : List α) : reordered p.symm (reordered p l) = l := by
  by_cases h : l.length = n
  · have hp : (reordered p l).length = n := (length_reordered p).trans h
    refine List.ext_getElem? fun i => ?_
    by_cases hi : i < n
    · rw [getElem?_reordered p.symm hp ⟨i, hi⟩, getElem?_reordered p h, Equiv.apply_symm_apply]
    · rw [List.getElem?_eq_none (by simp; omega), List.getElem?_eq_none (by omega)]
  · rw [reordered_of_length_ne p h, reordered_of_length_ne p.symm h]

theorem reordered_surjective : Function.Surjective (reordered p : List α → List α) :=
  fun l => ⟨reordered p.symm l, reordered_symm_reordered p.symm l⟩

theorem reordered_injective : Function.Injective (reordered p : List α → List α) :=
  Function.LeftInverse.injective (reordered_symm_reordered p)

end Lists

namespace Constraint

variable {n : Nat} (p : Equiv.Perm (Fin n)) {cs : List Constraint} {vs : List Value}

theorem AdmitAll.reordered (h : AdmitAll cs vs) : AdmitAll (reordered p cs) (reordered p vs) := by
  obtain ⟨hlen, hadmits⟩ := admitAll_iff.1 h
  by_cases hcs : cs.length = n
  · refine admitAll_iff.2 ⟨by simpa using hlen, fun i c v hc hv => ?_⟩
    have hi : i < n := by
      have := (List.getElem?_eq_some_iff.1 hc).1
      simpa [hcs] using this
    rw [getElem?_reordered p hcs ⟨i, hi⟩] at hc
    rw [getElem?_reordered p (hlen.trans hcs) ⟨i, hi⟩] at hv
    exact hadmits _ c v hc hv
  · rwa [reordered_of_length_ne p hcs, reordered_of_length_ne p fun hvs => hcs (hlen ▸ hvs)]

theorem admitAll_reordered : AdmitAll (reordered p cs) (reordered p vs) ↔ AdmitAll cs vs := by
  refine ⟨fun h => ?_, fun h => h.reordered p⟩
  have hback := h.reordered p.symm
  rwa [reordered_symm_reordered, reordered_symm_reordered] at hback

end Constraint

/-! ### Domains -/

namespace Domain

variable {n : Nat} (p : Equiv.Perm (Fin n)) {a b d : Domain} {args : List Value}

/-- The domain with its parameters in another order. Domains over another number of parameters stay
as they are. -/
def reorder (d : Domain) : Domain := ⟨reordered p d.slots⟩

@[simp] theorem arity_reorder : (d.reorder p).arity = d.arity := length_reordered p

theorem reorder_injective : Function.Injective (reorder p) := by
  intro a b h
  have hslots := reordered_injective p (congrArg slots h)
  obtain ⟨as⟩ := a
  exact congrArg mk hslots

theorem reorder_surjective : Function.Surjective (reorder p) := by
  intro d
  obtain ⟨slots, hslots⟩ := reordered_surjective p d.slots
  exact ⟨⟨slots⟩, congrArg mk hslots⟩

/-- A reordered domain admits the reordered argument lists. -/
@[simp] theorem admits_reorder : (d.reorder p).Admits (reordered p args) ↔ d.Admits args :=
  Constraint.admitAll_reordered p

theorem overlaps_reorder : (a.reorder p).overlaps (b.reorder p) = a.overlaps b := by
  rw [Bool.eq_iff_iff, overlaps_iff, overlaps_iff, (reordered_surjective p).exists]
  simp only [admits_reorder]

theorem covers_reorder : (a.reorder p).covers (b.reorder p) = a.covers b := by
  rw [Bool.eq_iff_iff, covers_iff, covers_iff, (reordered_surjective p).forall]
  simp only [admits_reorder]

/-- The difference of reordered domains is the difference, reordered. -/
theorem subtract?_reorder :
    (a.reorder p).subtract? (b.reorder p) = (a.subtract? b).map (reorder p) := by
  ext e
  obtain ⟨d, rfl⟩ := reorder_surjective p e
  have hsub : (∀ args, (b.reorder p).Admits args → (a.reorder p).Admits args) ↔
      ∀ args, b.Admits args → a.Admits args := by
    rw [← covers_iff, covers_reorder, covers_iff]
  have hdiff : (∀ args, (d.reorder p).Admits args ↔
        (a.reorder p).Admits args ∧ ¬(b.reorder p).Admits args) ↔
      ∀ args, d.Admits args ↔ a.Admits args ∧ ¬b.Admits args := by
    rw [(reordered_surjective p).forall]
    simp only [admits_reorder]
  calc (a.reorder p).subtract? (b.reorder p) = some (d.reorder p)
    _ ↔ (∀ args, b.Admits args → a.Admits args) ∧
          ∀ args, d.Admits args ↔ a.Admits args ∧ ¬b.Admits args := by
        rw [subtract?_eq_some_iff, hsub, hdiff]
    _ ↔ a.subtract? b = some d := subtract?_eq_some_iff.symm
    _ ↔ (a.subtract? b).map (reorder p) = some (d.reorder p) :=
        (Option.map_injective (reorder_injective p)).eq_iff.symm

end Domain

/-! ### Clauses -/

namespace Clause

variable {n : Nat}

/-- The clause with its parameters in another order. -/
def reorder (p : Equiv.Perm (Fin n)) (c : Clause) : Clause := ⟨c.domain.reorder p, c.outcome⟩

/-- Reordering the parameters is a symmetry. -/
theorem symmetry_reorder (p : Equiv.Perm (Fin n)) : Symmetry (reorder p) where
  overlaps_eq _ _ := Domain.overlaps_reorder p
  covers_eq _ _ := Domain.covers_reorder p
  outcome_eq_iff _ _ := Iff.rfl
  carve?_eq a b := by
    simp only [carve?, reorder, Domain.subtract?_reorder, Option.map_map]
    rfl
  arity_eq _ := Domain.arity_reorder p

/-- **Normalization depends neither on the order of the parameters nor on which outcomes there
are.** Reordering the parameters and renaming the outcomes, without identifying any two, does the
same before normalization as after it; and there is a conflict before just when there is one
after. -/
theorem normalize?_of_reordered (p : Equiv.Perm (Fin n)) {f : Outcome → Outcome}
    (hf : Function.Injective f) (cs : List Clause) :
    normalize? (cs.map fun c => (c.reorder p).mapOutcome f) =
      (normalize? cs).map (List.map fun c => (c.reorder p).mapOutcome f) :=
  ((symmetry_reorder p).comp (symmetry_mapOutcome hf)).normalize?_map cs

/-- The parameters change places, and so do throwing and returning null. -/
theorem normalize?_of_reordered_swapped :
    Function.Injective (Equiv.swap Outcome.fail .null) ∧
    normalize? [⟨⟨[.any, .null]⟩, .null⟩, ⟨⟨[.any, .any]⟩, .fail⟩] =
      some [⟨⟨[.any, .null]⟩, .null⟩, ⟨⟨[.any, .nonNull]⟩, .fail⟩] := by
  have hf := (Equiv.swap Outcome.fail .null).injective
  have hnormal : normalize? [⟨⟨[.null, .any]⟩, .fail⟩, ⟨⟨[.any, .any]⟩, .null⟩] =
      some [⟨⟨[.null, .any]⟩, .fail⟩, ⟨⟨[.nonNull, .any]⟩, .null⟩] := by decide +kernel
  have hswapped := normalize?_of_reordered (Equiv.swap (0 : Fin 2) 1) hf
    [⟨⟨[.null, .any]⟩, .fail⟩, ⟨⟨[.any, .any]⟩, .null⟩]
  rw [hnormal] at hswapped
  exact ⟨hf, hswapped⟩

end Clause

end MethodContracts
