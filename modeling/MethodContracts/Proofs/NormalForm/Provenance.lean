import Mathlib.Data.List.NodupEquivFin
import Mathlib.Data.List.Forall2
import MethodContracts.Proofs.NormalForm.Normal
import MethodContracts.Proofs.NormalForm.Reading

/-!
# Where the clauses of a normal form come from

Normalization makes up no clauses. Each clause of a normal form is a clause of the list, as it is or
**narrowed** (`NarrowedFrom`): of some parameters of which nothing was required it is required that
they are null, or that they are not. The clauses keep their order, and no clause of the list gives
rise to two (`normalize?_narrows`).

A clause may be carved many times before it is kept. A parameter whose slot has been carved is one
of which something is required, so it is not carved again, and what the first carving did to the
slot is what is seen in the end (`NarrowedFrom.carve?`).
-/

namespace MethodContracts

/-- If a list is related to part of another one, member by member and in order, then its members
are related to members of the other at increasing positions. -/
theorem exists_strictMono_of_sublistForall₂ {α β : Type} {R : α → β → Prop} {as : List α}
    {bs : List β} (h : List.SublistForall₂ R as bs) :
    ∃ f : Fin as.length → Fin bs.length, StrictMono f ∧ ∀ i, R (as.get i) (bs.get (f i)) := by
  obtain ⟨part, hall, hsub⟩ := List.sublistForall₂_iff.1 h
  obtain ⟨f, hf⟩ := List.sublist_iff_exists_fin_orderEmbedding_get_eq.1 hsub
  -- the positions in the part are those in the first list, and embed into those in the second
  refine ⟨fun i => f (i.cast hall.length_eq), fun i j hij => f.strictMono hij, fun i => ?_⟩
  rw [← hf]
  exact hall.get i.isLt (i.cast hall.length_eq).isLt

namespace Clause

/-! ### Narrowed clauses -/

variable {c k rest source : Clause} {cs kept kept' out : List Clause}

/-- Whether a clause is another one with requirements added: some slots that required nothing
require `null` or `nonNull`. -/
structure NarrowedFrom (c source : Clause) : Prop where
  /-- Both speak of the same number of parameters. -/
  arity_eq : c.arity = source.arity
  /-- Both promise the same. -/
  outcome_eq : c.outcome = source.outcome
  /-- A slot is as it was, or it required nothing and requires `null` or `nonNull`. -/
  slot? : ∀ i, c.domain.slot? i = source.domain.slot? i ∨
    source.domain.slot? i = some .any ∧
      (c.domain.slot? i = some .null ∨ c.domain.slot? i = some .nonNull)

theorem NarrowedFrom.refl (c : Clause) : NarrowedFrom c c := ⟨rfl, rfl, fun _ => Or.inl rfl⟩

/-- What carving leaves of a narrowed clause is narrowed from the same clause. -/
theorem NarrowedFrom.carve? (h : NarrowedFrom c source) (hcarve : c.carve? k = some rest) :
    NarrowedFrom rest source where
  arity_eq := (arity_of_carve? hcarve).trans h.arity_eq
  outcome_eq := (outcome_of_carve? hcarve).trans h.outcome_eq
  slot? i := by
    rcases slot?_of_carve? hcarve i with hsame | ⟨hany, hcarved⟩
    · rw [hsame]
      exact h.slot? i
    · -- the slot required nothing until now, so it had not been touched
      rcases h.slot? i with hsource | ⟨-, hnull | hnonNull⟩
      · exact Or.inr ⟨hsource.symm.trans hany, hcarved⟩
      · exact absurd (hany.symm.trans hnull) (by simp)
      · exact absurd (hany.symm.trans hnonNull) (by simp)

theorem narrowedFrom_of_settle? {left : Option Clause} (h : settle? kept c = some left) :
    ∀ c' ∈ left, NarrowedFrom c' c :=
  settle?_preserves (fun _ _ _ hnarrowed hcarve => hnarrowed.carve? hcarve) h (.refl c)

/-! ### The clauses of a list and those of its normal form -/

/-- Inserting a clause adds at most one, and that is narrowed from it. -/
theorem sublistForall₂_insert? (hk : List.SublistForall₂ NarrowedFrom kept cs)
    (h : insert? kept c = some kept') : List.SublistForall₂ NarrowedFrom kept' (cs ++ [c]) := by
  obtain ⟨-, left, hleft, rfl⟩ := insert?_eq_some h
  obtain ⟨sources, hall, hsub⟩ := List.sublistForall₂_iff.1 hk
  rw [List.sublistForall₂_iff]
  cases left with
  | none =>
      rw [Option.toList_none, List.append_nil]
      exact ⟨sources, hall, hsub.trans (List.sublist_append_left cs [c])⟩
  | some rest =>
      have hlast : List.Forall₂ NarrowedFrom [rest] [c] :=
        .cons (narrowedFrom_of_settle? hleft rest rfl) .nil
      exact ⟨sources ++ [c], List.rel_append hall hlast, hsub.append_right [c]⟩

theorem sublistForall₂_normalize? (h : normalize? cs = some out) :
    List.SublistForall₂ NarrowedFrom out cs :=
  normalize?_induction (motive := fun cs out => List.SublistForall₂ NarrowedFrom out cs) .nil
    (fun _ _ _ _ => sublistForall₂_insert?) h

/-- Only the empty list has the empty normal form. -/
theorem ne_nil_iff_of_normalize? (h : normalize? cs = some out) : out ≠ [] ↔ cs ≠ [] := by
  constructor
  · rintro hout rfl
    exact hout (Option.some.inj (h.symm.trans normalize?_nil))
  · intro hcs
    obtain ⟨c, hc⟩ := List.exists_mem_of_ne_nil cs hcs
    obtain ⟨k, hk, -⟩ := (readsAs_normalize? h).exists_overlaps hc
    exact List.ne_nil_of_mem hk

/-- **The clauses of a normal form are clauses of the list, only narrowed.** They come from clauses
at increasing positions, there is one if the list has one, none covers a later one, and those that
overlap promise the same. -/
theorem normalize?_narrows (h : normalize? cs = some out) :
    (∃ source : Fin out.length → Fin cs.length, StrictMono source ∧
      ∀ i, NarrowedFrom (out.get i) (cs.get (source i))) ∧
    (out ≠ [] ↔ cs ≠ []) ∧
    ∀ i j, i < j → (out.get i).domain.covers (out.get j).domain = false ∧
      ((out.get i).overlaps (out.get j) = true → (out.get i).outcome = (out.get j).outcome) := by
  have hnormal := normal_of_normalize? h
  refine ⟨exists_strictMono_of_sublistForall₂ (sublistForall₂_normalize? h),
    ne_nil_iff_of_normalize? h, fun i j hij => ⟨?_, ?_⟩⟩
  · exact List.pairwise_iff_get.1 hnormal.not_covered i j hij
  · exact hnormal.outcome_eq _ (List.get_mem out i) _ (List.get_mem out j)

/-- The second clause is covered by the first one, and the last one disagrees with the first and the
third. -/
def shadowedThenNarrowed : List Clause := [
  ⟨⟨[.null, .any]⟩, .fail⟩,
  ⟨⟨[.null, .null]⟩, .null⟩,
  ⟨⟨[.nonNull, .null]⟩, .bool true⟩,
  ⟨⟨[.any, .any]⟩, .nonNull⟩]

/-- The normal form comes from the first, third and last clause; the last is narrowed in both
slots. -/
theorem normalize?_narrows_both_slots :
    let out : List Clause := [
      ⟨⟨[.null, .any]⟩, .fail⟩,
      ⟨⟨[.nonNull, .null]⟩, .bool true⟩,
      ⟨⟨[.nonNull, .nonNull]⟩, .nonNull⟩]
    normalize? shadowedThenNarrowed = some out ∧
      ∃ source : Fin out.length → Fin shadowedThenNarrowed.length, StrictMono source ∧
        ∀ i, NarrowedFrom (out.get i) (shadowedThenNarrowed.get (source i)) := by
  intro out
  have h : normalize? shadowedThenNarrowed = some out := by decide +kernel
  exact ⟨h, (normalize?_narrows h).1⟩

end Clause

end MethodContracts
