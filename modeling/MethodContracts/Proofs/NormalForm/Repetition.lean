import MethodContracts.Proofs.NormalForm.Normal
import MethodContracts.Proofs.NormalForm.Reading

/-!
# Clauses that come in again

It does not matter how often a clause occurs in a list. All its occurrences but the first can be
left out, whether or not the list has a normal form (`normalize?_eraseDups`).

This is not because the clause is found among those that are kept: what was kept of it may be a
part only, or nothing. But kept clauses stay in front of those that are kept later, so a clause that
comes in again is narrowed by the same clauses in the same order as before (`settle?_append`). Then
it meets the clause that absorbed it before, or what was kept of it (`settle?_again`).
-/

namespace MethodContracts

namespace Clause

variable {c : Clause} {cs kept more out : List Clause} {left : Option Clause}

/-! ### A scan of more clauses -/

/-- Clauses further back are met only by a clause that passes those in front. -/
theorem confront_append (kept more : List Clause) (c : Clause) :
    confront (kept ++ more) c =
      if confront kept c = .passes then confront more c else confront kept c := by
  induction kept with
  | nil => rfl
  | cons k ks ih =>
      rw [List.cons_append, confront, confront]
      cases k.encounter c with
      | passes => exact ih
      | absorbed => rfl
      | narrowed rest => rfl
      | conflict => rfl

theorem confront_append_of_passes (h : confront kept c = .passes) :
    confront (kept ++ more) c = confront more c := by
  rw [confront_append, if_pos h]

theorem confront_append_of_ne_passes {e : Encounter} (h : confront kept c = e)
    (he : e ≠ .passes) : confront (kept ++ more) c = e := by
  rw [confront_append, h, if_neg he]

/-- With more clauses behind, a clause first comes down to what is left of it without them. -/
theorem settle?_append (h : settle? kept c = some left) :
    settle? (kept ++ more) c = left.elim (some none) (settle? (kept ++ more)) := by
  refine settle?_induction (motive := fun c left =>
    settle? (kept ++ more) c = left.elim (some none) (settle? (kept ++ more))) ?_ ?_ ?_ h
  · intro c _
    rfl
  · intro c habs
    exact settle?_of_absorbed (confront_append_of_ne_passes habs (by simp))
  · intro c rest left hnarrow ih
    have hsame : confront (kept ++ more) c = .narrowed rest :=
      confront_append_of_ne_passes hnarrow (by simp)
    rw [settle?_of_narrowed hsame, ih]

theorem confront_singleton_self (c : Clause) : confront [c] c = .absorbed := by
  have hself : c.encounter c = .absorbed :=
    encounter_eq_absorbed_iff.2 (Domain.covers_iff.2 fun _ hargs => hargs)
  rw [confront, hself]

/-- Nothing is left of a clause that comes in right after itself. -/
theorem settle?_again (h : settle? kept c = some left) :
    settle? (kept ++ left.toList) c = some none := by
  rw [settle?_append h]
  cases left with
  | none => rfl
  | some rest =>
      have hpass : confront kept rest = .passes :=
        confront_eq_passes_iff.2 (passes_of_settle? h rest rfl)
      refine settle?_of_absorbed ?_
      rw [Option.toList_some, confront_append_of_passes hpass, confront_singleton_self]

/-! ### Clauses that have come in before -/

/-- Nothing is left of a clause that has come in before. -/
theorem settle?_of_mem (h : normalize? cs = some out) (hc : c ∈ cs) :
    settle? out c = some none := by
  refine normalize?_induction (motive := fun cs out => ∀ c ∈ cs, settle? out c = some none)
    ?_ ?_ h c hc
  · intro c hc
    exact absurd hc List.not_mem_nil
  · intro cs kept last kept' ih hinsert c hc
    obtain ⟨-, left, hleft, rfl⟩ := insert?_eq_some hinsert
    -- the clause comes down to nothing before what was kept last, or it is the last one
    rcases List.mem_append.1 hc with hbefore | hlast
    · rw [settle?_append (ih c hbefore)]
      rfl
    · rw [List.mem_singleton.1 hlast]
      exact settle?_again hleft

/-- The clauses of a normal form speak of as many parameters as each clause that has come in. -/
theorem arity_eq_of_mem_normalize? {k : Clause} (h : normalize? cs = some out) (hc : c ∈ cs)
    (hk : k ∈ out) : k.arity = c.arity := by
  obtain ⟨k', hk', hover⟩ := (readsAs_normalize? h).exists_overlaps hc
  rw [(normal_of_normalize? h).arity_eq k hk k' hk', arity_eq_of_overlaps hover]

theorem normalize?_concat_of_mem (hc : c ∈ cs) : normalize? (cs ++ [c]) = normalize? cs := by
  rw [normalize?_concat]
  cases h : normalize? cs with
  | none => rfl
  | some out =>
      rw [Option.bind_some,
        insert?_eq_map_settle? fun k hk => arity_eq_of_mem_normalize? h hc hk,
        settle?_of_mem h hc]
      simp

/-- **Repeated clauses do not matter.** A list in which all occurrences of a clause but the first
are left out has the same normal form, or has none either. -/
theorem normalize?_eraseDups (cs : List Clause) : normalize? cs.eraseDups = normalize? cs := by
  -- the last clause of the list has come in before, or it stays the last one
  induction cs using List.reverseRecOn with
  | nil => rfl
  | append_singleton cs c ih =>
      rw [List.eraseDups_append]
      by_cases hc : c ∈ cs
      · have hdropped : [c].removeAll cs = [] := by simp [List.removeAll, hc]
        rw [hdropped, List.eraseDups_nil, List.append_nil, ih, normalize?_concat_of_mem hc]
      · have hstays : [c].removeAll cs = [c] := by simp [List.removeAll, hc]
        rw [hstays, List.eraseDups_cons, List.filter_nil, List.eraseDups_nil, normalize?_concat, ih,
          normalize?_concat]

/-- Two clauses come in again: the third, which the first two had narrowed, and the fourth, which
was dropped because the first covers it. -/
theorem normalize?_eraseDups_narrowedAndShadowed :
    let cs : List Clause := [⟨⟨[.null, .any]⟩, .fail⟩, ⟨⟨[.nonNull, .null]⟩, .bool true⟩,
      ⟨⟨[.any, .any]⟩, .nonNull⟩, ⟨⟨[.null, .null]⟩, .bool false⟩]
    let out : List Clause := [⟨⟨[.null, .any]⟩, .fail⟩, ⟨⟨[.nonNull, .null]⟩, .bool true⟩,
      ⟨⟨[.nonNull, .nonNull]⟩, .nonNull⟩]
    let repeated := cs ++ [⟨⟨[.any, .any]⟩, .nonNull⟩, ⟨⟨[.null, .null]⟩, .bool false⟩]
    repeated.eraseDups = cs ∧ normalize? cs = some out ∧ normalize? repeated = some out := by
  intro cs out repeated
  have hdups : repeated.eraseDups = cs := by decide +kernel
  have hout : normalize? cs = some out := by decide +kernel
  refine ⟨hdups, hout, ?_⟩
  rw [← normalize?_eraseDups, hdups, hout]

end Clause

end MethodContracts
