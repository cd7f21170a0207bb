import MethodContracts.Clause
import MethodContracts.Domain.Difference

/-!
# Normal forms of clause lists

In a list of clauses the earlier of two that apply to the same arguments wins. `normalize?` turns
a list into one whose order no longer matters: any two clauses of the result that overlap have
the same outcome, and none is covered by an earlier one. Clauses come in one at a time and meet
the clauses kept so far in order:

* a kept clause that shares no arguments, or that promises the same, lets the clause **pass**;
* a kept clause that covers it **absorbs** it;
* a kept clause inside it with another outcome **narrows** it, if the rest is a single clause,
  and the narrowed clause starts over;
* any other overlap is a **conflict**, and the list has no normal form.

A narrowed clause leaves one parameter fewer without a requirement, so starting over comes to an
end (`freeSlots_of_confront`).
-/

namespace MethodContracts

/-- What happens to a clause that meets clauses kept before it. -/
inductive Encounter where
  /-- The clause stands beside them as it is. -/
  | passes
  /-- The clause adds nothing. -/
  | absorbed
  /-- Only this part of the clause is left. -/
  | narrowed (rest : Clause)
  /-- The clause contradicts one of them. -/
  | conflict
  deriving DecidableEq, Repr

namespace Clause

/-- The part of a clause that applies outside the domain of another, when that is one clause. -/
def carve? (later earlier : Clause) : Option Clause :=
  (later.domain.subtract? earlier.domain).map fun d => { later with domain := d }

/-- What happens to a clause that meets one kept clause. -/
def encounter (kept c : Clause) : Encounter :=
  if kept.overlaps c then
    if kept.domain.covers c.domain then .absorbed
    else if kept.outcome = c.outcome then .passes
    else
      match c.carve? kept with
      | some rest => .narrowed rest
      | none => .conflict
  else .passes

/-- What happens to a clause that meets kept clauses in order: the first that does not let it
pass decides. -/
def confront : List Clause → Clause → Encounter
  | [], _ => .passes
  | k :: ks, c =>
      match k.encounter c with
      | .passes => confront ks c
      | e => e

theorem confront_eq_narrowed {kept : List Clause} {c rest : Clause}
    (h : confront kept c = .narrowed rest) : ∃ k ∈ kept, c.carve? k = some rest := by
  induction kept with
  | nil => simp [confront] at h
  | cons k ks ih =>
      unfold confront at h
      split at h
      · obtain ⟨k', hk', hc⟩ := ih h
        exact ⟨k', List.mem_cons_of_mem k hk', hc⟩
      · refine ⟨k, List.mem_cons_self, ?_⟩
        unfold encounter at h
        split at h
        · split at h
          · simp at h
          · split at h
            · simp at h
            · split at h <;> simp_all
        · simp at h

/-- A narrowed clause requires something of one parameter more. -/
theorem freeSlots_of_confront {kept : List Clause} {c rest : Clause}
    (h : confront kept c = .narrowed rest) :
    rest.domain.freeSlots + 1 = c.domain.freeSlots := by
  obtain ⟨k, -, hk⟩ := confront_eq_narrowed h
  obtain ⟨d, hd, rfl⟩ := Option.map_eq_some_iff.1 hk
  exact Domain.freeSlots_of_subtract? hd

/-- What is left of a clause beside the kept ones: `some none` when it adds nothing, `none` when
it contradicts one of them. -/
def settle? (kept : List Clause) (c : Clause) : Option (Option Clause) :=
  match _h : confront kept c with
  | .passes => some (some c)
  | .absorbed => some none
  | .narrowed rest => settle? kept rest
  | .conflict => none
termination_by c.domain.freeSlots
decreasing_by have := freeSlots_of_confront _h; omega

/-- Take one more clause into a normal form; `none` when it contradicts one of the clauses, or
speaks of another number of parameters. -/
def insert? (kept : List Clause) (c : Clause) : Option (List Clause) :=
  if kept.head?.any fun k => k.arity ≠ c.arity then none
  else (settle? kept c).map fun rest => kept ++ rest.toList

/-- The normal form of a list of clauses, or `none` when clauses that overlap promise different
things and cannot be told apart by narrowing the later one. -/
def normalize? (cs : List Clause) : Option (List Clause) := cs.foldlM insert? []

end Clause

end MethodContracts
