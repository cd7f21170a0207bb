import MethodContracts.Clause

/-!
# Negating clause lists

Negating a list of clauses keeps the boolean outcomes and flips them. Done several times in a
row, the flips cancel in pairs, but the other outcomes stay lost: `throughNegations` says this
for any number of negations at once.
-/

namespace MethodContracts

/-- Whether the outcome is to return a certain boolean. -/
def Outcome.isBool : Outcome → Bool
  | bool _ => true
  | _ => false

@[simp] theorem Outcome.isBool_flip (o : Outcome) : o.flip.isBool = o.isBool := by
  cases o <;> rfl

@[simp] theorem Outcome.flip_flip (o : Outcome) : o.flip.flip = o := by
  cases o <;> simp [flip]

theorem Outcome.flip_injective : Function.Injective flip :=
  Function.LeftInverse.injective flip_flip

/-- Failure stays failure, and no other outcome is flipped to it. -/
theorem Outcome.ite_flip_eq_fail_iff (negated : Bool) (o : Outcome) :
    (if negated then o.flip else o) = .fail ↔ o = .fail := by
  cases negated <;> cases o <;> simp [flip]

namespace Clause

/-- The clause with a boolean outcome flipped and any other outcome as it is. -/
def flip (c : Clause) : Clause := c.withOutcome c.outcome.flip

@[simp] theorem outcome_flip (c : Clause) : c.flip.outcome = c.outcome.flip := rfl

@[simp] theorem domain_flip (c : Clause) : c.flip.domain = c.domain := rfl

@[simp] theorem flip_flip (c : Clause) : c.flip.flip = c := by
  simp [flip, withOutcome]

theorem negate?_eq_ite (c : Clause) :
    c.negate? = if c.outcome.isBool then some c.flip else none := by
  obtain ⟨d, o⟩ := c
  cases o <;> rfl

/-- What `k` negations leave of a list of clauses: everything for none; otherwise the clauses
with a boolean outcome, which is flipped if `k` is odd. -/
def throughNegations (k : Nat) (cs : List Clause) : List Clause :=
  if k = 0 then cs
  else (cs.filter fun c => c.outcome.isBool).map fun c => if k % 2 = 1 then c.flip else c

@[simp] theorem throughNegations_zero (cs : List Clause) : throughNegations 0 cs = cs := rfl

/-- Negating keeps the clauses with a boolean outcome, flipped. -/
theorem filterMap_negate?_eq (cs : List Clause) :
    cs.filterMap negate? = (cs.filter fun c => c.outcome.isBool).map flip := by
  induction cs with
  | nil => rfl
  | cons c cs ih =>
      rw [List.filterMap_cons, ih, negate?_eq_ite]
      by_cases hbool : c.outcome.isBool = true
      · simp [hbool]
      · simp [hbool]

theorem isBool_of_mem_throughNegations {k : Nat} (hk : 0 < k) {cs : List Clause} {c : Clause}
    (hc : c ∈ throughNegations k cs) : c.outcome.isBool = true := by
  rw [throughNegations, if_neg (Nat.ne_of_gt hk)] at hc
  obtain ⟨x, hx, rfl⟩ := List.mem_map.1 hc
  have hbool := (List.mem_filter.1 hx).2
  split
  · rw [outcome_flip, Outcome.isBool_flip]
    exact hbool
  · exact hbool

/-- One more negation. -/
theorem filterMap_negate?_throughNegations (k : Nat) (cs : List Clause) :
    (throughNegations k cs).filterMap negate? = throughNegations (k + 1) cs := by
  rcases Nat.eq_zero_or_pos k with rfl | hk
  · exact filterMap_negate?_eq cs
  · -- after the first negation all outcomes are boolean, and nothing more is dropped
    have hall : (throughNegations k cs).filter (fun c => c.outcome.isBool) =
        throughNegations k cs :=
      List.filter_eq_self.2 fun c hc => isBool_of_mem_throughNegations hk hc
    rw [filterMap_negate?_eq, hall, throughNegations, throughNegations,
      if_neg (Nat.ne_of_gt hk), if_neg (Nat.succ_ne_zero k), List.map_map]
    refine List.map_congr_left fun c _ => ?_
    rcases Nat.mod_two_eq_zero_or_one k with heven | hodd
    · have hnext : (k + 1) % 2 = 1 := by omega
      simp [heven, hnext]
    · have hnext : (k + 1) % 2 = 0 := by omega
      simp [hodd, hnext]

end Clause

end MethodContracts
