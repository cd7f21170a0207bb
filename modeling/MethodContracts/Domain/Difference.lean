import MethodContracts.Domain

/-!
# Differences of domains

Taking one domain out of a larger one leaves a single domain only in a special case: the two
differ in **one** slot, and the smaller one asks there for `null` or for `nonNull`, whose
complement is again a constraint. `Domain.subtract?` computes that case and refuses all others.

Each successful subtraction settles one slot that required nothing
(`freeSlots_of_subtract?`); this bounds how often a clause can be narrowed.
-/

namespace MethodContracts

namespace Constraint

/-- The constraint that admits exactly the values that this one does not. -/
def complement? : Constraint → Option Constraint
  | null => some nonNull
  | nonNull => some null
  | _ => none

/-- The complement of the only slot in which two lists differ, with the other slots as they are;
`none` when they differ in no slot or in several, or when that slot has no complement. -/
def subtractAll : List Constraint → List Constraint → Option (List Constraint)
  | a :: as, b :: bs =>
      if a = b then (subtractAll as bs).map (a :: ·)
      else if as = bs then b.complement?.map (· :: as)
      else none
  | _, _ => none

/-- A slot that covers a complementable constraint other than itself requires nothing. -/
theorem eq_any_of_covers {a b c : Constraint} (hab : a ≠ b) (h : a.covers b = true)
    (hc : b.complement? = some c) : a = any ∧ c ≠ any := by
  rcases a with _ | _ | _ | (_ | _) <;> rcases b with _ | _ | _ | (_ | _) <;>
    simp_all [covers, meet, complement?] <;> simp [← hc]

/-- A subtraction turns one slot that required nothing into one that requires something. -/
theorem countP_subtractAll {as bs cs : List Constraint} (hcov : coverAll as bs = true)
    (h : subtractAll as bs = some cs) : cs.countP isAny + 1 = as.countP isAny := by
  induction as generalizing bs cs with
  | nil => simp [subtractAll] at h
  | cons a as ih =>
      cases bs with
      | nil => simp [subtractAll] at h
      | cons b bs =>
          simp only [coverAll, Bool.and_eq_true] at hcov
          simp only [subtractAll] at h
          split at h
          · obtain ⟨ds, hds, rfl⟩ := Option.map_eq_some_iff.1 h
            have := ih hcov.2 hds
            simp only [List.countP_cons]
            omega
          · rename_i hab
            split at h
            · obtain ⟨c, hc, rfl⟩ := Option.map_eq_some_iff.1 h
              obtain ⟨rfl, hne⟩ := eq_any_of_covers hab hcov.1 hc
              simp [isAny, hne]
            · simp at h

end Constraint

namespace Domain

/-- The number of parameters of which nothing is required. -/
def freeSlots (d : Domain) : Nat := d.slots.countP Constraint.isAny

/-- The domain of the argument lists in `a` but not in `b`, for a `b` inside `a`; `none` when
they do not form a single domain. -/
def subtract? (a b : Domain) : Option Domain :=
  if a.covers b then (Constraint.subtractAll a.slots b.slots).map Domain.mk else none

/-- A difference requires something of one parameter more. -/
theorem freeSlots_of_subtract? {a b c : Domain} (h : a.subtract? b = some c) :
    c.freeSlots + 1 = a.freeSlots := by
  unfold subtract? at h
  split at h
  · rename_i hcov
    obtain ⟨cs, hcs, rfl⟩ := Option.map_eq_some_iff.1 h
    exact Constraint.countP_subtractAll hcov hcs
  · simp at h

end Domain

end MethodContracts
