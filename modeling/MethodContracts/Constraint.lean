import MethodContracts.Value

/-!
# Constraints on one parameter

A `Constraint` is what a contract clause requires of a single parameter: **anything**, **null**,
**not null**, or one of the two **booleans**. Constraints denote sets of values through
`Constraint.Admits`; the operations below are exact on those sets:

* `meet` is intersection, with `none` for an empty one (`admits_of_meet`, `meet_eq_none_iff`);
* `covers` is inclusion, decided by meeting (`covers_iff`);
* `negate` is the complement of every constraint but `any`, which has none.
-/

namespace MethodContracts

/-- What a contract clause requires of one parameter. -/
inductive Constraint where
  /-- Nothing is required. -/
  | any
  /-- The parameter is null. -/
  | null
  /-- The parameter is not null. -/
  | nonNull
  /-- The parameter is this boolean. -/
  | bool (b : Bool)
  deriving DecidableEq, Repr

namespace Constraint

/-! ### Meaning -/

/-- The values that satisfy a constraint. -/
def Admits : Constraint → Value → Prop
  | any, _ => True
  | null, v => v = .null
  | nonNull, v => v ≠ .null
  | bool b, v => v = .bool b

instance (c : Constraint) (v : Value) : Decidable (c.Admits v) := by
  cases c <;> unfold Admits <;> infer_instance

/-- No constraint is unsatisfiable. -/
theorem exists_admits (c : Constraint) : ∃ v, c.Admits v := by
  cases c with
  | any => exact ⟨.null, trivial⟩
  | null => exact ⟨.null, rfl⟩
  | nonNull => exact ⟨.object, by simp [Admits]⟩
  | bool b => exact ⟨.bool b, rfl⟩

/-- A constraint is determined by the values it admits. -/
theorem eq_of_admits_iff {a b : Constraint} (h : ∀ v, a.Admits v ↔ b.Admits v) : a = b := by
  have hn := h .null
  have ht := h (.bool true)
  have hf := h (.bool false)
  have ho := h .object
  clear h
  rcases a with _ | _ | _ | (_ | _) <;> rcases b with _ | _ | _ | (_ | _) <;>
    simp_all [Admits]

/-! ### Operations -/

/-- Whether nothing is required. -/
def isAny (c : Constraint) : Bool := c = any

/-- The constraint that admits exactly the other values; `any` has no complement and stays. -/
def negate : Constraint → Constraint
  | any => any
  | null => nonNull
  | nonNull => null
  | bool b => bool !b

@[simp] theorem negate_negate (c : Constraint) : c.negate.negate = c := by
  cases c <;> simp [negate]

/-- Both requirements at once, or `none` when no value satisfies both. -/
def meet : Constraint → Constraint → Option Constraint
  | any, c => some c
  | c, any => some c
  | null, null => some null
  | nonNull, nonNull => some nonNull
  | nonNull, bool b => some (bool b)
  | bool b, nonNull => some (bool b)
  | bool a, bool b => if a = b then some (bool a) else none
  | null, _ => none
  | _, null => none

@[simp] theorem meet_self (c : Constraint) : c.meet c = some c := by
  cases c <;> simp [meet]

theorem meet_comm (a b : Constraint) : a.meet b = b.meet a := by
  rcases a with _ | _ | _ | (_ | _) <;> rcases b with _ | _ | _ | (_ | _) <;> rfl

/-- A meet admits exactly what both sides admit. -/
theorem admits_of_meet {a b c : Constraint} (h : a.meet b = some c) (v : Value) :
    c.Admits v ↔ a.Admits v ∧ b.Admits v := by
  rcases a with _ | _ | _ | (_ | _) <;> rcases b with _ | _ | _ | (_ | _) <;>
    simp [meet] at h <;> subst h <;> cases v <;> simp [Admits]

/-- Only requirements that no value satisfies together have no meet. -/
theorem meet_eq_none_iff {a b : Constraint} :
    a.meet b = none ↔ ∀ v, ¬(a.Admits v ∧ b.Admits v) := by
  constructor
  · intro h v
    rcases a with _ | _ | _ | (_ | _) <;> rcases b with _ | _ | _ | (_ | _) <;>
      simp [meet] at h <;> cases v <;> simp [Admits]
  · intro h
    cases hm : a.meet b with
    | none => rfl
    | some c =>
        obtain ⟨v, hv⟩ := c.exists_admits
        exact absurd ((admits_of_meet hm v).1 hv) (h v)

/-- Whether every value that `b` admits is admitted by `a`. -/
def covers (a b : Constraint) : Bool := a.meet b = some b

/-- Covering is inclusion of the admitted values. -/
theorem covers_iff {a b : Constraint} : a.covers b = true ↔ ∀ v, b.Admits v → a.Admits v := by
  constructor
  · intro h v hb
    exact ((admits_of_meet (of_decide_eq_true h) v).1 hb).1
  · intro h
    refine decide_eq_true ?_
    cases hm : a.meet b with
    | none =>
        obtain ⟨v, hv⟩ := b.exists_admits
        exact absurd ⟨h v hv, hv⟩ (meet_eq_none_iff.1 hm v)
    | some c =>
        refine congrArg some (eq_of_admits_iff fun v => ?_)
        rw [admits_of_meet hm v]
        exact ⟨fun hc => hc.2, fun hb => ⟨h v hb, hb⟩⟩

/-! ### Order

Constraints are listed from the least to the most specific; the order has no other meaning. -/

/-- The place of a constraint in the listing order. -/
def rank : Constraint → Nat
  | any => 0
  | null => 1
  | nonNull => 2
  | bool true => 3
  | bool false => 4

instance : Ord Constraint where
  compare a b := compare a.rank b.rank

end Constraint

end MethodContracts
