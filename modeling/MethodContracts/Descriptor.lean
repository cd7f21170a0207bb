import MethodContracts.Clause
import MethodContracts.Expr

/-!
# Contract descriptors

What the scanner of a method body records: contracts that are not yet known, because they depend
on other methods, in a form that can be resolved later (`Descriptor.resolve`). A descriptor refers
to expressions of the body by their ranges.
-/

namespace MethodContracts

/-- A description of contracts of one method. -/
inductive Descriptor where
  /-- A clause that is stated in the source. -/
  | known (clause : Clause)
  /-- The method returns what this call returns, or its negation. -/
  | delegation (call : TextRange) (negated : Bool)
  /-- The inner descriptors hold if none of the guarded expressions has side effects. -/
  | guarded (guards : List TextRange) (inner : List Descriptor)
  /-- The inner descriptor with every boolean outcome flipped. -/
  | negating (inner : Descriptor)
  /-- In each of these states the method returns something not null, provided that the method
  called here never returns null. -/
  | nonNullCall (call : TextRange) (states : List Domain)
  deriving Repr

namespace Descriptor

mutual

/-- A descriptor for the logical negation of the method's result; `none` when none of the
described contracts has a boolean outcome. -/
def negate? : Descriptor → Option Descriptor
  | known clause => clause.negate?.map known
  | delegation call negated => some (negating (delegation call negated))
  | guarded guards inner =>
      match negateAll inner with
      | [] => none
      | negated => some (guarded guards negated)
  | negating inner => some (negating (negating inner))
  | nonNullCall _ _ => none

/-- The negations of those descriptors that have one. -/
def negateAll : List Descriptor → List Descriptor
  | [] => []
  | d :: ds =>
      match negate? d with
      | some n => n :: negateAll ds
      | none => negateAll ds

end

theorem negateAll_eq_filterMap (ds : List Descriptor) : negateAll ds = ds.filterMap negate? := by
  induction ds with
  | nil => rfl
  | cons d ds ih => cases h : negate? d <;> simp [negateAll, h, ih]

end Descriptor

end MethodContracts
