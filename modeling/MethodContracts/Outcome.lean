/-!
# Outcomes

What a call is guaranteed to do once a clause's constraints hold. Only boolean outcomes can be
negated; parameters are counted from zero.
-/

namespace MethodContracts

/-- What a method is guaranteed to do when a clause applies. -/
inductive Outcome where
  /-- The method throws. -/
  | fail
  /-- The method returns a value that is not null. -/
  | nonNull
  /-- The method returns null. -/
  | null
  /-- The method returns its receiver. -/
  | receiver
  /-- The method returns the argument passed for the parameter at this index. -/
  | parameter (index : UInt64)
  /-- The method returns this boolean. -/
  | bool (b : Bool)
  deriving DecidableEq, Repr

namespace Outcome

/-- Whether the outcome is to throw. -/
def isFail (o : Outcome) : Bool := o = fail

/-- The other boolean; other outcomes have no negation. -/
def negate? : Outcome → Option Outcome
  | bool b => some (bool !b)
  | _ => none

/-- Flip a boolean and leave every other outcome as it is. -/
def flip : Outcome → Outcome
  | bool b => bool !b
  | o => o

@[simp] theorem negate?_bool (b : Bool) : negate? (bool b) = some (bool !b) := rfl

theorem negate?_eq_some_iff {o p : Outcome} :
    o.negate? = some p ↔ ∃ b, o = bool b ∧ p = bool !b := by
  cases o <;> simp [negate?, eq_comm]

/-- Flipping is negation where there is one. -/
theorem flip_eq_getD (o : Outcome) : o.flip = o.negate?.getD o := by
  cases o <;> rfl

end Outcome

end MethodContracts
