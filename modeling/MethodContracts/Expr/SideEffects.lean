import MethodContracts.Expr

/-!
# Side effects of expressions

Whether evaluating an expression may be observable, given which methods are **pure**. Assignments
and constructions are; a call is unless it is known to go to a pure method; everything else is as
far as its parts are. `hasSideEffects_eq` states this uniformly over `Expr.children`.
-/

namespace MethodContracts.Expr

mutual

/-- Whether evaluating an expression may have side effects. -/
def hasSideEffects (pure : MethodId → Bool) : Expr → Bool
  | literal _ _ => false
  | reference _ _ qualifier _ => inOption pure qualifier
  | parenthesized _ inner => hasSideEffects pure inner
  | call _ _ target receiver arguments _ =>
      !target.any pure || inOption pure receiver || amongThem pure arguments
  | construction _ _ => true
  | operation _ _ operands => amongThem pure operands
  | function _ => false
  | assignment _ _ _ => true
  | other _ children => amongThem pure children

/-- Whether an expression that may be missing may have side effects. -/
def inOption (pure : MethodId → Bool) : Option Expr → Bool
  | none => false
  | some e => hasSideEffects pure e

/-- Whether one of a list of expressions may have side effects. -/
def amongThem (pure : MethodId → Bool) : List Expr → Bool
  | [] => false
  | e :: es => hasSideEffects pure e || amongThem pure es

end

/-- Whether an expression may have side effects on its own account, apart from its parts. -/
def isImpure (pure : MethodId → Bool) : Expr → Bool
  | call _ _ target _ _ _ => !target.any pure
  | construction _ _ => true
  | assignment _ _ _ => true
  | _ => false

theorem inOption_eq (pure : MethodId → Bool) (o : Option Expr) :
    inOption pure o = o.toList.any (hasSideEffects pure) := by
  cases o <;> simp [inOption]

theorem amongThem_eq (pure : MethodId → Bool) (es : List Expr) :
    amongThem pure es = es.any (hasSideEffects pure) := by
  induction es with
  | nil => rfl
  | cons e es ih => simp [amongThem, ih]

/-- Side effects come from the expression itself or from one of its parts. -/
theorem hasSideEffects_eq (pure : MethodId → Bool) (e : Expr) :
    e.hasSideEffects pure = (e.isImpure pure || e.children.any (hasSideEffects pure)) := by
  cases e <;>
    simp [hasSideEffects, isImpure, children, inOption_eq, amongThem_eq, Bool.or_assoc]

end MethodContracts.Expr
