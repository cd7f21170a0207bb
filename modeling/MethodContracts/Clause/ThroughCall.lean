import MethodContracts.Clause
import MethodContracts.Expr

/-!
# Clauses seen through a call

When a method returns what a call returns, the clauses of the called method say something about
the caller too. `Clause.throughCall?` restates one clause of the target in terms of the caller's
parameters: a constraint on a parameter of the target becomes one on the parameter of the caller
that is passed for it, or is discharged by an argument that satisfies it on its own.

Arguments that a variadic parameter collects arrive in an array, which is never null; nothing
else is known about them, and slots from there on are not looked at.
-/

namespace MethodContracts

/-- The constraint that describes the value of an expression in every call of the method, if it
has one: what a literal is, and that constructions, operations and functions are not null. -/
def Expr.fixedConstraint? : Expr → Option Constraint
  | .literal _ .null => some .null
  | .literal _ (.bool b) => some (.bool b)
  | .literal _ _ => some .nonNull
  | .construction _ _ => some .nonNull
  | .operation _ _ _ => some .nonNull
  | .function _ => some .nonNull
  | _ => none

namespace Clause

/-- What a constraint on one argument demands of the caller's parameters, added to what is
demanded of them already. One pair of parentheses around the argument does not count. -/
def demand? (caller : MethodId) (c : Constraint) (argument : Expr) (demanded : Domain) :
    Option Domain :=
  match argument.skipParentheses.parameterOf? caller with
  | some index => demanded.require? index.toNat c
  | none => if argument.skipParentheses.fixedConstraint? = some c then some demanded else none

/-- What a list of constraints on arguments demands of the caller's parameters. The constraints
are on the parameters of the target from index `i` on; of those, the ones from `collected?` on
are passed in an array. Each constraint needs its argument, even one that requires nothing. -/
def demandAll? (caller : MethodId) (collected? : Option Nat) :
    Nat → List Constraint → List Expr → Domain → Option Domain
  | _, [], _, demanded => some demanded
  | _, _ :: _, [], _ => none
  | i, c :: cs, a :: as, demanded =>
      if c.isAny then demandAll? caller collected? (i + 1) cs as demanded
      else if collected?.any (· ≤ i) then if c = .null then none else some demanded
      else (demand? caller c a demanded).bind (demandAll? caller collected? (i + 1) cs as)

/-- A clause of the target in terms of the caller's parameters. `expanded` says whether the call
passes its last arguments through a variadic parameter, `negated` whether the caller returns the
negation of what the call returns. -/
def throughCall? (caller target : Signature) (call : Call) (expanded negated : Bool)
    (c : Clause) : Option Clause :=
  let collected? := if expanded then some (target.arity - 1) else none
  (demandAll? caller.id collected? 0 c.domain.slots call.arguments
    (.unconstrained caller.arity)).map fun domain =>
      ⟨domain, if negated then c.outcome.flip else c.outcome⟩

end Clause

end MethodContracts
