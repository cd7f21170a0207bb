import MethodContracts.Domain
import MethodContracts.Outcome

/-!
# Contract clauses

A `Clause` pairs a domain of argument lists with the outcome that is guaranteed on it. Lists of
clauses are read in order: of two clauses that apply to the same arguments, the earlier wins.
-/

namespace MethodContracts

/-- On the arguments in `domain`, the method does what `outcome` says. -/
structure Clause where
  /-- When the clause applies. -/
  domain : Domain
  /-- What is then guaranteed. -/
  outcome : Outcome
  deriving DecidableEq, Repr

namespace Clause

/-- The number of parameters that the clause speaks of. -/
def arity (c : Clause) : Nat := c.domain.arity

/-- The clause that promises an outcome for all arguments of an `n`-ary method. -/
def unconditional (n : Nat) (o : Outcome) : Clause := ⟨.unconstrained n, o⟩

/-- The constraint on the parameter at an index; a clause asks nothing of a parameter that it
does not mention. -/
def constraintAt (c : Clause) (i : Nat) : Constraint := (c.domain.slot? i).getD .any

/-- The clause with another outcome. -/
def withOutcome (c : Clause) (o : Outcome) : Clause := { c with outcome := o }

/-- The clause with its boolean outcome flipped; `none` for other outcomes. -/
def negate? (c : Clause) : Option Clause := c.outcome.negate?.map c.withOutcome

/-- Whether some argument list is in the domain of both clauses. -/
def overlaps (a b : Clause) : Bool := a.domain.overlaps b.domain

end Clause

end MethodContracts
