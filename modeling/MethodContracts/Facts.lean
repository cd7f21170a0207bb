import MethodContracts.Clause
import MethodContracts.Expr.Locate

/-!
# What resolution depends on

A descriptor is resolved for a **subject**, the method whose contracts are wanted, against
**facts** about other methods and about expressions. Both are plain data and functions, so two
resolutions can be compared by comparing the facts they saw.
-/

namespace MethodContracts

/-- Facts about other methods and about expressions. -/
structure Facts where
  /-- The signature of a method, if the method is known. -/
  signature? : MethodId → Option Signature
  /-- The contracts of a method as far as they are known. -/
  contracts : MethodId → List Clause
  /-- Whether a method is known never to return null. -/
  neverNull : MethodId → Bool
  /-- Whether evaluating an expression may have side effects; `true` when in doubt. -/
  sideEffects : Expr → Bool

/-- A method under analysis. -/
structure Subject where
  /-- Its signature. -/
  signature : Signature
  /-- Its body, if it is available. -/
  body : Option Body

namespace Subject

/-- The number of parameters of the method. -/
def arity (m : Subject) : Nat := m.signature.arity

/-- The call at a range of the body, if there is a call there. -/
def callAt? (m : Subject) (r : TextRange) : Option Call := m.body.bind (·.callAt? r)

end Subject

end MethodContracts
