/-!
# Errors in clause text

Why a text does not denote a contract clause. Reading stops at the first error; everything else
in the library never fails but promises less.
-/

namespace MethodContracts

/-- What is wrong with a clause text. -/
inductive ClauseError where
  /-- A word in the place of a constraint is not one. -/
  | unknownConstraint (word : String)
  /-- A word in the place of an outcome is not one. -/
  | unknownOutcome (word : String)
  /-- There is no arrow between the constraints and the outcome. -/
  | missingArrow (clause : String)
  /-- There is nothing after the arrow. -/
  | missingOutcome (clause : String)
  /-- The clause has another number of constraints than the method has parameters. -/
  | arityMismatch (clause : String) (expected actual : Nat)
  /-- The outcome names a parameter, counted from one, that the method does not have. -/
  | parameterOutOfRange (number count : Nat)
  deriving DecidableEq, Repr

/-- The wording of each error. -/
def ClauseError.message : ClauseError → String
  | .unknownConstraint word => s!"unknown value constraint: '{word}'"
  | .unknownOutcome word => s!"unknown contract return value: '{word}'"
  | .missingArrow clause => s!"malformed contract clause '{clause}': missing '->'"
  | .missingOutcome clause => s!"malformed contract clause '{clause}': missing return value"
  | .arityMismatch clause expected actual =>
      s!"contract '{clause}' has {actual} parameter constraint(s), method declares {expected}"
  | .parameterOutOfRange number count =>
      s!"return value refers to parameter {number}, method declares {count}"

end MethodContracts
