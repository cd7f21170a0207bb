/-!
# Values

What a contract can tell apart about an argument or a result: **null**, the two **booleans**,
and **everything else**. Contracts speak of no other property, so these classes are the whole
semantic domain of the library; `Constraint.Admits` and `Domain.Admits` are stated over them.
-/

namespace MethodContracts

/-- A value, as far as contracts can observe it. -/
inductive Value where
  /-- The null reference. -/
  | null
  /-- A boolean. -/
  | bool (b : Bool)
  /-- Any value that is neither null nor a boolean. -/
  | object
  deriving DecidableEq, Repr

end MethodContracts
