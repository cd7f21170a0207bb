/-!
# Method signatures

Of a method only its shape matters: who it is, what its parameters are called, and whether the
last of them takes a variable number of arguments. Types stay with the front end.
-/

namespace MethodContracts

/-- The identity of a method within a session. -/
structure MethodId where
  /-- The number that stands for the method. -/
  number : UInt32
  deriving DecidableEq, Repr

/-- A method as its callers see it. -/
structure Signature where
  /-- Which method this is. -/
  id : MethodId
  /-- What it is called; names need not be unique. -/
  name : String
  /-- The names of the parameters, in order. -/
  params : List String
  /-- Whether the last parameter is variadic. -/
  varargs : Bool
  deriving DecidableEq, Repr

namespace Signature

/-- The number of parameters. -/
def arity (m : Signature) : Nat := m.params.length

/-- The signature with its last parameter made variadic; a method without parameters stays as it
is. -/
def variadic (m : Signature) : Signature := { m with varargs := !m.params.isEmpty }

end Signature

end MethodContracts
