import MethodContracts.Signature

/-!
# Expressions of method bodies

The expressions that a front end hands over, without types: just enough of each node to tell what
a call passes on and what evaluation may do. Every node carries the range of source text that it
was read from, which is also how other data refer to it.

Nodes of all kinds are visited the same way, through `Expr.children`.
-/

namespace MethodContracts

/-- A half-open range of positions in the source text of a method. -/
structure TextRange where
  /-- The first position in the range. -/
  start : UInt32
  /-- The first position after the range. -/
  stop : UInt32
  deriving DecidableEq, Repr

/-- The range in the form `start..stop`. -/
def TextRange.text (r : TextRange) : String := s!"{r.start.toNat}..{r.stop.toNat}"

/-- A literal. -/
inductive Literal where
  /-- The null literal. -/
  | null
  /-- A boolean literal. -/
  | bool (b : Bool)
  /-- An integer literal. -/
  | int (n : Int64)
  /-- A floating-point literal. -/
  | float (f : Float)
  /-- A string literal. -/
  | str (s : String)
  /-- A character literal. -/
  | char (c : Char)
  deriving Repr

/-- What a simple name stands for. -/
inductive Symbol where
  /-- The parameter of a method at an index. -/
  | parameter (method : MethodId) (index : UInt64)
  /-- A local variable. -/
  | localName (name : String)
  /-- A field. -/
  | fieldName (name : String)
  deriving DecidableEq, Repr

/-- An expression. -/
inductive Expr where
  /-- A literal. -/
  | literal (range : TextRange) (value : Literal)
  /-- A name, perhaps qualified by an expression. -/
  | reference (range : TextRange) (name : String) (qualifier : Option Expr)
      (symbol : Option Symbol)
  /-- An expression in parentheses. -/
  | parenthesized (range : TextRange) (inner : Expr)
  /-- A method call; the target is missing when it could not be resolved. `varArgs` says that the
  last arguments are known to be collected into a variadic parameter. -/
  | call (range : TextRange) (name : String) (target : Option MethodId)
      (receiver : Option Expr) (arguments : List Expr) (varArgs : Bool)
  /-- The construction of an object or array. -/
  | construction (range : TextRange) (arguments : List Expr)
  /-- A chain of operands of one operator, string concatenation included. -/
  | operation (range : TextRange) (operator : String) (operands : List Expr)
  /-- A function or method given as a value. -/
  | function (range : TextRange)
  /-- An assignment. -/
  | assignment (range : TextRange) (target : Expr) (value : Expr)
  /-- Any other expression. -/
  | other (range : TextRange) (children : List Expr)
  deriving Repr

/-- What a call expression says about the call. -/
structure Call where
  /-- The name that is called. -/
  name : String
  /-- The method that is called, if it could be resolved. -/
  target : Option MethodId
  /-- The expression that the method is called on. -/
  receiver : Option Expr
  /-- The arguments, in order. -/
  arguments : List Expr
  /-- Whether the last arguments are known to be collected into a variadic parameter. -/
  varArgs : Bool
  deriving Repr

namespace Expr

/-- The range of source text of an expression. -/
def range : Expr → TextRange
  | literal r _ => r
  | reference r _ _ _ => r
  | parenthesized r _ => r
  | call r _ _ _ _ _ => r
  | construction r _ => r
  | operation r _ _ => r
  | function r => r
  | assignment r _ _ => r
  | other r _ => r

/-- The direct parts of an expression, in source order. -/
def children : Expr → List Expr
  | literal _ _ => []
  | reference _ _ qualifier _ => qualifier.toList
  | parenthesized _ inner => [inner]
  | call _ _ _ receiver arguments _ => receiver.toList ++ arguments
  | construction _ arguments => arguments
  | operation _ _ operands => operands
  | function _ => []
  | assignment _ target value => [target, value]
  | other _ children => children

/-- Parts are smaller than the expression they are parts of. -/
theorem sizeOf_lt_of_mem_children {c e : Expr} (h : c ∈ e.children) : sizeOf c < sizeOf e := by
  cases e with
  | literal | function => simp [children] at h
  | reference r n q s =>
      cases q with
      | none => simp [children] at h
      | some q => simp_all +arith [children]
  | parenthesized r inner => simp_all +arith [children]
  | assignment r t v =>
      simp only [children, List.mem_cons, List.not_mem_nil, or_false] at h
      rcases h with rfl | rfl <;> simp +arith
  | call r n t recv args v =>
      simp only [children, List.mem_append] at h
      rcases h with h | h
      · cases recv with
        | none => simp at h
        | some recv => simp_all +arith
      · have := List.sizeOf_lt_of_mem h
        simp only [call.sizeOf_spec]
        omega
  | construction r es | operation r o es | other r es =>
      have := List.sizeOf_lt_of_mem (show c ∈ es from h)
      simp only [construction.sizeOf_spec, operation.sizeOf_spec, other.sizeOf_spec]
      omega

/-- To prove something of all expressions, prove it of each assuming it of its parts. -/
theorem induction_on_children {motive : Expr → Prop}
    (step : ∀ e, (∀ c ∈ e.children, motive c) → motive e) (e : Expr) : motive e :=
  step e fun c _hc => induction_on_children step c
termination_by sizeOf e
decreasing_by exact sizeOf_lt_of_mem_children _hc

/-- The call that an expression is, if it is one. -/
def asCall? : Expr → Option Call
  | call _ name target receiver arguments varArgs =>
      some ⟨name, target, receiver, arguments, varArgs⟩
  | _ => none

/-- A call as an expression. -/
def ofCall (range : TextRange) (c : Call) : Expr :=
  call range c.name c.target c.receiver c.arguments c.varArgs

@[simp] theorem asCall?_ofCall (r : TextRange) (c : Call) : (ofCall r c).asCall? = some c := rfl

/-- The expression without one pair of parentheses around it. -/
def skipParentheses : Expr → Expr
  | parenthesized _ inner => inner
  | e => e

/-- The parameter of a method that an expression is a bare, unqualified name of. -/
def parameterOf? (method : MethodId) : Expr → Option UInt64
  | reference _ _ none (some (.parameter owner index)) =>
      if owner = method then some index else none
  | _ => none

end Expr

/-- Whether a call hands its last arguments to the method through its variadic parameter: known
from the front end, or because the number of arguments is not that of the parameters. -/
def Signature.expands (m : Signature) (c : Call) : Bool :=
  m.varargs && (c.varArgs || c.arguments.length ≠ m.arity)

/-- The body of a method: its top-level expressions, in order. -/
structure Body where
  /-- The top-level expressions. -/
  expressions : List Expr
  deriving Repr

end MethodContracts
