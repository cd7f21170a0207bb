import MethodContracts.Expr

/-!
# Finding an expression by its range

Data about a body refer to an expression by its range. The search is in source order, an
expression before its parts, and does not look into an expression whose range does not enclose
the wanted one. `find?_eq` states the search uniformly over `Expr.children`.
-/

namespace MethodContracts

/-- Whether a range has room for another. -/
def TextRange.encloses (outer inner : TextRange) : Bool :=
  outer.start ≤ inner.start && inner.stop ≤ outer.stop

namespace Expr

mutual

/-- The first expression, in source order, with exactly this range. -/
def find? (r : TextRange) (e : Expr) : Option Expr :=
  if e.range = r then some e
  else if e.range.encloses r then
    match e with
    | literal _ _ => none
    | reference _ _ qualifier _ => findIn? r qualifier
    | parenthesized _ inner => find? r inner
    | call _ _ _ receiver arguments _ => findIn? r receiver <|> findAmong? r arguments
    | construction _ arguments => findAmong? r arguments
    | operation _ _ operands => findAmong? r operands
    | function _ => none
    | assignment _ target value => find? r target <|> find? r value
    | other _ children => findAmong? r children
  else none

/-- The first expression with this range in an expression that may be missing. -/
def findIn? (r : TextRange) : Option Expr → Option Expr
  | none => none
  | some e => find? r e

/-- The first expression with this range in a list of expressions. -/
def findAmong? (r : TextRange) : List Expr → Option Expr
  | [] => none
  | e :: es => find? r e <|> findAmong? r es

end

theorem findIn?_eq (r : TextRange) (o : Option Expr) :
    findIn? r o = o.toList.findSome? (find? r) := by
  cases o with
  | none => rfl
  | some e => cases h : find? r e <;> simp [findIn?, h]

theorem findAmong?_eq (r : TextRange) (es : List Expr) :
    findAmong? r es = es.findSome? (find? r) := by
  induction es with
  | nil => rfl
  | cons e es ih => cases h : find? r e <;> simp [findAmong?, h, ih]

/-- The search tries the expression itself and then, if its range has room, its parts. -/
theorem find?_eq (r : TextRange) (e : Expr) :
    e.find? r =
      if e.range = r then some e
      else if e.range.encloses r then e.children.findSome? (find? r)
      else none := by
  rw [find?.eq_def]
  split
  · rfl
  · split
    · cases e with
      | literal | function => rfl
      | reference | construction | operation | other =>
          simp [children, findIn?_eq, findAmong?_eq]
      | parenthesized _ inner => cases h : find? r inner <;> simp [children, h]
      | call => simp [children, findIn?_eq, findAmong?_eq, List.findSome?_append]
      | assignment _ t v =>
          cases ht : find? r t <;> cases hv : find? r v <;> simp [children, ht, hv]
    · rfl

end Expr

/-- The first expression of a body, in source order, with exactly this range. -/
def Body.find? (b : Body) (r : TextRange) : Option Expr := Expr.findAmong? r b.expressions

/-- The call at a range, if there is a call there. -/
def Body.callAt? (b : Body) (r : TextRange) : Option Call := (b.find? r).bind Expr.asCall?

end MethodContracts
