/-!
# Decimal numerals

A number as it is written in decimal positional or scientific form: sign, digits before and after
the point, and an exponent of ten. Leading and trailing zeros are part of the numeral.
-/

namespace MethodContracts

/-- A written decimal number. -/
structure Decimal where
  /-- Whether a minus sign comes first. -/
  negative : Bool
  /-- The digits before the point, at least one. -/
  whole : List Char
  /-- The digits after the point; without any, no point is written. -/
  fraction : List Char
  /-- The exponent of ten, if one is written. -/
  exponent : Option Int
  deriving DecidableEq, Repr

namespace Decimal

/-- The digits of an integer as a numeral. -/
def ofInt (n : Int) : Decimal := ⟨n < 0, Nat.toDigits 10 n.natAbs, [], none⟩

/-- The numeral as text. -/
def chars (d : Decimal) : List Char :=
  (if d.negative then ['-'] else []) ++ d.whole
    ++ (if d.fraction.isEmpty then [] else '.' :: d.fraction)
    ++ (match d.exponent with
      | some e => 'e' :: (toString e).toList
      | none => [])

end Decimal

end MethodContracts
