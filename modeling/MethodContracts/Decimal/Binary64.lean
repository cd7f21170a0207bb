import MethodContracts.Decimal

/-!
# Decimal numerals as binary floating-point numbers

A numeral is read into 64-bit floating point in two steps. The **significand** takes the digits
from the left while the number they write fits into 64 bits; the digits after that only count
for the exponent. The significand is then **scaled** by one power of ten, or by several when a
negative exponent is out of range. With up to 15 digits and an exponent below 23 the result is
the nearest float; beyond that it can be one of its neighbours.
-/

namespace MethodContracts.Decimal

/-- Append digits to a number while it stays below `2 ^ 64`; also the number of digits that were
left over. -/
def appendDigits (n : Nat) : List Char → Nat × Nat
  | [] => (n, 0)
  | d :: ds =>
      let next := 10 * n + (d.toNat - '0'.toNat)
      if next < 2 ^ 64 then appendDigits next ds else (n, ds.length + 1)

/-- The significand of a numeral and the exponent of ten that goes with it. -/
def significand (d : Decimal) : Nat × Int :=
  let (n, left) := appendDigits 0 d.whole
  let (n, left') := appendDigits n d.fraction
  (n, (left : Int) - ((d.fraction.length : Int) - left') + d.exponent.getD 0)

/-- A power of ten as a float; exact powers above `10 ^ 22` are rounded. -/
def powerOfTen (n : Nat) : Float := Float.ofScientific 1 false n

/-- The greatest exponent of ten that floats reach. -/
def maxPower : Nat := 308

/-- A float divided by `10 ^ n`, in steps of at most `10 ^ 308`. -/
def scaleDown (f : Float) (n : Nat) : Float :=
  if n ≤ maxPower then f / powerOfTen n
  else if f == 0 then f
  else scaleDown (f / powerOfTen maxPower) (n - maxPower)
termination_by n
decreasing_by simp only [maxPower] at *; omega

/-- A float times a power of ten; `none` when that is too large for a float. -/
def scale? (f : Float) (e : Int) : Option Float :=
  if e < 0 then some (scaleDown f e.natAbs)
  else if e.natAbs ≤ maxPower then
    let r := f * powerOfTen e.natAbs
    if r.isInf then none else some r
  else if f == 0 then some f
  else none

/-- The float that a numeral writes; `none` when it is too large for one. -/
def toFloat? (d : Decimal) : Option Float :=
  let (n, e) := d.significand
  (scale? (UInt64.ofNat n).toFloat e).map fun f => if d.negative then -f else f

end MethodContracts.Decimal
