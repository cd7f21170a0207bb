import MethodContracts.Decimal

/-!
# Shortest decimal form of a float

The numeral with the fewest digits that denotes a given 64-bit float, and of those the nearest
to it. A finite float is `m * 2 ^ q`; the reals that round to it form an interval around it whose
ends count when `m` is even. Grids of multiples of `10 ^ t` are tried from the coarsest on: the
first that has a point in the interval has one next to the float itself.

All arithmetic is on natural numbers and exact.
-/

namespace MethodContracts.Decimal

/-- The mantissa of floats that are powers of two, `2 ^ 52`. -/
def leadingBit : Nat := 0x10000000000000

/-- The mantissa and exponent of the absolute value of a finite float: `m * 2 ^ q`. -/
def mantissaExponent (f : Float) : Nat × Int :=
  let biased := (f.toBits >>> 52 &&& 0x7FF).toNat
  let stored := (f.toBits &&& 0xFFFFFFFFFFFFF).toNat
  if biased = 0 then (stored, -1074) else (leadingBit + stored, (biased : Int) - 1075)

/-- The decimal `d` such that `d * 10 ^ t` rounds to `m * 2 ^ q`, nearest to it and of two equally
near the even one; `none` when no multiple of `10 ^ t` rounds to it. -/
def gridPoint? (m : Nat) (q t : Int) : Option Nat :=
  -- In units of a quarter of `2 ^ q`, the float is `4 * m` and the interval reaches two units up;
  -- below a power of two the floats lie twice as dense.
  let below := if m = leadingBit ∧ q ≠ -1074 then 1 else 2
  let scaleUp := Nat.pow 2 (q - 2).toNat * Nat.pow 10 (-t).toNat
  let unit := Nat.pow 2 (2 - q).toNat * Nat.pow 10 t.toNat
  let value := 4 * m * scaleUp
  let low := (4 * m - below) * scaleUp
  let high := (4 * m + 2) * scaleUp
  let inside (d : Nat) : Bool :=
    if m % 2 = 0 then low ≤ d * unit && d * unit ≤ high
    else low < d * unit && d * unit < high
  let d := value / unit
  let rest := 2 * (value % unit)
  let up := unit < rest || (unit = rest && d % 2 = 1)
  match inside d, inside (d + 1) with
  | true, true => some (if up then d + 1 else d)
  | true, false => some d
  | false, true => some (d + 1)
  | false, false => none

/-- The exponents of ten that are tried, the coarsest grid first. -/
def gridExponents : List Int := (List.range 660).map fun (i : Nat) => 310 - (i : Int)

/-- The fewest digits that round to `m * 2 ^ q`, as a number and an exponent of ten. -/
def shortestDigits (m : Nat) (q : Int) : Nat × Int :=
  (gridExponents.findSome? fun t => (gridPoint? m q t).map fun d => (d, t)).getD (0, 0)

/-- Where a written float has its point: as long as the number of digits before the point is more
than `above` and at most `upTo`, the point stands in its place; outside, there is one digit
before it and an exponent is written. -/
structure PointRange where
  /-- Positions up to this one are written with an exponent. -/
  above : Int
  /-- Positions beyond this one are written with an exponent. -/
  upTo : Int

/-- The numeral for `d * 10 ^ t`, with at least one digit on either side of a point in place. -/
def layOut (range : PointRange) (negative : Bool) (d : Nat) (t : Int) : Decimal :=
  let digits := Nat.toDigits 10 d
  let point : Int := digits.length + t
  if 0 ≤ t ∧ point ≤ range.upTo then
    ⟨negative, digits ++ List.replicate t.toNat '0', ['0'], none⟩
  else if 0 < point ∧ point ≤ range.upTo then
    ⟨negative, digits.take point.toNat, digits.drop point.toNat, none⟩
  else if range.above < point ∧ point ≤ 0 then
    ⟨negative, ['0'], List.replicate (-point).toNat '0' ++ digits, none⟩
  else ⟨negative, digits.take 1, digits.drop 1, some (point - 1)⟩

/-- The shortest numeral for a finite float; zeros keep their sign. -/
def ofFloat (range : PointRange) (f : Float) : Decimal :=
  let negative := f.toBits >>> 63 = 1
  let (m, q) := mantissaExponent f
  if m = 0 then ⟨negative, ['0'], ['0'], none⟩
  else
    let (d, t) := shortestDigits m q
    layOut range negative d t

end MethodContracts.Decimal
