/-!
# Decimal numbers

Reading unsigned numbers written with ASCII digits. A *word* is a number that fits into 64 bits;
it may be written with a plus sign and with leading zeros.
-/

namespace MethodContracts.Text

/-- The number that a text of at least one digit and nothing else writes. -/
def readNat? (cs : List Char) : Option Nat :=
  if cs ≠ [] ∧ cs.all Char.isDigit then some (Nat.ofDigitChars 10 cs 0) else none

/-- The digits of a number. -/
def natDigits (n : Nat) : List Char := Nat.toDigits 10 n

/-- Reading takes a written number back. -/
theorem readNat?_natDigits (n : Nat) : readNat? (natDigits n) = some n := by
  have hne : natDigits n ≠ [] := Nat.toDigits_ne_nil
  have hall : (natDigits n).all Char.isDigit = true :=
    List.all_eq_true.2 fun c hc => Nat.isDigit_of_mem_toDigits (by decide) (by decide) hc
  rw [readNat?, if_pos ⟨hne, hall⟩]
  exact congrArg some (Nat.ofDigitChars_toDigits (by decide) (by decide))

/-- The 64-bit number that a text writes with digits, after an optional plus sign. -/
def readWord? (cs : List Char) : Option UInt64 :=
  let digits := match cs with
    | '+' :: ds => ds
    | ds => ds
  (readNat? digits).bind fun n =>
    let word := UInt64.ofNat n
    if word.toNat = n then some word else none

end MethodContracts.Text
