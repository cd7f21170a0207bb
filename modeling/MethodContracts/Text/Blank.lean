/-!
# White space

The characters with the Unicode property *White_Space*, and texts without them at either end.
Texts are lists of characters here, as everywhere in this library where text is read.
-/

namespace MethodContracts.Text

/-- The characters with the property *White_Space*, as ranges of code points. -/
def blankRanges : List (Nat × Nat) :=
  [(0x09, 0x0D), (0x20, 0x20), (0x85, 0x85), (0xA0, 0xA0), (0x1680, 0x1680), (0x2000, 0x200A),
    (0x2028, 0x2029), (0x202F, 0x202F), (0x205F, 0x205F), (0x3000, 0x3000)]

/-- Whether a character is white space. -/
def isBlank (c : Char) : Bool :=
  blankRanges.any fun (first, last) => first ≤ c.toNat && c.toNat ≤ last

/-- Whether a text holds nothing but white space. -/
def AllBlank (cs : List Char) : Bool := cs.all isBlank

/-- A text without the white space at its start. -/
def trimStart (cs : List Char) : List Char := cs.dropWhile isBlank

/-- A text without the white space at its end. -/
def trimEnd (cs : List Char) : List Char := (cs.reverse.dropWhile isBlank).reverse

/-- A text without the white space at its ends. -/
def trim (cs : List Char) : List Char := trimEnd (trimStart cs)

/-- White space of the core library is white space. -/
theorem isBlank_of_isWhitespace {c : Char} (h : c.isWhitespace = true) : isBlank c = true := by
  simp only [Char.isWhitespace, Bool.or_eq_true, decide_eq_true_eq] at h
  rcases h with ((rfl | rfl) | rfl) | rfl <;> decide

/-- There are 25 white space characters. -/
example : (blankRanges.map fun (first, last) => last + 1 - first).sum = 25 := rfl

/-- A text that starts with a character that is not blank keeps its start. -/
theorem trimStart_cons {c : Char} (h : isBlank c = false) (cs : List Char) :
    trimStart (c :: cs) = c :: cs := by
  simp [trimStart, h]

/-- Only a blank text is empty once its start is trimmed. -/
theorem trimStart_eq_nil_iff {cs : List Char} : trimStart cs = [] ↔ AllBlank cs = true := by
  induction cs with
  | nil => simp [trimStart, AllBlank]
  | cons c cs ih =>
      cases h : isBlank c
      · simp [trimStart_cons h, AllBlank, h]
      · simp only [trimStart, AllBlank, List.dropWhile_cons, List.all_cons, h, ↓reduceIte,
          Bool.true_and]
        exact ih

/-- Only a blank text is empty once trimmed. -/
theorem trim_eq_nil_iff {cs : List Char} : trim cs = [] ↔ AllBlank cs = true := by
  rw [trim, trimEnd, List.reverse_eq_nil_iff]
  refine trimStart_eq_nil_iff.trans ?_
  rw [AllBlank, List.all_reverse, ← AllBlank]
  constructor
  · intro h
    cases hd : trimStart cs with
    | nil => exact trimStart_eq_nil_iff.1 hd
    | cons d ds =>
        have hstop := List.head?_dropWhile_not isBlank cs
        rw [← trimStart, hd] at hstop
        simp_all [AllBlank]
  · intro h
    rw [trimStart_eq_nil_iff.2 h]
    rfl

end MethodContracts.Text
