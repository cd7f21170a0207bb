import Mathlib.Data.List.TakeWhile
import Mathlib.Data.Option.Basic
import MethodContracts.Json.Token

/-!
# Written scalars are tokens

An integer is written with a minus sign, if it needs one, and digits without leading zeros; this
is one token, provided that the text goes on with something that cannot belong to a number
(`exists_token_integer`). A string is written with an escape for each character that needs one;
this is one token whatever follows (`token?_string`).
-/

namespace MethodContracts.Json

variable {n : Nat} {i : Int} {c : Char} {cs rest : List Char}

/-! ### Digits -/

theorem isDigit_of_mem_digits (h : c ∈ Nat.toDigits 10 n) : c.isDigit = true :=
  Nat.isDigit_of_mem_toDigits (by decide) (by decide) h

theorem head?_toDigits_ne (h : 0 < n) : (Nat.toDigits 10 n).head? ≠ some '0' := by
  induction n using Nat.strongRecOn with
  | _ n ih =>
      by_cases hn : n < 10
      · have hdigit : ∀ m < 10, 0 < m → [Nat.digitChar m].head? ≠ some '0' := by decide
        rw [Nat.toDigits_of_lt_base hn]
        exact hdigit n hn h
      · have hdiv := ih (n / 10) (by omega) (by omega)
        have hne : Nat.toDigits 10 (n / 10) ≠ [] := Nat.toDigits_ne_nil
        rw [Nat.toDigits_of_base_le (by decide) (Nat.le_of_not_lt hn), List.head?_append,
          List.head?_eq_some_head hne, Option.some_or, ← List.head?_eq_some_head hne]
        exact hdiv

/-- Only zero is written with a zero in front. -/
theorem wholeDigitsOk_toDigits (n : Nat) : wholeDigitsOk (Nat.toDigits 10 n) = true := by
  by_cases hn : n = 0
  · rw [hn]
    rfl
  · have hhead := head?_toDigits_ne (Nat.pos_of_ne_zero hn)
    cases hds : Nat.toDigits 10 n with
    | nil => exact absurd hds Nat.toDigits_ne_nil
    | cons d ds =>
        rw [hds, List.head?_cons] at hhead
        have hd : d ≠ '0' := fun h => hhead (congrArg some h)
        simp [wholeDigitsOk, hd]

/-! ### Integers -/

theorem chars_ofInt (i : Int) :
    (Decimal.ofInt i).chars = (if i < 0 then ['-'] else []) ++ Nat.toDigits 10 i.natAbs := by
  simp [Decimal.ofInt, Decimal.chars]

theorem toList_toString (i : Int) : (toString i).toList = (Decimal.ofInt i).chars := by
  rw [chars_ofInt, Int.toString_eq_repr, Int.repr_eq_if]
  split
  · rename_i h
    have hneg : ¬i < 0 := by omega
    have habs : i.toNat = i.natAbs := by omega
    simp [hneg, habs]
  · rename_i h
    have hneg : i < 0 := by omega
    have habs : (-i).toNat = i.natAbs := by omega
    simp [hneg, habs]

theorem exists_chars_ofInt (i : Int) :
    ∃ c cs, (Decimal.ofInt i).chars = c :: cs ∧ (c.isDigit = true ∨ c = '-') := by
  rw [chars_ofInt]
  split
  · exact ⟨'-', _, rfl, Or.inr rfl⟩
  · have hne : Nat.toDigits 10 i.natAbs ≠ [] := Nat.toDigits_ne_nil
    obtain ⟨d, ds, hds⟩ := List.exists_cons_of_ne_nil hne
    have hmem : d ∈ Nat.toDigits 10 i.natAbs := hds ▸ List.mem_cons_self
    exact ⟨d, ds, hds, Or.inl (isDigit_of_mem_digits hmem)⟩

theorem isNumberChar_of_mem_chars (h : c ∈ (Decimal.ofInt i).chars) : isNumberChar c = true := by
  rw [chars_ofInt, List.mem_append] at h
  rcases h with h | h
  · split at h
    · rw [List.mem_singleton.1 h]
      rfl
    · exact absurd h List.not_mem_nil
  · simp [isNumberChar, isDigit_of_mem_digits h]

/-- Digits after an optional sign are a numeral as they stand. -/
theorem numeral?_digits (negative : Bool) {ds : List Char} (hdigits : ∀ d ∈ ds, d.isDigit = true)
    (hok : wholeDigitsOk ds = true) :
    numeral? ((if negative then ['-'] else []) ++ ds) = some ⟨negative, ds, [], none⟩ := by
  have htake : ds.takeWhile Char.isDigit = ds := List.takeWhile_eq_self_iff.2 hdigits
  have hdrop : ds.dropWhile Char.isDigit = [] := List.dropWhile_eq_nil_iff.2 hdigits
  cases negative with
  | true =>
      show numeral? ('-' :: ds) = _
      simp only [numeral?, htake, hdrop, hok]
      rfl
  | false =>
      show numeral? ds = _
      unfold numeral?
      split
      rename_i hsign
      split at hsign
      · -- a digit is not a sign
        exact absurd (hdigits '-' List.mem_cons_self) (by decide)
      · obtain ⟨rfl, rfl⟩ := Prod.mk.inj hsign
        simp only [htake, hdrop, hok]
        rfl

theorem numeral?_ofInt (i : Int) :
    numeral? (Decimal.ofInt i).chars = some (Decimal.ofInt i) := by
  rw [chars_ofInt]
  have hnumeral := numeral?_digits (decide (i < 0)) (fun _ hd => isDigit_of_mem_digits hd)
    (wholeDigitsOk_toDigits i.natAbs)
  simp only [decide_eq_true_eq] at hnumeral
  exact hnumeral

theorem numberValue_ofInt (i : Int) : numberValue (Decimal.ofInt i) = .integer i := by
  have hvalue : Nat.ofDigitChars 10 (Decimal.ofInt i).whole 0 = i.natAbs :=
    Nat.ofDigitChars_ten_toDigits
  have hzero : ¬((Decimal.ofInt i).negative = true ∧ (Decimal.ofInt i).whole = ['0']) := by
    intro h
    have hneg : i < 0 := of_decide_eq_true h.1
    have habs : i.natAbs = 0 := by
      rw [← hvalue, h.2]
      rfl
    omega
  unfold numberValue
  rw [if_pos ⟨rfl, rfl, hzero⟩, hvalue]
  refine congrArg integer ?_
  show (if decide (i < 0) = true then -(i.natAbs : Int) else i.natAbs) = i
  split
  · rename_i hneg
    have hneg := of_decide_eq_true hneg
    omega
  · rename_i hneg
    have hneg := mt decide_eq_true hneg
    omega

/-- Whether a number is over before a text: nothing that can belong to it comes next. -/
def EndsNumber (rest : List Char) : Prop := ∀ c ∈ rest.head?, isNumberChar c = false

theorem endsNumber_nil : EndsNumber [] := by simp [EndsNumber]

theorem span_of_endsNumber (h : ∀ c ∈ cs, isNumberChar c = true) (hrest : EndsNumber rest) :
    (cs ++ rest).takeWhile isNumberChar = cs ∧ (cs ++ rest).dropWhile isNumberChar = rest := by
  rw [List.takeWhile_append_of_pos h, List.dropWhile_append_of_pos h]
  cases rest with
  | nil => simp
  | cons d rest =>
      have hd : isNumberChar d = false := hrest d rfl
      simp [hd]

theorem token?_of_number (h : c.isDigit = true ∨ c = '-') :
    token? c cs = (numeral? (c :: cs.takeWhile isNumberChar)).map fun d =>
      (.scalar (numberValue d), cs.dropWhile isNumberChar) := by
  unfold token?
  split
  case h_11 => rw [if_pos (by simpa using h)]
  all_goals exact absurd h (by decide)

theorem isSpace_of_number (h : c.isDigit = true ∨ c = '-') : isSpace c = false := by
  have hne : ∀ d : Char, d.isDigit = false → d ≠ '-' → c ≠ d := by
    intro d hdigit hminus hc
    subst hc
    rcases h with h | h
    · rw [hdigit] at h
      exact Bool.noConfusion h
    · exact hminus h
  simp [isSpace, hne ' ' rfl (by decide), hne '\n' rfl (by decide), hne '\t' rfl (by decide),
    hne '\r' rfl (by decide)]

/-- A written integer is a token. -/
theorem exists_token_integer (i : Int) (hrest : EndsNumber rest) :
    ∃ c cs, (toString i).toList = c :: cs ∧ isSpace c = false ∧
      token? c (cs ++ rest) = some (.scalar (integer i), rest) := by
  obtain ⟨c, cs, hchars, hc⟩ := exists_chars_ofInt i
  have hall : ∀ d ∈ cs, isNumberChar d = true := by
    intro d hd
    have hmem : d ∈ (Decimal.ofInt i).chars := hchars ▸ List.mem_cons_of_mem c hd
    exact isNumberChar_of_mem_chars hmem
  obtain ⟨htake, hdrop⟩ := span_of_endsNumber hall hrest
  refine ⟨c, cs, (toList_toString i).trans hchars, isSpace_of_number hc, ?_⟩
  rw [token?_of_number hc, htake, hdrop, ← hchars, numeral?_ofInt, Option.map_some,
    numberValue_ofInt]

/-! ### Strings -/

/-- A character that ends no literal and starts no escape stands for itself. -/
theorem scanString?_cons (hquote : c ≠ '"') (hback : c ≠ '\\') (hcontrol : ¬c.toNat < 0x20)
    (units : List StringUnit) (rest : List Char) :
    scanString? units (c :: rest) = scanString? (.scalar c :: units) rest := by
  rw [scanString?, if_neg (not_or.2 ⟨hcontrol, hback⟩)]
  · exact hquote
  · exact fun _ _ _ _ _ h _ => hback h
  · exact fun _ _ h _ => hback h

/-- A written character is scanned as one unit. -/
theorem scanString?_escape (units : List StringUnit) (c : Char) (rest : List Char) :
    scanString? units (escape c ++ rest) = scanString? (.scalar c :: units) rest := by
  unfold escape
  split
  case h_8 hquote hback _ _ _ _ _ =>
    split
    · rename_i hlt
      have hunit : ∀ n < 0x20, unitOfHex? '0' '0' (hexDigit (n / 16)) (hexDigit (n % 16)) =
          some (.scalar (Char.ofNat n)) := by decide
      simp only [List.cons_append, List.nil_append, scanString?, hunit _ hlt, Char.ofNat_toNat]
    · rename_i hcontrol
      exact scanString?_cons hquote hback hcontrol units rest
  all_goals simp [scanString?, simpleEscape?]

theorem scanString?_chars (units : List StringUnit) (cs rest : List Char) :
    scanString? units (cs.flatMap escape ++ '"' :: rest) =
      some ((cs.map StringUnit.scalar).reverse ++ units, rest) := by
  induction cs generalizing units with
  | nil => simp [scanString?]
  | cons c cs ih =>
      rw [List.flatMap_cons, List.append_assoc, scanString?_escape, ih]
      simp

theorem joinSurrogates?_scalar (cs : List Char) :
    joinSurrogates? (cs.map StringUnit.scalar) = some cs := by
  induction cs with
  | nil => rfl
  | cons c cs ih => rw [List.map_cons, joinSurrogates?, ih, Option.map_some]

/-- A written string is a token. -/
theorem token?_string (s : String) (rest : List Char) :
    token? '"' (s.toList.flatMap escape ++ '"' :: rest) = some (.string (some s), rest) := by
  simp [token?, scanString?_chars, joinSurrogates?_scalar]

end MethodContracts.Json
