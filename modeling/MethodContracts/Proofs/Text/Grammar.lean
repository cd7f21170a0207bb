import MethodContracts.Proofs.Text.Pieces
import MethodContracts.Text.Decimal

/-!
# What trimming, splitting and cutting give

The functions that take a text apart are described by relations between the text and its parts:
`Trimmed`, `Splits` and `FirstArrow`. Each relation says how the parts make up the text, and
determines them; so a reader built from these functions can be described by a grammar, without
going through its steps.

A list is read piece by piece, and the first piece that cannot be read decides
(`mapM_eq_error_iff`).
-/

namespace MethodContracts

namespace Text

variable {cs before after t : List Char} {c sep : Char} {ps : List (List Char)}

/-! ### Trimming -/

/-- Whether a text is another one without the white space at its ends. -/
def Trimmed (cs t : List Char) : Prop :=
  (t = [] ∨ Tight t) ∧
    ∃ before after, cs = before ++ t ++ after ∧ AllBlank before = true ∧ AllBlank after = true

theorem exists_trimStart (cs : List Char) :
    ∃ before, cs = before ++ trimStart cs ∧ AllBlank before = true :=
  ⟨cs.takeWhile isBlank, List.takeWhile_append_dropWhile.symm, List.all_takeWhile⟩

theorem exists_trimEnd (cs : List Char) :
    ∃ after, cs = trimEnd cs ++ after ∧ AllBlank after = true := by
  obtain ⟨before, hbefore, hblank⟩ := exists_trimStart cs.reverse
  refine ⟨before.reverse, ?_, ?_⟩
  · have hreverse := congrArg List.reverse hbefore
    rwa [List.reverse_reverse, List.reverse_append] at hreverse
  · unfold AllBlank at *
    rwa [List.all_reverse]

theorem isBlank_of_trimStart_eq_cons {rest : List Char} (h : trimStart cs = c :: rest) :
    isBlank c = false := by
  have hhead := List.head?_dropWhile_not isBlank cs
  rw [← trimStart, h] at hhead
  simpa using hhead

theorem tight_trim (h : trim cs ≠ []) : Tight (trim cs) where
  first := by
    obtain ⟨c, rest, hc⟩ := List.exists_cons_of_ne_nil h
    -- trimming the end keeps the first character that is not blank
    obtain ⟨after, hafter, -⟩ := exists_trimEnd (trimStart cs)
    rw [← trim, hc, List.cons_append] at hafter
    exact ⟨c, rest, hc, isBlank_of_trimStart_eq_cons hafter⟩
  last := by
    have hne : trimStart (trimStart cs).reverse ≠ [] := mt List.reverse_eq_nil_iff.2 h
    obtain ⟨c, rest, hc⟩ := List.exists_cons_of_ne_nil hne
    refine ⟨rest.reverse, c, ?_, isBlank_of_trimStart_eq_cons hc⟩
    show (trimStart (trimStart cs).reverse).reverse = _
    rw [hc, List.reverse_cons]

theorem trimmed_iff : Trimmed cs t ↔ trim cs = t := by
  constructor
  · intro h
    obtain ⟨ht, before, after, rfl, hbefore, hafter⟩ := h
    rw [trim_append_right hafter, trim_append_left hbefore]
    rcases ht with rfl | ht
    · rfl
    · exact ht.trim_eq
  · intro h
    obtain rfl := h
    obtain ⟨before, hbefore, hblank⟩ := exists_trimStart cs
    obtain ⟨after, hafter, hblank'⟩ := exists_trimEnd (trimStart cs)
    refine ⟨?_, before, after, ?_, hblank, hblank'⟩
    · by_cases h : trim cs = []
      · exact Or.inl h
      · exact Or.inr (tight_trim h)
    · unfold trim
      rw [List.append_assoc, ← hafter]
      exact hbefore

/-! ### Splitting -/

/-- Whether these are the pieces of a text between the occurrences of a separator. -/
def Splits (sep : Char) (cs : List Char) (ps : List (List Char)) : Prop :=
  ps ≠ [] ∧ (∀ p ∈ ps, sep ∉ p) ∧ cs = [sep].intercalate ps

theorem not_mem_of_mem_pieces {p : List Char} (h : p ∈ pieces sep cs) : sep ∉ p := by
  induction cs generalizing p with
  | nil =>
      obtain rfl := List.mem_singleton.1 h
      exact List.not_mem_nil
  | cons c cs ih =>
      rw [pieces] at h
      split at h
      · rcases List.mem_cons.1 h with rfl | h
        · exact List.not_mem_nil
        · exact ih h
      · rename_i hc
        cases hps : pieces sep cs with
        | nil => simp [hps] at h
        | cons q qs =>
            rw [hps] at ih h
            rcases List.mem_cons.1 h with rfl | h
            · exact List.not_mem_cons_of_ne_of_not_mem (Ne.symm hc) (ih List.mem_cons_self)
            · exact ih (List.mem_cons_of_mem _ h)

theorem pieces_ne_nil (sep : Char) (cs : List Char) : pieces sep cs ≠ [] := by
  refine List.ne_nil_of_length_pos ?_
  rw [length_pieces]
  exact Nat.succ_pos _

theorem pieces_intercalate (hne : ps ≠ []) (h : ∀ p ∈ ps, sep ∉ p) :
    pieces sep ([sep].intercalate ps) = ps := by
  induction ps with
  | nil => exact absurd rfl hne
  | cons p ps ih =>
      have hp := h p List.mem_cons_self
      cases ps with
      | nil => rw [List.intercalate_singleton, pieces_of_not_mem hp]
      | cons q qs =>
          have hrest := ih (List.cons_ne_nil q qs) fun t ht => h t (List.mem_cons_of_mem _ ht)
          rw [List.intercalate_cons_cons, List.append_assoc, List.singleton_append,
            pieces_append_cons hp, hrest]

theorem splits_iff : Splits sep cs ps ↔ pieces sep cs = ps := by
  constructor
  · intro h
    obtain ⟨hne, hps, rfl⟩ := h
    exact pieces_intercalate hne hps
  · intro h
    obtain rfl := h
    exact ⟨pieces_ne_nil sep cs, fun _ => not_mem_of_mem_pieces, (intercalate_pieces sep cs).symm⟩

/-! ### The first arrow -/

/-- Whether a text is cut at the first of its arrows. -/
def FirstArrow (cs before after : List Char) : Prop :=
  cs = before ++ '-' :: '>' :: after ∧ ¬['-', '>'] <:+: before

theorem cutAtArrow_cons (h : ¬['-', '>'] <+: c :: cs) :
    cutAtArrow (c :: cs) = (cutAtArrow cs).map fun (l, r) => (c :: l, r) := by
  rw [cutAtArrow]
  rintro cs' rfl rfl
  exact h ⟨cs', rfl⟩

theorem cutAtArrow_eq_none_iff : cutAtArrow cs = none ↔ ¬['-', '>'] <:+: cs := by
  induction cs with
  | nil => simp [cutAtArrow]
  | cons c cs ih =>
      rw [List.infix_cons_iff, not_or]
      by_cases h : ['-', '>'] <+: c :: cs
      · obtain ⟨rest, hrest⟩ := h
        rw [← hrest]
        simp [cutAtArrow]
      · rw [cutAtArrow_cons h, Option.map_eq_none_iff, ih]
        exact ⟨fun hcs => ⟨h, hcs⟩, fun hcs => hcs.2⟩

theorem firstArrow_of_cutAtArrow (h : cutAtArrow cs = some (before, after)) :
    FirstArrow cs before after := by
  induction cs generalizing before with
  | nil => simp [cutAtArrow] at h
  | cons c cs ih =>
      by_cases harrow : ['-', '>'] <+: c :: cs
      · obtain ⟨rest, hrest⟩ := harrow
        rw [← hrest] at h ⊢
        obtain ⟨rfl, rfl⟩ := Prod.mk.inj (Option.some.inj h)
        exact ⟨rfl, by simp⟩
      · rw [cutAtArrow_cons harrow] at h
        obtain ⟨⟨l, r⟩, hcut, heq⟩ := Option.map_eq_some_iff.1 h
        obtain ⟨rfl, rfl⟩ := Prod.mk.inj heq
        obtain ⟨rfl, hl⟩ := ih hcut
        refine ⟨rfl, ?_⟩
        rw [List.infix_cons_iff, not_or]
        refine ⟨fun hstart => harrow (hstart.trans ?_), hl⟩
        exact List.prefix_append (c :: l) _

theorem FirstArrow.cutAtArrow_eq (h : FirstArrow cs before after) :
    cutAtArrow cs = some (before, after) := by
  obtain ⟨rfl, h⟩ := h
  induction before with
  | nil => rfl
  | cons c before ih =>
      rw [List.infix_cons_iff, not_or] at h
      have hrest := ih h.2
      have harrow : ¬['-', '>'] <+: c :: (before ++ '-' :: '>' :: after) := by
        -- an arrow at `c` would end before the cut
        intro h
        obtain ⟨rest, hstart⟩ := h
        cases before with
        | nil => simp at hstart
        | cons d before =>
            obtain ⟨hc, hstart⟩ := List.cons.inj hstart
            obtain ⟨hd, -⟩ := List.cons.inj hstart
            exact h.1 ⟨before, by rw [hc, hd]; rfl⟩
      rw [List.cons_append, cutAtArrow_cons harrow, hrest]
      rfl

/-! ### Numbers -/

/-- Whether a text is a number in digits, perhaps after a plus sign. -/
def Numeral (cs : List Char) (n : Nat) : Prop :=
  ∃ sign digits, cs = sign ++ digits ∧ (sign = [] ∨ sign = ['+']) ∧ digits ≠ [] ∧
    (∀ c ∈ digits, c.isDigit = true) ∧ Nat.ofDigitChars 10 digits 0 = n

theorem readNat?_eq_some_iff {n : Nat} :
    readNat? cs = some n ↔
      cs ≠ [] ∧ (∀ c ∈ cs, c.isDigit = true) ∧ Nat.ofDigitChars 10 cs 0 = n := by
  unfold readNat?
  simp only [Option.ite_none_right_eq_some, Option.some.injEq, List.all_eq_true, and_assoc]

theorem readWord?_eq_some_iff {word : UInt64} :
    readWord? cs = some word ↔ Numeral cs word.toNat := by
  have hread : ∀ digits : List Char, ((readNat? digits).bind fun n =>
      if (UInt64.ofNat n).toNat = n then some (UInt64.ofNat n) else none) = some word ↔
      readNat? digits = some word.toNat := by
    intro digits
    rw [Option.bind_eq_some_iff]
    constructor
    · intro h
      obtain ⟨n, hn, hword⟩ := h
      split at hword
      · rename_i hfits
        obtain rfl := Option.some.inj hword
        rw [hn, hfits]
      · simp at hword
    · intro h
      exact ⟨word.toNat, h, by rw [UInt64.ofNat_toNat, if_pos rfl]⟩
  unfold readWord?
  split
  · rename_i digits
    rw [hread, readNat?_eq_some_iff]
    constructor
    · intro h
      exact ⟨['+'], digits, rfl, Or.inr rfl, h⟩
    · intro h
      obtain ⟨sign, digits', heq, rfl | rfl, h⟩ := h
      · -- a plus sign is not a digit
        rw [List.nil_append] at heq
        exact absurd (h.2.1 '+' (heq ▸ List.mem_cons_self)) (by decide)
      · obtain ⟨-, rfl⟩ := List.cons.inj heq
        exact h
  · rename_i hsign
    rw [hread, readNat?_eq_some_iff]
    constructor
    · intro h
      exact ⟨[], cs, rfl, Or.inl rfl, h⟩
    · intro h
      obtain ⟨sign, digits, rfl, rfl | rfl, h⟩ := h
      · exact h
      · exact absurd rfl (hsign digits)

end Text

/-! ### Reading step by step -/

section Except

variable {ε α β : Type} {f : α → Except ε β} {a : α} {as : List α} {b : β} {reason : ε}

theorem map_eq_ok_iff {g : α → β} {x : Except ε α} :
    g <$> x = .ok b ↔ ∃ a, x = .ok a ∧ g a = b := by
  cases x <;> simp [Functor.map, Except.map]

theorem map_eq_error_iff {g : α → β} {x : Except ε α} :
    g <$> x = .error reason ↔ x = .error reason := by
  cases x <;> simp [Functor.map, Except.map]

theorem bind_eq_ok_iff {x : Except ε α} : x >>= f = .ok b ↔ ∃ a, x = .ok a ∧ f a = .ok b := by
  cases x <;> simp [bind, Except.bind]

theorem bind_eq_error_iff {x : Except ε α} :
    x >>= f = .error reason ↔ x = .error reason ∨ ∃ a, x = .ok a ∧ f a = .error reason := by
  cases x <;> simp [bind, Except.bind]

theorem mapM_cons_of_error (h : f a = .error reason) : (a :: as).mapM f = .error reason := by
  rw [List.mapM_cons, h]
  rfl

theorem mapM_cons_eq_error_iff (h : f a = .ok b) :
    (a :: as).mapM f = .error reason ↔ as.mapM f = .error reason := by
  rw [List.mapM_cons, h]
  cases as.mapM f <;> simp [bind, Except.bind, pure, Except.pure]

/-- The first element that cannot be read decides. -/
theorem mapM_eq_error_iff : as.mapM f = .error reason ↔ ∃ before a after,
    as = before ++ a :: after ∧ (∀ x ∈ before, ∃ b, f x = .ok b) ∧ f a = .error reason := by
  constructor
  · intro h
    induction as with
    | nil => cases h
    | cons a as ih =>
        cases ha : f a with
        | error reason' =>
            rw [mapM_cons_of_error ha] at h
            obtain rfl := Except.error.inj h
            exact ⟨[], a, as, rfl, fun x hx => absurd hx List.not_mem_nil, ha⟩
        | ok b =>
            obtain ⟨before, x, after, rfl, hbefore, hx⟩ := ih ((mapM_cons_eq_error_iff ha).1 h)
            exact ⟨a :: before, x, after, rfl, List.forall_mem_cons.2 ⟨⟨b, ha⟩, hbefore⟩, hx⟩
  · intro h
    obtain ⟨before, a, after, rfl, hbefore, ha⟩ := h
    induction before with
    | nil => exact mapM_cons_of_error ha
    | cons x before ih =>
        obtain ⟨⟨b, hb⟩, hbefore⟩ := List.forall_mem_cons.1 hbefore
        exact (mapM_cons_eq_error_iff hb).2 (ih hbefore)

end Except

end MethodContracts
