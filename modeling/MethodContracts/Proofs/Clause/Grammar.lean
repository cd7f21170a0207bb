import Mathlib.Data.Option.Basic
import MethodContracts.Clause.Text
import MethodContracts.Proofs.Text.Grammar

/-!
# The grammar of clause text

`Clause.Written` says which clause a text writes, and `Clause.Flawed` what is wrong with a text
that writes none. Neither mentions how texts are read; both are relations between the text, its
parts and the outcome. Reading gives a clause just when the text writes it, and an error just when
the text is flawed in this way (`Clause.ofText_grammar`).

A text can be flawed in several ways at once. The flaws exclude one another all the same: a flaw
in the outcome counts only if the domain is written properly, and a flaw in the domain only if
there is something after the arrow.
-/

namespace MethodContracts

open Text

/-! ### Outcomes -/

namespace Outcome

/-- The words for outcomes. Parameters are counted from one. -/
inductive Word : List Char → Outcome → Prop where
  | fail : Word "fail".toList fail
  | nonNull : Word "!null".toList nonNull
  | null : Word "null".toList null
  | receiver : Word "this".toList receiver
  | isTrue : Word "true".toList (bool true)
  | isFalse : Word "false".toList (bool false)
  | parameter {number : List Char} {n : Nat} (hnumber : Numeral number n) (hpos : 1 ≤ n)
      (hlt : n < UInt64.size) : Word ("param".toList ++ number) (parameter (UInt64.ofNat (n - 1)))

theorem Word.ne_nil {word : List Char} {o : Outcome} (h : Word word o) : word ≠ [] := by
  cases h <;> simp

theorem ofNumber?_eq_some_iff {number : UInt64} {o : Outcome} :
    ofNumber? number = some o ↔
      1 ≤ number.toNat ∧ o = parameter (UInt64.ofNat (number.toNat - 1)) := by
  unfold ofNumber?
  by_cases hzero : number = 0
  · rw [if_pos hzero, hzero]
    simp
  · have hne : number.toNat ≠ 0 := fun h => hzero (UInt64.toNat_inj.1 h)
    have hpos : 1 ≤ number.toNat := Nat.one_le_iff_ne_zero.2 hne
    have hpred : number - 1 = UInt64.ofNat (number.toNat - 1) := by
      rw [UInt64.ofNat_sub hpos, UInt64.ofNat_toNat]
      rfl
    rw [if_neg hzero, hpred]
    simp [hpos, eq_comm]

theorem ofWord?_of_parameter {number : List Char} {n : Nat} (hnumber : Numeral number n)
    (hpos : 1 ≤ n) (hlt : n < UInt64.size) :
    ofWord? ("param".toList ++ number) = some (parameter (UInt64.ofNat (n - 1))) := by
  have hnamed : named.find? (fun o => o.text.toList = "param".toList ++ number) = none := by
    rw [List.find?_eq_none]
    simp [named, text]
  have hvalue : (UInt64.ofNat n).toNat = n := by
    rw [UInt64.toNat_ofNat', Nat.mod_eq_of_lt hlt]
  have hword : readWord? number = some (UInt64.ofNat n) := by
    rw [readWord?_eq_some_iff, hvalue]
    exact hnumber
  unfold ofWord?
  rw [hnamed]
  show (readWord? number).bind ofNumber? = _
  rw [hword, Option.bind_some, ofNumber?_eq_some_iff, hvalue]
  exact ⟨hpos, rfl⟩

theorem ofWord?_eq_some_iff {word : List Char} {o : Outcome} :
    ofWord? word = some o ↔ Word word o := by
  constructor
  · intro h
    unfold ofWord? at h
    rcases (Option.orElse_eq_some _ _ _).1 h with h | ⟨-, h⟩
    · have hword := List.find?_some h
      obtain rfl := of_decide_eq_true hword
      have hmem := List.mem_of_find?_eq_some h
      simp only [named, List.mem_cons, List.not_mem_nil, or_false] at hmem
      rcases hmem with rfl | rfl | rfl | rfl | rfl | rfl
      · exact .fail
      · exact .nonNull
      · exact .null
      · exact .receiver
      · exact .isTrue
      · exact .isFalse
    · split at h
      · obtain ⟨number, hnumber, ho⟩ := Option.bind_eq_some_iff.1 h
        obtain ⟨hpos, rfl⟩ := ofNumber?_eq_some_iff.1 ho
        exact .parameter (readWord?_eq_some_iff.1 hnumber) hpos number.toNat_lt
      · simp at h
  · intro h
    cases h with
    | parameter hnumber hpos hlt => exact ofWord?_of_parameter hnumber hpos hlt
    | _ => decide

theorem read_eq_ok_iff {cs : List Char} {o : Outcome} :
    read cs = .ok o ↔ ∃ word, Trimmed cs word ∧ Word word o := by
  unfold read
  simp only [trimmed_iff, exists_eq_left', ← ofWord?_eq_some_iff]
  cases ofWord? (trim cs) <;> simp

theorem read_eq_error_iff {cs : List Char} {reason : ClauseError} :
    read cs = .error reason ↔ ∃ word, Trimmed cs word ∧ (∀ o, ¬Word word o) ∧
      reason = .unknownOutcome (String.ofList word) := by
  unfold read
  simp only [trimmed_iff, exists_eq_left', ← ofWord?_eq_some_iff]
  cases ofWord? (trim cs) <;> simp [eq_comm]

end Outcome

/-! ### Domains -/

namespace Constraint

theorem read_eq_ok_iff {cs : List Char} {c : Constraint} :
    read cs = .ok c ↔ Trimmed cs c.text.toList := by
  unfold read
  rw [trimmed_iff, ← ofWord?_eq_some_iff]
  cases ofWord? (trim cs) <;> simp

theorem read_eq_error_iff {cs : List Char} {reason : ClauseError} :
    read cs = .error reason ↔ ∃ word, Trimmed cs word ∧
      (∀ c : Constraint, word ≠ c.text.toList) ∧
      reason = .unknownConstraint (String.ofList word) := by
  unfold read
  simp only [trimmed_iff, exists_eq_left', ne_eq, ← ofWord?_eq_some_iff]
  cases ofWord? (trim cs) <;> simp [eq_comm]

end Constraint

namespace Domain

/-- Which domain a text writes: a blank text the one without slots, any other text one slot for
each piece between its commas. -/
inductive Written (cs : List Char) : Domain → Prop where
  | blank (hblank : AllBlank cs = true) : Written cs ⟨[]⟩
  | pieces {ps : List (List Char)} {slots : List Constraint} (hblank : AllBlank cs = false)
      (hps : Splits ',' cs ps)
      (hslots : List.Forall₂ (fun p c => Trimmed p (Constraint.text c).toList) ps slots) :
      Written cs ⟨slots⟩

/-- What is wrong with a text that writes no domain: the first piece that is not a constraint. -/
inductive Flawed (cs : List Char) : ClauseError → Prop where
  | unknownConstraint {before after : List (List Char)} {p word : List Char}
      (hblank : AllBlank cs = false) (hps : Splits ',' cs (before ++ p :: after))
      (hbefore : ∀ q ∈ before, ∃ c : Constraint, Trimmed q c.text.toList)
      (hword : Trimmed p word) (hunknown : ∀ c : Constraint, word ≠ c.text.toList) :
      Flawed cs (.unknownConstraint (String.ofList word))

variable {cs : List Char} {d : Domain} {reason : ClauseError}

theorem map_mk_eq_ok_iff {x : Except ClauseError (List Constraint)} :
    Domain.mk <$> x = .ok d ↔ x = .ok d.slots := by
  obtain ⟨slots⟩ := d
  simp [map_eq_ok_iff]

theorem read_eq_ok_iff : read cs = .ok d ↔ Written cs d := by
  unfold read
  by_cases hblank : AllBlank cs = true
  · rw [if_pos hblank]
    constructor
    · intro h
      obtain rfl := Except.ok.inj h
      exact .blank hblank
    · intro h
      cases h with
      | blank => rfl
      | pieces hnot => exact absurd hblank (Bool.eq_false_iff.1 hnot)
  · rw [if_neg hblank, map_mk_eq_ok_iff, mapM_eq_ok_iff]
    simp only [Constraint.read_eq_ok_iff]
    constructor
    · intro h
      exact .pieces (Bool.eq_false_iff.2 hblank) (splits_iff.2 rfl) h
    · intro h
      cases h with
      | blank h => exact absurd h hblank
      | pieces _ hps hslots => rwa [splits_iff.1 hps]

theorem read_eq_error_iff : read cs = .error reason ↔ Flawed cs reason := by
  unfold read
  by_cases hblank : AllBlank cs = true
  · rw [if_pos hblank]
    constructor
    · intro h
      cases h
    · intro h
      cases h with
      | unknownConstraint hnot => exact absurd hblank (Bool.eq_false_iff.1 hnot)
  · rw [if_neg hblank, map_eq_error_iff, mapM_eq_error_iff]
    simp only [Constraint.read_eq_ok_iff, Constraint.read_eq_error_iff]
    constructor
    · intro h
      obtain ⟨before, p, after, hps, hbefore, word, hword, hunknown, rfl⟩ := h
      have hnot := Bool.eq_false_iff.2 hblank
      exact .unknownConstraint hnot (splits_iff.2 hps) hbefore hword hunknown
    · intro h
      cases h with
      | unknownConstraint _ hps hbefore hword hunknown =>
          exact ⟨_, _, _, splits_iff.1 hps, hbefore, _, hword, hunknown, rfl⟩

end Domain

/-! ### Clauses -/

namespace Clause

/-- Which clause a text writes: its domain before the first arrow, its outcome after it. -/
def Written (cs : List Char) (c : Clause) : Prop :=
  ∃ lhs rhs word, FirstArrow cs lhs rhs ∧ Domain.Written lhs c.domain ∧
    Trimmed rhs word ∧ Outcome.Word word c.outcome

/-- What is wrong with a text that writes no clause. -/
inductive Flawed (cs : List Char) : ClauseError → Prop where
  | missingArrow {t : List Char} (harrow : ¬['-', '>'] <:+: cs) (ht : Trimmed cs t) :
      Flawed cs (.missingArrow (String.ofList t))
  | missingOutcome {lhs rhs t : List Char} (harrow : FirstArrow cs lhs rhs)
      (hblank : AllBlank rhs = true) (ht : Trimmed cs t) :
      Flawed cs (.missingOutcome (String.ofList t))
  | domain {lhs rhs : List Char} {reason : ClauseError} (harrow : FirstArrow cs lhs rhs)
      (hblank : AllBlank rhs = false) (hdomain : Domain.Flawed lhs reason) : Flawed cs reason
  | outcome {lhs rhs word : List Char} {d : Domain} (harrow : FirstArrow cs lhs rhs)
      (hblank : AllBlank rhs = false) (hdomain : Domain.Written lhs d) (hword : Trimmed rhs word)
      (hunknown : ∀ o, ¬Outcome.Word word o) :
      Flawed cs (.unknownOutcome (String.ofList word))

variable {cs lhs rhs : List Char} {c : Clause} {reason : ClauseError}

theorem read_of_not_arrow (h : ¬['-', '>'] <:+: cs) :
    read cs = .error (.missingArrow (String.ofList (trim cs))) := by
  unfold read
  rw [cutAtArrow_eq_none_iff.2 h]

theorem read_of_blank (harrow : FirstArrow cs lhs rhs) (hblank : AllBlank rhs = true) :
    read cs = .error (.missingOutcome (String.ofList (trim cs))) := by
  unfold read
  rw [harrow.cutAtArrow_eq]
  exact if_pos hblank

/-- With something after the arrow, the domain is read first, and the outcome after it. -/
theorem read_of_arrow (harrow : FirstArrow cs lhs rhs) (hblank : AllBlank rhs = false) :
    read cs = (do return ⟨← Domain.read lhs, ← Outcome.read rhs⟩) := by
  unfold read
  rw [harrow.cutAtArrow_eq]
  exact if_neg (Bool.eq_false_iff.1 hblank)

/-- Every text has no arrow, nothing after its first arrow, or something after it. -/
theorem arrow_cases (cs : List Char) :
    ¬['-', '>'] <:+: cs ∨ ∃ lhs rhs, FirstArrow cs lhs rhs ∧
      (AllBlank rhs = true ∨ AllBlank rhs = false) := by
  cases hcut : cutAtArrow cs with
  | none => exact Or.inl (cutAtArrow_eq_none_iff.1 hcut)
  | some parts =>
      refine Or.inr ⟨parts.1, parts.2, firstArrow_of_cutAtArrow hcut, ?_⟩
      cases AllBlank parts.2 with
      | true => exact Or.inl rfl
      | false => exact Or.inr rfl

theorem read_eq_ok_iff : read cs = .ok c ↔ Written cs c := by
  constructor
  · intro h
    obtain hnone | ⟨lhs, rhs, harrow, hblank | hblank⟩ := arrow_cases cs
    · rw [read_of_not_arrow hnone] at h
      cases h
    · rw [read_of_blank harrow hblank] at h
      cases h
    · rw [read_of_arrow harrow hblank] at h
      obtain ⟨d, hd, h⟩ := bind_eq_ok_iff.1 h
      obtain ⟨o, ho, h⟩ := bind_eq_ok_iff.1 h
      obtain rfl := Except.ok.inj h
      obtain ⟨word, hword, ho⟩ := Outcome.read_eq_ok_iff.1 ho
      exact ⟨lhs, rhs, word, harrow, Domain.read_eq_ok_iff.1 hd, hword, ho⟩
  · intro h
    obtain ⟨lhs, rhs, word, harrow, hd, hword, ho⟩ := h
    have hblank : AllBlank rhs = false := by
      rw [Bool.eq_false_iff, ne_eq, ← trim_eq_nil_iff, trimmed_iff.1 hword]
      exact ho.ne_nil
    rw [read_of_arrow harrow hblank, Domain.read_eq_ok_iff.2 hd,
      Outcome.read_eq_ok_iff.2 ⟨word, hword, ho⟩]
    rfl

theorem flawed_of_read (h : read cs = .error reason) : Flawed cs reason := by
  obtain hnone | ⟨lhs, rhs, harrow, hblank | hblank⟩ := arrow_cases cs
  · rw [read_of_not_arrow hnone] at h
    obtain rfl := Except.error.inj h
    exact .missingArrow hnone (trimmed_iff.2 rfl)
  · rw [read_of_blank harrow hblank] at h
    obtain rfl := Except.error.inj h
    exact .missingOutcome harrow hblank (trimmed_iff.2 rfl)
  · rw [read_of_arrow harrow hblank] at h
    obtain hdomain | ⟨d, hd, h⟩ := bind_eq_error_iff.1 h
    · exact .domain harrow hblank (Domain.read_eq_error_iff.1 hdomain)
    · obtain houtcome | ⟨o, -, h⟩ := bind_eq_error_iff.1 h
      · obtain ⟨word, hword, hunknown, rfl⟩ := Outcome.read_eq_error_iff.1 houtcome
        exact .outcome harrow hblank (Domain.read_eq_ok_iff.1 hd) hword hunknown
      · cases h

theorem Flawed.read_eq (h : Flawed cs reason) : read cs = .error reason := by
  cases h with
  | missingArrow hnone ht => rw [read_of_not_arrow hnone, trimmed_iff.1 ht]
  | missingOutcome harrow hblank ht => rw [read_of_blank harrow hblank, trimmed_iff.1 ht]
  | domain harrow hblank hdomain =>
      rw [read_of_arrow harrow hblank, Domain.read_eq_error_iff.2 hdomain]
      rfl
  | outcome harrow hblank hdomain hword hunknown =>
      rw [read_of_arrow harrow hblank, Domain.read_eq_ok_iff.2 hdomain,
        Outcome.read_eq_error_iff.2 ⟨_, hword, hunknown, rfl⟩]
      rfl

theorem read_eq_error_iff : read cs = .error reason ↔ Flawed cs reason :=
  ⟨flawed_of_read, Flawed.read_eq⟩

/-- **A text is read by its grammar**: as the clause that it writes, or else with the flaw that
it has. -/
theorem ofText_grammar (s : String) :
    (∀ c, ofText s = .ok c ↔ Written s.toList c) ∧
      ∀ reason, ofText s = .error reason ↔ Flawed s.toList reason :=
  ⟨fun _ => read_eq_ok_iff, fun _ => read_eq_error_iff⟩

/-- A second arrow belongs to the outcome, but the constraint before the first is checked first. -/
example : ofText "null, nil -> fail -> fail" = .error (.unknownConstraint "nil") := by
  decide +kernel

end Clause

end MethodContracts
