import MethodContracts.Proofs.Clause.Grammar
import MethodContracts.Proofs.Clause.Text

/-!
# The grammar of lists of clauses

The clauses of a list stand between semicolons, and pieces of nothing but white space do not count
(`Clause.ListSplits`). Each clause has to fit the method that the list is written for: `WrittenFor`
says which clause a text writes for a method of `n` parameters, and `FlawedFor` what is wrong with a
text that writes none. A flaw in the text itself comes before a wrong number of constraints, and
that before a parameter that does not exist.

`ListWritten` and `ListFlawed` say the same of lists, where the first clause with a flaw decides.
Reading gives the clauses just when the list writes them (`Clause.listOfText_eq_ok_iff`), and an
error just when the list is flawed in this way (`Clause.listOfText_eq_error_iff`).
-/

namespace MethodContracts

open Text

/-- Every number that is written for a parameter fits into a word, so the last index has none. -/
theorem Outcome.Word.toNat_add_one_lt {word : List Char} {index : UInt64}
    (h : Word word (.parameter index)) : index.toNat + 1 < UInt64.size := by
  cases h with
  | parameter hnumber hpos hlt =>
      rename_i n
      rw [UInt64.toNat_ofNat', Nat.mod_eq_of_lt (Nat.lt_of_le_of_lt (Nat.sub_le n 1) hlt),
        Nat.sub_add_cancel hpos]
      exact hlt

namespace Clause

variable {n : Nat} {cs p : List Char} {ps : List (List Char)} {c : Clause} {clauses : List Clause}
  {reason : ClauseError}

/-! ### Clauses for a method -/

/-- Which clause a text writes for a method of `n` parameters. -/
def WrittenFor (n : Nat) (p : List Char) (c : Clause) : Prop :=
  Written p c ∧ c.arity = n ∧ ∀ index, c.outcome = .parameter index → index.toNat < n

/-- What is wrong with a text that writes no clause for a method of `n` parameters. -/
inductive FlawedFor (n : Nat) (p : List Char) : ClauseError → Prop where
  | flawed {reason : ClauseError} (h : Flawed p reason) : FlawedFor n p reason
  | arity {c : Clause} (hc : Written p c) (harity : c.arity ≠ n) :
      FlawedFor n p (.arityMismatch (String.ofList p) n c.arity)
  | parameter {c : Clause} {index : UInt64} (hc : Written p c) (harity : c.arity = n)
      (houtcome : c.outcome = .parameter index) (hindex : n ≤ index.toNat) :
      FlawedFor n p (.parameterOutOfRange (index.toNat + 1) n)

theorem checkFor_of_arity_ne (h : c.arity ≠ n) :
    checkFor n p c = .error (.arityMismatch (String.ofList p) n c.arity) := by
  rw [checkFor, if_pos h]

theorem checkFor_of_le {index : UInt64} (harity : c.arity = n)
    (houtcome : c.outcome = .parameter index) (hindex : n ≤ index.toNat) :
    checkFor n p c = .error (.parameterOutOfRange (index.toNat + 1) n) := by
  rw [checkFor, if_neg (not_not.2 harity), houtcome]
  exact if_pos hindex

/-- A clause has the wrong number of constraints, or refers to a parameter that does not exist, or
fits. -/
theorem fit_cases (n : Nat) (c : Clause) :
    c.arity ≠ n ∨ c.arity = n ∧ (∃ index, c.outcome = .parameter index ∧ n ≤ index.toNat) ∨
      c.arity = n ∧ ∀ index, c.outcome = .parameter index → index.toNat < n := by
  by_cases harity : c.arity = n
  · by_cases hindex : ∃ index, c.outcome = .parameter index ∧ n ≤ index.toNat
    · exact Or.inr (Or.inl ⟨harity, hindex⟩)
    · exact Or.inr (Or.inr ⟨harity, fun index h => Nat.lt_of_not_le fun hle =>
        hindex ⟨index, h, hle⟩⟩)
  · exact Or.inl harity

theorem readFor_eq_ok_iff : read p >>= checkFor n p = .ok c ↔ WrittenFor n p c := by
  rw [bind_eq_ok_iff]
  simp only [read_eq_ok_iff]
  constructor
  · rintro ⟨d, hd, hcheck⟩
    rcases fit_cases n d with harity | ⟨harity, index, houtcome, hindex⟩ | ⟨harity, houtcome⟩
    · rw [checkFor_of_arity_ne harity] at hcheck
      cases hcheck
    · rw [checkFor_of_le harity houtcome hindex] at hcheck
      cases hcheck
    · rw [checkFor_eq_ok harity houtcome] at hcheck
      obtain rfl := Except.ok.inj hcheck
      exact ⟨hd, harity, houtcome⟩
  · rintro ⟨hc, harity, houtcome⟩
    exact ⟨c, hc, checkFor_eq_ok harity houtcome p⟩

theorem readFor_eq_error_iff : read p >>= checkFor n p = .error reason ↔ FlawedFor n p reason := by
  rw [bind_eq_error_iff]
  simp only [read_eq_ok_iff, read_eq_error_iff]
  constructor
  · rintro (hflawed | ⟨d, hd, hcheck⟩)
    · exact .flawed hflawed
    · rcases fit_cases n d with harity | ⟨harity, index, houtcome, hindex⟩ | ⟨harity, houtcome⟩
      · rw [checkFor_of_arity_ne harity] at hcheck
        obtain rfl := Except.error.inj hcheck
        exact .arity hd harity
      · rw [checkFor_of_le harity houtcome hindex] at hcheck
        obtain rfl := Except.error.inj hcheck
        exact .parameter hd harity houtcome hindex
      · rw [checkFor_eq_ok harity houtcome] at hcheck
        cases hcheck
  · intro h
    cases h with
    | flawed hflawed => exact Or.inl hflawed
    | arity hc harity => exact Or.inr ⟨_, hc, checkFor_of_arity_ne harity⟩
    | parameter hc harity houtcome hindex =>
        exact Or.inr ⟨_, hc, checkFor_of_le harity houtcome hindex⟩

/-- The outcome of a written clause has a proper number, and it is that of one of the parameters. -/
theorem WrittenFor.refersWithin (h : WrittenFor n p c) : c.outcome.RefersWithin n := by
  obtain ⟨⟨_, _, _, _, _, _, hword⟩, -, houtcome⟩ := h
  intro index hindex
  have hlt : index.toNat < n := houtcome index hindex
  rw [hindex] at hword
  have hpos : 0 < (index + 1).toNat := Outcome.toNat_add_one_pos hword.toNat_add_one_lt
  rw [Outcome.toNat_add_one hpos]
  exact ⟨Nat.succ_pos _, hlt⟩

/-! ### Lists -/

/-- Whether these are the texts that stand between the semicolons of a text, without the white
space at their ends and without the blank ones. -/
def ListSplits (cs : List Char) (ps : List (List Char)) : Prop :=
  ∃ qs, Splits ';' cs qs ∧ List.Forall₂ Trimmed (qs.filter fun q => !AllBlank q) ps

/-- Which clauses a text writes for a method of `n` parameters. -/
def ListWritten (n : Nat) (cs : List Char) (clauses : List Clause) : Prop :=
  ∃ ps, ListSplits cs ps ∧ List.Forall₂ (WrittenFor n) ps clauses

/-- What is wrong with a text that writes no clauses for a method of `n` parameters: what is wrong
with the first text in it that writes none. -/
def ListFlawed (n : Nat) (cs : List Char) (reason : ClauseError) : Prop :=
  ∃ before p after, ListSplits cs (before ++ p :: after) ∧ (∀ q ∈ before, ∃ c, WrittenFor n q c) ∧
    FlawedFor n p reason

theorem listSplits_iff : ListSplits cs ps ↔ listPieces cs = ps := by
  have hblank : (fun q : List Char => !AllBlank q) = (fun t => !t.isEmpty) ∘ trim := by
    funext q
    rw [Function.comp_apply, Bool.eq_iff_iff]
    simp only [Bool.not_eq_true', Bool.eq_false_iff, ne_eq, List.isEmpty_iff, trim_eq_nil_iff]
  have htrimmed : ∀ qs, List.Forall₂ Trimmed qs ps ↔ qs.map trim = ps := by
    intro qs
    have heq : Trimmed = fun q t => trim q = t := by
      funext q t
      exact propext trimmed_iff
    have hmap : List.Forall₂ (· = ·) (qs.map trim) ps ↔ qs.map trim = ps := by
      rw [List.forall₂_eq_eq_eq]
    rw [heq, ← hmap, List.forall₂_map_left_iff]
  unfold ListSplits
  simp only [splits_iff, exists_eq_left', htrimmed]
  rw [listPieces, List.filter_map, ← hblank]

theorem readList_eq_ok_iff : readList n cs = .ok clauses ↔ ListWritten n cs clauses := by
  have hwritten : WrittenFor n = fun p c => read p >>= checkFor n p = .ok c := by
    funext p c
    exact propext readFor_eq_ok_iff.symm
  unfold ListWritten
  simp only [listSplits_iff, exists_eq_left', hwritten]
  exact mapM_eq_ok_iff

theorem readList_eq_error_iff : readList n cs = .error reason ↔ ListFlawed n cs reason := by
  unfold ListFlawed
  simp only [listSplits_iff, ← readFor_eq_ok_iff, ← readFor_eq_error_iff]
  exact mapM_eq_error_iff

/-- **Reading gives the clauses that a list writes.** -/
theorem listOfText_eq_ok_iff {s : String} :
    listOfText n s = .ok clauses ↔ ListWritten n s.toList clauses :=
  readList_eq_ok_iff

/-- **Reading fails with the first flaw of a list.** -/
theorem listOfText_eq_error_iff {s : String} :
    listOfText n s = .error reason ↔ ListFlawed n s.toList reason :=
  readList_eq_error_iff

theorem ListFlawed.not_exists_listOfText {s : String} (h : ListFlawed n s.toList reason) :
    ¬∃ clauses, listOfText n s = .ok clauses := by
  rintro ⟨clauses, hread⟩
  rw [listOfText_eq_error_iff.2 h] at hread
  cases hread

end Clause

end MethodContracts
