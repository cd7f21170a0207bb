import MethodContracts.Clause.Text
import MethodContracts.Proofs.Text.Pieces

/-!
# Written clauses can be read

Writing and reading use separators at three levels: commas between constraints, the arrow before
the outcome, and semicolons between clauses. None of them occurs in a word, whether for a constraint
or for an outcome, nor does white space; so each level comes apart where it was joined, and reading
takes back what was written (`Clause.read_text`, `Clause.listOfText_listText`).

Numbers of parameters start at one, so the parameter with the greatest index has no number of its
own: it is written as `param0`, which is no outcome. With this exception, everything that can be
written can be read (`Clause.written_text_decodes`).
-/

namespace MethodContracts

namespace Text

/-- Whether a character may stand in a word: it is neither white space nor part of a separator. -/
def isPlain (c : Char) : Bool := !isBlank c && !(c = ',' || c = ';' || c = '-')

/-- Whether a text is a word. -/
def IsWord (cs : List Char) : Prop := cs ≠ [] ∧ cs.all isPlain = true

instance (cs : List Char) : Decidable (IsWord cs) :=
  inferInstanceAs (Decidable (cs ≠ [] ∧ cs.all isPlain = true))

theorem IsWord.tight {cs : List Char} (h : IsWord cs) : Tight cs := by
  refine tight_of_forall h.1 fun c hc => ?_
  have hplain := List.all_eq_true.1 h.2 c hc
  unfold isPlain at hplain
  simp only [Bool.and_eq_true, Bool.not_eq_true'] at hplain
  exact hplain.1

theorem IsWord.not_mem {cs : List Char} {sep : Char} (h : IsWord cs)
    (hsep : isPlain sep = false) : sep ∉ cs := by
  intro hmem
  rw [List.all_eq_true.1 h.2 sep hmem] at hsep
  exact Bool.noConfusion hsep

theorem isPlain_of_isDigit {c : Char} (h : c.isDigit = true) : isPlain c = true := by
  have hrange : 48 ≤ c.toNat ∧ c.toNat ≤ 57 := by
    simpa [Char.isDigit, UInt32.le_iff_toNat_le] using h
  have hblank : isBlank c = false := by
    simp only [isBlank, blankRanges, List.any_cons, List.any_nil, Bool.or_false,
      Bool.or_eq_false_iff, Bool.and_eq_false_iff, decide_eq_false_iff_not]
    omega
  have hne : ∀ sep : Char, sep.isDigit = false → c ≠ sep := by
    rintro sep hsep rfl
    rw [h] at hsep
    exact Bool.noConfusion hsep
  simp [isPlain, hblank, hne ',' rfl, hne ';' rfl, hne '-' rfl]

theorem readWord?_natDigits {n : Nat} (h : n < UInt64.size) :
    readWord? (natDigits n) = some (UInt64.ofNat n) := by
  have hsign : ∀ ds, natDigits n ≠ '+' :: ds := by
    intro ds hds
    have hmem : '+' ∈ Nat.toDigits 10 n := by
      show '+' ∈ natDigits n
      rw [hds]
      exact List.mem_cons_self
    have hdigit := Nat.isDigit_of_mem_toDigits (by decide) (by decide) hmem
    exact absurd hdigit (by decide)
  have hword : (UInt64.ofNat n).toNat = n := by
    rw [UInt64.toNat_ofNat']
    exact Nat.mod_eq_of_lt h
  unfold readWord?
  split
  · rename_i ds hds
    exact absurd hds (hsign ds)
  · show (readNat? (natDigits n)).bind _ = _
    rw [readNat?_natDigits, Option.bind_some, if_pos hword]

end Text

open Text

/-! ### Words -/

theorem Constraint.isWord_text (c : Constraint) : IsWord c.text.toList := by
  rcases c with _ | _ | _ | (_ | _) <;> decide

theorem Constraint.read_eq_ok {c : Constraint} {cs : List Char}
    (h : trim cs = c.text.toList) : read cs = .ok c := by
  unfold read
  rw [ofWord?_eq_some_iff.2 h]

namespace Outcome

/-- Whether the number that an outcome is written with, if any, is that of one of `n` parameters. -/
def RefersWithin (n : Nat) (o : Outcome) : Prop :=
  ∀ index, o = parameter index → 0 < (index + 1).toNat ∧ (index + 1).toNat ≤ n

theorem toNat_add_one {index : UInt64} (h : 0 < (index + 1).toNat) :
    (index + 1).toNat = index.toNat + 1 := by
  have hlt := index.toNat_lt
  have hadd : (index + 1).toNat = (index.toNat + 1) % 18446744073709551616 :=
    UInt64.toNat_add index 1
  rw [hadd] at h ⊢
  omega

/-- Every parameter but the last that an index can name is written with a proper number. -/
theorem toNat_add_one_pos {index : UInt64} (h : index.toNat + 1 < UInt64.size) :
    0 < (index + 1).toNat := by
  have hadd : (index + 1).toNat = (index.toNat + 1) % UInt64.size := UInt64.toNat_add index 1
  rw [hadd, Nat.mod_eq_of_lt h]
  exact Nat.succ_pos _

/-- The parameter counted from zero is below `n`. -/
theorem RefersWithin.toNat_lt {n : Nat} {o : Outcome} (h : o.RefersWithin n) (index : UInt64)
    (ho : o = parameter index) : index.toNat < n := by
  obtain ⟨hpos, hle⟩ := h index ho
  rwa [toNat_add_one hpos] at hle

/-- If numbers up to `n` fit into a word, that is all there is to it. -/
theorem refersWithin_iff {n : Nat} (hn : n < UInt64.size) {o : Outcome} :
    o.RefersWithin n ↔ ∀ index, o = parameter index → index.toNat < n := by
  constructor
  · exact RefersWithin.toNat_lt
  · intro h index ho
    have hlt := h index ho
    have hpos : 0 < (index + 1).toNat := toNat_add_one_pos (by omega)
    rw [toNat_add_one hpos]
    exact ⟨Nat.succ_pos _, hlt⟩

theorem toList_text_parameter (index : UInt64) :
    (parameter index).text.toList =
      'p' :: 'a' :: 'r' :: 'a' :: 'm' :: natDigits (index + 1).toNat := by
  show ("param" ++ toString (index + 1).toNat).toList = _
  rw [String.toList_append]
  show _ ++ (Nat.repr _).toList = _
  rw [Nat.toList_repr]
  rfl

theorem isWord_text (o : Outcome) : IsWord o.text.toList := by
  rcases o with _ | _ | _ | _ | index | (_ | _)
  case parameter =>
    rw [toList_text_parameter]
    have hname : ['p', 'a', 'r', 'a', 'm'].all isPlain = true := by decide
    have hdigits : (natDigits (index + 1).toNat).all isPlain = true :=
      List.all_eq_true.2 fun c hc =>
        isPlain_of_isDigit (Nat.isDigit_of_mem_toDigits (by decide) (by decide) hc)
    refine ⟨List.cons_ne_nil _ _, ?_⟩
    show (['p', 'a', 'r', 'a', 'm'] ++ natDigits _).all isPlain = true
    rw [List.all_append, hname, hdigits, Bool.and_self]
  all_goals decide

theorem ofWord?_text {o : Outcome}
    (h : ∀ index, o = parameter index → 0 < (index + 1).toNat) :
    ofWord? o.text.toList = some o := by
  rcases o with _ | _ | _ | _ | index | (_ | _)
  case parameter =>
    have hpos := h index rfl
    have hnamed : named.find? (fun o => o.text.toList = (parameter index).text.toList) = none := by
      rw [List.find?_eq_none, toList_text_parameter]
      simp [named, text]
    have hnumber : ofNumber? (UInt64.ofNat (index + 1).toNat) = some (parameter index) := by
      rw [UInt64.ofNat_toNat]
      unfold ofNumber?
      rw [if_neg, UInt64.add_sub_cancel]
      intro hzero
      rw [hzero] at hpos
      exact absurd hpos (by decide)
    unfold ofWord?
    rw [hnamed, toList_text_parameter]
    show (readWord? (natDigits _)).bind ofNumber? = _
    rw [readWord?_natDigits (UInt64.toNat_lt _), Option.bind_some, hnumber]
  all_goals decide

theorem read_eq_ok {o : Outcome} (h : ∀ index, o = parameter index → 0 < (index + 1).toNat)
    {cs : List Char} (hcs : trim cs = o.text.toList) : read cs = .ok o := by
  unfold read
  rw [hcs, ofWord?_text h]

end Outcome

/-! ### Clauses -/

namespace Domain

theorem toList_text (d : Domain) :
    d.text.toList = [',', ' '].intercalate (d.slots.map fun c => c.text.toList) := by
  unfold text
  rw [String.toList_intercalate, List.map_map]
  rfl

variable {d : Domain}

theorem tight_of_mem_words {t : List Char} (ht : t ∈ d.slots.map fun c => c.text.toList) :
    Tight t := by
  obtain ⟨c, -, rfl⟩ := List.mem_map.1 ht
  exact c.isWord_text.tight

theorem tight_text (h : d.slots ≠ []) : Tight d.text.toList := by
  rw [toList_text]
  exact tight_intercalate (mt List.map_eq_nil_iff.1 h) fun _ ht => tight_of_mem_words ht

theorem not_mem_text {sep : Char} (hsep : isPlain sep = false) (hne : sep ∉ [',', ' ']) :
    sep ∉ d.text.toList := by
  rw [toList_text]
  refine not_mem_intercalate hne fun t ht => ?_
  obtain ⟨c, -, rfl⟩ := List.mem_map.1 ht
  exact c.isWord_text.not_mem hsep

/-- A written domain can be read, also with white space after it. -/
theorem read_text (h : d.slots ≠ []) {after : List Char} (hafter : AllBlank after = true) :
    read (d.text.toList ++ after) = .ok d := by
  have hpieces : (pieces ',' (d.text.toList ++ after)).map trim =
      d.slots.map fun c => c.text.toList := by
    rw [toList_text]
    refine map_trim_pieces_intercalate rfl hafter (mt List.map_eq_nil_iff.1 h)
      (fun t ht => tight_of_mem_words ht) fun t ht => ?_
    obtain ⟨c, -, rfl⟩ := List.mem_map.1 ht
    exact c.isWord_text.not_mem rfl
  have hslots : (pieces ',' (d.text.toList ++ after)).mapM Constraint.read = .ok d.slots := by
    rw [← List.forall₂_eq_eq_eq, List.forall₂_map_left_iff, List.forall₂_map_right_iff] at hpieces
    exact mapM_eq_ok_iff.2 (hpieces.imp fun _ _ hp => Constraint.read_eq_ok hp)
  have hblank : AllBlank (d.text.toList ++ after) = false :=
    (tight_text h).not_allBlank (List.subset_append_left _ after)
  unfold read
  rw [hblank, if_neg Bool.false_ne_true, hslots]
  rfl

end Domain

namespace Clause

variable {c : Clause} {cs : List Clause} {n : Nat}

/-- What stands before the arrow of a written clause is a text of its domain. -/
theorem toList_text (c : Clause) : ∃ lhs,
    c.text.toList = lhs ++ '-' :: '>' :: ' ' :: c.outcome.text.toList ∧
      '-' ∉ lhs ∧ ';' ∉ lhs ∧ Domain.read lhs = .ok c.domain := by
  obtain ⟨⟨slots⟩, outcome⟩ := c
  cases slots with
  | nil => exact ⟨[], String.toList_append, List.not_mem_nil, List.not_mem_nil, rfl⟩
  | cons slot slots =>
      have hne : (Domain.mk (slot :: slots)).slots ≠ [] := List.cons_ne_nil slot slots
      have hsep : ∀ sep : Char, isPlain sep = false → sep ∉ [',', ' '] →
          sep ∉ (Domain.mk (slot :: slots)).text.toList ++ [' '] := by
        intro sep hplain hsep
        simp only [List.mem_append, not_or]
        exact ⟨Domain.not_mem_text hplain hsep, fun h => hsep (List.mem_cons_of_mem _ h)⟩
      refine ⟨(Domain.mk (slot :: slots)).text.toList ++ [' '], ?_, hsep '-' rfl (by decide),
        hsep ';' rfl (by decide), Domain.read_text hne rfl⟩
      show (Domain.text _ ++ " -> " ++ outcome.text).toList = _
      rw [String.toList_append, String.toList_append, List.append_assoc, List.append_assoc]
      rfl

theorem tight_text (c : Clause) : Tight c.text.toList := by
  have houtcome := c.outcome.isWord_text.tight
  unfold text
  split
  · have harrow : Tight ['-', '>'] := ⟨⟨'-', ['>'], rfl, rfl⟩, ⟨['-'], '>', rfl, rfl⟩⟩
    rw [String.toList_append]
    exact harrow.append houtcome [' ']
  · rename_i hslots
    have hdomain := Domain.tight_text (mt List.isEmpty_iff.2 hslots)
    rw [String.toList_append, String.toList_append]
    exact hdomain.append houtcome _

theorem not_mem_text (c : Clause) : ';' ∉ c.text.toList := by
  obtain ⟨lhs, htext, -, hlhs, -⟩ := c.toList_text
  rw [htext]
  simp only [List.mem_append, List.mem_cons, not_or]
  exact ⟨hlhs, by decide, by decide, by decide, c.outcome.isWord_text.not_mem rfl⟩

/-- **A written clause can be read**, if its outcome is written with a proper number. -/
theorem read_text (h : ∀ index, c.outcome = .parameter index → 0 < (index + 1).toNat) :
    read c.text.toList = .ok c := by
  obtain ⟨lhs, htext, hlhs, -, hdomain⟩ := c.toList_text
  have hword := c.outcome.isWord_text.tight
  have houtcome : Outcome.read (' ' :: c.outcome.text.toList) = .ok c.outcome := by
    refine Outcome.read_eq_ok h ?_
    show trim ([' '] ++ c.outcome.text.toList) = _
    rw [trim_append_left rfl, hword.trim_eq]
  have hblank : AllBlank (' ' :: c.outcome.text.toList) = false :=
    hword.not_allBlank (List.subset_cons_self ' ' _)
  unfold read
  rw [htext, cutAtArrow_append hlhs]
  show (if AllBlank (' ' :: c.outcome.text.toList) = true then _ else _) = _
  rw [hblank, if_neg Bool.false_ne_true, hdomain, houtcome]
  rfl

theorem checkFor_eq_ok (harity : c.arity = n)
    (houtcome : ∀ index, c.outcome = .parameter index → index.toNat < n) (written : List Char) :
    checkFor n written c = .ok c := by
  unfold checkFor
  rw [if_neg (not_not.2 harity)]
  split
  · rename_i index hindex
    rw [if_neg (Nat.not_le.2 (houtcome index hindex))]
  · rfl

/-- The texts of the clauses come apart at the semicolons; of no clauses, nothing is left. -/
theorem listPieces_listText (cs : List Clause) :
    listPieces (listText cs).toList = cs.map fun c => c.text.toList := by
  have htext : (listText cs).toList = [';', ' '].intercalate (cs.map fun c => c.text.toList) := by
    unfold listText
    rw [String.toList_intercalate, List.map_map]
    rfl
  by_cases hcs : cs = []
  · rw [hcs]
    rfl
  · have htight : ∀ t ∈ cs.map fun c => c.text.toList, Tight t := by
      intro t ht
      obtain ⟨c, -, rfl⟩ := List.mem_map.1 ht
      exact c.tight_text
    have hpieces : (pieces ';' ((listText cs).toList ++ [])).map trim =
        cs.map fun c => c.text.toList := by
      rw [htext]
      refine map_trim_pieces_intercalate rfl rfl (mt List.map_eq_nil_iff.1 hcs) htight
        fun t ht => ?_
      obtain ⟨c, -, rfl⟩ := List.mem_map.1 ht
      exact c.not_mem_text
    rw [List.append_nil] at hpieces
    unfold listPieces
    rw [hpieces, List.filter_eq_self]
    intro t ht
    simpa using (htight t ht).ne_nil

/-- **A written list of clauses can be read** for a method that all of them fit. -/
theorem listOfText_listText (h : ∀ c ∈ cs, c.arity = n ∧ c.outcome.RefersWithin n) :
    listOfText n (listText cs) = .ok cs := by
  unfold listOfText readList
  rw [listPieces_listText, mapM_eq_ok_iff, List.forall₂_map_left_iff, List.forall₂_same]
  intro c hc
  obtain ⟨harity, houtcome⟩ := h c hc
  rw [read_text fun index hindex => (houtcome index hindex).1]
  exact checkFor_eq_ok harity houtcome.toNat_lt _

/-- **What is written can be read.** A list of clauses with `n` slots each that refer to one of `n`
parameters comes back from its text, and so does a single clause unless it refers to the greatest
index that there is. -/
theorem written_text_decodes :
    (∀ (n : Nat) (cs : List Clause), n < UInt64.size →
      (∀ c ∈ cs, c.arity = n ∧ ∀ index, c.outcome = .parameter index → index.toNat < n) →
      listOfText n (listText cs) = .ok cs) ∧
    ∀ c : Clause, (∀ index, c.outcome = .parameter index → index.toNat + 1 < UInt64.size) →
      ofText c.text = .ok c := by
  constructor
  · intro n cs hn hcs
    refine listOfText_listText fun c hc => ?_
    obtain ⟨harity, houtcome⟩ := hcs c hc
    exact ⟨harity, (Outcome.refersWithin_iff hn).2 houtcome⟩
  · intro c hc
    exact read_text fun index hindex => Outcome.toNat_add_one_pos (hc index hindex)

/-- Two clauses of a method with two parameters, no clauses of a method without any, and the
clause with the greatest number that can be written. -/
theorem written_text_decodes_instances :
    listOfText 2 "null, _ -> fail; !null, true -> param2" =
        .ok [⟨⟨[.null, .any]⟩, .fail⟩, ⟨⟨[.nonNull, .bool true]⟩, .parameter 1⟩] ∧
      listOfText 0 "" = .ok [] ∧
      ofText "-> param18446744073709551615" = .ok ⟨⟨[]⟩, .parameter 18446744073709551614⟩ := by
  have htwo := written_text_decodes.1 2
    [⟨⟨[.null, .any]⟩, .fail⟩, ⟨⟨[.nonNull, .bool true]⟩, .parameter 1⟩] (by decide)
  have hlast := written_text_decodes.2 ⟨⟨[]⟩, .parameter 18446744073709551614⟩
  refine ⟨htwo ?_, written_text_decodes.1 0 [] (by decide) ?_, hlast ?_⟩
  · intro c hc
    simp only [List.mem_cons, List.not_mem_nil, or_false] at hc
    rcases hc with rfl | rfl
    · exact ⟨rfl, fun index h => nomatch h⟩
    · refine ⟨rfl, fun index h => ?_⟩
      obtain rfl := Outcome.parameter.inj h
      decide
  · exact fun c hc => absurd hc List.not_mem_nil
  · intro index h
    obtain rfl := Outcome.parameter.inj h
    decide

end Clause

end MethodContracts
