import MethodContracts.CommandLine.Report
import MethodContracts.Proofs.Clause.ListGrammar
import MethodContracts.Proofs.NormalForm.Normal

/-!
# What normalization reports

The clauses for the command `normalize` may be given in one text or in several: what counts is the
text that they make up when they are joined with semicolons (`Clause.listOfText_intercalate`). For
this text `Normalizes` says which report it gets. A flaw in it is reported before anything is
normalized, so that a conflict only shows where every clause is written properly.

What is printed is a fixed point. Narrowing a clause keeps its number of slots and its outcome, so a
normal form can be read where the clauses that it comes from could be, and it is its own normal
form (`CommandLine.normalizeReport_of_joined`).
-/

namespace MethodContracts

namespace Clause

variable {n : Nat} {cs : List Char} {clauses normal : List Clause}

/-! ### Texts joined with semicolons -/

theorem listPieces_append (before after : List Char) :
    listPieces (before ++ ';' :: after) = listPieces before ++ listPieces after := by
  simp only [listPieces, Text.pieces_append, List.map_append, List.filter_append]

theorem listPieces_intercalate (texts : List (List Char)) :
    listPieces ([';'].intercalate texts) = texts.flatMap listPieces := by
  induction texts with
  | nil => rfl
  | cons t ts ih =>
      cases ts with
      | nil => simp
      | cons u us =>
          rw [List.intercalate_cons_cons, List.append_assoc, List.singleton_append,
            listPieces_append, ih]
          rfl

/-- **Texts that are joined are read as they are one by one**, also if one of them is flawed. -/
theorem listOfText_intercalate (texts : List String) :
    listOfText n (";".intercalate texts) = List.flatten <$> texts.mapM (listOfText n) := by
  have htext : (";".intercalate texts).toList = [';'].intercalate (texts.map String.toList) := by
    rw [String.toList_intercalate]
    rfl
  unfold listOfText readList
  rw [htext, listPieces_intercalate, mapM_flatMap, List.mapM_map]
  rfl

theorem mapM_listOfText_of_listFlawed {texts : List String} {reason : ClauseError}
    (h : ListFlawed n (";".intercalate texts).toList reason) :
    texts.mapM (listOfText n) = .error reason := by
  have hread := listOfText_eq_error_iff.2 h
  rwa [listOfText_intercalate, map_eq_error_iff] at hread

theorem mapM_listOfText_of_listWritten {texts : List String}
    (h : ListWritten n (";".intercalate texts).toList clauses) :
    ∃ lists, texts.mapM (listOfText n) = .ok lists ∧ lists.flatten = clauses := by
  have hread := listOfText_eq_ok_iff.2 h
  rwa [listOfText_intercalate, map_eq_ok_iff] at hread

/-! ### Normal forms of written clauses -/

theorem ListWritten.fits (h : ListWritten n cs clauses) :
    ∀ c ∈ clauses, c.arity = n ∧ c.outcome.RefersWithin n := by
  obtain ⟨ps, -, hall⟩ := h
  induction hall with
  | nil => exact fun c hc => absurd hc List.not_mem_nil
  | cons hc _ ih => exact List.forall_mem_cons.2 ⟨⟨hc.2.1, hc.refersWithin⟩, ih⟩

/-- A normal form can be read where the clauses can be that it comes from. -/
theorem ListWritten.listOfText_normal (h : ListWritten n cs clauses)
    (hnormal : normalize? clauses = some normal) : listOfText n (listText normal) = .ok normal := by
  refine listOfText_listText (forall_mem_normalize? ?_ hnormal h.fits)
  rintro c k rest ⟨harity, houtcome⟩ hcarve
  rw [arity_of_carve? hcarve, outcome_of_carve? hcarve]
  exact ⟨harity, houtcome⟩

end Clause

namespace CommandLine

variable {n : Nat} {cs : List Char} {texts : List String} {r r' : Report} {t : String}

/-! ### Reports -/

/-- Which report the normalization of a text of clauses gives, for a method of `n` parameters. -/
inductive Normalizes (n : Nat) (cs : List Char) : Report → Prop where
  | refused {reason : ClauseError} (h : Clause.ListFlawed n cs reason) :
      Normalizes n cs (.failure 1 s!"Error: {reason.message}")
  | conflict {clauses : List Clause} (h : Clause.ListWritten n cs clauses)
      (hnone : Clause.normalize? clauses = none) :
      Normalizes n cs (.failure 2 "Conflict: contracts overlap with different outcomes")
  | normalized {clauses normal : List Clause} (h : Clause.ListWritten n cs clauses)
      (hsome : Clause.normalize? clauses = some normal) :
      Normalizes n cs (.success (Clause.listText normal ++ "\n"))

/-- Every text gets a report. -/
theorem exists_normalizes (n : Nat) (cs : List Char) : ∃ r, Normalizes n cs r := by
  cases hread : Clause.readList n cs with
  | error reason => exact ⟨_, .refused (Clause.readList_eq_error_iff.1 hread)⟩
  | ok clauses =>
      have hwritten := Clause.readList_eq_ok_iff.1 hread
      cases hnormal : Clause.normalize? clauses with
      | none => exact ⟨_, .conflict hwritten hnormal⟩
      | some normal => exact ⟨_, .normalized hwritten hnormal⟩

theorem Normalizes.normalizeReport_eq (h : Normalizes n (";".intercalate texts).toList r) :
    normalizeReport n texts = r := by
  unfold normalizeReport
  cases h with
  | refused hflawed => rw [Clause.mapM_listOfText_of_listFlawed hflawed]
  | conflict hwritten hnone =>
      obtain ⟨lists, hlists, rfl⟩ := Clause.mapM_listOfText_of_listWritten hwritten
      rw [hlists]
      simp only [hnone]
  | normalized hwritten hsome =>
      obtain ⟨lists, hlists, rfl⟩ := Clause.mapM_listOfText_of_listWritten hwritten
      rw [hlists]
      simp only [hsome]

/-- **The report is that of the joined text.** -/
theorem normalizeReport_eq_iff :
    normalizeReport n texts = r ↔ Normalizes n (";".intercalate texts).toList r := by
  refine ⟨fun h => ?_, Normalizes.normalizeReport_eq⟩
  obtain ⟨r', hr'⟩ := exists_normalizes n (";".intercalate texts).toList
  rw [← h, hr'.normalizeReport_eq]
  exact hr'

theorem normalizeReport_singleton_iff :
    normalizeReport n [t] = r ↔ Normalizes n t.toList r := by
  rw [normalizeReport_eq_iff, String.intercalate_singleton]

/-! ### Codes -/

theorem Normalizes.unique (h : Normalizes n cs r) (h' : Normalizes n cs r') : r = r' := by
  have hcs : (String.ofList cs).toList = cs := String.toList_ofList
  rw [← hcs, ← normalizeReport_singleton_iff] at h h'
  exact h.symm.trans h'

theorem Normalizes.code_eq_one_iff (h : Normalizes n cs r) :
    r.code = 1 ↔ ∃ reason, Clause.ListFlawed n cs reason := by
  constructor
  · intro hcode
    cases h with
    | refused hflawed => exact ⟨_, hflawed⟩
    | conflict => exact absurd hcode (by decide)
    | normalized => exact absurd hcode (by simp [Report.success])
  · rintro ⟨reason, hflawed⟩
    rw [h.unique (.refused hflawed)]
    rfl

theorem Normalizes.code_eq_two_iff (h : Normalizes n cs r) :
    r.code = 2 ↔
      ∃ clauses, Clause.ListWritten n cs clauses ∧ Clause.normalize? clauses = none := by
  constructor
  · intro hcode
    cases h with
    | refused => exact absurd hcode (by simp [Report.failure])
    | conflict hwritten hnone => exact ⟨_, hwritten, hnone⟩
    | normalized => exact absurd hcode (by simp [Report.success])
  · rintro ⟨clauses, hwritten, hnone⟩
    rw [h.unique (.conflict hwritten hnone)]
    rfl

/-- Something is printed just when neither a text is refused nor clauses conflict. -/
theorem Normalizes.code_eq_zero_iff (h : Normalizes n cs r) :
    (r.code = 0 ↔ r.code ≠ 1 ∧ r.code ≠ 2) ∧ (r.code = 0 ↔ r.output ≠ "") := by
  cases h with
  | refused => simp [Report.failure]
  | conflict => simp [Report.failure]
  | normalized => simp [Report.success]

/-! ### What is printed -/

theorem Normalizes.eq_listText (h : Normalizes n cs (.success (t ++ "\n"))) :
    ∃ clauses normal, Clause.ListWritten n cs clauses ∧ Clause.normalize? clauses = some normal ∧
      t = Clause.listText normal := by
  generalize hr : Report.success (t ++ "\n") = r at h
  cases h with
  | refused => simp [Report.success, Report.failure] at hr
  | conflict => simp [Report.success, Report.failure] at hr
  | normalized hwritten hsome =>
      simp only [Report.success, Report.mk.injEq, String.append_left_inj] at hr
      exact ⟨_, _, hwritten, hsome, hr.2.1⟩

/-- A printed normal form is printed again. -/
theorem Normalizes.again (h : Normalizes n cs (.success (t ++ "\n"))) :
    Normalizes n t.toList (.success (t ++ "\n")) := by
  obtain ⟨clauses, normal, hwritten, hnormal, rfl⟩ := h.eq_listText
  have hread := Clause.listOfText_eq_ok_iff.1 (hwritten.listOfText_normal hnormal)
  have hself : Clause.normalize? normal = some normal :=
    Clause.normalize?_eq_self_iff.2 (Clause.normal_of_normalize? hnormal)
  exact .normalized hread hself

/-- **The report depends only on the joined text, and what is printed is a fixed point.** The code
is 1 if the text is flawed, whether or not clauses before the flaw conflict; 2 if all clauses can be
read and conflict; and 0 otherwise, which is when something is printed. -/
theorem normalizeReport_of_joined (n : Nat) (texts : List String) :
    normalizeReport n texts = normalizeReport n [";".intercalate texts] ∧
    (∀ r, normalizeReport n texts = r ↔ Normalizes n (";".intercalate texts).toList r) ∧
    ((normalizeReport n texts).code = 1 ↔
      ∃ reason, Clause.ListFlawed n (";".intercalate texts).toList reason) ∧
    ((normalizeReport n texts).code = 2 ↔
      ∃ clauses, Clause.ListWritten n (";".intercalate texts).toList clauses ∧
        Clause.normalize? clauses = none) ∧
    ((normalizeReport n texts).code = 0 ↔
      (normalizeReport n texts).code ≠ 1 ∧ (normalizeReport n texts).code ≠ 2) ∧
    ((normalizeReport n texts).code = 0 ↔ (normalizeReport n texts).output ≠ "") ∧
    ∀ t, normalizeReport n texts = .success (t ++ "\n") →
      normalizeReport n [t] = .success (t ++ "\n") := by
  have hreport := normalizeReport_eq_iff.1 (rfl : normalizeReport n texts = _)
  refine ⟨?_, fun _ => normalizeReport_eq_iff, hreport.code_eq_one_iff, hreport.code_eq_two_iff,
    hreport.code_eq_zero_iff.1, hreport.code_eq_zero_iff.2, fun t ht => ?_⟩
  · exact (normalizeReport_singleton_iff.2 hreport).symm
  · exact normalizeReport_singleton_iff.2 (normalizeReport_eq_iff.1 ht).again

/-- Two texts with three clauses, one of them blank, and the text that is printed for them. -/
theorem normalizeReport_of_joined_narrowed :
    normalizeReport 2 ["null, _ -> fail;", " ; _, _ -> param1"] =
      .success ("null, _ -> fail; !null, _ -> param1" ++ "\n") ∧
    normalizeReport 2 ["null, _ -> fail; !null, _ -> param1"] =
      .success ("null, _ -> fail; !null, _ -> param1" ++ "\n") := by
  obtain ⟨-, -, -, -, -, -, hagain⟩ :=
    normalizeReport_of_joined 2 ["null, _ -> fail;", " ; _, _ -> param1"]
  have hprinted : normalizeReport 2 ["null, _ -> fail;", " ; _, _ -> param1"] =
      .success ("null, _ -> fail; !null, _ -> param1" ++ "\n") := by
    decide +kernel
  exact ⟨hprinted, hagain _ hprinted⟩

/-- A flaw is reported although the clauses before it conflict. -/
example : normalizeReport 2 ["null, _ -> fail; _, null -> true", "_ -> fail"] =
    .failure 1 "Error: contract '_ -> fail' has 1 parameter constraint(s), method declares 2" := by
  decide +kernel

end CommandLine

end MethodContracts
