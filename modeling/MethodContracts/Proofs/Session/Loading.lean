import MethodContracts.Proofs.Clause.ListGrammar
import MethodContracts.Proofs.Session.Entries

/-!
# Why entries do not make a session

An entry **offends** after others if one of them has its id, or if its declared text is flawed for
its number of parameters; of the two, the id counts (`Entry.OffendsAfter`). These are the reasons
why one more entry cannot be declared (`Session.declare_eq_error_iff`), and entries are declared in
order until one offends. So a list of entries makes a session if none offends after those before it,
and the first that does decides about the error (`Session.ofEntries_eq_error_iff`).
-/

namespace MethodContracts

/-- What is wrong with an entry that comes after others. -/
inductive Entry.OffendsAfter (before : List Entry) (e : Entry) : SessionError → Prop where
  | duplicate (h : e.signature.id ∈ before.map fun d => d.signature.id) :
      OffendsAfter before e (.duplicateMethod e.signature.id)
  | invalid {text : String} {reason : ClauseError}
      (hfresh : e.signature.id ∉ before.map fun d => d.signature.id)
      (htext : e.contract = some text)
      (hflawed : Clause.ListFlawed e.signature.arity text.toList reason) :
      OffendsAfter before e (.invalidContract e.signature.name reason)

namespace Session

variable {s : Session} {es before after : List Entry} {e : Entry} {i : Nat} {error : SessionError}

/-- What is wrong with the entry at an index of a list. -/
def Offends (es : List Entry) (i : Nat) (error : SessionError) : Prop :=
  ∃ e, es[i]? = some e ∧ e.OffendsAfter (es.take i) error

/-! ### One more entry -/

theorem declaredBy_eq_error_iff : declaredBy e = .error error ↔ ∃ text reason,
    e.contract = some text ∧ Clause.ListFlawed e.signature.arity text.toList reason ∧
      error = .invalidContract e.signature.name reason := by
  unfold declaredBy
  cases hcontract : e.contract with
  | none => simp
  | some text =>
      simp only [← Clause.listOfText_eq_error_iff]
      cases hread : Clause.listOfText e.signature.arity text with
      | ok clauses => simp [hread]
      | error reason => simp [hread, eq_comm]

theorem map_id_methods (hs : ofEntries es = .ok s) :
    s.methods.map Method.id = es.map fun e => e.signature.id := by
  rw [← (ofEntries_eq_ok_iff.1 hs).1, List.map_map]
  rfl

/-- **An entry cannot be declared just when it offends** after those that were declared. -/
theorem declare_eq_error_iff (hs : ofEntries before = .ok s) :
    s.declare e = .error error ↔ e.OffendsAfter before error := by
  unfold declare
  split
  · rename_i hmem
    rw [map_id_methods hs] at hmem
    constructor
    · intro h
      obtain rfl := Except.error.inj h
      exact .duplicate hmem
    · intro h
      cases h with
      | duplicate => rfl
      | invalid hfresh => exact absurd hmem hfresh
  · rename_i hfresh
    rw [map_id_methods hs] at hfresh
    refine map_eq_error_iff.trans (declaredBy_eq_error_iff.trans ?_)
    constructor
    · rintro ⟨text, reason, htext, hflawed, rfl⟩
      exact .invalid hfresh htext hflawed
    · intro h
      cases h with
      | duplicate hmem => exact absurd hmem hfresh
      | invalid _ htext hflawed => exact ⟨_, _, htext, hflawed, rfl⟩

/-! ### All entries -/

theorem ofEntries_concat_eq_error : ofEntries (es ++ [e]) = .error error ↔
    ofEntries es = .error error ∨ ∃ s, ofEntries es = .ok s ∧ s.declare e = .error error := by
  unfold ofEntries
  rw [List.foldlM_append]
  cases es.foldlM declare empty with
  | error reason => simp [bind, Except.bind]
  | ok s =>
      show s.declare e >>= pure = .error error ↔ _
      rw [bind_pure]
      simp

/-- The first entry that cannot be declared decides. -/
theorem exists_declare_of_ofEntries (h : ofEntries es = .error error) : ∃ before e after s,
    es = before ++ e :: after ∧ ofEntries before = .ok s ∧ s.declare e = .error error := by
  -- entries are declared from the left, so the error is of the last one or was there before it
  induction es using List.reverseRecOn with
  | nil => cases h
  | append_singleton es e ih =>
      rcases ofEntries_concat_eq_error.1 h with hbefore | ⟨s, hs, hlast⟩
      · obtain ⟨before, d, after, s, rfl, hs, hd⟩ := ih hbefore
        exact ⟨before, d, after ++ [e], s, by simp, hs, hd⟩
      · exact ⟨es, e, [], s, rfl, hs, hlast⟩

theorem ofEntries_append_of_error (h : ofEntries before = .error error) :
    ofEntries (before ++ after) = .error error := by
  induction after using List.reverseRecOn with
  | nil => rwa [List.append_nil]
  | append_singleton after e ih =>
      rw [← List.append_assoc]
      exact ofEntries_concat_eq_error.2 (Or.inl ih)

theorem ofEntries_of_declare (hs : ofEntries before = .ok s) (he : s.declare e = .error error) :
    ofEntries (before ++ e :: after) = .error error := by
  rw [List.append_cons]
  exact ofEntries_append_of_error (ofEntries_concat_eq_error.2 (Or.inr ⟨s, hs, he⟩))

/-! ### The first entry that offends -/

/-- What comes later does not make an entry offend. -/
theorem offends_append_left (hi : i < before.length) :
    Offends (before ++ after) i error ↔ Offends before i error := by
  unfold Offends
  rw [List.getElem?_append_left hi, List.take_append_of_le_length (Nat.le_of_lt hi)]

theorem offends_iff_exists_split : Offends es i error ↔ ∃ before e after,
    es = before ++ e :: after ∧ before.length = i ∧ e.OffendsAfter before error := by
  constructor
  · rintro ⟨e, he, hoffends⟩
    obtain ⟨hi, rfl⟩ := List.getElem?_eq_some_iff.1 he
    refine ⟨es.take i, es[i], es.drop (i + 1), ?_, List.length_take_of_le (Nat.le_of_lt hi),
      hoffends⟩
    rw [← List.drop_eq_getElem_cons hi, List.take_append_drop]
  · rintro ⟨before, e, after, rfl, rfl, hoffends⟩
    exact ⟨e, by simp, by simpa using hoffends⟩

theorem id_notMem_of_nodup
    (h : ((before ++ e :: after).map fun e => e.signature.id).Nodup) :
    e.signature.id ∉ before.map fun d => d.signature.id := by
  rw [List.map_append, List.map_cons, List.nodup_append] at h
  exact fun hmem => h.2.2 _ hmem _ List.mem_cons_self rfl

/-- What is declared in a session can be read. -/
theorem exists_listOfText_of_ofEntries {text : String} (hs : ofEntries es = .ok s) (he : e ∈ es)
    (htext : e.contract = some text) :
    ∃ clauses, Clause.listOfText e.signature.arity text = .ok clauses := by
  obtain ⟨i, hi⟩ := List.mem_iff_getElem?.1 he
  obtain ⟨m, hm, rfl⟩ := exists_method_of_getElem? hs hi
  obtain ⟨clauses, hread, -⟩ := (declaredBy_eq_ok_iff htext).1
    (declaredBy_entry hs (List.mem_of_getElem? hm))
  exact ⟨clauses, hread⟩

/-- In a session, no entry offends. -/
theorem not_offends_of_ofEntries (hs : ofEntries es = .ok s) : ¬Offends es i error := by
  rw [offends_iff_exists_split]
  rintro ⟨before, e, after, rfl, -, hoffends⟩
  cases hoffends with
  | duplicate hmem => exact id_notMem_of_nodup (map_id_methods hs ▸ s.nodup_ids) hmem
  | invalid _ htext hflawed =>
      exact hflawed.not_exists_listOfText (exists_listOfText_of_ofEntries hs (by simp) htext)

theorem exists_first_offence (h : ofEntries es = .error error) :
    ∃ i < es.length, Offends es i error ∧ ∀ j < i, ∀ error', ¬Offends es j error' := by
  obtain ⟨before, e, after, s, rfl, hs, he⟩ := exists_declare_of_ofEntries h
  refine ⟨before.length, by simp, offends_iff_exists_split.2
    ⟨before, e, after, rfl, rfl, (declare_eq_error_iff hs).1 he⟩, ?_⟩
  intro j hj error'
  rw [offends_append_left hj]
  exact not_offends_of_ofEntries hs

/-- Entries before the first that offends make a session. -/
theorem exists_ofEntries_take (hi : i ≤ es.length)
    (h : ∀ j < i, ∀ error, ¬Offends es j error) : ∃ s, ofEntries (es.take i) = .ok s := by
  cases hes : ofEntries (es.take i) with
  | ok s => exact ⟨s, rfl⟩
  | error error =>
      obtain ⟨j, hj, hoffends, -⟩ := exists_first_offence hes
      rw [← offends_append_left hj, List.take_append_drop] at hoffends
      rw [List.length_take_of_le hi] at hj
      exact absurd hoffends (h j hj error)

/-- **The first entry that offends decides.** -/
theorem ofEntries_eq_error_iff : ofEntries es = .error error ↔
    ∃ i, Offends es i error ∧ ∀ j < i, ∀ error', ¬Offends es j error' := by
  constructor
  · intro h
    obtain ⟨i, -, hoffends, hfirst⟩ := exists_first_offence h
    exact ⟨i, hoffends, hfirst⟩
  · rintro ⟨i, hoffends, hfirst⟩
    obtain ⟨before, e, after, rfl, rfl, he⟩ := offends_iff_exists_split.1 hoffends
    obtain ⟨s, hs⟩ := exists_ofEntries_take (by simp) hfirst
    rw [List.take_left] at hs
    exact ofEntries_of_declare hs ((declare_eq_error_iff hs).2 he)

theorem exists_ofEntries_eq_ok_iff : (∃ s, ofEntries es = .ok s) ↔
    (es.map fun e => e.signature.id).Nodup ∧ ∀ e ∈ es, ∀ text, e.contract = some text →
      ∃ clauses, Clause.listOfText e.signature.arity text = .ok clauses := by
  constructor
  · rintro ⟨s, hs⟩
    exact ⟨map_id_methods hs ▸ s.nodup_ids, fun e he text => exists_listOfText_of_ofEntries hs he⟩
  · rintro ⟨hnodup, htexts⟩
    cases hes : ofEntries es with
    | ok s => exact ⟨s, rfl⟩
    | error error =>
        obtain ⟨before, e, after, s, rfl, hs, he⟩ := exists_declare_of_ofEntries hes
        cases (declare_eq_error_iff hs).1 he with
        | duplicate hmem => exact absurd hmem (id_notMem_of_nodup hnodup)
        | invalid _ htext hflawed =>
            exact absurd (htexts e (by simp) _ htext) hflawed.not_exists_listOfText

/-- **Entries make a session unless one offends.** They do if their ids are distinct and their
declared texts can be read; the session then has them in order, with what their texts say. If they
do not, the error is what is wrong with the first entry that offends. -/
theorem ofEntries_first_offence (es : List Entry) :
    ((∃ s, ofEntries es = .ok s) ↔ (es.map fun e => e.signature.id).Nodup ∧
      ∀ e ∈ es, ∀ text, e.contract = some text →
        ∃ clauses, Clause.listOfText e.signature.arity text = .ok clauses) ∧
    (∀ s, ofEntries es = .ok s → s.methods.map Method.entry = es ∧
      ∀ m ∈ s.methods, (m.entry.contract = none → m.declared = none) ∧
        ∀ text, m.entry.contract = some text → ∃ clauses, m.declared = some clauses ∧
          Clause.listOfText m.entry.signature.arity text = .ok clauses) ∧
    ∀ error, ofEntries es = .error error ↔
      ∃ i, Offends es i error ∧ ∀ j < i, ∀ error', ¬Offends es j error' := by
  refine ⟨exists_ofEntries_eq_ok_iff, fun s hs => ⟨(ofEntries_eq_ok_iff.1 hs).1, ?_⟩,
    fun _ => ofEntries_eq_error_iff⟩
  intro m hm
  refine ⟨(declared_eq_none_iff hs hm).2, fun text htext => ?_⟩
  obtain ⟨clauses, hread, hdeclared⟩ := (declaredBy_eq_ok_iff htext).1 (declaredBy_entry hs hm)
  exact ⟨clauses, hdeclared.symm, hread⟩

/-- The second entry declares a clause for two parameters, and then something that is no clause; the
third has the id of the first. -/
def flawedTwice : List Entry := [
  ⟨⟨⟨1⟩, "isBlank", ["x"], false⟩, some "null -> true;", false, true, none, []⟩,
  ⟨⟨⟨2⟩, "hasText", ["x"], false⟩, some "null -> false; _, _ -> true; fail", false, true, none, []⟩,
  ⟨⟨⟨1⟩, "isEmpty", ["x"], false⟩, none, false, true, none, []⟩]

/-- Both the second and the third entry offend, and the error is that of the first clause that does
not fit in the second; the first entry by itself makes a session. -/
theorem ofEntries_first_offence_flawedTwice :
    Offends flawedTwice 1 (.invalidContract "hasText" (.arityMismatch "_, _ -> true" 1 2)) ∧
    Offends flawedTwice 2 (.duplicateMethod ⟨1⟩) ∧
    ofEntries flawedTwice =
      .error (.invalidContract "hasText" (.arityMismatch "_, _ -> true" 1 2)) ∧
    ∃ s, ofEntries (flawedTwice.take 1) = .ok s ∧
      s.methods.map Method.entry = flawedTwice.take 1 := by
  have hsecond :
      Offends flawedTwice 1 (.invalidContract "hasText" (.arityMismatch "_, _ -> true" 1 2)) :=
    ⟨_, rfl, .invalid (by decide) rfl (Clause.listOfText_eq_error_iff.1 (by decide +kernel))⟩
  have hthird : Offends flawedTwice 2 (.duplicateMethod ⟨1⟩) :=
    ⟨_, rfl, .duplicate (by decide)⟩
  obtain ⟨hok, hmethods, -⟩ := ofEntries_first_offence (flawedTwice.take 1)
  obtain ⟨s, hs⟩ := hok.2 ⟨by decide, by
    intro e he text htext
    obtain rfl := List.mem_singleton.1 he
    obtain rfl := Option.some.inj htext
    exact ⟨[⟨⟨[.null]⟩, .bool true⟩], by decide +kernel⟩⟩
  obtain ⟨-, -, herror⟩ := ofEntries_first_offence flawedTwice
  refine ⟨hsecond, hthird, (herror _).2 ⟨1, hsecond, ?_⟩, s, hs, (hmethods s hs).1⟩
  intro j hj error
  rw [← List.take_append_drop 1 flawedTwice, offends_append_left hj]
  exact not_offends_of_ofEntries hs

end Session

end MethodContracts
