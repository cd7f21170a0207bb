import Mathlib.Data.List.Induction
import MethodContracts.Proofs.Session.Inference

/-!
# Which entries make a session

A session remembers the entries that it was built from: its methods are these entries, in order,
each with what its declared text says. Since ids are unique in a session by its type, nothing else
is asked of the entries (`ofEntries_eq_ok_iff`), and a session that describes its own methods is
the one that its entries make.
-/

namespace MethodContracts

namespace Session

variable {s s' : Session} {es : List Entry} {e : Entry} {m : Method} {i : Nat}

/-- Whether the declared contracts of each method are what its declared text says. -/
def ReadsDeclared (s : Session) : Prop :=
  ∀ m ∈ s.methods, declaredBy m.entry = .ok m.declared

theorem eq_of_methods_eq (h : s.methods = s'.methods) : s = s' := by
  cases s
  cases s'
  cases h
  rfl

theorem declare_eq_ok :
    s.declare e = .ok s' ↔ e.signature.id ∉ s.methods.map Method.id ∧
      ∃ declared, declaredBy e = .ok declared ∧ s'.methods = s.methods ++ [⟨e, declared⟩] := by
  unfold declare
  split
  · rename_i hmem
    simp [hmem]
  · rename_i hfresh
    cases hdeclared : declaredBy e with
    | error reason => simp [Except.map]
    | ok declared =>
        constructor
        · intro h
          obtain rfl := Except.ok.inj h
          exact ⟨hfresh, declared, rfl, rfl⟩
        · rintro ⟨-, declared', h, hmethods⟩
          obtain rfl := Except.ok.inj h
          exact congrArg Except.ok (eq_of_methods_eq hmethods.symm)

theorem ofEntries_concat_eq_ok :
    ofEntries (es ++ [e]) = .ok s ↔ ∃ s₀, ofEntries es = .ok s₀ ∧ s₀.declare e = .ok s := by
  unfold ofEntries
  rw [List.foldlM_append]
  cases es.foldlM declare empty with
  | error reason => simp [bind, Except.bind]
  | ok s₀ =>
      show s₀.declare e >>= pure = .ok s ↔ _
      rw [bind_pure]
      simp

/-- **A session is made by its own entries**, if it reads their declared text, and by no others. -/
theorem ofEntries_eq_ok_iff :
    ofEntries es = .ok s ↔ s.methods.map Method.entry = es ∧ s.ReadsDeclared := by
  -- entries are declared from the left, so the last of them is declared last
  induction es using List.reverseRecOn generalizing s with
  | nil =>
      constructor
      · intro h
        obtain rfl : empty = s := Except.ok.inj h
        exact ⟨rfl, fun m hm => absurd hm List.not_mem_nil⟩
      · rintro ⟨hnone, -⟩
        exact congrArg Except.ok (eq_of_methods_eq (List.map_eq_nil_iff.1 hnone).symm)
  | append_singleton es e ih =>
      rw [ofEntries_concat_eq_ok]
      constructor
      · rintro ⟨s₀, hs₀, hs⟩
        obtain ⟨-, declared, hdeclared, hmethods⟩ := declare_eq_ok.1 hs
        obtain ⟨hentries, hreads⟩ := ih.1 hs₀
        refine ⟨by rw [hmethods, List.map_append, hentries]; rfl, fun m hm => ?_⟩
        rw [hmethods] at hm
        rcases List.mem_append.1 hm with hbefore | hlast
        · exact hreads m hbefore
        · obtain rfl := List.mem_singleton.1 hlast
          exact hdeclared
      · rintro ⟨hentries, hreads⟩
        obtain ⟨before, last, hmethods, hbefore, hlast⟩ := List.map_eq_append_iff.1 hentries
        obtain ⟨m, rfl, rfl⟩ := List.map_eq_singleton_iff.1 hlast
        have hsub : ∀ t ∈ before, t ∈ s.methods := fun t ht => by
          rw [hmethods]
          exact List.mem_append_left _ ht
        have hm : m ∈ s.methods := by
          rw [hmethods]
          exact List.mem_append_right _ (List.mem_singleton.2 rfl)
        have hnodup := s.nodup_ids
        rw [hmethods, List.map_append, List.map_singleton, List.nodup_append] at hnodup
        have hfresh : m.id ∉ before.map Method.id := fun hmem =>
          hnodup.2.2 _ hmem _ (List.mem_singleton.2 rfl) rfl
        have hs₀ : ofEntries es = .ok ⟨before, hnodup.1⟩ :=
          ih.2 ⟨hbefore, fun t ht => hreads t (hsub t ht)⟩
        exact ⟨_, hs₀, declare_eq_ok.2 ⟨hfresh, m.declared, hreads m hm, hmethods⟩⟩

/-! ### The method of an entry -/

/-- The method that an entry describes. -/
def methodOf (e : Entry) : Method := ⟨e, (declaredBy e).toOption.join⟩

theorem methods_eq_map (hs : ofEntries es = .ok s) : s.methods = es.map methodOf := by
  obtain ⟨rfl, hreads⟩ := ofEntries_eq_ok_iff.1 hs
  have hself : ∀ m ∈ s.methods, methodOf m.entry = m := fun m hm => by
    rw [methodOf, hreads m hm]
    rfl
  rw [List.map_map]
  exact (List.map_id' s.methods).symm.trans (List.map_congr_left fun m hm => (hself m hm).symm)

theorem exists_method_of_getElem? (hs : ofEntries es = .ok s) (he : es[i]? = some e) :
    ∃ m, s.methods[i]? = some m ∧ m.entry = e := by
  rw [← (ofEntries_eq_ok_iff.1 hs).1, List.getElem?_map] at he
  exact Option.map_eq_some_iff.1 he

theorem getElem?_entry (hs : ofEntries es = .ok s) (hm : s.methods[i]? = some m) :
    es[i]? = some m.entry := by
  rw [← (ofEntries_eq_ok_iff.1 hs).1, List.getElem?_map, hm, Option.map_some]

theorem declaredBy_entry (hs : ofEntries es = .ok s) (hm : m ∈ s.methods) :
    declaredBy m.entry = .ok m.declared :=
  (ofEntries_eq_ok_iff.1 hs).2 m hm

/-- A text declares the clauses that it writes. -/
theorem declaredBy_eq_ok_iff {text : String} {declared : Option (List Clause)}
    (htext : e.contract = some text) : declaredBy e = .ok declared ↔
      ∃ clauses, Clause.listOfText e.signature.arity text = .ok clauses ∧
        some clauses = declared := by
  unfold declaredBy
  rw [htext]
  dsimp only
  cases Clause.listOfText e.signature.arity text with
  | error reason => simp
  | ok clauses => simp

theorem declared_eq_none_iff (hs : ofEntries es = .ok s) (hm : m ∈ s.methods) :
    m.declared = none ↔ m.entry.contract = none := by
  have hdeclared := declaredBy_entry hs hm
  cases hcontract : m.entry.contract with
  | none =>
      unfold declaredBy at hdeclared
      rw [hcontract] at hdeclared
      simp [← Except.ok.inj hdeclared]
  | some text =>
      obtain ⟨clauses, -, hsome⟩ := (declaredBy_eq_ok_iff hcontract).1 hdeclared
      simp [← hsome]

/-! ### Exchanging one entry -/

/-- A list does not look different if one element is exchanged for one that looks the same. -/
theorem map_set_eq {α β : Type} {f : α → β} {xs : List α} {x y : α} (hx : xs[i]? = some x)
    (hy : f y = f x) : (xs.set i y).map f = xs.map f := by
  obtain ⟨hi, rfl⟩ := List.getElem?_eq_some_iff.1 hx
  have hi' : i < (xs.map f).length := by rwa [List.length_map]
  have hself := List.set_getElem_self hi'
  rwa [List.getElem_map, ← hy, ← List.map_set] at hself

/-- An entry can be exchanged for another one of the same method, if its text can be read. -/
theorem ofEntries_set {e' : Entry} {declared : Option (List Clause)} (hs : ofEntries es = .ok s)
    (he : es[i]? = some e) (hid : e'.signature.id = e.signature.id)
    (hdeclared : declaredBy e' = .ok declared) :
    ∃ s', ofEntries (es.set i e') = .ok s' ∧ s'.methods = s.methods.set i ⟨e', declared⟩ := by
  obtain ⟨hentries, hreads⟩ := ofEntries_eq_ok_iff.1 hs
  obtain ⟨m, hm, rfl⟩ := exists_method_of_getElem? hs he
  have hids : ((s.methods.set i ⟨e', declared⟩).map Method.id).Nodup := by
    rw [map_set_eq hm hid]
    exact s.nodup_ids
  refine ⟨⟨_, hids⟩, ofEntries_eq_ok_iff.2 ⟨?_, ?_⟩, rfl⟩
  · show (s.methods.set i ⟨e', declared⟩).map Method.entry = es.set i e'
    rw [List.map_set, hentries]
  · intro t ht
    rcases List.mem_or_eq_of_mem_set ht with ht | rfl
    · exact hreads t ht
    · exact hdeclared

end Session

end MethodContracts
