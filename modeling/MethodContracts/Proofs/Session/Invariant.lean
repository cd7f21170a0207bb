import MethodContracts.Proofs.Resolution.Arity
import MethodContracts.Proofs.Session.Entries
import MethodContracts.Proofs.Session.Soundness

/-!
# What every session finds

Whatever its methods are, a session finds contracts for each of them, in order of declaration, and
these have a known shape (`ResultInvariant`): declared contracts are those that the text says, and
all others are in normal form, with one slot for each parameter as far as the descriptors have it.

The step from the methods before to the next one needs nothing of what was found for them.
-/

namespace MethodContracts

/-- What holds of the clauses that are found for an entry. -/
structure Entry.ResultInvariant (e : Entry) (clauses : List Clause) : Prop where
  /-- Declared clauses are those that the text writes. -/
  listOfText : ∀ text, e.contract = some text →
    Clause.listOfText e.signature.arity text = .ok clauses
  /-- Without text and body there are none. -/
  eq_nil : e.contract = none → e.body = none → clauses = []
  /-- Clauses that are not declared do not conflict, and none is superfluous. -/
  normal : e.contract = none → Clause.Normal clauses
  /-- To normalize them once more changes nothing. -/
  normalize? : e.contract = none → Clause.normalize? clauses = some clauses
  /-- They have a slot for each parameter, if the clauses stated in the descriptors do. -/
  arity : e.contract = none → (∀ d ∈ e.descriptors, d.StatesArity e.signature.arity) →
    ∀ c ∈ clauses, c.arity = e.signature.arity

namespace Session

variable {s : Session} {es : List Entry} {e : Entry} {m : Method} {depth : Nat}

theorem normal_inferMethod (found : Results) (hdeclared : m.declared = none) :
    Clause.Normal (s.inferMethod depth found m) := by
  unfold inferMethod
  rw [hdeclared]
  cases m.entry.body with
  | none => exact Clause.normal_nil
  | some body => exact Subject.normal_infer depth m.entry.descriptors

theorem arity_of_mem_inferMethod (found : Results) (hdeclared : m.declared = none)
    (h : ∀ d ∈ m.entry.descriptors, d.StatesArity m.entry.signature.arity) :
    ∀ c ∈ s.inferMethod depth found m, c.arity = m.entry.signature.arity := by
  unfold inferMethod
  rw [hdeclared]
  cases m.entry.body with
  | none => exact fun c hc => absurd hc List.not_mem_nil
  | some body => exact Subject.arity_of_mem_infer (m := m.subject) h depth

/-- Whatever was found before, the next method keeps the invariant. -/
theorem resultInvariant_inferMethod (hs : ofEntries es = .ok s) (hm : m ∈ s.methods)
    (found : Results) : m.entry.ResultInvariant (s.inferMethod depth found m) where
  listOfText := by
    intro text htext
    obtain ⟨clauses, hclauses, hdeclared⟩ :=
      (declaredBy_eq_ok_iff htext).1 (declaredBy_entry hs hm)
    unfold inferMethod
    rw [← hdeclared]
    exact hclauses
  eq_nil := by
    intro hcontract hbody
    unfold inferMethod
    rw [(declared_eq_none_iff hs hm).2 hcontract, hbody]
  normal := by
    intro hcontract
    exact normal_inferMethod found ((declared_eq_none_iff hs hm).2 hcontract)
  normalize? := by
    intro hcontract
    have hnormal : Clause.Normal (s.inferMethod depth found m) :=
      normal_inferMethod found ((declared_eq_none_iff hs hm).2 hcontract)
    exact Clause.normalize?_eq_self_iff.2 hnormal
  arity := by
    intro hcontract
    exact arity_of_mem_inferMethod found ((declared_eq_none_iff hs hm).2 hcontract)

/-- **The invariant of sessions.** Every method gets contracts, in order of declaration, and they
have the shape that its entry asks for. -/
theorem infer_invariant (hs : ofEntries es = .ok s) (depth : Nat) :
    (s.infer depth).map Prod.fst = es.map (fun e => e.signature.id) ∧
    ∀ e ∈ es, ∃ clauses, (s.infer depth).of? e.signature.id = some clauses ∧
      e.ResultInvariant clauses := by
  constructor
  · rw [map_fst_infer, methods_eq_map hs, List.map_map]
    rfl
  · intro e he
    obtain ⟨i, hi⟩ := List.mem_iff_getElem?.1 he
    obtain ⟨m, hm, rfl⟩ := exists_method_of_getElem? hs hi
    exact ⟨_, of?_infer hm, resultInvariant_inferMethod hs (List.mem_of_getElem? hm) _⟩

open Sample in
/-- For the last method, clauses of two descriptors come together. -/
theorem infer_invariant_textChecks :
    ofEntries (textChecks.methods.map Method.entry) = .ok textChecks ∧
    (textChecks.infer 64).map Prod.fst =
      [requireNonNull.id, isBlank.id, hasText.id, describe.id] ∧
    Clause.Normal [⟨⟨[.null]⟩, .fail⟩, ⟨⟨[.nonNull]⟩, .nonNull⟩] ∧
    (textChecks.infer 64).of? describe.id =
      some [⟨⟨[.null]⟩, .fail⟩, ⟨⟨[.nonNull]⟩, .nonNull⟩] := by
  have hs : ofEntries (textChecks.methods.map Method.entry) = .ok textChecks := rfl
  have hvalue : (textChecks.infer 64).of? describe.id =
      some [⟨⟨[.null]⟩, .fail⟩, ⟨⟨[.nonNull]⟩, .nonNull⟩] := by decide +kernel
  have hmem : (textChecks.methods.map Method.entry)[3] ∈ textChecks.methods.map Method.entry :=
    List.getElem_mem _
  obtain ⟨hids, hfound⟩ := infer_invariant hs 64
  obtain ⟨clauses, hclauses, hinvariant⟩ := hfound _ hmem
  obtain rfl := Option.some.inj (hclauses.symm.trans hvalue)
  exact ⟨hs, hids, hinvariant.normal rfl, hvalue⟩

end Session

end MethodContracts
