import MethodContracts.Resolution

/-!
# Clauses that come from calls

What a method inherits through a call are the clauses of the target, restated, and for a target
that never returns null these without null and one clause more (`Subject.inherited_true`).

Two kinds of descriptors refer to a call. Everything under which they contribute a clause is said
here once: the call is found, its target is known and is another method, and the clause is one
that the facts about the target lead to. Likewise for a guard that does not stand in the way.
Proofs about clauses start from these lemmas and do not look into the definitions again.
-/

namespace MethodContracts

namespace Subject

variable {facts : Facts} {m : Subject} {range : TextRange} {c : Clause}

/-! ### Inherited clauses -/

@[simp] theorem domain_withoutNull (c : Clause) : (withoutNull c).domain = c.domain := by
  unfold withoutNull
  split <;> rfl

@[simp] theorem outcome_withoutNull_eq_fail_iff (c : Clause) :
    (withoutNull c).outcome = .fail ↔ c.outcome = .fail := by
  unfold withoutNull Outcome.isFail
  by_cases h : c.outcome = .fail
  · simp [h]
  · simp [h, Clause.withOutcome]

theorem outcome_withoutNull (c : Clause) :
    (withoutNull c).outcome = .fail ∨ (withoutNull c).outcome = .nonNull := by
  unfold withoutNull Outcome.isFail
  by_cases h : c.outcome = .fail
  · simp [h]
  · simp [h, Clause.withOutcome]

/-- The clauses of a target that can be restated for a subject that calls it, restated. -/
def restated (m : Subject) (target : Signature) (call : Call) (negated : Bool)
    (clauses : List Clause) : List Clause :=
  clauses.filterMap (Clause.throughCall? m.signature target call (target.expands call) negated)

theorem inherited_false (m : Subject) (target : Signature) (call : Call) (negated : Bool)
    (clauses : List Clause) :
    m.inherited target false call negated clauses = m.restated target call negated clauses := rfl

theorem inherited_true (m : Subject) (target : Signature) (call : Call) (negated : Bool)
    (clauses : List Clause) :
    m.inherited target true call negated clauses =
      (m.restated target call negated clauses).map withoutNull ++
        [.unconditional m.arity .nonNull] := rfl

/-! ### Where clauses come from -/

/-- A clause comes from a delegation only if it goes to another method that is known, and is then
one of those that are inherited from a normal form of the target's clauses. -/
theorem mem_delegate {negated : Bool} (h : c ∈ m.delegate facts range negated) :
    ∃ call target clauses, m.callAt? range = some call ∧
      call.target.bind facts.signature? = some target ∧ target.id ≠ m.signature.id ∧
      Clause.normalize? (facts.contracts target.id) = some clauses ∧
      c ∈ (Clause.normalize? (m.inherited target (facts.neverNull target.id) call negated
        clauses)).getD [] := by
  unfold delegate at h
  cases hcall : m.callAt? range with
  | none => simp [hcall] at h
  | some call =>
      simp only [hcall] at h
      cases htarget : call.target.bind facts.signature? with
      | none => simp [htarget] at h
      | some target =>
          simp only [htarget] at h
          by_cases hself : target.id = m.signature.id
          · simp [hself] at h
          · rw [if_neg hself] at h
            cases hnormal : Clause.normalize? (facts.contracts target.id) with
            | none =>
                rw [hnormal] at h
                exact absurd h List.not_mem_nil
            | some clauses =>
                rw [hnormal] at h
                cases clauses with
                | nil => exact absurd h List.not_mem_nil
                | cons k ks => exact ⟨call, target, k :: ks, rfl, htarget, hself, hnormal, h⟩

/-- A clause comes from a call that never returns null only if it goes to another method, and then
promises in one of the states that the result is not null. -/
theorem mem_nonNullStates {states : List Domain} (h : c ∈ m.nonNullStates facts range states) :
    ∃ call target, m.callAt? range = some call ∧ call.target = some target ∧
      target ≠ m.signature.id ∧ facts.neverNull target = true ∧
      ∃ d ∈ states, d.arity = m.arity ∧ c = ⟨d, .nonNull⟩ := by
  unfold nonNullStates at h
  split at h
  · exact absurd h List.not_mem_nil
  · rename_i target hbind
    obtain ⟨call, hcall, htarget⟩ := Option.bind_eq_some_iff.1 hbind
    by_cases hself : target = m.signature.id
    · rw [if_pos hself] at h
      exact absurd h List.not_mem_nil
    · rw [if_neg hself] at h
      by_cases hnever : facts.neverNull target = true
      · rw [if_pos hnever] at h
        obtain ⟨d, hd, rfl⟩ := List.mem_map.1 h
        obtain ⟨hstate, harity⟩ := List.mem_filter.1 hd
        exact ⟨call, target, hcall, htarget, hself, hnever, d, hstate,
          of_decide_eq_true harity, rfl⟩
      · rw [if_neg hnever] at h
        exact absurd h List.not_mem_nil

/-- A guard that does not stand in the way is found and has no side effects. -/
theorem obstructs_eq_false {guard : TextRange} (h : m.obstructs facts guard = false) :
    ∃ e, m.body.bind (·.find? guard) = some e ∧ facts.sideEffects e = false := by
  unfold obstructs at h
  split at h
  · rename_i e he
    exact ⟨e, he, h⟩
  · simp at h

end Subject

end MethodContracts
