import MethodContracts.Proofs.NormalForm.Agreement
import MethodContracts.Proofs.NormalForm.Reading
import MethodContracts.Proofs.NormalForm.Symmetry
import MethodContracts.Proofs.Resolution.Arity
import MethodContracts.Proofs.Resolution.Negation

/-!
# What a delegation resolves to

A method that returns what a call returns inherits the clauses of the target, restated for its own
parameters and normalized. If the clauses fit the call, then restating keeps them from
contradicting each other (`agrees_of_throughCall?`): where two restated clauses apply, the call
passes something to which both clauses of the target apply. From this follows

* that nothing is lost in normalizing but covered clauses (`delegate_eq_uncovered`);
* that for a target that never returns null, failures are kept exactly, and everything else is
  *not null* (`delegate_of_neverNull`).

Negating the delegation flips each restated clause. Normalization commutes with this, whether or
not clauses fit the call or conflict, so it makes no difference whether a delegation is negated or
its result (`resolve_negating_delegation`).
-/

namespace MethodContracts

namespace Clause

variable {caller target : Signature} {call : Call} {negated : Bool} {c₁ c₂ t₁ t₂ : Clause}

/-- Restating clauses of the target for a caller keeps them in agreement. -/
theorem agrees_of_throughCall? (hfit₁ : c₁.Fits target call) (hfit₂ : c₂.Fits target call)
    (ht₁ : c₁.throughCall? caller target call (target.expands call) negated = some t₁)
    (ht₂ : c₂.throughCall? caller target call (target.expands call) negated = some t₂)
    (h : c₁.Agrees c₂) : t₁.Agrees t₂ := by
  intro hover
  obtain ⟨args, hargs₁, hargs₂⟩ := overlaps_iff.1 hover
  have hlen : args.length = caller.arity :=
    (Domain.length_of_admits hargs₁).trans (arity_of_throughCall? ht₁)
  -- both clauses of the target apply to what the call passes for these arguments
  obtain ⟨passed, hpass⟩ := call.exists_mayPass caller target args
  have hpassed₁ := (admits_iff_of_throughCall? ht₁ hfit₁ hlen hpass).1 hargs₁
  have hpassed₂ := (admits_iff_of_throughCall? ht₂ hfit₂ hlen hpass).1 hargs₂
  rw [outcome_of_throughCall? ht₁, outcome_of_throughCall? ht₂,
    h (overlaps_iff.2 ⟨passed, hpassed₁, hpassed₂⟩)]

theorem throughCall?_not (c : Clause) (expanded : Bool) :
    c.throughCall? caller target call expanded (!negated) =
      (c.throughCall? caller target call expanded negated).map flip := by
  unfold throughCall?
  rw [Option.map_map]
  cases negated with
  | false => rfl
  | true => simp [Function.comp_def, flip, withOutcome]

end Clause

namespace Subject

variable {facts : Facts} {m : Subject} {range : TextRange} {call : Call} {target : Signature}
  {negated : Bool} {clauses : List Clause}

/-! ### Restated clauses -/

/-- Restated clauses of a list in normal form agree. -/
theorem agrees_of_mem_restated (hnormal : Clause.Normal clauses)
    (hfit : ∀ c ∈ clauses, c.Fits target call) :
    ∀ a ∈ m.restated target call negated clauses,
      ∀ b ∈ m.restated target call negated clauses, a.Agrees b := by
  intro a ha b hb
  obtain ⟨c₁, hc₁, ha⟩ := List.mem_filterMap.1 ha
  obtain ⟨c₂, hc₂, hb⟩ := List.mem_filterMap.1 hb
  exact Clause.agrees_of_throughCall? (hfit c₁ hc₁) (hfit c₂ hc₂) ha hb
    (hnormal.outcome_eq c₁ hc₁ c₂ hc₂)

theorem restated_not :
    m.restated target call (!negated) clauses =
      (m.restated target call negated clauses).map Clause.flip := by
  unfold restated
  rw [List.map_filterMap]
  exact List.filterMap_congr fun c _ => c.throughCall?_not _

/-! ### The clauses of a delegation -/

/-- Whether the call at a range of the body goes to another method that is known. -/
structure DelegatesTo (facts : Facts) (m : Subject) (range : TextRange) (call : Call)
    (target : Signature) : Prop where
  /-- The call is found in the body. -/
  callAt? : m.callAt? range = some call
  /-- Its target is known. -/
  target? : call.target.bind facts.signature? = some target
  /-- The target is another method. -/
  other : target.id ≠ m.signature.id

theorem delegate_eq (h : DelegatesTo facts m range call target)
    (hnormal : Clause.normalize? (facts.contracts target.id) = some clauses)
    (hne : clauses ≠ []) :
    m.delegate facts range negated =
      (Clause.normalize? (m.inherited target (facts.neverNull target.id) call negated
        clauses)).getD [] := by
  obtain ⟨first, others, rfl⟩ := List.exists_cons_of_ne_nil hne
  simp only [delegate, h.callAt?, h.target?, if_neg h.other, hnormal]

theorem delegate_eq_nil (h : DelegatesTo facts m range call target)
    (hnormal : Clause.normalize? (facts.contracts target.id) = some []) :
    m.delegate facts range negated = [] := by
  simp only [delegate, h.callAt?, h.target?, if_neg h.other, hnormal]

/-- **Restating cannot create a conflict.** If the clauses of a target that may return null fit the
call, then what the subject inherits has a normal form, and the delegation resolves to the restated
clauses, in order, without those that an earlier one covers. -/
theorem delegate_eq_uncovered (h : DelegatesTo facts m range call target)
    (hnull : facts.neverNull target.id = false)
    (hfit : ∀ c ∈ facts.contracts target.id, c.Fits target call)
    (hnormal : Clause.normalize? (facts.contracts target.id) = some clauses) :
    Clause.normalize? (m.inherited target (facts.neverNull target.id) call negated clauses) =
        some (m.delegate facts range negated) ∧
      m.delegate facts range negated = Clause.uncovered (clauses.filterMap
        (Clause.throughCall? m.signature target call (target.expands call) negated)) := by
  have hfits : ∀ c ∈ clauses, c.Fits target call :=
    Clause.fits_of_mem_normalize? hnormal hfit
  have harity : ∀ a ∈ m.restated target call negated clauses,
      ∀ b ∈ m.restated target call negated clauses, a.arity = b.arity :=
    fun a ha b hb => (arity_of_mem_restated a ha).trans (arity_of_mem_restated b hb).symm
  have hinherited : Clause.normalize?
      (m.inherited target (facts.neverNull target.id) call negated clauses) =
      some (Clause.uncovered (m.restated target call negated clauses)) := by
    rw [hnull, inherited_false]
    exact Clause.normalize?_of_agreeing harity
      (agrees_of_mem_restated (Clause.normal_of_normalize? hnormal) hfits)
  have hdelegate : m.delegate facts range negated =
      Clause.uncovered (m.restated target call negated clauses) := by
    cases clauses with
    | nil => exact delegate_eq_nil h hnormal
    | cons first others =>
        rw [delegate_eq h hnormal (List.cons_ne_nil _ _), hinherited, Option.getD_some]
  exact ⟨hinherited.trans (congrArg some hdelegate.symm), hdelegate⟩

/-- A method `sameText(left, right)`. -/
def sameText : Signature := ⟨⟨1⟩, "sameText", ["left", "right"], false⟩

/-- A method `isText(value)`. -/
def isText : Signature := ⟨⟨2⟩, "isText", ["value"], false⟩

/-- The call `sameText(value, value)` in the body of `isText`. -/
def sameTextCall : Call where
  name := "sameText"
  target := some sameText.id
  receiver := none
  arguments := [
    .reference ⟨9, 14⟩ "value" none (some (.parameter isText.id 0)),
    .reference ⟨16, 21⟩ "value" none (some (.parameter isText.id 0))]
  varArgs := false

/-- The method `isText`, which compares its parameter to itself. -/
def isTextSubject : Subject := ⟨isText, some ⟨[.ofCall ⟨0, 22⟩ sameTextCall]⟩⟩

/-- Comparing texts fails if one of them is null. -/
def sameTextClauses : List Clause := [
  ⟨⟨[.null, .any]⟩, .fail⟩,
  ⟨⟨[.any, .null]⟩, .fail⟩,
  ⟨⟨[.nonNull, .nonNull]⟩, .bool true⟩]

/-- What is known of `sameText`. -/
def sameTextFacts (neverNull : Bool) : Facts where
  signature? id := if id = sameText.id then some sameText else none
  contracts id := if id = sameText.id then sameTextClauses else []
  neverNull _ := neverNull
  sideEffects _ := true

theorem delegatesTo_sameText (neverNull : Bool) :
    DelegatesTo (sameTextFacts neverNull) isTextSubject ⟨0, 22⟩ sameTextCall sameText :=
  ⟨rfl, rfl, by decide⟩

theorem fits_sameText (neverNull : Bool) :
    ∀ c ∈ (sameTextFacts neverNull).contracts sameText.id, c.Fits sameText sameTextCall := by
  have hplain : sameText.expands sameTextCall = false := rfl
  have harity : ∀ c ∈ sameTextClauses, c.arity = sameText.arity := by decide
  exact fun c hc => ⟨harity c hc, fun hexp => absurd (hplain.symm.trans hexp) Bool.false_ne_true⟩

theorem normalize?_sameText (neverNull : Bool) :
    Clause.normalize? ((sameTextFacts neverNull).contracts sameText.id) = some sameTextClauses := by
  show Clause.normalize? sameTextClauses = some sameTextClauses
  decide +kernel

/-- Both failing clauses come down to the same one, and the second of them is dropped. -/
theorem delegate_eq_uncovered_isText :
    isTextSubject.delegate (sameTextFacts false) ⟨0, 22⟩ true =
      [⟨⟨[.null]⟩, .fail⟩, ⟨⟨[.nonNull]⟩, .bool false⟩] :=
  (delegate_eq_uncovered (delegatesTo_sameText false) rfl (fits_sameText false)
    (normalize?_sameText false)).2.trans (by decide +kernel)

/-! ### Targets that never return null -/

/-- The restated clauses that promise failure are those of failing clauses of the target. -/
theorem exists_restated_fails_iff {args : List Value} :
    (∃ t ∈ m.restated target call negated clauses, t.outcome = .fail ∧ t.domain.Admits args) ↔
      ∃ k ∈ clauses, k.outcome = .fail ∧
        ∃ t, k.throughCall? m.signature target call (target.expands call) negated = some t ∧
          t.domain.Admits args := by
  constructor
  · rintro ⟨t, ht, hout, hargs⟩
    obtain ⟨k, hk, hkt⟩ := List.mem_filterMap.1 ht
    rw [Clause.outcome_of_throughCall? hkt, Outcome.ite_flip_eq_fail_iff] at hout
    exact ⟨k, hk, hout, t, hkt, hargs⟩
  · rintro ⟨k, hk, hout, t, hkt, hargs⟩
    refine ⟨t, List.mem_filterMap.2 ⟨k, hk, hkt⟩, ?_, hargs⟩
    rw [Clause.outcome_of_throughCall? hkt, Outcome.ite_flip_eq_fail_iff]
    exact hout

/-- What is inherited from a target that never returns null promises failure just where a restated
clause does. -/
theorem outcomeOn?_inherited_eq_fail_iff (hnormal : Clause.Normal clauses)
    (hfit : ∀ c ∈ clauses, c.Fits target call) (args : List Value) :
    Clause.outcomeOn? (m.inherited target true call negated clauses) args = some .fail ↔
      ∃ t ∈ m.restated target call negated clauses, t.outcome = .fail ∧ t.domain.Admits args := by
  rw [inherited_true]
  constructor
  · intro h
    obtain ⟨x, hx, hargs, hout⟩ := Clause.exists_mem_of_outcomeOn? h
    rcases List.mem_append.1 hx with hx | hx
    · obtain ⟨t, ht, rfl⟩ := List.mem_map.1 hx
      rw [domain_withoutNull] at hargs
      exact ⟨t, ht, (outcome_withoutNull_eq_fail_iff t).1 hout, hargs⟩
    · obtain rfl := List.mem_singleton.1 hx
      exact absurd hout (by simp [Clause.unconditional])
  · rintro ⟨t, ht, hout, hargs⟩
    have hargs' : (withoutNull t).domain.Admits args := by
      rw [domain_withoutNull]
      exact hargs
    obtain ⟨o, ho⟩ := Clause.exists_outcomeOn? (List.mem_map_of_mem ht) hargs'
    obtain ⟨x, hx, hxargs, hxout⟩ := Clause.exists_mem_of_outcomeOn? ho
    obtain ⟨first, hfirst, rfl⟩ := List.mem_map.1 hx
    rw [domain_withoutNull] at hxargs
    -- the first clause that applies agrees with the failing one
    have hagrees : first.outcome = t.outcome :=
      agrees_of_mem_restated hnormal hfit first hfirst t ht
        (Clause.overlaps_iff.2 ⟨args, hxargs, hargs⟩)
    have hfail := (outcome_withoutNull_eq_fail_iff first).2 (hagrees.trans hout)
    rw [Clause.outcomeOn?_append, ho, Option.some_or, ← hxout, hfail]

theorem outcome_of_mem_inherited_true :
    ∀ c ∈ m.inherited target true call negated clauses,
      c.outcome = .fail ∨ c.outcome = .nonNull := by
  intro c hc
  rw [inherited_true] at hc
  rcases List.mem_append.1 hc with hc | hc
  · obtain ⟨t, -, rfl⟩ := List.mem_map.1 hc
    exact outcome_withoutNull t
  · exact Or.inr (by rw [List.mem_singleton.1 hc]; rfl)

theorem outcome_of_mem_normalize?_inherited_true {out : List Clause}
    (h : Clause.normalize? (m.inherited target true call negated clauses) = some out) :
    ∀ c ∈ out, c.outcome = .fail ∨ c.outcome = .nonNull := by
  refine Clause.forall_mem_normalize? ?_ h outcome_of_mem_inherited_true
  intro c k rest hc hcarve
  rw [Clause.outcome_of_carve? hcarve]
  exact hc

/-- **Delegating to a method that never returns null.** If the clauses of the target fit the call
and there are any, then either what the subject inherits conflicts, and the delegation resolves to
nothing; or it resolves to clauses that promise failure or a result that is not null, of which one
applies whatever the arguments are, and which promise failure just where a failing clause of the
target, restated for the subject, applies. -/
theorem delegate_of_neverNull (h : DelegatesTo facts m range call target)
    (hnever : facts.neverNull target.id = true)
    (hfit : ∀ c ∈ facts.contracts target.id, c.Fits target call)
    (hnormal : Clause.normalize? (facts.contracts target.id) = some clauses)
    (hne : clauses ≠ []) :
    (Clause.normalize? (m.inherited target true call negated clauses) = none ∧
      m.delegate facts range negated = []) ∨
    (∀ c ∈ m.delegate facts range negated, c.outcome = .fail ∨ c.outcome = .nonNull) ∧
      ∀ args, args.length = m.arity →
        (∃ c ∈ m.delegate facts range negated, c.domain.Admits args) ∧
        ∀ c ∈ m.delegate facts range negated, c.domain.Admits args →
          (c.outcome = .fail ↔ ∃ k ∈ clauses, k.outcome = .fail ∧
            ∃ t, k.throughCall? m.signature target call (target.expands call) negated = some t ∧
              t.domain.Admits args) := by
  have hdelegate : m.delegate facts range negated =
      (Clause.normalize? (m.inherited target true call negated clauses)).getD [] := by
    rw [delegate_eq h hnormal hne, hnever]
  rw [hdelegate]
  cases hout : Clause.normalize? (m.inherited target true call negated clauses) with
  | none => exact Or.inl ⟨rfl, rfl⟩
  | some out =>
      have hreads := Clause.readsAs_normalize? hout
      have hfits : ∀ c ∈ clauses, c.Fits target call :=
        Clause.fits_of_mem_normalize? hnormal hfit
      refine Or.inr ⟨outcome_of_mem_normalize?_inherited_true hout, fun args hlen => ⟨?_, ?_⟩⟩
      · -- the last clause inherited applies to all arguments
        refine (hreads.applies_iff args).1 ⟨.unconditional m.arity .nonNull, ?_, ?_⟩
        · rw [inherited_true]
          exact List.mem_append_right _ (List.mem_singleton.2 rfl)
        · exact Domain.admits_unconstrained.2 hlen
      · intro c hc hargs
        rw [← exists_restated_fails_iff, ← outcomeOn?_inherited_eq_fail_iff
          (Clause.normal_of_normalize? hnormal) hfits, hreads.outcome_eq args c hc hargs,
          Option.some_inj]

/-- Of a comparison that never returns null, the failure for null is kept, and the rest is *not
null*. -/
theorem delegate_of_neverNull_isText :
    isTextSubject.delegate (sameTextFacts true) ⟨0, 22⟩ true =
      [⟨⟨[.null]⟩, .fail⟩, ⟨⟨[.nonNull]⟩, .nonNull⟩] ∧
    (∃ c ∈ isTextSubject.delegate (sameTextFacts true) ⟨0, 22⟩ true, c.domain.Admits [.null]) ∧
    ∀ c ∈ isTextSubject.delegate (sameTextFacts true) ⟨0, 22⟩ true,
      c.domain.Admits [.null] → c.outcome = .fail := by
  have hclauses : isTextSubject.delegate (sameTextFacts true) ⟨0, 22⟩ true =
      [⟨⟨[.null]⟩, .fail⟩, ⟨⟨[.nonNull]⟩, .nonNull⟩] := by decide +kernel
  obtain ⟨-, hempty⟩ | ⟨-, hall⟩ := delegate_of_neverNull (delegatesTo_sameText true) rfl
    (fits_sameText true) (normalize?_sameText true) (List.cons_ne_nil _ _)
  · rw [hclauses] at hempty
    exact absurd hempty (List.cons_ne_nil _ _)
  · obtain ⟨hsome, hfail⟩ := hall [.null] rfl
    refine ⟨hclauses, hsome, fun c hc hargs => (hfail c hc hargs).2 ?_⟩
    exact ⟨⟨⟨[.null, .any]⟩, .fail⟩, List.mem_cons_self, rfl, ⟨⟨[.null]⟩, .fail⟩, rfl, rfl, trivial⟩

/-! ### Negated delegations -/

/-- Flipping is of no consequence once only failure and *not null* are told apart. -/
@[simp] theorem withoutNull_flip (c : Clause) : withoutNull c.flip = withoutNull c := by
  obtain ⟨d, o⟩ := c
  cases o <;> rfl

/-- A target that never returns null leaves negation nothing to do: the same is inherited. -/
theorem inherited_true_not :
    m.inherited target true call (!negated) clauses =
      m.inherited target true call negated clauses := by
  rw [inherited_true, inherited_true, restated_not, List.map_map]
  congr 2
  funext c
  exact withoutNull_flip c

/-- Flipping outcomes before or after normalizing makes no difference. -/
theorem normalize?_inherited_false_not :
    Clause.normalize? (m.inherited target false call (!negated) clauses) =
      (Clause.normalize? (m.inherited target false call negated clauses)).map
        (List.map Clause.flip) := by
  rw [inherited_false, inherited_false, restated_not]
  exact (Clause.symmetry_mapOutcome Outcome.flip_injective).normalize?_map _

theorem filterMap_negate?_normalize?_inherited (neverNull : Bool) :
    ((Clause.normalize? (m.inherited target neverNull call negated clauses)).getD []).filterMap
        Clause.negate? =
      ((Clause.normalize? (m.inherited target neverNull call (!negated) clauses)).getD []).filter
        fun c => c.outcome.isBool := by
  cases neverNull with
  | true =>
      rw [inherited_true_not]
      cases hout : Clause.normalize? (m.inherited target true call negated clauses) with
      | none => rfl
      | some out =>
          have hbool : ∀ c ∈ out, c.outcome.isBool = false := by
            intro c hc
            rcases outcome_of_mem_normalize?_inherited_true hout c hc with hfail | hnonNull
            · rw [hfail]
              rfl
            · rw [hnonNull]
              rfl
          have hnone : out.filter (fun c => c.outcome.isBool) = [] :=
            List.filter_eq_nil_iff.2 fun c hc => by simp [hbool c hc]
          rw [Option.getD_some, Descriptor.filterMap_negate?_eq_nil hbool, hnone]
  | false =>
      rw [normalize?_inherited_false_not]
      cases Clause.normalize? (m.inherited target false call negated clauses) with
      | none => rfl
      | some out =>
          rw [Option.map_some, Option.getD_some, Option.getD_some, Clause.filterMap_negate?_eq,
            List.filter_map]
          simp only [Function.comp_def, Clause.outcome_flip, Outcome.isBool_flip]

/-- The clauses of a delegation, negated, are those of the negated delegation that have a boolean
outcome. -/
theorem filterMap_negate?_delegate :
    (m.delegate facts range negated).filterMap Clause.negate? =
      (m.delegate facts range (!negated)).filter fun c => c.outcome.isBool := by
  unfold delegate
  cases m.callAt? range with
  | none => rfl
  | some call =>
      dsimp only
      cases call.target.bind facts.signature? with
      | none => rfl
      | some target =>
          dsimp only
          split
          · rfl
          · cases Clause.normalize? (facts.contracts target.id) with
            | none => rfl
            | some clauses =>
                cases clauses with
                | nil => rfl
                | cons first others => exact filterMap_negate?_normalize?_inherited _

end Subject

/-- **Negating a delegation or its result is the same.** Around a delegation, a negation that
resolution looks through gives the clauses with a boolean outcome, in order, of the delegation with
the other flag. -/
theorem Descriptor.resolve_negating_delegation (facts : Facts) (m : Subject) (range : TextRange)
    (negated : Bool) {maxDepth : Nat} (h : 1 ≤ maxDepth) :
    (negating (delegation range negated)).resolve facts m maxDepth =
      ((delegation range (!negated)).resolve facts m maxDepth).filter
        fun c => c.outcome.isBool := by
  obtain ⟨depth, rfl⟩ := Nat.exists_eq_add_of_le' h
  rw [resolve_negating_succ, resolve, resolve]
  exact Subject.filterMap_negate?_delegate

/-- Negating the comparison leaves of its clauses the one with a boolean outcome. -/
theorem Descriptor.resolve_negating_delegation_isText :
    (negating (delegation ⟨0, 22⟩ true)).resolve (Subject.sameTextFacts false)
      Subject.isTextSubject 1 = [⟨⟨[.nonNull]⟩, .bool true⟩] :=
  (resolve_negating_delegation _ _ _ true (Nat.le_refl 1)).trans (by decide +kernel)

end MethodContracts
