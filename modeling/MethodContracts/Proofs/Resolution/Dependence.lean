import MethodContracts.Proofs.Expr.Within
import MethodContracts.Proofs.Resolution.Contribution

/-!
# What resolution depends on

Facts may say much; resolving the descriptors of one method consults little of it. Contracts are
asked for only of methods that a call in the body goes to, and never of the method itself. Two
kinds of facts that agree there (`Facts.AgreeFor`) lead to the same clauses (`infer_congr`).

No induction over descriptors is needed: by `resolve_eq_flatMap_leaves` it is enough that each
leaf contributes the same.

In particular, what is known of the method itself never matters (`infer_ignores_itself`), so a
recursive method cannot confirm its own contracts.
-/

namespace MethodContracts

namespace Subject

/-- Whether the body of a method is available and calls another one. -/
def Calls (m : Subject) (id : MethodId) : Prop := ∃ body ∈ m.body, body.Calls id

/-- Whether what is known of a method can matter for a subject: it is another one, and some call
in the body goes to it, or to an id that its signature is found under. -/
def Consults (facts : Facts) (m : Subject) (id : MethodId) : Prop :=
  id ≠ m.signature.id ∧ ∃ called, m.Calls called ∧
    (called = id ∨ ∃ target, facts.signature? called = some target ∧ target.id = id)

theorem calls_of_callAt? {m : Subject} {range : TextRange} {call : Call} {id : MethodId}
    (h : m.callAt? range = some call) (hid : call.target = some id) : m.Calls id := by
  obtain ⟨body, hbody, hcall⟩ := Option.bind_eq_some_iff.1 h
  exact ⟨body, hbody, body.calls_of_callAt? hcall hid⟩

end Subject

/-- Whether two kinds of facts agree in all that can matter for a subject. -/
structure Facts.AgreeFor (m : Subject) (facts facts' : Facts) : Prop where
  /-- They know the same methods. -/
  signature? : ∀ id, facts.signature? id = facts'.signature? id
  /-- They judge expressions alike. -/
  sideEffects : ∀ e, facts.sideEffects e = facts'.sideEffects e
  /-- They have the same contracts for the methods that matter. -/
  contracts : ∀ id, m.Consults facts id → facts.contracts id = facts'.contracts id
  /-- They say of the same methods that matter that they never return null. -/
  neverNull : ∀ id, m.Consults facts id → facts.neverNull id = facts'.neverNull id

variable {facts facts' : Facts} {m : Subject}

namespace Subject

theorem delegate_congr (h : Facts.AgreeFor m facts facts') (range : TextRange) (negated : Bool) :
    m.delegate facts range negated = m.delegate facts' range negated := by
  unfold delegate
  cases hcall : m.callAt? range with
  | none => rfl
  | some call =>
      dsimp only
      have hsignature : call.target.bind facts.signature? =
          call.target.bind facts'.signature? := by
        cases call.target with
        | none => rfl
        | some id => exact h.signature? id
      rw [← hsignature]
      cases htarget : call.target.bind facts.signature? with
      | none => rfl
      | some target =>
          dsimp only
          by_cases hself : target.id = m.signature.id
          · rw [if_pos hself, if_pos hself]
          · -- contracts are looked up only once the target is known to be another method
            obtain ⟨id, hid, hfound⟩ := Option.bind_eq_some_iff.1 htarget
            have hconsults : m.Consults facts target.id :=
              ⟨hself, id, calls_of_callAt? hcall hid, Or.inr ⟨target, hfound, rfl⟩⟩
            rw [if_neg hself, if_neg hself, h.contracts _ hconsults, h.neverNull _ hconsults]

theorem nonNullStates_congr (h : Facts.AgreeFor m facts facts') (range : TextRange)
    (states : List Domain) :
    m.nonNullStates facts range states = m.nonNullStates facts' range states := by
  unfold nonNullStates
  cases htarget : (m.callAt? range).bind Call.target with
  | none => rfl
  | some target =>
      dsimp only
      by_cases hself : target = m.signature.id
      · rw [if_pos hself, if_pos hself]
      · obtain ⟨call, hcall, hid⟩ := Option.bind_eq_some_iff.1 htarget
        have hconsults : m.Consults facts target :=
          ⟨hself, target, calls_of_callAt? hcall hid, Or.inl rfl⟩
        rw [if_neg hself, if_neg hself, h.neverNull _ hconsults]

theorem suppresses_congr (h : Facts.AgreeFor m facts facts') (guards : List TextRange) :
    m.suppresses facts guards = m.suppresses facts' guards := by
  have hsideEffects : facts.sideEffects = facts'.sideEffects := funext h.sideEffects
  unfold suppresses
  rw [hsideEffects]

end Subject

namespace Descriptor

theorem Source.clauses_congr (h : Facts.AgreeFor m facts facts') (source : Source) :
    source.clauses facts m = source.clauses facts' m := by
  cases source with
  | known clause => rfl
  | delegation call negated => exact Subject.delegate_congr h call negated
  | nonNullCall call states => exact Subject.nonNullStates_congr h call states

theorem Leaf.contribution_congr (h : Facts.AgreeFor m facts facts') (l : Leaf)
    (maxDepth : Nat) : l.contribution facts m maxDepth = l.contribution facts' m maxDepth := by
  have hsuppresses : m.suppresses facts = m.suppresses facts' :=
    funext (Subject.suppresses_congr h)
  unfold contribution clauses suppressed
  rw [hsuppresses, Source.clauses_congr h]

theorem resolve_congr (h : Facts.AgreeFor m facts facts') (d : Descriptor) (maxDepth : Nat) :
    d.resolve facts m maxDepth = d.resolve facts' m maxDepth := by
  rw [resolve_eq_flatMap_leaves, resolve_eq_flatMap_leaves]
  exact List.flatMap_congr fun l _ => l.contribution_congr h maxDepth

end Descriptor

/-- **Inference for one method depends only on the methods that it calls.** -/
theorem Subject.infer_congr (h : Facts.AgreeFor m facts facts') (depth : Nat)
    (ds : List Descriptor) : m.infer facts depth ds = m.infer facts' depth ds := by
  have hall : Descriptor.resolveAll facts m depth ds =
      Descriptor.resolveAll facts' m depth ds := by
    rw [Descriptor.resolveAll_eq_flatMap, Descriptor.resolveAll_eq_flatMap]
    exact List.flatMap_congr fun d _ => d.resolve_congr h depth
  unfold infer
  rw [hall]

/-! ### What is known of the method itself -/

/-- Whether two kinds of facts differ at most in the contracts that they have for one method and in
whether they say of it that it never returns null. -/
structure Facts.AgreeBeside (own : MethodId) (facts facts' : Facts) : Prop where
  /-- They know the same methods. -/
  signature? : ∀ id, facts.signature? id = facts'.signature? id
  /-- They judge expressions alike. -/
  sideEffects : ∀ e, facts.sideEffects e = facts'.sideEffects e
  /-- They have the same contracts for the other methods. -/
  contracts : ∀ id, id ≠ own → facts.contracts id = facts'.contracts id
  /-- They say of the same other methods that they never return null. -/
  neverNull : ∀ id, id ≠ own → facts.neverNull id = facts'.neverNull id

/-- A method is not among those that matter for it. -/
theorem Facts.AgreeBeside.agreeFor (h : Facts.AgreeBeside m.signature.id facts facts') :
    Facts.AgreeFor m facts facts' where
  signature? := h.signature?
  sideEffects := h.sideEffects
  contracts id hconsults := h.contracts id hconsults.1
  neverNull id hconsults := h.neverNull id hconsults.1

namespace Subject

/-- **Inference ignores what is known of the method itself**: for each of its descriptors, and for
all of them together. -/
theorem infer_ignores_itself (h : Facts.AgreeBeside m.signature.id facts facts')
    (depth : Nat) (ds : List Descriptor) :
    (∀ d : Descriptor, d.resolve facts m depth = d.resolve facts' m depth) ∧
      m.infer facts depth ds = m.infer facts' depth ds :=
  ⟨fun d => d.resolve_congr h.agreeFor depth, infer_congr h.agreeFor depth ds⟩

/-- A method `isEmpty(list)`. -/
def isEmpty : Signature := ⟨⟨1⟩, "isEmpty", ["list"], false⟩

/-- A method `isSorted(list)`. -/
def isSorted : Signature := ⟨⟨2⟩, "isSorted", ["list"], false⟩

/-- A call in the body of `isSorted` that passes its parameter on. -/
def listCall (target : Signature) : Call where
  name := target.name
  target := some target.id
  receiver := none
  arguments := [.reference ⟨9, 13⟩ "list" none (some (.parameter isSorted.id 0))]
  varArgs := false

/-- The method `isSorted`, whose body calls `isEmpty` and `isSorted`. -/
def isSortedSubject : Subject where
  signature := isSorted
  body := some ⟨[.ofCall ⟨0, 14⟩ (listCall isEmpty), .ofCall ⟨15, 30⟩ (listCall isSorted)]⟩

/-- What is known of `isEmpty`, together with something that is said of `isSorted`. -/
def sortedFacts (ownContracts : List Clause) (ownNeverNull : Bool) : Facts where
  signature? id :=
    if id = isEmpty.id then some isEmpty else if id = isSorted.id then some isSorted else none
  contracts id :=
    if id = isEmpty.id then [⟨⟨[.null]⟩, .bool true⟩]
    else if id = isSorted.id then ownContracts else []
  neverNull id := if id = isSorted.id then ownNeverNull else false
  sideEffects _ := true

/-- Three descriptors that refer to the recursive call, and one that refers to the other. -/
def sortedDescriptors : List Descriptor := [
  .delegation ⟨15, 30⟩ false,
  .guarded [] [.nonNullCall ⟨15, 30⟩ [⟨[.any]⟩]],
  .negating (.delegation ⟨15, 30⟩ true),
  .negating (.delegation ⟨0, 14⟩ false)]

theorem agreeBeside_sortedFacts (clauses clauses' : List Clause) (neverNull neverNull' : Bool) :
    Facts.AgreeBeside isSortedSubject.signature.id (sortedFacts clauses neverNull)
      (sortedFacts clauses' neverNull') where
  signature? _ := rfl
  sideEffects _ := rfl
  contracts id hother := by
    have hne : id ≠ isSorted.id := hother
    simp only [sortedFacts, if_neg hne]
  neverNull id hother := by
    have hne : id ≠ isSorted.id := hother
    simp only [sortedFacts, if_neg hne]

/-- That `isSorted` never returns null, and fails whatever it is given, is not believed when its own
contracts are inferred. -/
theorem infer_ignores_itself_isSorted :
    Facts.AgreeBeside isSortedSubject.signature.id (sortedFacts [⟨⟨[.any]⟩, .fail⟩] true)
      (sortedFacts [] false) ∧
    isSortedSubject.infer (sortedFacts [⟨⟨[.any]⟩, .fail⟩] true) 4 sortedDescriptors =
      [⟨⟨[.null]⟩, .bool false⟩] := by
  have hagree := agreeBeside_sortedFacts [⟨⟨[.any]⟩, .fail⟩] [] true false
  refine ⟨hagree, (infer_ignores_itself hagree 4 sortedDescriptors).2.trans ?_⟩
  decide +kernel

end Subject

end MethodContracts
