import MethodContracts.Proofs.Expr.Within
import MethodContracts.Proofs.Session.Inference

/-!
# Which expressions may have side effects

Evaluating an expression may be observable if some expression **acts** in it: an assignment, a
construction, or a call that is not known to go to a pure method. `Session.Acts` says this of single
expressions. The judgment of a session looks through a whole expression, kind by kind, and finds
out whether something in it acts, at any depth (`Session.sideEffects_iff_acts_within`).

So nothing hides in a larger expression, and the more methods are known to be pure, the fewer
expressions are held to have side effects.
-/

namespace MethodContracts

namespace Expr

variable {pure pure' : MethodId → Bool} {d e : Expr}

/-- Side effects come from some expression that has them on its own account. -/
theorem hasSideEffects_iff :
    e.hasSideEffects pure = true ↔ ∃ d : Expr, d.Within e ∧ d.isImpure pure = true := by
  induction e using induction_on_children with
  | step e ih =>
      rw [hasSideEffects_eq, Bool.or_eq_true, List.any_eq_true]
      constructor
      · rintro (hself | ⟨c, hc, hpart⟩)
        · exact ⟨e, Relation.ReflTransGen.refl, hself⟩
        · obtain ⟨d, hd, himpure⟩ := (ih c hc).1 hpart
          exact ⟨d, hd.of_mem_children hc, himpure⟩
      · rintro ⟨d, hd, himpure⟩
        rcases within_iff.1 hd with rfl | ⟨c, hc, hd⟩
        · exact Or.inl himpure
        · exact Or.inr ⟨c, hc, (ih c hc).2 ⟨d, hd, himpure⟩⟩

theorem hasSideEffects_of_within (hd : d.Within e) (h : d.hasSideEffects pure = true) :
    e.hasSideEffects pure = true := by
  obtain ⟨c, hc, himpure⟩ := hasSideEffects_iff.1 h
  exact hasSideEffects_iff.2 ⟨c, hc.trans hd, himpure⟩

theorem isImpure_mono (hpure : ∀ id, pure id = true → pure' id = true)
    (h : d.isImpure pure' = true) : d.isImpure pure = true := by
  cases d with
  | construction | assignment => rfl
  | literal | reference | parenthesized | operation | function | other => exact h
  | call r name target receiver arguments varArgs =>
      cases target with
      | none => rfl
      | some id =>
          simp only [isImpure, Option.any_some, Bool.not_eq_true'] at h ⊢
          exact Bool.eq_false_iff.2 fun hid => Bool.eq_false_iff.1 h (hpure id hid)

/-- With fewer pure methods, no side effects are missed that were seen with more. -/
theorem hasSideEffects_mono (hpure : ∀ id, pure id = true → pure' id = true)
    (h : e.hasSideEffects pure' = true) : e.hasSideEffects pure = true := by
  obtain ⟨d, hd, himpure⟩ := hasSideEffects_iff.1 h
  exact hasSideEffects_iff.2 ⟨d, hd, isImpure_mono hpure himpure⟩

end Expr

namespace Session

variable {s s' : Session} {id : MethodId} {d : Expr}

/-- Whether an expression acts by itself, as far as a session knows. -/
inductive Acts (s : Session) : Expr → Prop where
  | assignment {r : TextRange} {target value : Expr} : Acts s (.assignment r target value)
  | construction {r : TextRange} {arguments : List Expr} : Acts s (.construction r arguments)
  /-- A call without a target. -/
  | unresolved {r : TextRange} {name : String} {receiver : Option Expr} {arguments : List Expr}
      {varArgs : Bool} : Acts s (.call r name none receiver arguments varArgs)
  /-- A call of a method that the session does not have. -/
  | unknown {r : TextRange} {name : String} {id : MethodId} {receiver : Option Expr}
      {arguments : List Expr} {varArgs : Bool} (h : ∀ m ∈ s.methods, m.id ≠ id) :
      Acts s (.call r name (some id) receiver arguments varArgs)
  /-- A call of a method that is not known to be pure. -/
  | impure {r : TextRange} {name : String} {id : MethodId} {receiver : Option Expr}
      {arguments : List Expr} {varArgs : Bool} {m : Method} (hm : m ∈ s.methods) (hid : m.id = id)
      (h : m.entry.isPure = false) : Acts s (.call r name (some id) receiver arguments varArgs)

/-- Whether the methods that are known to be pure in one session are in another one. -/
def KeepsPure (s s' : Session) : Prop :=
  ∀ m ∈ s.methods, m.entry.isPure = true →
    ∃ m' ∈ s'.methods, m'.id = m.id ∧ m'.entry.isPure = true

theorem isPure_eq_true_iff :
    s.isPure id = true ↔ ∃ m ∈ s.methods, m.id = id ∧ m.entry.isPure = true := by
  rw [isPure, Option.any_eq_true]
  constructor
  · rintro ⟨m, hm, hpure⟩
    obtain ⟨hmem, hid⟩ := method?_eq_some hm
    exact ⟨m, hmem, hid, hpure⟩
  · rintro ⟨m, hm, rfl, hpure⟩
    exact ⟨m, method?_of_mem hm, hpure⟩

theorem isPure_of_mem {m : Method} (hm : m ∈ s.methods) : s.isPure m.id = m.entry.isPure := by
  rw [isPure, method?_of_mem hm, Option.any_some]

theorem KeepsPure.isPure (h : s.KeepsPure s') (hid : s.isPure id = true) :
    s'.isPure id = true := by
  obtain ⟨m, hm, rfl, hpure⟩ := isPure_eq_true_iff.1 hid
  exact isPure_eq_true_iff.2 (h m hm hpure)

theorem isImpure_iff_acts : d.isImpure s.isPure = true ↔ s.Acts d := by
  constructor
  · intro h
    cases d with
    | construction => exact .construction
    | assignment => exact .assignment
    | literal | reference | parenthesized | operation | function | other => cases h
    | call r name target receiver arguments varArgs =>
        cases target with
        | none => exact .unresolved
        | some id =>
            have hid : s.isPure id = false := by simpa [Expr.isImpure] using h
            by_cases hknown : ∃ m ∈ s.methods, m.id = id
            · obtain ⟨m, hm, rfl⟩ := hknown
              exact .impure hm rfl (isPure_of_mem hm ▸ hid)
            · exact .unknown fun m hm heq => hknown ⟨m, hm, heq⟩
  · intro h
    cases h with
    | assignment | construction | unresolved => rfl
    | @unknown _ _ id _ _ _ hunknown =>
        have hid : ¬s.isPure id = true := by
          rw [isPure_eq_true_iff]
          rintro ⟨m, hm, heq, -⟩
          exact hunknown m hm heq
        simpa [Expr.isImpure] using hid
    | impure hm hid hpure =>
        rw [← isPure_of_mem hm, hid] at hpure
        simpa [Expr.isImpure] using hpure

/-- **An expression may have side effects just when something acts in it.** If a part of it may have
them, so may the whole; and if more methods are known to be pure, it may have them only if it might
before. -/
theorem sideEffects_iff_acts_within (s : Session) (found : Results) (e : Expr) :
    ((s.facts found).sideEffects e = true ↔ ∃ d : Expr, d.Within e ∧ s.Acts d) ∧
    (∀ d : Expr, d.Within e → (s.facts found).sideEffects d = true →
      (s.facts found).sideEffects e = true) ∧
    ∀ (s' : Session) (found' : Results), s.KeepsPure s' →
      (s'.facts found').sideEffects e = true → (s.facts found).sideEffects e = true := by
  refine ⟨?_, fun d => Expr.hasSideEffects_of_within, fun s' found' hkeeps => ?_⟩
  · show e.hasSideEffects s.isPure = true ↔ _
    simp only [Expr.hasSideEffects_iff, isImpure_iff_acts]
  · exact Expr.hasSideEffects_mono fun _ => hkeeps.isPure

/-- A session with the pure method `length` and the method `record`, which may be pure too. -/
def lengthAndRecord (recordIsPure : Bool) : Session where
  methods := [
    ⟨⟨⟨⟨1⟩, "length", ["s"], false⟩, none, false, true, none, []⟩, none⟩,
    ⟨⟨⟨⟨2⟩, "record", ["s"], false⟩, none, false, recordIsPure, none, []⟩, none⟩]
  nodup_ids := by simp [Method.id]

/-- The call `record(s)`. -/
def recordCall : Expr :=
  .call ⟨11, 20⟩ "record" (some ⟨2⟩) none [.reference ⟨18, 19⟩ "s" none none] false

/-- The expression `length(new Box(record(s)))`, without the name of the class. -/
def lengthOfBox : Expr :=
  .call ⟨0, 22⟩ "length" (some ⟨1⟩) none [.construction ⟨7, 21⟩ [recordCall]] false

/-- The call of `record` acts until `record` is known to be pure, and the construction around it
acts in any case. -/
theorem sideEffects_iff_acts_within_lengthOfBox :
    recordCall.Within lengthOfBox ∧ (lengthAndRecord false).KeepsPure (lengthAndRecord true) ∧
    ((lengthAndRecord false).facts []).sideEffects recordCall = true ∧
    ((lengthAndRecord true).facts []).sideEffects recordCall = false ∧
    ((lengthAndRecord true).facts []).sideEffects lengthOfBox = true ∧
    ((lengthAndRecord false).facts []).sideEffects lengthOfBox = true := by
  have hconstruction : Expr.Within (.construction ⟨7, 21⟩ [recordCall]) lengthOfBox :=
    .single List.mem_cons_self
  have hwithin : recordCall.Within lengthOfBox := hconstruction.head List.mem_cons_self
  have hkeeps : (lengthAndRecord false).KeepsPure (lengthAndRecord true) := by
    intro m hm hpure
    simp only [lengthAndRecord, List.mem_cons, List.not_mem_nil, or_false] at hm
    rcases hm with rfl | rfl
    · exact ⟨_, List.mem_cons_self, rfl, rfl⟩
    · exact absurd hpure Bool.false_ne_true
  have hcall : ((lengthAndRecord false).facts []).sideEffects recordCall = true :=
    ((sideEffects_iff_acts_within _ [] recordCall).1).2
      ⟨recordCall, .refl, .impure (List.mem_cons_of_mem _ List.mem_cons_self) rfl rfl⟩
  have hpure : ((lengthAndRecord true).facts []).sideEffects recordCall = false := by
    decide +kernel
  obtain ⟨-, hparts, -⟩ := sideEffects_iff_acts_within (lengthAndRecord true) [] lengthOfBox
  have hbox : ((lengthAndRecord true).facts []).sideEffects lengthOfBox = true :=
    hparts _ hconstruction (by decide +kernel)
  obtain ⟨-, -, hmore⟩ := sideEffects_iff_acts_within (lengthAndRecord false) [] lengthOfBox
  exact ⟨hwithin, hkeeps, hcall, hpure, hbox, hmore _ [] hkeeps hbox⟩

end Session

end MethodContracts
