import Mathlib.Data.List.Basic
import Mathlib.Data.List.Flatten
import MethodContracts.Expr.SideEffects
import MethodContracts.Proofs.Clause.Negation
import MethodContracts.Proofs.Descriptor.Leaves
import MethodContracts.Resolution

/-!
# Resolution leaf by leaf

Resolving a descriptor recurses through guards and negations; its result can be read off the
leaves. Each leaf contributes the clauses that it stands for by itself, as far as the negations
around it leave them, unless guards around it **suppress** them or it lies deeper than resolution
looks. The contributions are put together from left to right (`resolve_eq_flatMap_leaves`).

The induction follows the descriptor. What carries it is how the contribution of a leaf changes
when one more guard or negation is put around it, which takes one level of depth
(`contribution_under_guarded`, `contribution_under_negating`).
-/

namespace MethodContracts

/-- Whether guards keep what is behind them from counting: there are some, and the body is not
available, or one of them is not found there, or may have side effects. -/
def Subject.suppresses (facts : Facts) (m : Subject) (guards : List TextRange) : Bool :=
  !guards.isEmpty &&
    match m.body with
    | none => true
    | some body => guards.any fun guard =>
        match body.find? guard with
        | none => true
        | some e => facts.sideEffects e

theorem Subject.any_obstructs (facts : Facts) (m : Subject) (guards : List TextRange) :
    guards.any (m.obstructs facts) = m.suppresses facts guards := by
  obtain ⟨signature, body⟩ := m
  unfold suppresses obstructs
  cases body with
  | none => cases guards <;> simp
  | some body =>
      cases guards with
      | nil => rfl
      | cons guard guards =>
          simp only [List.isEmpty_cons, Bool.not_false, Bool.true_and, Option.bind_some]
          congr 1
          funext guard
          cases body.find? guard <;> rfl

namespace Descriptor

/-- The clauses that a leaf stands for by itself. -/
def Source.clauses (facts : Facts) (m : Subject) : Source → List Clause
  | .known clause => [clause]
  | .delegation call negated => m.delegate facts call negated
  | .nonNullCall call states => m.nonNullStates facts call states

namespace Leaf

/-- Whether guards around a leaf keep it from counting. -/
def suppressed (facts : Facts) (m : Subject) (l : Leaf) : Bool :=
  l.wrappers.any fun
    | .negating => false
    | .guarded guards => m.suppresses facts guards

/-- The clauses of a leaf, however deep it lies: none if it is suppressed, and otherwise what the
negations around it leave of its own. -/
def clauses (facts : Facts) (m : Subject) (l : Leaf) : List Clause :=
  if l.suppressed facts m then []
  else Clause.throughNegations l.negations (l.source.clauses facts m)

/-- What a leaf contributes when resolution looks through `maxDepth` levels. -/
def contribution (facts : Facts) (m : Subject) (maxDepth : Nat) (l : Leaf) : List Clause :=
  if maxDepth < l.depth then [] else l.clauses facts m

variable {facts : Facts} {m : Subject} {maxDepth : Nat} {l : Leaf}

@[simp] theorem suppressed_under_guarded (guards : List TextRange) :
    (l.under (.guarded guards)).suppressed facts m =
      (m.suppresses facts guards || l.suppressed facts m) :=
  rfl

@[simp] theorem suppressed_under_negating :
    (l.under .negating).suppressed facts m = l.suppressed facts m :=
  rfl

@[simp] theorem contribution_zero_under (w : Wrapper) :
    (l.under w).contribution facts m 0 = [] :=
  if_pos (Nat.succ_pos _)

theorem contribution_under_guarded (guards : List TextRange) :
    (l.under (.guarded guards)).contribution facts m (maxDepth + 1) =
      if m.suppresses facts guards then [] else l.contribution facts m maxDepth := by
  unfold contribution clauses
  rw [depth_under, suppressed_under_guarded, negations_under_guarded, source_under]
  cases m.suppresses facts guards <;> simp

theorem contribution_under_negating :
    (l.under .negating).contribution facts m (maxDepth + 1) =
      (l.contribution facts m maxDepth).filterMap Clause.negate? := by
  unfold contribution clauses
  rw [depth_under, suppressed_under_negating, negations_under_negating, source_under]
  by_cases hdeep : maxDepth < l.depth
  · rw [if_pos (Nat.succ_lt_succ hdeep), if_pos hdeep, List.filterMap_nil]
  · rw [if_neg (fun h => hdeep (Nat.lt_of_succ_lt_succ h)), if_neg hdeep]
    by_cases hsuppressed : l.suppressed facts m = true
    · rw [if_pos hsuppressed, if_pos hsuppressed, List.filterMap_nil]
    · rw [if_neg hsuppressed, if_neg hsuppressed, Clause.filterMap_negate?_throughNegations]

/-- Looking through more levels never takes away from a contribution. -/
theorem contribution_sublist {shallow deep : Nat} (h : shallow ≤ deep) :
    (l.contribution facts m shallow).Sublist (l.contribution facts m deep) := by
  unfold contribution
  by_cases hdeep : deep < l.depth
  · rw [if_pos hdeep, if_pos (Nat.lt_of_le_of_lt h hdeep)]
  · rw [if_neg hdeep]
    split
    · exact List.nil_sublist _
    · exact List.Sublist.refl _

theorem contribution_of_depth_le (h : l.depth ≤ maxDepth) :
    l.contribution facts m maxDepth = l.clauses facts m :=
  if_neg (Nat.not_lt.2 h)

/-! ### Leaves that count -/

/-- Whether a leaf counts when resolution looks through `maxDepth` levels: it lies no deeper, and
no guards around it suppress it. -/
def Counts (facts : Facts) (m : Subject) (maxDepth : Nat) (l : Leaf) : Prop :=
  l.depth ≤ maxDepth ∧ l.suppressed facts m = false

/-- All other leaves contribute nothing. -/
theorem contribution_of_not_counts (h : ¬l.Counts facts m maxDepth) :
    l.contribution facts m maxDepth = [] := by
  unfold contribution
  by_cases hdeep : maxDepth < l.depth
  · exact if_pos hdeep
  · have hsuppressed : l.suppressed facts m = true := by
      by_contra hfree
      exact h ⟨Nat.le_of_not_lt hdeep, Bool.eq_false_iff.2 hfree⟩
    rw [if_neg hdeep, clauses, if_pos hsuppressed]

theorem counts_of_wrappers_nil (source : Source) : Counts facts m maxDepth ⟨[], source⟩ :=
  ⟨Nat.zero_le _, rfl⟩

theorem Counts.under_guarded {guards : List TextRange} (h : l.Counts facts m maxDepth)
    (hfree : m.suppresses facts guards = false) :
    (l.under (.guarded guards)).Counts facts m (maxDepth + 1) := by
  refine ⟨Nat.succ_le_succ h.1, ?_⟩
  rw [suppressed_under_guarded, hfree, h.2, Bool.false_or]

theorem Counts.under_negating (h : l.Counts facts m maxDepth) :
    (l.under .negating).Counts facts m (maxDepth + 1) :=
  ⟨Nat.succ_le_succ h.1, h.2⟩

end Leaf

/-! ### Resolution -/

variable (facts : Facts) (m : Subject)

@[simp] theorem resolve_guarded_zero (guards : List TextRange) (inner : List Descriptor) :
    (guarded guards inner).resolve facts m 0 = [] := by
  rw [resolve]
  split <;> rfl

theorem resolve_guarded_succ (guards : List TextRange) (inner : List Descriptor) (depth : Nat) :
    (guarded guards inner).resolve facts m (depth + 1) =
      if m.suppresses facts guards then [] else inner.flatMap (resolve facts m depth) := by
  rw [resolve, Subject.any_obstructs, resolveAll_eq_flatMap]

@[simp] theorem resolve_negating_zero (inner : Descriptor) :
    (negating inner).resolve facts m 0 = [] := by
  rw [resolve]

theorem resolve_negating_succ (inner : Descriptor) (depth : Nat) :
    (negating inner).resolve facts m (depth + 1) =
      (inner.resolve facts m depth).filterMap Clause.negate? := by
  rw [resolve]

theorem resolve_eq_flatMap_leaves (d : Descriptor) (maxDepth : Nat) :
    d.resolve facts m maxDepth = d.leaves.flatMap (Leaf.contribution facts m maxDepth) := by
  induction d using induction_on_parts generalizing maxDepth with
  | known clause => simp [resolve, leaves, Leaf.contribution, Leaf.clauses, Leaf.depth,
      Leaf.suppressed, Leaf.negations, Source.clauses]
  | delegation call negated => simp [resolve, leaves, Leaf.contribution, Leaf.clauses,
      Leaf.depth, Leaf.suppressed, Leaf.negations, Source.clauses]
  | nonNullCall call states => simp [resolve, leaves, Leaf.contribution, Leaf.clauses,
      Leaf.depth, Leaf.suppressed, Leaf.negations, Source.clauses]
  | guarded guards inner ih =>
      rw [leaves, leavesAll_eq_flatMap, List.flatMap_map]
      cases maxDepth with
      | zero => simp
      | succ maxDepth =>
          -- guards suppress all leaves behind them or none
          simp only [resolve_guarded_succ, Leaf.contribution_under_guarded]
          by_cases hsup : m.suppresses facts guards = true
          · simp [hsup]
          · have hinner : inner.flatMap (resolve facts m maxDepth) =
                inner.flatMap fun d => d.leaves.flatMap (Leaf.contribution facts m maxDepth) :=
              List.flatMap_congr fun d hd => ih d hd maxDepth
            simp [hsup, hinner, List.flatMap_assoc]
  | negating inner ih =>
      rw [leaves, List.flatMap_map]
      cases maxDepth with
      | zero => simp
      | succ maxDepth =>
          rw [resolve_negating_succ, ih maxDepth, List.filterMap_flatMap]
          simp only [Leaf.contribution_under_negating]

/-- Levels of depth beyond the depth of the descriptor change nothing. -/
theorem resolve_of_depth_le {d : Descriptor} {maxDepth : Nat}
    (h : ∀ l ∈ d.leaves, l.depth ≤ maxDepth) :
    d.resolve facts m maxDepth = d.leaves.flatMap (Leaf.clauses facts m) := by
  rw [resolve_eq_flatMap_leaves]
  exact List.flatMap_congr fun l hl => Leaf.contribution_of_depth_le (h l hl)

/-- **Resolution means what its leaves say.** The clauses of a descriptor are the contributions of
its leaves from left to right: of each leaf, unless it lies too deep or is suppressed, its own
clauses, or behind negations those with a boolean outcome, flipped for an odd number of
negations. Looking through fewer levels only leaves clauses out, and looking through at least as
many as there are leaves out none. -/
theorem resolve_eq_contributions (d : Descriptor) :
    (∀ maxDepth, d.resolve facts m maxDepth =
      d.leaves.flatMap (Leaf.contribution facts m maxDepth)) ∧
    (∀ shallow deep, shallow ≤ deep →
      (d.resolve facts m shallow).Sublist (d.resolve facts m deep)) ∧
    ∀ maxDepth, d.depth ≤ maxDepth →
      d.resolve facts m maxDepth = d.leaves.flatMap (Leaf.clauses facts m) := by
  refine ⟨resolve_eq_flatMap_leaves facts m d, ?_, ?_⟩
  · intro shallow deep h
    rw [resolve_eq_flatMap_leaves, resolve_eq_flatMap_leaves]
    exact List.Sublist.flatMap_right _ fun l _ => Leaf.contribution_sublist h
  · intro maxDepth h
    exact resolve_of_depth_le facts m (depth_le_iff.1 h)

/-- Facts that know of no method. -/
def noMethods : Facts where
  signature? _ := none
  contracts _ := []
  neverNull _ := false
  sideEffects := Expr.hasSideEffects fun _ => false

/-- A method whose body consists of a literal and an assignment. -/
def literalAndAssignment : Subject where
  signature := ⟨⟨1⟩, "m", ["x"], false⟩
  body := some ⟨[.literal ⟨0, 4⟩ .null,
    .assignment ⟨5, 10⟩ (.literal ⟨5, 6⟩ .null) (.literal ⟨9, 10⟩ .null)]⟩

/-- A method that returns true for null. -/
def isNull : Signature := ⟨⟨2⟩, "isNull", ["y"], false⟩

/-- A method that never returns null. -/
def quote : Signature := ⟨⟨3⟩, "quote", ["y"], false⟩

/-- Facts that know of these two methods. -/
def twoMethods : Facts where
  signature? id := [isNull, quote].find? fun target => target.id = id
  contracts id := if id = isNull.id then [⟨⟨[.null]⟩, .bool true⟩] else []
  neverNull id := id = quote.id
  sideEffects := Expr.hasSideEffects fun _ => false

/-- A method whose body goes on with the calls `isNull(x)` and `quote(x)`. -/
def twoCalls : Subject where
  signature := literalAndAssignment.signature
  body := some ⟨[.literal ⟨0, 4⟩ .null,
    .assignment ⟨5, 10⟩ (.literal ⟨5, 6⟩ .null) (.literal ⟨9, 10⟩ .null),
    .ofCall ⟨11, 20⟩ ⟨"isNull", some isNull.id, none,
      [.reference ⟨18, 19⟩ "x" none (some (.parameter ⟨1⟩ 0))], false⟩,
    .ofCall ⟨21, 29⟩ ⟨"quote", some quote.id, none,
      [.reference ⟨27, 28⟩ "x" none (some (.parameter ⟨1⟩ 0))], false⟩]⟩

/-- Leaves of all kinds behind two negations, one negation, none, and guards that suppress. -/
def mixedTree : Descriptor :=
  .guarded [] [
    .negating (.guarded [⟨0, 4⟩] [
      .negating (.known ⟨⟨[.null]⟩, .bool true⟩),
      .known ⟨⟨[.nonNull]⟩, .bool false⟩,
      .known ⟨⟨[.any]⟩, .fail⟩,
      .delegation ⟨11, 20⟩ false]),
    .nonNullCall ⟨21, 29⟩ [⟨[.nonNull]⟩],
    .guarded [⟨5, 10⟩] [.known ⟨⟨[.any]⟩, .nonNull⟩, .delegation ⟨11, 20⟩ true]]

/-- What is inherited from `isNull` is flipped by the negation in front. With one level too few, the
leaf behind two negations is left out. -/
theorem resolve_eq_contributions_mixedTree :
    twoCalls.delegate twoMethods ⟨11, 20⟩ false = [⟨⟨[.null]⟩, .bool true⟩] ∧
    (mixedTree.resolve twoMethods twoCalls 3).Sublist (mixedTree.resolve twoMethods twoCalls 4) ∧
    mixedTree.resolve twoMethods twoCalls 3 =
      [⟨⟨[.nonNull]⟩, .bool true⟩, ⟨⟨[.null]⟩, .bool false⟩, ⟨⟨[.nonNull]⟩, .nonNull⟩] ∧
    mixedTree.resolve twoMethods twoCalls 4 =
      [⟨⟨[.null]⟩, .bool true⟩, ⟨⟨[.nonNull]⟩, .bool true⟩, ⟨⟨[.null]⟩, .bool false⟩,
        ⟨⟨[.nonNull]⟩, .nonNull⟩] := by
  obtain ⟨heq, hsub, hdepth⟩ := resolve_eq_contributions twoMethods twoCalls mixedTree
  refine ⟨by decide +kernel, hsub 3 4 (by decide), ?_, ?_⟩
  · rw [heq]
    decide +kernel
  · rw [hdepth 4 (by decide +kernel)]
    decide +kernel

end Descriptor

end MethodContracts
