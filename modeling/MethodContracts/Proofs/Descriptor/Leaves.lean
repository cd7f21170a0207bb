import MethodContracts.Descriptor

/-!
# The leaves of a descriptor

A descriptor is a tree: negations and guards around parts that describe clauses by themselves.
`Descriptor.leaves` lists these parts from left to right, each with what stands around it, and so
turns the tree into data that can be spoken about one part at a time. The depth of a descriptor
is the greatest number of negations and guards around one of its leaves.
-/

namespace MethodContracts

namespace Descriptor

/-- To prove something of all descriptors, prove it of each assuming it of its parts. -/
@[elab_as_elim]
theorem induction_on_parts {motive : Descriptor → Prop}
    (known : ∀ clause, motive (.known clause))
    (delegation : ∀ call negated, motive (.delegation call negated))
    (guarded : ∀ guards inner, (∀ d ∈ inner, motive d) → motive (.guarded guards inner))
    (negating : ∀ inner, motive inner → motive (.negating inner))
    (nonNullCall : ∀ call states, motive (.nonNullCall call states)) (d : Descriptor) :
    motive d := by
  refine Descriptor.rec (motive_1 := motive) (motive_2 := fun ds => ∀ d ∈ ds, motive d)
    known delegation guarded negating nonNullCall ?_ ?_ d
  · intro d hd
    exact absurd hd List.not_mem_nil
  · intro d ds hhead htail e he
    rcases List.mem_cons.1 he with rfl | hmem
    · exact hhead
    · exact htail e hmem

/-- What stands around a part of a descriptor. -/
inductive Wrapper where
  /-- The part is negated. -/
  | negating
  /-- The part holds if none of these expressions has side effects. -/
  | guarded (guards : List TextRange)
  deriving DecidableEq, Repr

/-- A part of a descriptor that describes clauses by itself. -/
inductive Source where
  /-- A clause that is stated in the source. -/
  | known (clause : Clause)
  /-- A call whose result the method returns, or the negation of it. -/
  | delegation (call : TextRange) (negated : Bool)
  /-- States in which the method returns something not null because this call does. -/
  | nonNullCall (call : TextRange) (states : List Domain)
  deriving DecidableEq, Repr

/-- A part that describes clauses by itself, in its place. -/
structure Leaf where
  /-- What stands around it, the outermost first. -/
  wrappers : List Wrapper
  /-- The part. -/
  source : Source
  deriving DecidableEq, Repr

namespace Leaf

/-- The same leaf, seen from one level further out. -/
def under (w : Wrapper) (l : Leaf) : Leaf := { l with wrappers := w :: l.wrappers }

/-- The number of negations and guards around a leaf. -/
def depth (l : Leaf) : Nat := l.wrappers.length

/-- The number of negations around a leaf. -/
def negations (l : Leaf) : Nat := l.wrappers.count .negating

@[simp] theorem depth_under (w : Wrapper) (l : Leaf) : (l.under w).depth = l.depth + 1 := rfl

@[simp] theorem source_under (w : Wrapper) (l : Leaf) : (l.under w).source = l.source := rfl

@[simp] theorem negations_under_negating (l : Leaf) :
    (l.under .negating).negations = l.negations + 1 :=
  List.count_cons_self

@[simp] theorem negations_under_guarded (guards : List TextRange) (l : Leaf) :
    (l.under (.guarded guards)).negations = l.negations :=
  List.count_cons_of_ne (by simp)

end Leaf

mutual

/-- The leaves of a descriptor, from left to right. -/
def leaves : Descriptor → List Leaf
  | known clause => [⟨[], .known clause⟩]
  | delegation call negated => [⟨[], .delegation call negated⟩]
  | guarded guards inner => (leavesAll inner).map (Leaf.under (.guarded guards))
  | negating inner => (leaves inner).map (Leaf.under .negating)
  | nonNullCall call states => [⟨[], .nonNullCall call states⟩]

/-- The leaves of a list of descriptors. -/
def leavesAll : List Descriptor → List Leaf
  | [] => []
  | d :: ds => leaves d ++ leavesAll ds

end

theorem leavesAll_eq_flatMap (ds : List Descriptor) : leavesAll ds = ds.flatMap leaves := by
  induction ds with
  | nil => rfl
  | cons d ds ih => rw [leavesAll, ih, List.flatMap_cons]

/-- A leaf behind guards is a leaf of one of the descriptors behind them. -/
theorem mem_leaves_guarded {guards : List TextRange} {inner : List Descriptor} {l : Leaf} :
    l ∈ (guarded guards inner).leaves ↔
      ∃ d ∈ inner, ∃ l' ∈ d.leaves, l'.under (.guarded guards) = l := by
  rw [leaves, leavesAll_eq_flatMap]
  simp only [List.mem_map, List.mem_flatMap]
  constructor
  · rintro ⟨l', ⟨d, hd, hl'⟩, rfl⟩
    exact ⟨d, hd, l', hl', rfl⟩
  · rintro ⟨d, hd, l', hl', rfl⟩
    exact ⟨l', ⟨d, hd, hl'⟩, rfl⟩

theorem mem_leaves_negating {inner : Descriptor} {l : Leaf} :
    l ∈ (negating inner).leaves ↔ ∃ l' ∈ inner.leaves, l'.under .negating = l := by
  rw [leaves, List.mem_map]

/-- The greatest number of negations and guards around a leaf. -/
def depth (d : Descriptor) : Nat := (d.leaves.map Leaf.depth).foldr max 0

theorem depth_le_iff {d : Descriptor} {n : Nat} : d.depth ≤ n ↔ ∀ l ∈ d.leaves, l.depth ≤ n := by
  unfold depth
  induction d.leaves with
  | nil => simp
  | cons l ls ih => rw [List.map_cons, List.foldr_cons, Nat.max_le, ih, List.forall_mem_cons]

theorem leafDepth_le {d : Descriptor} {l : Leaf} (h : l ∈ d.leaves) : l.depth ≤ d.depth :=
  depth_le_iff.1 (Nat.le_refl _) l h

end Descriptor

end MethodContracts
