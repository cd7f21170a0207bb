import MethodContracts.Proofs.Expr.Within

/-!
# What the search for a range finds

An occurrence is an expression of a body together with the expressions around it. The occurrences
in a body stand in source order, an expression before its parts. Looking up a range does not look
into expressions that have no room for it, so it finds the first occurrence of the range that can
be **reached**, in that everything around it encloses the range (`Expr.find?_eq_find?_occurrences`).

In bodies as a front end reads them, parts lie within what they are parts of. There every
occurrence of a range can be reached, and nothing is lost by not looking further
(`find?_eq_first_reached`).
-/

namespace MethodContracts

/-- Searches that treat each member of a list alike find the same in it. -/
theorem findSome?_congr {α β : Type} {f g : α → Option β} {xs : List α}
    (h : ∀ x ∈ xs, f x = g x) : xs.findSome? f = xs.findSome? g := by
  induction xs with
  | nil => rfl
  | cons x xs ih =>
      rw [List.findSome?_cons, List.findSome?_cons, h x List.mem_cons_self,
        ih fun y hy => h y (List.mem_cons_of_mem x hy)]

namespace TextRange

theorem encloses_refl (r : TextRange) : r.encloses r = true := by
  simp [encloses]

theorem encloses_trans {a b c : TextRange} (hab : a.encloses b = true)
    (hbc : b.encloses c = true) : a.encloses c = true := by
  simp only [encloses, Bool.and_eq_true, decide_eq_true_eq] at hab hbc ⊢
  exact ⟨UInt32.le_trans hab.1 hbc.1, UInt32.le_trans hbc.2 hab.2⟩

end TextRange

/-- An expression in its place. -/
structure Occurrence where
  /-- The expressions that it is a part of, the outermost first. -/
  ancestors : List Expr
  /-- The expression. -/
  node : Expr

namespace Occurrence

/-- The same occurrence, seen from one level further out. -/
def under (e : Expr) (o : Occurrence) : Occurrence := { o with ancestors := e :: o.ancestors }

/-- Whether an expression has exactly a range, and all expressions around it enclose that range. -/
def isReached (r : TextRange) (o : Occurrence) : Bool :=
  o.node.range = r && o.ancestors.all fun a => a.range.encloses r

theorem isReached_under (r : TextRange) (e : Expr) (o : Occurrence) :
    (o.under e).isReached r = (e.range.encloses r && o.isReached r) := by
  simp only [isReached, under, List.all_cons]
  exact Bool.and_left_comm _ _ _

end Occurrence

namespace Expr

/-- The occurrences in an expression, in source order: the expression itself, then those in its
parts. -/
def occurrences (e : Expr) : List Occurrence :=
  ⟨[], e⟩ :: (e.children.attach.flatMap fun ⟨c, _hc⟩ => occurrences c).map (Occurrence.under e)
termination_by sizeOf e
decreasing_by exact sizeOf_lt_of_mem_children _hc

theorem occurrences_eq (e : Expr) :
    e.occurrences = ⟨[], e⟩ :: (e.children.flatMap occurrences).map (Occurrence.under e) := by
  rw [occurrences, List.flatMap_subtype fun _ _ => rfl, List.unattach_attach]

/-- The expression and its parts at any depth, in source order. -/
def preorder (e : Expr) : List Expr := e.occurrences.map Occurrence.node

theorem preorder_eq (e : Expr) : e.preorder = e :: e.children.flatMap preorder := by
  rw [preorder, occurrences_eq, List.map_cons, List.map_map, List.map_flatMap]
  rfl

/-- **The search finds the first occurrence that it can reach.** -/
theorem find?_eq_find?_occurrences (r : TextRange) (e : Expr) :
    e.find? r = (e.occurrences.find? (Occurrence.isReached r)).map Occurrence.node := by
  induction e using induction_on_children with
  | step e ih =>
      rw [find?_eq, occurrences_eq, List.find?_cons]
      by_cases hrange : e.range = r
      · simp [hrange, Occurrence.isReached]
      · have hself : Occurrence.isReached r ⟨[], e⟩ = false := by
          simp [hrange, Occurrence.isReached]
        rw [if_neg hrange, hself, List.find?_map]
        by_cases hroom : e.range.encloses r = true
        · -- what can be reached in a part can be reached in the expression
          have hsame : Occurrence.isReached r ∘ Occurrence.under e = Occurrence.isReached r := by
            funext o
            rw [Function.comp_apply, Occurrence.isReached_under, hroom, Bool.true_and]
          rw [if_pos hroom, hsame, Option.map_map, List.find?_flatMap, List.map_findSome?]
          exact findSome?_congr ih
        · have hnothing : Occurrence.isReached r ∘ Occurrence.under e = fun _ => false := by
            funext o
            rw [Function.comp_apply, Occurrence.isReached_under, Bool.eq_false_iff.2 hroom,
              Bool.false_and]
          rw [if_neg hroom, hnothing, List.find?_eq_none.2 fun _ _ => Bool.false_ne_true]
          rfl

/-- Whether in an expression, at any depth, parts lie within what they are parts of. -/
def Nested (e : Expr) : Prop :=
  ∀ d : Expr, d.Within e → ∀ c ∈ d.children, d.range.encloses c.range = true

theorem nested_iff {e : Expr} :
    e.Nested ↔ ∀ c ∈ e.children, e.range.encloses c.range = true ∧ c.Nested := by
  constructor
  · intro h c hc
    exact ⟨h e Relation.ReflTransGen.refl c hc, fun _ hd => h _ (hd.of_mem_children hc)⟩
  · intro h d hd
    rcases within_iff.1 hd with rfl | ⟨c, hc, hd⟩
    · exact fun c hc => (h c hc).1
    · exact (h c hc).2 d hd

/-- In a nested expression, the expression and everything around an occurrence enclose it. -/
theorem Nested.encloses {e : Expr} (h : e.Nested) : ∀ o ∈ e.occurrences,
    e.range.encloses o.node.range = true ∧
      ∀ a ∈ o.ancestors, a.range.encloses o.node.range = true := by
  induction e using induction_on_children with
  | step e ih =>
      intro o ho
      rw [occurrences_eq] at ho
      rcases List.mem_cons.1 ho with rfl | ho
      · exact ⟨TextRange.encloses_refl _, fun a ha => absurd ha List.not_mem_nil⟩
      · obtain ⟨inner, hinner, rfl⟩ := List.mem_map.1 ho
        obtain ⟨c, hc, hinner⟩ := List.mem_flatMap.1 hinner
        obtain ⟨hlies, hnested⟩ := nested_iff.1 h c hc
        obtain ⟨hnode, hancestors⟩ := ih c hc hnested inner hinner
        have hself : e.range.encloses inner.node.range = true :=
          TextRange.encloses_trans hlies hnode
        exact ⟨hself, List.forall_mem_cons.2 ⟨hself, hancestors⟩⟩

end Expr

namespace Body

/-- The occurrences in a body, in source order. -/
def occurrences (b : Body) : List Occurrence := b.expressions.flatMap Expr.occurrences

/-- The expressions of a body and their parts at any depth, in source order. -/
def preorder (b : Body) : List Expr := b.expressions.flatMap Expr.preorder

theorem preorder_eq_map_occurrences (b : Body) :
    b.preorder = b.occurrences.map Occurrence.node :=
  List.map_flatMap.symm

/-- Whether everywhere in a body parts lie within what they are parts of. -/
def Nested (b : Body) : Prop := ∀ e ∈ b.expressions, e.Nested

variable {b : Body} {r : TextRange}

theorem find?_eq_find?_occurrences (b : Body) (r : TextRange) :
    b.find? r = (b.occurrences.find? (Occurrence.isReached r)).map Occurrence.node := by
  rw [find?, Expr.findAmong?_eq, occurrences, List.find?_flatMap, List.map_findSome?]
  exact findSome?_congr fun e _ => e.find?_eq_find?_occurrences r

/-- In a nested body, every occurrence of a range is reached. -/
theorem Nested.isReached (h : b.Nested) : ∀ o ∈ b.occurrences,
    o.isReached r = decide (o.node.range = r) := by
  intro o ho
  obtain ⟨e, he, ho⟩ := List.mem_flatMap.1 ho
  have hancestors := ((h e he).encloses o ho).2
  rw [Occurrence.isReached]
  by_cases hrange : o.node.range = r
  · subst hrange
    simpa using hancestors
  · simp [hrange]

/-- In a nested body, the search finds the first expression with the range. -/
theorem Nested.find?_eq (h : b.Nested) (r : TextRange) :
    b.find? r = b.preorder.find? fun e => e.range = r := by
  rw [find?_eq_find?_occurrences, preorder_eq_map_occurrences, List.find?_map,
    List.find?_eq_findSome?_guard, List.find?_eq_findSome?_guard]
  congr 1
  refine findSome?_congr fun o ho => ?_
  simp only [Option.guard, h.isReached o ho, Function.comp_apply]

/-- **Looking up a range finds its first occurrence that can be reached**, if there is one, and
nothing otherwise. In a nested body this is the first occurrence of the range at all, so an
expression is found by its range unless an earlier one has the same range. -/
theorem find?_eq_first_reached (b : Body) (r : TextRange) :
    b.find? r = (b.occurrences.find? (Occurrence.isReached r)).map Occurrence.node ∧
    (b.Nested →
      (b.find? r = b.preorder.find? fun e => e.range = r) ∧
      ∀ (i : Nat) (e : Expr), b.preorder[i]? = some e →
        (∀ j < i, ∀ d : Expr, b.preorder[j]? = some d → d.range ≠ e.range) →
        b.find? e.range = some e) := by
  refine ⟨find?_eq_find?_occurrences b r, fun h => ⟨h.find?_eq r, fun i e he hfirst => ?_⟩⟩
  obtain ⟨hi, rfl⟩ := List.getElem?_eq_some_iff.1 he
  rw [h.find?_eq, List.find?_eq_some_iff_getElem]
  refine ⟨decide_eq_true rfl, i, hi, rfl, fun j hj => ?_⟩
  have hne := hfirst j hj _ (List.getElem?_eq_getElem (Nat.lt_trans hj hi))
  simpa using hne

/-- The expression `f((x), null)`, with the second argument at the range of the name `x`. -/
def repeatedRange : Body := ⟨[
  .call ⟨0, 10⟩ "f" none none [
    .parenthesized ⟨2, 5⟩ (.reference ⟨3, 4⟩ "x" none none), .literal ⟨3, 4⟩ .null] false]⟩

/-- Of two expressions with the same range, the first is found. -/
theorem find?_eq_first_reached_repeatedRange :
    repeatedRange.Nested ∧
      repeatedRange.preorder[2]? = some (.reference ⟨3, 4⟩ "x" none none) ∧
      repeatedRange.find? ⟨3, 4⟩ = some (.reference ⟨3, 4⟩ "x" none none) := by
  have hname : (Expr.reference ⟨3, 4⟩ "x" none none).Nested :=
    Expr.nested_iff.2 fun c hc => absurd hc List.not_mem_nil
  have hnull : (Expr.literal ⟨3, 4⟩ .null).Nested :=
    Expr.nested_iff.2 fun c hc => absurd hc List.not_mem_nil
  have hparenthesized :
      (Expr.parenthesized ⟨2, 5⟩ (.reference ⟨3, 4⟩ "x" none none)).Nested :=
    Expr.nested_iff.2 (List.forall_mem_singleton.2 ⟨by decide, hname⟩)
  have hnested : repeatedRange.Nested :=
    List.forall_mem_singleton.2 (Expr.nested_iff.2 (List.forall_mem_cons.2
      ⟨⟨by decide, hparenthesized⟩, List.forall_mem_singleton.2 ⟨by decide, hnull⟩⟩))
  have hpreorder : repeatedRange.preorder = [
      .call ⟨0, 10⟩ "f" none none [
        .parenthesized ⟨2, 5⟩ (.reference ⟨3, 4⟩ "x" none none), .literal ⟨3, 4⟩ .null] false,
      .parenthesized ⟨2, 5⟩ (.reference ⟨3, 4⟩ "x" none none),
      .reference ⟨3, 4⟩ "x" none none, .literal ⟨3, 4⟩ .null] := by
    simp [repeatedRange, preorder, Expr.preorder_eq, Expr.children]
  have hfound : repeatedRange.preorder[2]? = some (.reference ⟨3, 4⟩ "x" none none) := by
    rw [hpreorder]
    rfl
  refine ⟨hnested, hfound,
    ((find?_eq_first_reached repeatedRange ⟨3, 4⟩).2 hnested).2 2 _ hfound ?_⟩
  rw [hpreorder]
  intro j hj d hd
  obtain rfl | rfl : j = 0 ∨ j = 1 := by omega
  · obtain rfl := Option.some.inj hd
    decide
  · obtain rfl := Option.some.inj hd
    decide

/-- An expression that sticks out of what it is a part of is passed over. -/
example : Body.find? ⟨[.other ⟨0, 3⟩ [.literal ⟨5, 9⟩ .null], .function ⟨5, 9⟩]⟩ ⟨5, 9⟩ =
    some (.function ⟨5, 9⟩) := rfl

end Body

end MethodContracts
