import Mathlib.Logic.Relation
import MethodContracts.Expr.Locate

/-!
# Expressions within expressions

A body is a list of trees. `Expr.Within` says that one expression is another one or a part of it,
however deep, and `Body.Calls` that some call anywhere in a body is resolved to a method. What is
found by its range stands in the body (`Body.contains_of_find?`), so descriptors refer to calls
that the body makes (`Body.calls_of_callAt?`).
-/

namespace MethodContracts

namespace Expr

/-- Whether an expression is another one, or a part of it at any depth. -/
def Within : Expr → Expr → Prop := Relation.ReflTransGen fun c e => c ∈ e.children

variable {c d e : Expr} {r : TextRange}

theorem Within.of_mem_children (hd : d.Within c) (hc : c ∈ e.children) : d.Within e :=
  Relation.ReflTransGen.tail hd hc

theorem within_iff : d.Within e ↔ d = e ∨ ∃ c ∈ e.children, d.Within c := by
  unfold Within
  rw [Relation.ReflTransGen.cases_tail_iff, eq_comm]
  simp only [and_comm]

theorem within_of_find? (h : e.find? r = some d) : d.Within e := by
  induction e using induction_on_children with
  | step e ih =>
      rw [find?_eq] at h
      split at h
      · obtain rfl := Option.some.inj h
        exact Relation.ReflTransGen.refl
      · split at h
        · obtain ⟨c, hc, hd⟩ := List.exists_of_findSome?_eq_some h
          exact (ih c hc hd).of_mem_children hc
        · simp at h

end Expr

namespace Body

/-- Whether an expression stands somewhere in a body. -/
def Contains (b : Body) (e : Expr) : Prop := ∃ top ∈ b.expressions, e.Within top

/-- Whether some call in a body is resolved to a method. -/
def Calls (b : Body) (id : MethodId) : Prop :=
  ∃ e call, b.Contains e ∧ e.asCall? = some call ∧ call.target = some id

variable {b : Body} {r : TextRange}

theorem contains_of_find? {e : Expr} (h : b.find? r = some e) : b.Contains e := by
  unfold find? at h
  rw [Expr.findAmong?_eq] at h
  obtain ⟨top, htop, he⟩ := List.exists_of_findSome?_eq_some h
  exact ⟨top, htop, Expr.within_of_find? he⟩

theorem calls_of_callAt? {call : Call} {id : MethodId} (h : b.callAt? r = some call)
    (hid : call.target = some id) : b.Calls id := by
  obtain ⟨e, he, hcall⟩ := Option.bind_eq_some_iff.1 h
  exact ⟨e, call, contains_of_find? he, hcall, hid⟩

end Body

end MethodContracts
