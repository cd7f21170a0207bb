import Mathlib.Order.Defs.Unbundled
import MethodContracts.Proofs.Domain.Difference

/-!
# Domains in order of inclusion

A domain is determined by the argument lists that it admits (`Domain.eq_of_admits_iff`), so the laws
of covering and meeting are those of inclusion and intersection: covering is a partial order, and a
meet is the greatest domain that two domains both cover.

Two domains without a common argument list have no meet. Laws of meeting are therefore equations
between domains that may be missing, and these are determined by what they admit as well: every
domain admits something, so only a missing one admits nothing (`Domain.eq_of_admittedBy_iff`).
-/

namespace MethodContracts

namespace Domain

variable {a b c : Domain} {o o' : Option Domain} {args : List Value}

/-- Domains are determined by the argument lists that they admit. -/
theorem eq_of_admits_iff (h : ∀ args, a.Admits args ↔ b.Admits args) : a = b := by
  obtain ⟨as⟩ := a
  obtain ⟨bs⟩ := b
  exact congrArg Domain.mk (Constraint.eq_of_admitAll_iff h)

/-! ### Domains that may be missing -/

/-- Whether there is a domain and it admits an argument list. -/
def AdmittedBy (o : Option Domain) (args : List Value) : Prop := ∃ d ∈ o, d.Admits args

@[simp] theorem not_admittedBy_none : ¬AdmittedBy none args := by
  simp [AdmittedBy]

@[simp] theorem admittedBy_some : AdmittedBy (some a) args ↔ a.Admits args := by
  simp [AdmittedBy]

theorem exists_admittedBy_some (a : Domain) : ∃ args, AdmittedBy (some a) args := by
  obtain ⟨args, hargs⟩ := a.exists_admits
  exact ⟨args, admittedBy_some.2 hargs⟩

theorem eq_of_admittedBy_iff (h : ∀ args, AdmittedBy o args ↔ AdmittedBy o' args) : o = o' := by
  cases o with
  | none =>
      cases o' with
      | none => rfl
      | some b =>
          obtain ⟨args, hargs⟩ := exists_admittedBy_some b
          exact absurd ((h args).2 hargs) not_admittedBy_none
  | some a =>
      cases o' with
      | none =>
          obtain ⟨args, hargs⟩ := exists_admittedBy_some a
          exact absurd ((h args).1 hargs) not_admittedBy_none
      | some b =>
          simp only [admittedBy_some] at h
          rw [eq_of_admits_iff h]

/-! ### Meets -/

@[simp] theorem admittedBy_meet? :
    AdmittedBy (a.meet? b) args ↔ a.Admits args ∧ b.Admits args := by
  cases hm : a.meet? b with
  | none =>
      have hno : a.overlaps b = false := by rw [overlaps, hm, Option.isSome_none]
      have hnone : ¬∃ args, a.Admits args ∧ b.Admits args := by
        rw [← overlaps_iff, hno]
        exact Bool.false_ne_true
      exact ⟨fun h => absurd h not_admittedBy_none, fun h => absurd ⟨args, h⟩ hnone⟩
  | some c => rw [admittedBy_some, admits_of_meet? hm]

theorem admittedBy_bind_meet? :
    AdmittedBy (o.bind a.meet?) args ↔ a.Admits args ∧ AdmittedBy o args := by
  cases o with
  | none => simp
  | some b => simp

/-- A meet admits what both domains admit, and is the only domain that does. -/
theorem meet?_eq_some_iff :
    a.meet? b = some c ↔ ∀ args, c.Admits args ↔ a.Admits args ∧ b.Admits args := by
  refine ⟨admits_of_meet?, fun h => eq_of_admittedBy_iff fun args => ?_⟩
  rw [admittedBy_meet?, admittedBy_some, h args]

theorem meet?_eq_none_iff : a.meet? b = none ↔ ¬∃ args, a.Admits args ∧ b.Admits args := by
  rw [← overlaps_iff, overlaps, Option.isSome_iff_ne_none, not_not]

theorem meet?_comm (a b : Domain) : a.meet? b = b.meet? a :=
  eq_of_admittedBy_iff fun args => by rw [admittedBy_meet?, admittedBy_meet?, and_comm]

@[simp] theorem meet?_self (a : Domain) : a.meet? a = some a :=
  meet?_eq_some_iff.2 fun _ => and_self_iff.symm

theorem meet?_assoc (a b c : Domain) :
    ((a.meet? b).bind fun d => d.meet? c) = (b.meet? c).bind fun d => a.meet? d := by
  have hcomm : (fun d : Domain => d.meet? c) = c.meet? := funext fun d => meet?_comm d c
  refine eq_of_admittedBy_iff fun args => ?_
  rw [hcomm, admittedBy_bind_meet?, admittedBy_bind_meet?, admittedBy_meet?, admittedBy_meet?,
    and_comm, and_assoc]

/-! ### The order -/

theorem covers_refl (a : Domain) : a.covers a = true :=
  covers_iff.2 fun _ => id

theorem covers_antisymm (hab : a.covers b = true) (hba : b.covers a = true) : a = b :=
  eq_of_admits_iff fun args => ⟨covers_iff.1 hba args, covers_iff.1 hab args⟩

theorem isPartialOrder_covers : IsPartialOrder Domain fun a b => a.covers b = true where
  refl := covers_refl
  trans _ _ _ := covers_trans
  antisymm _ _ := covers_antisymm

/-- A meet covers exactly the domains that both domains cover. -/
theorem covers_iff_of_meet? (h : a.meet? b = some c) (d : Domain) :
    c.covers d = true ↔ a.covers d = true ∧ b.covers d = true := by
  simp only [covers_iff, admits_of_meet? h]
  exact ⟨fun hd => ⟨fun args hargs => (hd args hargs).1, fun args hargs => (hd args hargs).2⟩,
    fun hd args hargs => ⟨hd.1 args hargs, hd.2 args hargs⟩⟩

/-- Domains that both cover some domain have a meet. -/
theorem exists_meet?_of_covers {d : Domain} (ha : a.covers d = true) (hb : b.covers d = true) :
    ∃ c, a.meet? b = some c := by
  obtain ⟨args, hargs⟩ := d.exists_admits
  rw [← Option.ne_none_iff_exists', ne_eq, meet?_eq_none_iff, not_not]
  exact ⟨args, covers_iff.1 ha args hargs, covers_iff.1 hb args hargs⟩

/-- **A meet is a greatest lower bound**, and a domain that is one is the meet. -/
theorem meet?_eq_some_iff_covers : a.meet? b = some c ↔
    ∀ d, c.covers d = true ↔ a.covers d = true ∧ b.covers d = true := by
  refine ⟨covers_iff_of_meet?, fun h => ?_⟩
  obtain ⟨hac, hbc⟩ := (h c).1 (covers_refl c)
  obtain ⟨m, hm⟩ := exists_meet?_of_covers hac hbc
  have hcm : c.covers m = true := (h m).2 ((covers_iff_of_meet? hm m).1 (covers_refl m))
  have hmc : m.covers c = true := (covers_iff_of_meet? hm c).2 ⟨hac, hbc⟩
  rw [hm, covers_antisymm hmc hcm]

theorem meet?_eq_none_iff_covers :
    a.meet? b = none ↔ ∀ d, ¬(a.covers d = true ∧ b.covers d = true) := by
  constructor
  · rintro hnone d ⟨ha, hb⟩
    obtain ⟨c, hc⟩ := exists_meet?_of_covers ha hb
    exact Option.some_ne_none c (hc.symm.trans hnone)
  · intro h
    rw [Option.eq_none_iff_forall_ne_some]
    intro c hc
    exact h c ((covers_iff_of_meet? hc c).1 (covers_refl c))

/-- Domains over different numbers of parameters have nothing to do with each other. -/
theorem meet?_of_arity_ne (h : a.arity ≠ b.arity) : a.meet? b = none ∧ a.covers b = false := by
  refine ⟨meet?_eq_none_iff.2 ?_, ?_⟩
  · rintro ⟨args, ha, hb⟩
    exact h ((length_of_admits ha).symm.trans (length_of_admits hb))
  · exact Bool.eq_false_iff.2 fun hcov => h (arity_eq_of_covers hcov)

/-- **The operations on domains are those on sets of argument lists**: a meet is the intersection,
and missing if that is empty; overlapping is having a meet; covering is inclusion; and domains with
the same argument lists are the same. So covering is a partial order, in which meets are greatest
lower bounds, and meeting is commutative, associative and idempotent. -/
theorem operations_exact :
    (∀ a b : Domain,
      (∀ c, a.meet? b = some c ↔ ∀ args, c.Admits args ↔ a.Admits args ∧ b.Admits args) ∧
      (a.meet? b = none ↔ ¬∃ args, a.Admits args ∧ b.Admits args) ∧
      (a.overlaps b = false ↔ a.meet? b = none) ∧
      (a.covers b = true ↔ ∀ args, b.Admits args → a.Admits args) ∧
      (a = b ↔ ∀ args, a.Admits args ↔ b.Admits args) ∧
      (a.arity ≠ b.arity → a.meet? b = none ∧ a.covers b = false)) ∧
    IsPartialOrder Domain (fun a b => a.covers b = true) ∧
    ∀ a b c : Domain,
      (a.meet? b = some c ↔ ∀ d, c.covers d = true ↔ a.covers d = true ∧ b.covers d = true) ∧
      (a.meet? b = none ↔ ∀ d, ¬(a.covers d = true ∧ b.covers d = true)) ∧
      a.meet? b = b.meet? a ∧
      ((a.meet? b).bind fun d => d.meet? c) = ((b.meet? c).bind fun d => a.meet? d) ∧
      a.meet? a = some a := by
  refine ⟨fun a b => ⟨fun c => meet?_eq_some_iff, meet?_eq_none_iff, ?_, covers_iff, ?_,
    meet?_of_arity_ne⟩, isPartialOrder_covers, fun a b c => ⟨meet?_eq_some_iff_covers,
    meet?_eq_none_iff_covers, meet?_comm a b, meet?_assoc a b c, meet?_self a⟩⟩
  · rw [overlaps, Option.isSome_eq_false_iff, Option.isNone_iff_eq_none]
  · exact ⟨fun h _ => h ▸ Iff.rfl, eq_of_admits_iff⟩

/-- The domains `null, _` and `_, true` meet in `null, true`; with a third parameter there is no
meet. -/
theorem operations_exact_nullTrue :
    (∀ args, Admits ⟨[.null, .bool true]⟩ args ↔
      Admits ⟨[.null, .any]⟩ args ∧ Admits ⟨[.any, .bool true]⟩ args) ∧
    meet? ⟨[.null, .any]⟩ ⟨[.any, .bool true, .any]⟩ = none := by
  obtain ⟨hmeet, -⟩ := operations_exact.1 ⟨[.null, .any]⟩ ⟨[.any, .bool true]⟩
  obtain ⟨-, -, -, -, -, hlengths⟩ :=
    operations_exact.1 ⟨[.null, .any]⟩ ⟨[.any, .bool true, .any]⟩
  exact ⟨(hmeet ⟨[.null, .bool true]⟩).1 rfl, (hlengths (by decide)).1⟩

end Domain

end MethodContracts
