import MethodContracts.Proofs.Domain.Meaning

/-!
# Several requirements at once

Requirements are added to a domain one after the other (`Domain.requireAll?`), and the domains in
between depend on their order. The result does not: each slot ends up with the values that satisfy
what it asked before and every requirement on it (`Domain.requireAll?_eq_some_iff`), and there is
none just if a requirement has no slot or some slot is left without a value
(`Domain.requireAll?_eq_none_iff`). Both only ask which requirements there are, so a list of
requirements may be put in another order, and any of them repeated.

What one requirement does to each slot is said by `admitsAt_of_require?` and
`require?_eq_none_iff`; the rest is induction on the list.
-/

namespace MethodContracts

/-- A requirement on the parameter at an index. -/
structure Requirement where
  /-- The index of the parameter, counted from zero. -/
  index : Nat
  /-- What is required of it. -/
  constraint : Constraint
  deriving DecidableEq, Repr

namespace Domain

/-- The domain with several requirements added, one after the other; `none` as soon as there is no
such parameter or no value is left for it. -/
def requireAll? (d : Domain) (rs : List Requirement) : Option Domain :=
  rs.foldlM (fun d r => d.require? r.index r.constraint) d

/-- Whether a value satisfies what a domain asks of the parameter at an index. -/
def AdmitsAt (d : Domain) (i : Nat) (v : Value) : Prop := ∃ c ∈ d.slot? i, c.Admits v

/-- Whether a value satisfies each requirement on the parameter at an index. -/
def Meets (rs : List Requirement) (i : Nat) (v : Value) : Prop :=
  ∀ r ∈ rs, r.index = i → r.constraint.Admits v

variable {d e : Domain} {r : Requirement} {rs rs' : List Requirement} {i : Nat} {v : Value}

@[simp] theorem requireAll?_nil : d.requireAll? [] = some d := rfl

theorem requireAll?_cons :
    d.requireAll? (r :: rs) = (d.require? r.index r.constraint).bind (requireAll? · rs) :=
  List.foldlM_cons

@[simp] theorem meets_nil : Meets [] i v := by simp [Meets]

@[simp] theorem meets_cons :
    Meets (r :: rs) i v ↔ (r.index = i → r.constraint.Admits v) ∧ Meets rs i v :=
  List.forall_mem_cons

/-! ### The values of a slot -/

theorem slot?_eq_none_iff : d.slot? i = none ↔ d.arity ≤ i := List.getElem?_eq_none_iff

theorem exists_admitsAt (h : i < d.arity) : ∃ v, d.AdmitsAt i v := by
  obtain ⟨v, hv⟩ := d.slots[i].exists_admits
  exact ⟨v, _, List.getElem?_eq_getElem h, hv⟩

theorem admitsAt_iff_of_slot? {c : Constraint} (h : d.slot? i = some c) :
    d.AdmitsAt i v ↔ c.Admits v := by
  simp [AdmitsAt, h]

theorem not_admitsAt_of_slot? (h : d.slot? i = none) : ¬d.AdmitsAt i v := by
  simp [AdmitsAt, h]

/-- A domain is determined by the number of its parameters and the values that each may have. -/
theorem eq_of_admitsAt_iff (harity : d.arity = e.arity)
    (h : ∀ i v, d.AdmitsAt i v ↔ e.AdmitsAt i v) : d = e := by
  have hslots : ∀ i, d.slot? i = e.slot? i := by
    intro i
    cases hd : d.slot? i with
    | none =>
        have hi : e.arity ≤ i := harity ▸ slot?_eq_none_iff.1 hd
        rw [slot?_eq_none_iff.2 hi]
    | some c =>
        cases he : e.slot? i with
        | none =>
            have hi : d.arity ≤ i := harity ▸ slot?_eq_none_iff.1 he
            rw [slot?_eq_none_iff.2 hi] at hd
            exact absurd hd (by simp)
        | some c' =>
            refine congrArg some (Constraint.eq_of_admits_iff fun v => ?_)
            rw [← admitsAt_iff_of_slot? hd, ← admitsAt_iff_of_slot? he, h i v]
  obtain ⟨ds⟩ := d
  exact congrArg mk (List.ext_getElem? hslots)

/-! ### One requirement -/

theorem require?_eq (d : Domain) (i : Nat) (c : Constraint) : d.require? i c =
    (d.slot? i).bind fun s => (s.meet c).map fun m => ⟨d.slots.set i m⟩ := by
  rw [require?, Constraint.requireAt_eq, Option.map_bind]
  simp only [Function.comp_def, Option.map_map]
  rfl

/-- A requirement narrows its own slot and no other. -/
theorem admitsAt_of_require? {c : Constraint} (h : d.require? i c = some e) (j : Nat)
    (v : Value) : e.AdmitsAt j v ↔ d.AdmitsAt j v ∧ (i = j → c.Admits v) := by
  rw [require?_eq] at h
  obtain ⟨s, hs, hm⟩ := Option.bind_eq_some_iff.1 h
  obtain ⟨m, hmeet, rfl⟩ := Option.map_eq_some_iff.1 hm
  have hi : i < d.slots.length := (List.getElem?_eq_some_iff.1 hs).1
  by_cases hij : i = j
  · subst hij
    have hslot : slot? ⟨d.slots.set i m⟩ i = some m := List.getElem?_set_self hi
    rw [admitsAt_iff_of_slot? hslot, admitsAt_iff_of_slot? hs,
      Constraint.admits_of_meet hmeet v]
    simp
  · have hslot : slot? ⟨d.slots.set i m⟩ j = d.slot? j := List.getElem?_set_ne hij
    simp [AdmitsAt, hslot, hij]

/-- A requirement fails if it leaves no value for its slot, or has none. -/
theorem require?_eq_none_iff {c : Constraint} :
    d.require? i c = none ↔ ∀ v, ¬(d.AdmitsAt i v ∧ c.Admits v) := by
  rw [require?_eq]
  cases hs : d.slot? i with
  | none => simp [not_admitsAt_of_slot? hs]
  | some s => simp [admitsAt_iff_of_slot? hs, Constraint.meet_eq_none_iff]

/-! ### All of them -/

theorem exists_of_requireAll?_eq_none (h : d.requireAll? rs = none) :
    (∃ r ∈ rs, d.arity ≤ r.index) ∨
      ∃ i < d.arity, ∀ v, ¬(d.AdmitsAt i v ∧ Meets rs i v) := by
  induction rs generalizing d with
  | nil => simp at h
  | cons r rs ih =>
      rw [requireAll?_cons] at h
      cases hstep : d.require? r.index r.constraint with
      | none =>
          rcases Nat.lt_or_ge r.index d.arity with hr | hr
          · refine Or.inr ⟨r.index, hr, fun v ⟨hv, hmeets⟩ => ?_⟩
            exact require?_eq_none_iff.1 hstep v ⟨hv, (meets_cons.1 hmeets).1 rfl⟩
          · exact Or.inl ⟨r, List.mem_cons_self, hr⟩
      | some e =>
          rw [hstep, Option.bind_some] at h
          have harity : e.arity = d.arity := arity_of_require? hstep
          rcases ih h with ⟨r', hr', hindex⟩ | ⟨i, hi, hnone⟩
          · exact Or.inl ⟨r', List.mem_cons_of_mem r hr', harity ▸ hindex⟩
          · refine Or.inr ⟨i, harity ▸ hi, fun v ⟨hv, hmeets⟩ => hnone v ?_⟩
            obtain ⟨hr, hrs⟩ := meets_cons.1 hmeets
            exact ⟨(admitsAt_of_require? hstep i v).2 ⟨hv, hr⟩, hrs⟩

theorem admitsAt_of_requireAll? (h : d.requireAll? rs = some e) :
    (∀ r ∈ rs, r.index < d.arity) ∧ e.arity = d.arity ∧
      ∀ i v, e.AdmitsAt i v ↔ d.AdmitsAt i v ∧ Meets rs i v := by
  induction rs generalizing d with
  | nil =>
      obtain rfl : d = e := by simpa using h
      simp
  | cons r rs ih =>
      rw [requireAll?_cons] at h
      obtain ⟨d', hstep, hrest⟩ := Option.bind_eq_some_iff.1 h
      obtain ⟨hindices, harity, hslots⟩ := ih hrest
      rw [arity_of_require? hstep] at hindices harity
      refine ⟨List.forall_mem_cons.2 ⟨lt_arity_of_require? hstep, hindices⟩, harity, ?_⟩
      intro i v
      rw [hslots, admitsAt_of_require? hstep, meets_cons, and_assoc]

/-- Where there is a domain with all requirements, they have their slots and leave each a value. -/
theorem not_exists_of_admitsAt_iff (hindices : ∀ r ∈ rs, r.index < d.arity)
    (harity : e.arity = d.arity)
    (hslots : ∀ i v, e.AdmitsAt i v ↔ d.AdmitsAt i v ∧ Meets rs i v) :
    ¬((∃ r ∈ rs, d.arity ≤ r.index) ∨
      ∃ i < d.arity, ∀ v, ¬(d.AdmitsAt i v ∧ Meets rs i v)) := by
  intro hor
  rcases hor with ⟨r, hr, hindex⟩ | ⟨i, hi, hnone⟩
  · exact absurd (hindices r hr) (Nat.not_lt.2 hindex)
  · rw [← harity] at hi
    obtain ⟨v, hv⟩ := exists_admitsAt hi
    exact hnone v ((hslots i v).1 hv)

theorem requireAll?_eq_none_iff : d.requireAll? rs = none ↔
    (∃ r ∈ rs, d.arity ≤ r.index) ∨
      ∃ i < d.arity, ∀ v, ¬(d.AdmitsAt i v ∧ Meets rs i v) := by
  refine ⟨exists_of_requireAll?_eq_none, fun hor => ?_⟩
  rw [Option.eq_none_iff_forall_ne_some]
  intro e h
  obtain ⟨hindices, harity, hslots⟩ := admitsAt_of_requireAll? h
  exact not_exists_of_admitsAt_iff hindices harity hslots hor

theorem requireAll?_eq_some_iff : d.requireAll? rs = some e ↔
    (∀ r ∈ rs, r.index < d.arity) ∧ e.arity = d.arity ∧
      ∀ i v, e.AdmitsAt i v ↔ d.AdmitsAt i v ∧ Meets rs i v := by
  refine ⟨admitsAt_of_requireAll?, fun ⟨hindices, harity, hslots⟩ => ?_⟩
  cases h : d.requireAll? rs with
  | none =>
      exact absurd (requireAll?_eq_none_iff.1 h)
        (not_exists_of_admitsAt_iff hindices harity hslots)
  | some e' =>
      obtain ⟨-, harity', hslots'⟩ := admitsAt_of_requireAll? h
      refine congrArg some (eq_of_admitsAt_iff (harity'.trans harity.symm) fun i v => ?_)
      rw [hslots', hslots]

theorem requireAll?_congr (h : ∀ r, r ∈ rs' ↔ r ∈ rs) :
    d.requireAll? rs' = d.requireAll? rs := by
  ext e
  simp only [requireAll?_eq_some_iff, Meets, h]

/-- **Requirements add up, in whatever order.** There is no domain with all of them just if one is
on a parameter that there is not, or the constraint of some parameter and the requirements on it
leave no value. Otherwise each parameter may have the values that satisfy its constraint and all
requirements on it. So it only matters which requirements there are, and neither in which order
they come nor how often. -/
theorem requireAll?_exact (d : Domain) (rs : List Requirement) :
    (d.requireAll? rs = none ↔ (∃ r ∈ rs, d.arity ≤ r.index) ∨
      ∃ i < d.arity, ∀ v, ¬(d.AdmitsAt i v ∧ Meets rs i v)) ∧
    (∀ e, d.requireAll? rs = some e ↔ (∀ r ∈ rs, r.index < d.arity) ∧ e.arity = d.arity ∧
      ∀ i v, e.AdmitsAt i v ↔ d.AdmitsAt i v ∧ Meets rs i v) ∧
    ∀ rs' : List Requirement, (∀ r, r ∈ rs' ↔ r ∈ rs) → d.requireAll? rs' = d.requireAll? rs :=
  ⟨requireAll?_eq_none_iff, fun _ => requireAll?_eq_some_iff, fun _ => requireAll?_congr⟩

/-- Three requirements on two parameters, in another order and one of them twice. -/
theorem requireAll?_exact_repeated :
    let rs : List Requirement := [⟨0, .nonNull⟩, ⟨0, .bool true⟩, ⟨1, .nonNull⟩]
    let rs' : List Requirement := [⟨0, .bool true⟩, ⟨1, .nonNull⟩, ⟨0, .nonNull⟩, ⟨0, .bool true⟩]
    (∀ r, r ∈ rs' ↔ r ∈ rs) ∧
      requireAll? ⟨[.any, .nonNull]⟩ rs' = some ⟨[.bool true, .nonNull]⟩ := by
  intro rs rs'
  have hmem : ∀ r, r ∈ rs' ↔ r ∈ rs := by
    intro r
    simp only [rs, rs', List.mem_cons, List.not_mem_nil, or_false]
    tauto
  have hrs : requireAll? ⟨[.any, .nonNull]⟩ rs = some ⟨[.bool true, .nonNull]⟩ := by decide
  exact ⟨hmem, ((requireAll?_exact ⟨[.any, .nonNull]⟩ rs).2.2 rs' hmem).trans hrs⟩

end Domain

end MethodContracts
