import Mathlib.Tactic.Tauto
import MethodContracts.Domain.Difference

/-!
# What the operations on domains mean

A domain denotes the argument lists that it admits, and the operations on domains are exact on
these sets: meeting is intersection, covering is inclusion, overlapping is having a common
argument list, and subtracting is set difference.

Each fact is first proved of lists of constraints, by induction on both lists together, and then
read off for domains. Two of them need an inhabitant: a cover of lists of different lengths, and
an overlap, are refuted by an argument list that satisfies every slot (`exists_admitAll`).
-/

namespace MethodContracts

/-! ### Lists of constraints -/

namespace Constraint

@[simp] theorem admitAll_nil : AdmitAll [] [] ↔ True := Iff.rfl

@[simp] theorem admitAll_cons {c : Constraint} {cs : List Constraint} {v : Value}
    {vs : List Value} : AdmitAll (c :: cs) (v :: vs) ↔ c.Admits v ∧ AdmitAll cs vs := Iff.rfl

@[simp] theorem not_admitAll_nil_cons {v : Value} {vs : List Value} :
    ¬AdmitAll [] (v :: vs) := id

@[simp] theorem not_admitAll_cons_nil {c : Constraint} {cs : List Constraint} :
    ¬AdmitAll (c :: cs) [] := id

theorem length_of_admitAll {cs : List Constraint} {vs : List Value} (h : AdmitAll cs vs) :
    vs.length = cs.length := by
  induction cs generalizing vs with
  | nil =>
      cases vs with
      | nil => rfl
      | cons v vs => exact absurd h not_admitAll_nil_cons
  | cons c cs ih =>
      cases vs with
      | nil => exact absurd h not_admitAll_cons_nil
      | cons v vs => rw [List.length_cons, List.length_cons, ih h.2]

/-- An argument list satisfies a list of constraints if it is as long and each slot admits its
value. -/
theorem admitAll_iff {cs : List Constraint} {vs : List Value} : AdmitAll cs vs ↔
    vs.length = cs.length ∧
      ∀ (i : Nat) c v, cs[i]? = some c → vs[i]? = some v → c.Admits v := by
  induction cs generalizing vs with
  | nil => cases vs <;> simp
  | cons c cs ih =>
      cases vs with
      | nil => simp
      | cons v vs =>
          rw [admitAll_cons, ih, List.length_cons, List.length_cons, Nat.add_right_cancel_iff]
          constructor
          · intro ⟨hv, hlen, hvs⟩
            refine ⟨hlen, fun i => ?_⟩
            cases i with
            | zero => simpa using hv
            | succ i => exact hvs i
          · intro ⟨hlen, h⟩
            exact ⟨h 0 c v rfl rfl, hlen, fun i => h (i + 1)⟩

/-- Every list of constraints is satisfied by some argument list. -/
theorem exists_admitAll (cs : List Constraint) : ∃ vs, AdmitAll cs vs := by
  induction cs with
  | nil => exact ⟨[], trivial⟩
  | cons c cs ih =>
      obtain ⟨v, hv⟩ := c.exists_admits
      obtain ⟨vs, hvs⟩ := ih
      exact ⟨v :: vs, hv, hvs⟩

theorem admitAll_of_meetAll {as bs cs : List Constraint} (h : meetAll as bs = some cs)
    (vs : List Value) : AdmitAll cs vs ↔ AdmitAll as vs ∧ AdmitAll bs vs := by
  induction as generalizing bs cs vs with
  | nil =>
      cases bs with
      | nil =>
          obtain rfl : [] = cs := by simpa [meetAll] using h
          rw [and_self_iff]
      | cons b bs => simp [meetAll] at h
  | cons a as ih =>
      cases bs with
      | nil => simp [meetAll] at h
      | cons b bs =>
          simp only [meetAll] at h
          split at h
          case h_1 c ds hc hds =>
            obtain rfl : c :: ds = cs := by simpa using h
            cases vs with
            | nil => simp
            | cons v vs =>
                rw [admitAll_cons, admitAll_cons, admitAll_cons, admits_of_meet hc v, ih hds vs]
                exact and_and_and_comm
          case h_2 => simp at h

/-- Two lists of constraints without a meet have no common argument list: in some slot, or
because their lengths differ. -/
theorem not_admitAll_of_meetAll_eq_none {as bs : List Constraint} (h : meetAll as bs = none)
    (vs : List Value) : ¬(AdmitAll as vs ∧ AdmitAll bs vs) := by
  induction as generalizing bs vs with
  | nil =>
      cases bs with
      | nil => simp [meetAll] at h
      | cons b bs => cases vs <;> simp
  | cons a as ih =>
      cases bs with
      | nil => cases vs <;> simp
      | cons b bs =>
          cases vs with
          | nil => simp
          | cons v vs =>
              rintro ⟨⟨ha, has⟩, hb, hbs⟩
              cases hc : a.meet b with
              | none => exact meet_eq_none_iff.1 hc v ⟨ha, hb⟩
              | some c =>
                  cases hds : meetAll as bs with
                  | none => exact ih hds vs ⟨has, hbs⟩
                  | some ds => simp [meetAll, hc, hds] at h

theorem coverAll_iff {as bs : List Constraint} :
    coverAll as bs = true ↔ ∀ vs, AdmitAll bs vs → AdmitAll as vs := by
  induction as generalizing bs with
  | nil =>
      cases bs with
      | nil => simp [coverAll]
      | cons b bs =>
          -- a list that satisfies `b :: bs` is too long for `[]`
          obtain ⟨vs, hvs⟩ := exists_admitAll (b :: bs)
          refine ⟨fun h => by simp [coverAll] at h, fun h => ?_⟩
          have := (length_of_admitAll hvs).symm.trans (length_of_admitAll (h vs hvs))
          simp at this
  | cons a as ih =>
      cases bs with
      | nil => simpa [coverAll] using ⟨[], trivial, not_admitAll_cons_nil⟩
      | cons b bs =>
          simp only [coverAll, Bool.and_eq_true, covers_iff, ih]
          constructor
          · rintro ⟨hab, habs⟩ vs hvs
            cases vs with
            | nil => exact absurd hvs not_admitAll_cons_nil
            | cons v vs => exact ⟨hab v hvs.1, habs vs hvs.2⟩
          · intro h
            -- to compare one slot, fill the others with values that they admit
            obtain ⟨w, hw⟩ := b.exists_admits
            obtain ⟨ws, hws⟩ := exists_admitAll bs
            exact ⟨fun v hv => (h (v :: ws) ⟨hv, hws⟩).1, fun vs hvs => (h (w :: vs) ⟨hw, hvs⟩).2⟩

theorem admits_of_complement? {b c : Constraint} (h : b.complement? = some c) (v : Value) :
    c.Admits v ↔ ¬b.Admits v := by
  cases b <;> simp [complement?] at h <;> subst h <;> simp [Admits]

theorem admitAll_of_subtractAll {as bs cs : List Constraint} (hcov : coverAll as bs = true)
    (h : subtractAll as bs = some cs) (vs : List Value) :
    AdmitAll cs vs ↔ AdmitAll as vs ∧ ¬AdmitAll bs vs := by
  induction as generalizing bs cs vs with
  | nil => simp [subtractAll] at h
  | cons a as ih =>
      cases bs with
      | nil => simp [subtractAll] at h
      | cons b bs =>
          simp only [coverAll, Bool.and_eq_true] at hcov
          simp only [subtractAll] at h
          split at h
          · rename_i hab
            subst hab
            -- the first slots agree, so the lists differ in the rests
            obtain ⟨ds, hds, rfl⟩ := Option.map_eq_some_iff.1 h
            cases vs with
            | nil => simp
            | cons v vs =>
                have := ih hcov.2 hds vs
                simp only [admitAll_cons]
                tauto
          · rename_i hab
            split at h
            · -- the slots differ and the rests agree, so the larger slot requires nothing
              rename_i hrest
              subst hrest
              obtain ⟨c, hc, rfl⟩ := Option.map_eq_some_iff.1 h
              obtain ⟨rfl, -⟩ := eq_any_of_covers hab hcov.1 hc
              cases vs with
              | nil => simp
              | cons v vs =>
                  have hany : any.Admits v := trivial
                  simp only [admitAll_cons, admits_of_complement? hc v]
                  tauto
            · simp at h

/-- A requirement exchanges the constraint of its slot for the meet of both. -/
theorem requireAt_eq (c : Constraint) (i : Nat) (ds : List Constraint) :
    requireAt c i ds = ds[i]?.bind fun d => (d.meet c).map fun m => ds.set i m := by
  induction ds generalizing i with
  | nil => simp [requireAt]
  | cons d ds ih =>
      cases i with
      | zero => simp [requireAt]
      | succ i => simp [requireAt, ih, Option.map_bind, Function.comp_def]

theorem lt_length_of_requireAt {c : Constraint} {i : Nat} {ds es : List Constraint}
    (h : requireAt c i ds = some es) : i < ds.length := by
  rw [requireAt_eq] at h
  obtain ⟨d, hd, -⟩ := Option.bind_eq_some_iff.1 h
  exact (List.getElem?_eq_some_iff.1 hd).1

theorem admitAll_of_requireAt {c : Constraint} {i : Nat} {ds es : List Constraint}
    (h : requireAt c i ds = some es) (vs : List Value) :
    AdmitAll es vs ↔ AdmitAll ds vs ∧ ∀ v, vs[i]? = some v → c.Admits v := by
  induction ds generalizing i es vs with
  | nil => cases i <;> simp [requireAt] at h
  | cons d ds ih =>
      cases i with
      | zero =>
          obtain ⟨m, hm, rfl⟩ := Option.map_eq_some_iff.1 h
          cases vs with
          | nil => simp
          | cons v vs =>
              simp only [admitAll_cons, admits_of_meet hm v, List.getElem?_cons_zero,
                Option.some.injEq, forall_eq']
              tauto
      | succ i =>
          obtain ⟨es', hes, rfl⟩ := Option.map_eq_some_iff.1 h
          cases vs with
          | nil => simp
          | cons v vs =>
              rw [admitAll_cons, admitAll_cons, ih hes vs, List.getElem?_cons_succ, and_assoc]

/-- A difference asks `null` or `nonNull` in one slot, where nothing was required, and leaves all
others as they are. -/
theorem exists_settled_of_subtractAll {as bs cs : List Constraint} (hcov : coverAll as bs = true)
    (h : subtractAll as bs = some cs) :
    ∃ i : Nat, as[i]? = some any ∧ (cs[i]? = some null ∨ cs[i]? = some nonNull) ∧
      ∀ j : Nat, j ≠ i → cs[j]? = as[j]? := by
  induction as generalizing bs cs with
  | nil => simp [subtractAll] at h
  | cons a as ih =>
      cases bs with
      | nil => simp [subtractAll] at h
      | cons b bs =>
          simp only [coverAll, Bool.and_eq_true] at hcov
          simp only [subtractAll] at h
          split at h
          · -- the first slots agree, so the settled one is among the others
            obtain ⟨ds, hds, rfl⟩ := Option.map_eq_some_iff.1 h
            obtain ⟨i, hany, hsettled, hothers⟩ := ih hcov.2 hds
            refine ⟨i + 1, hany, hsettled, fun j hj => ?_⟩
            cases j with
            | zero => rfl
            | succ j => exact hothers j fun hji => hj (congrArg (· + 1) hji)
          · rename_i hab
            split at h
            · obtain ⟨c, hc, rfl⟩ := Option.map_eq_some_iff.1 h
              obtain ⟨rfl, -⟩ := eq_any_of_covers hab hcov.1 hc
              refine ⟨0, rfl, ?_, fun j hj => ?_⟩
              · cases b <;> simp [complement?] at hc <;> simp [← hc]
              · cases j with
                | zero => exact absurd rfl hj
                | succ j => rfl
            · simp at h

end Constraint

/-! ### Domains -/

namespace Domain

theorem length_of_admits {d : Domain} {args : List Value} (h : d.Admits args) :
    args.length = d.arity :=
  Constraint.length_of_admitAll h

theorem exists_admits (d : Domain) : ∃ args, d.Admits args :=
  Constraint.exists_admitAll d.slots

theorem admits_of_meet? {a b c : Domain} (h : a.meet? b = some c) (args : List Value) :
    c.Admits args ↔ a.Admits args ∧ b.Admits args := by
  obtain ⟨cs, hcs, rfl⟩ := Option.map_eq_some_iff.1 h
  exact Constraint.admitAll_of_meetAll hcs args

/-- Domains overlap when they have an argument list in common. -/
theorem overlaps_iff {a b : Domain} :
    a.overlaps b = true ↔ ∃ args, a.Admits args ∧ b.Admits args := by
  unfold overlaps
  cases hm : a.meet? b with
  | none =>
      have hnone : Constraint.meetAll a.slots b.slots = none := Option.map_eq_none_iff.1 hm
      have hno : ¬∃ args, a.Admits args ∧ b.Admits args := fun ⟨args, hargs⟩ =>
        Constraint.not_admitAll_of_meetAll_eq_none hnone args hargs
      simpa using hno
  | some c =>
      obtain ⟨args, hargs⟩ := c.exists_admits
      have hyes : ∃ args, a.Admits args ∧ b.Admits args :=
        ⟨args, (admits_of_meet? hm args).1 hargs⟩
      simpa using hyes

/-- Covering is inclusion of the admitted argument lists. -/
theorem covers_iff {a b : Domain} :
    a.covers b = true ↔ ∀ args, b.Admits args → a.Admits args :=
  Constraint.coverAll_iff

theorem covers_trans {a b c : Domain} (hab : a.covers b = true) (hbc : b.covers c = true) :
    a.covers c = true :=
  covers_iff.2 fun args hargs => covers_iff.1 hab args (covers_iff.1 hbc args hargs)

/-- A domain covers only domains over as many parameters. -/
theorem arity_eq_of_covers {a b : Domain} (h : a.covers b = true) : a.arity = b.arity := by
  obtain ⟨args, hargs⟩ := b.exists_admits
  rw [← length_of_admits hargs, length_of_admits (covers_iff.1 h args hargs)]

theorem lt_arity_of_require? {d e : Domain} {i : Nat} {c : Constraint}
    (h : d.require? i c = some e) : i < d.arity := by
  obtain ⟨es, hes, -⟩ := Option.map_eq_some_iff.1 h
  exact Constraint.lt_length_of_requireAt hes

/-- One more requirement admits what satisfies it too. -/
theorem admits_of_require? {d e : Domain} {i : Nat} {c : Constraint}
    (h : d.require? i c = some e) (args : List Value) :
    e.Admits args ↔ d.Admits args ∧ ∀ v, args[i]? = some v → c.Admits v := by
  obtain ⟨es, hes, rfl⟩ := Option.map_eq_some_iff.1 h
  exact Constraint.admitAll_of_requireAt hes args

theorem arity_of_require? {d e : Domain} {i : Nat} {c : Constraint}
    (h : d.require? i c = some e) : e.arity = d.arity := by
  obtain ⟨args, hargs⟩ := e.exists_admits
  rw [← length_of_admits hargs, length_of_admits ((admits_of_require? h args).1 hargs).1]

@[simp] theorem admits_unconstrained {n : Nat} {args : List Value} :
    (unconstrained n).Admits args ↔ args.length = n := by
  constructor
  · intro h
    rw [length_of_admits h, arity_unconstrained]
  · rintro rfl
    unfold unconstrained Admits
    induction args with
    | nil => trivial
    | cons v vs ih => exact ⟨trivial, ih⟩

/-- A difference admits exactly the argument lists of the first domain that are not in the
second. -/
theorem admits_of_subtract? {a b c : Domain} (h : a.subtract? b = some c) (args : List Value) :
    c.Admits args ↔ a.Admits args ∧ ¬b.Admits args := by
  unfold subtract? at h
  split at h
  · rename_i hcov
    obtain ⟨cs, hcs, rfl⟩ := Option.map_eq_some_iff.1 h
    exact Constraint.admitAll_of_subtractAll hcov hcs args
  · simp at h

theorem arity_of_subtract? {a b c : Domain} (h : a.subtract? b = some c) : c.arity = a.arity := by
  obtain ⟨args, hargs⟩ := c.exists_admits
  rw [← length_of_admits hargs, length_of_admits ((admits_of_subtract? h args).1 hargs).1]

/-- Whether a domain is another one with a slot settled: nothing was required there, and now it is
required that the value is null, or that it is not. -/
structure Settles (d : Domain) (i : Nat) (e : Domain) : Prop where
  /-- Nothing was required in the slot. -/
  any : d.slot? i = some .any
  /-- Now `null` or `nonNull` is. -/
  settled : e.slot? i = some .null ∨ e.slot? i = some .nonNull
  /-- All other slots are as they were. -/
  others : ∀ j, j ≠ i → e.slot? j = d.slot? j

theorem Settles.slot? {d e : Domain} {i : Nat} (h : d.Settles i e) (j : Nat) :
    e.slot? j = d.slot? j ∨
      d.slot? j = some .any ∧ (e.slot? j = some .null ∨ e.slot? j = some .nonNull) := by
  by_cases hj : j = i
  · subst hj
    exact Or.inr ⟨h.any, h.settled⟩
  · exact Or.inl (h.others j hj)

/-- A difference settles exactly one slot. -/
theorem exists_settles_of_subtract? {a b c : Domain} (h : a.subtract? b = some c) :
    ∃ i, a.Settles i c := by
  unfold subtract? at h
  split at h
  · rename_i hcov
    obtain ⟨cs, hcs, rfl⟩ := Option.map_eq_some_iff.1 h
    obtain ⟨i, hany, hsettled, hothers⟩ := Constraint.exists_settled_of_subtractAll hcov hcs
    exact ⟨i, hany, hsettled, hothers⟩
  · simp at h

end Domain

end MethodContracts
