import MethodContracts.Proofs.Clause.Passing

/-!
# Outcomes that name a parameter

A clause can promise that the argument for some parameter is returned. Restated for a caller of
the method, it should name the parameter of the caller that is passed there, and there may be none.
Restating translates the constraints of a clause, but not its outcome: the index stays that of the
target's parameter. The restated clause names what is passed just when the caller passes its own
parameter at the same index (`Clause.throughCall?_keeps_index`); a caller that passes another one,
or has no parameters at all, gets a clause about the wrong parameter
(`Clause.throughCall?_misnames_passed`).
-/

namespace MethodContracts

/-- The parameter of the caller that a call passes at an index, if the argument there is a bare
name of one. One pair of parentheses does not count. -/
def Call.passedParameter? (caller : Signature) (call : Call) (j : Nat) : Option UInt64 :=
  call.arguments[j]?.bind fun e => e.skipParentheses.parameterOf? caller.id

namespace Clause

variable {caller target : Signature} {call : Call} {negated : Bool} {c t : Clause}

/-- Whether a clause of the caller, where it says that a parameter is returned, names the one that
the call passes at an index. -/
def NamesPassed (caller : Signature) (call : Call) (j : Nat) (t : Clause) : Prop :=
  ∀ k, t.outcome = .parameter k →
    k.toNat < caller.arity ∧ call.passedParameter? caller j = some k

/-- Each constraint has its argument, up to the one on a parameter that gets an array. -/
theorem lt_length_of_demandAll? {id : MethodId} {collected? : Option Nat} {i j : Nat}
    {constraints : List Constraint} {es : List Expr} {demanded d : Domain}
    (h : demandAll? id collected? i constraints es demanded = some d)
    (hj : j < constraints.length) (hlast : ∀ n ∈ collected?, i + j ≤ n) : j < es.length := by
  induction constraints generalizing i j es demanded with
  | nil => exact absurd hj (Nat.not_lt_zero j)
  | cons constraint constraints ih =>
      cases es with
      | nil => simp [demandAll?] at h
      | cons e es =>
          cases j with
          | zero => exact Nat.succ_pos _
          | succ j =>
              have hj' : j < constraints.length := Nat.lt_of_succ_lt_succ hj
              have hlast' : ∀ n ∈ collected?, i + 1 + j ≤ n := by
                intro n hn
                have := hlast n hn
                omega
              rw [demandAll?] at h
              split at h
              · exact Nat.succ_lt_succ (ih h hj' hlast')
              · split at h
                · -- the array is passed for a later parameter
                  rename_i hcollected
                  cases collected? with
                  | none => simp at hcollected
                  | some n =>
                      have hle : n ≤ i := by simpa using hcollected
                      have := hlast n rfl
                      omega
                · obtain ⟨next, -, hrest⟩ := Option.bind_eq_some_iff.1 h
                  exact Nat.succ_lt_succ (ih hrest hj' hlast')

theorem lt_length_of_throughCall? {j : Nat} (harity : c.arity = target.arity)
    (hj : j < target.arity)
    (h : c.throughCall? caller target call (target.expands call) negated = some t) :
    j < call.arguments.length := by
  obtain ⟨d, hd, -⟩ := Option.map_eq_some_iff.1 h
  have hslot : j < c.domain.slots.length := Nat.lt_of_lt_of_eq hj harity.symm
  refine lt_length_of_demandAll? hd hslot fun n hn => ?_
  obtain ⟨-, rfl⟩ : target.expands call = true ∧ target.arity - 1 = n := by
    simpa using hn
  omega

/-- **A restated outcome keeps the index of the target's parameter.** The call has an argument for
that parameter, and the restated clause names what is passed there just when it is the caller's
parameter at the same index. -/
theorem throughCall?_keeps_index {j : UInt64} (harity : c.arity = target.arity)
    (hout : c.outcome = .parameter j) (hj : j.toNat < target.arity)
    (h : c.throughCall? caller target call (target.expands call) negated = some t) :
    t.outcome = .parameter j ∧ j.toNat < call.arguments.length ∧
      (t.NamesPassed caller call j.toNat ↔
        j.toNat < caller.arity ∧ call.passedParameter? caller j.toNat = some j) := by
  have hkept : t.outcome = .parameter j := by
    rw [outcome_of_throughCall? h, hout]
    cases negated <;> rfl
  refine ⟨hkept, lt_length_of_throughCall? harity hj h, fun hnames => hnames j hkept, ?_⟩
  intro hpassed k hk
  obtain rfl : j = k := Outcome.parameter.inj (hkept.symm.trans hk)
  exact hpassed

/-- A method `orElse(value, other)`. -/
def orElse : Signature := ⟨⟨1⟩, "orElse", ["value", "other"], false⟩

/-- What is not null is returned as it is. -/
def returnsValue : Clause := ⟨⟨[.nonNull, .any]⟩, .parameter 0⟩

/-- A method `pick(left, right)`. -/
def pick : Signature := ⟨⟨2⟩, "pick", ["left", "right"], false⟩

/-- The call `orElse((left), right)` in the body of `pick`. -/
def inPlaceCall : Call where
  name := "orElse"
  target := some orElse.id
  receiver := none
  arguments := [
    .parenthesized ⟨7, 13⟩ (.reference ⟨8, 12⟩ "left" none (some (.parameter pick.id 0))),
    .reference ⟨15, 20⟩ "right" none (some (.parameter pick.id 1))]
  varArgs := false

/-- The call `orElse(right, left)` in the body of `pick`. -/
def swappedCall : Call where
  name := "orElse"
  target := some orElse.id
  receiver := none
  arguments := [
    .reference ⟨7, 12⟩ "right" none (some (.parameter pick.id 1)),
    .reference ⟨14, 18⟩ "left" none (some (.parameter pick.id 0))]
  varArgs := false

/-- A method `greeting()`. -/
def greeting : Signature := ⟨⟨3⟩, "greeting", [], false⟩

/-- The call `orElse("hello", null)` in the body of `greeting`. -/
def literalCall : Call where
  name := "orElse"
  target := some orElse.id
  receiver := none
  arguments := [.literal ⟨7, 14⟩ (.str "hello"), .literal ⟨16, 20⟩ .null]
  varArgs := false

/-- Where the parameters are passed in place, the right one is named. -/
theorem throughCall?_keeps_index_inPlace :
    returnsValue.throughCall? pick orElse inPlaceCall false true = some returnsValue ∧
      returnsValue.NamesPassed pick inPlaceCall 0 := by
  have h : returnsValue.throughCall? pick orElse inPlaceCall (orElse.expands inPlaceCall) true =
      some returnsValue := rfl
  have hiff := (throughCall?_keeps_index (j := 0) rfl rfl (by decide) h).2.2
  exact ⟨h, hiff.2 ⟨by decide, rfl⟩⟩

/-- Where `pick` passes its right parameter, the restated clause names its left one; and it names a
parameter of `greeting`, which has none. -/
theorem throughCall?_misnames_passed :
    returnsValue.arity = orElse.arity ∧ (0 : UInt64).toNat < orElse.arity ∧
    (∃ t, returnsValue.throughCall? pick orElse swappedCall (orElse.expands swappedCall) false =
        some t ∧ t.outcome = .parameter 0 ∧ swappedCall.passedParameter? pick 0 = some 1 ∧
        ¬t.NamesPassed pick swappedCall 0) ∧
    ∃ t, returnsValue.throughCall? greeting orElse literalCall (orElse.expands literalCall) false =
        some t ∧ t.outcome = .parameter 0 ∧ greeting.arity = 0 ∧
        ¬t.NamesPassed greeting literalCall 0 := by
  refine ⟨rfl, by decide, ⟨⟨⟨[.any, .nonNull]⟩, .parameter 0⟩, rfl, rfl, rfl, fun h => ?_⟩,
    ⟨⟨[]⟩, .parameter 0⟩, rfl, rfl, rfl, fun h => ?_⟩
  · exact absurd (h 0 rfl).2 (by decide)
  · exact absurd (h 0 rfl).1 (by decide)

end Clause

end MethodContracts
