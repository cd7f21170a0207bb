import MethodContracts.Proofs.Clause.Negation
import MethodContracts.Proofs.NormalForm.Scan

/-!
# Behaviours

What contracts are about: a **behaviour** says for each list of arguments whether a method throws
or what it returns. A clause **holds for** a behaviour if every result where the clause applies is
one that its outcome **allows**. A method that throws breaks no promise about the value that it
returns.

The operations on clauses keep this. Narrowing a clause only takes arguments away from it
(`HoldsFor.carve?`), so the clauses of a normal form hold where those of the list do
(`holdsFor_normalize?`), and a negated clause holds for the negated behaviour
(`HoldsFor.negate?`).
-/

namespace MethodContracts

/-- What a call results in. -/
inductive Result where
  /-- The call throws. -/
  | throws
  /-- The call returns this value. -/
  | returns (v : Value)
  deriving DecidableEq, Repr

/-- The result of a method that negates what it gets; only booleans can be negated. -/
def Result.negate : Result → Result
  | returns (.bool b) => returns (.bool !b)
  | _ => throws

/-- What a method does for each list of arguments. -/
abbrev Behaviour := List Value → Result

/-- The behaviour of a method that returns the negation of what another one returns. -/
def Behaviour.negate (f : Behaviour) : Behaviour := fun args => (f args).negate

/-- Whether two behaviours do the same for `n` arguments. -/
def Behaviour.Agree (n : Nat) (f g : Behaviour) : Prop :=
  ∀ args, args.length = n → f args = g args

/-- Whether a behaviour never returns null for `n` arguments. -/
def Behaviour.NeverNull (n : Nat) (f : Behaviour) : Prop :=
  ∀ args, args.length = n → f args ≠ .returns .null

/-- Whether a result is one that an outcome speaks of. Receivers and arguments are not told apart
from other values, so to return one of them can be any result. -/
def Outcome.Allows : Outcome → Result → Prop
  | fail, r => r = .throws
  | nonNull, r => r ≠ .returns .null
  | null, r => r = .throws ∨ r = .returns .null
  | bool b, r => r = .throws ∨ r = .returns (.bool b)
  | receiver, _ => True
  | parameter _, _ => True

instance (o : Outcome) (r : Result) : Decidable (o.Allows r) := by
  cases o <;> unfold Outcome.Allows <;> infer_instance

/-- A negated result is never null. -/
theorem Result.negate_ne_null (r : Result) : r.negate ≠ .returns .null := by
  unfold negate
  split <;> simp

theorem Outcome.allows_flip {o : Outcome} {r : Result} (h : o.Allows r) :
    o.flip.Allows r.negate := by
  cases o with
  | fail =>
      obtain rfl : r = .throws := h
      rfl
  | nonNull => exact r.negate_ne_null
  | null =>
      rcases h with rfl | rfl
      · exact Or.inl rfl
      · exact Or.inl rfl
  | bool b =>
      rcases h with rfl | rfl
      · exact Or.inl rfl
      · exact Or.inr rfl
  | receiver | parameter index => trivial

namespace Clause

/-- Whether a clause is true of a behaviour for `n` arguments. -/
def HoldsFor (n : Nat) (f : Behaviour) (c : Clause) : Prop :=
  ∀ args, args.length = n → c.domain.Admits args → c.outcome.Allows (f args)

variable {n : Nat} {f g : Behaviour} {c k rest : Clause} {cs out : List Clause}

theorem HoldsFor.congr (hfg : f.Agree n g) (hc : c.HoldsFor n g) : c.HoldsFor n f := by
  intro args hlen hargs
  rw [hfg args hlen]
  exact hc args hlen hargs

theorem HoldsFor.negate? {negated : Clause} (h : c.negate? = some negated)
    (hc : c.HoldsFor n f) : negated.HoldsFor n f.negate := by
  rw [negate?_eq_ite] at h
  split at h
  · obtain rfl := Option.some.inj h
    intro args hlen hargs
    exact Outcome.allows_flip (hc args hlen hargs)
  · simp at h

theorem HoldsFor.carve? (h : c.carve? k = some rest) (hc : c.HoldsFor n f) :
    rest.HoldsFor n f := by
  intro args hlen hargs
  rw [outcome_of_carve? h]
  exact hc args hlen ((admits_of_carve? h args).1 hargs).1

/-- The clauses of a normal form hold for every behaviour that all clauses of the list hold
for. -/
theorem holdsFor_normalize? (h : normalize? cs = some out) (hcs : ∀ c ∈ cs, c.HoldsFor n f) :
    ∀ c ∈ out, c.HoldsFor n f :=
  forall_mem_normalize? (fun _ _ _ hc hcarve => hc.carve? hcarve) h hcs

/-- So do those that are left when there may be no normal form. -/
theorem holdsFor_getD_normalize? (hcs : ∀ c ∈ cs, c.HoldsFor n f) :
    ∀ c ∈ (normalize? cs).getD [], c.HoldsFor n f := by
  cases hout : normalize? cs with
  | none => simp
  | some out =>
      rw [Option.getD_some]
      exact holdsFor_normalize? hout hcs

/-- Not returning null, in whatever states, is true of a behaviour that never does. -/
theorem holdsFor_nonNull (hf : f.NeverNull n) (d : Domain) :
    HoldsFor n f ⟨d, .nonNull⟩ :=
  fun args hlen _ => hf args hlen

end Clause

end MethodContracts
