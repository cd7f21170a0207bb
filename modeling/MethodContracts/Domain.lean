import MethodContracts.Constraint

/-!
# Domains of clauses

A `Domain` holds one constraint per parameter, in order of declaration. It denotes the argument
lists that satisfy it slot by slot (`Domain.Admits`). Operations on two domains ask for equal
lengths: domains over different numbers of parameters share no argument list.
-/

namespace MethodContracts

/-- One constraint per parameter, in order of declaration. -/
structure Domain where
  /-- The constraints, the first parameter's first. -/
  slots : List Constraint
  deriving DecidableEq, Repr

/-! ### Constraint lists, slot by slot -/

namespace Constraint

/-- The argument lists that satisfy a list of constraints slot by slot. -/
def AdmitAll : List Constraint → List Value → Prop
  | [], [] => True
  | c :: cs, v :: vs => c.Admits v ∧ AdmitAll cs vs
  | _, _ => False

instance decidableAdmitAll : (cs : List Constraint) → (vs : List Value) →
    Decidable (AdmitAll cs vs)
  | [], [] => isTrue trivial
  | c :: cs, v :: vs =>
      haveI := decidableAdmitAll cs vs
      inferInstanceAs (Decidable (c.Admits v ∧ AdmitAll cs vs))
  | [], _ :: _ => isFalse id
  | _ :: _, [] => isFalse id

/-- All requirements of both lists at once, or `none` when the lengths differ or some slot
cannot meet both. -/
def meetAll : List Constraint → List Constraint → Option (List Constraint)
  | [], [] => some []
  | a :: as, b :: bs =>
      match a.meet b, meetAll as bs with
      | some c, some cs => some (c :: cs)
      | _, _ => none
  | _, _ => none

/-- Whether every slot of the first list covers that slot of the second. -/
def coverAll : List Constraint → List Constraint → Bool
  | [], [] => true
  | a :: as, b :: bs => a.covers b && coverAll as bs
  | _, _ => false

/-- Add a requirement to the slot at an index, or `none` when there is no such slot or the slot
already contradicts it. -/
def requireAt (c : Constraint) : Nat → List Constraint → Option (List Constraint)
  | _, [] => none
  | 0, d :: ds => (d.meet c).map (· :: ds)
  | i + 1, d :: ds => (requireAt c i ds).map (d :: ·)

/-- Put a constraint into the slot at an index, or `none` when there is no such slot. -/
def replaceAt (c : Constraint) : Nat → List Constraint → Option (List Constraint)
  | _, [] => none
  | 0, _ :: ds => some (c :: ds)
  | i + 1, d :: ds => (replaceAt c i ds).map (d :: ·)

end Constraint

namespace Domain

/-! ### Meaning -/

/-- The argument lists that satisfy a domain. -/
def Admits (d : Domain) (args : List Value) : Prop := Constraint.AdmitAll d.slots args

instance (d : Domain) (args : List Value) : Decidable (d.Admits args) :=
  inferInstanceAs (Decidable (Constraint.AdmitAll d.slots args))

/-! ### Operations -/

/-- The number of parameters. -/
def arity (d : Domain) : Nat := d.slots.length

/-- The domain that requires nothing of `n` parameters. -/
def unconstrained (n : Nat) : Domain := ⟨List.replicate n .any⟩

@[simp] theorem arity_unconstrained (n : Nat) : (unconstrained n).arity = n :=
  List.length_replicate

/-- Whether nothing is required of any parameter. -/
def isUnconstrained (d : Domain) : Bool := d.slots.all Constraint.isAny

/-- The constraint on the parameter at an index, if there is such a parameter. -/
def slot? (d : Domain) (i : Nat) : Option Constraint := d.slots[i]?

/-- The domain with one more requirement on one parameter; `none` when there is no such
parameter or no value is left for it. -/
def require? (d : Domain) (i : Nat) (c : Constraint) : Option Domain :=
  (Constraint.requireAt c i d.slots).map Domain.mk

/-- The domain with the constraint on one parameter exchanged. -/
def replace? (d : Domain) (i : Nat) (c : Constraint) : Option Domain :=
  (Constraint.replaceAt c i d.slots).map Domain.mk

/-- The domain of the argument lists in both domains, or `none` when there are none. -/
def meet? (a b : Domain) : Option Domain :=
  (Constraint.meetAll a.slots b.slots).map Domain.mk

/-- Whether some argument list is in both domains. -/
def overlaps (a b : Domain) : Bool := (a.meet? b).isSome

/-- Whether every argument list of `b` is one of `a`. -/
def covers (a b : Domain) : Bool := Constraint.coverAll a.slots b.slots

end Domain

end MethodContracts
