import MethodContracts.Proofs.Behaviour
import MethodContracts.Proofs.Clause.Passing
import MethodContracts.Proofs.Resolution.Calls

/-!
# What a method inherits through a call

If a method returns what a call returns, or the negation of it, then the clauses that it inherits
from the target hold for it (`Subject.holdsFor_inherited`). Three things are known of the target:
its clauses hold for its behaviour, they fit the call, and if it is said never to return null then
it never does.

For one clause this is the exactness of restating it: whenever the restated clause applies to the
arguments of the caller, the clause itself applies to what the call passes.
-/

namespace MethodContracts

variable {caller target : Signature} {call : Call} {negated : Bool} {f g h : Behaviour}

/-- Whether a behaviour is that of a call to the target, which behaves as `h`: for any arguments
of the caller, it is what the target does for some that the call can pass. -/
def Behaviour.RunsCall (g : Behaviour) (caller target : Signature) (call : Call)
    (h : Behaviour) : Prop :=
  ∀ args, args.length = caller.arity →
    ∃ passed, call.MayPass caller target args passed ∧ g args = h passed

/-- The behaviour of a method that returns what `g` does, or the negation of it. -/
def Behaviour.negateIf (negated : Bool) (g : Behaviour) : Behaviour :=
  if negated then g.negate else g

theorem Outcome.allows_flip_negateIf {o : Outcome} {args : List Value} (hg : o.Allows (g args)) :
    (if negated then o.flip else o).Allows (g.negateIf negated args) := by
  cases negated with
  | false => exact hg
  | true => exact Outcome.allows_flip hg

/-- A restated clause holds for the caller where the clause holds for the target. -/
theorem Clause.HoldsFor.throughCall? {c t : Clause}
    (ht : c.throughCall? caller target call (target.expands call) negated = some t)
    (hfit : c.Fits target call) (hrun : g.RunsCall caller target call h)
    (hc : c.HoldsFor target.arity h) : t.HoldsFor caller.arity (g.negateIf negated) := by
  intro args hlen hargs
  obtain ⟨passed, hpass, hg⟩ := hrun args hlen
  have hpassed := (admits_iff_of_throughCall? ht hfit hlen hpass).1 hargs
  have hallows := hc passed hpass.1 hpassed
  rw [← hg] at hallows
  rw [outcome_of_throughCall? ht]
  exact Outcome.allows_flip_negateIf hallows

/-- What is returned from a target that never returns null is never null, negated or not. -/
theorem Behaviour.neverNull_negateIf (hh : h.NeverNull target.arity)
    (hrun : g.RunsCall caller target call h) : (g.negateIf negated).NeverNull caller.arity := by
  intro args hlen
  obtain ⟨passed, hpass, hg⟩ := hrun args hlen
  cases negated with
  | false =>
      rw [Behaviour.negateIf, if_neg Bool.false_ne_true, hg]
      exact hh passed hpass.1
  | true => exact (g args).negate_ne_null

theorem Subject.holdsFor_withoutNull {n : Nat} {c : Clause} (hf : f.NeverNull n)
    (hc : c.HoldsFor n f) : (withoutNull c).HoldsFor n f := by
  unfold withoutNull
  split
  · exact hc
  · exact Clause.holdsFor_nonNull hf c.domain

/-- **Inherited clauses hold.** -/
theorem Subject.holdsFor_inherited {m : Subject} {neverNull : Bool} {clauses : List Clause}
    (hclauses : ∀ c ∈ clauses, c.HoldsFor target.arity h)
    (hfit : ∀ c ∈ clauses, c.Fits target call)
    (hnever : neverNull = true → h.NeverNull target.arity)
    (hrun : g.RunsCall m.signature target call h) :
    ∀ c ∈ m.inherited target neverNull call negated clauses,
      c.HoldsFor m.arity (g.negateIf negated) := by
  have hrestated : ∀ c ∈ m.restated target call negated clauses,
      c.HoldsFor m.arity (g.negateIf negated) := by
    intro t ht
    obtain ⟨c, hc, hct⟩ := List.mem_filterMap.1 ht
    exact (hclauses c hc).throughCall? hct (hfit c hc) hrun
  cases neverNull with
  | false => exact hrestated
  | true =>
      have hf : (g.negateIf negated).NeverNull m.arity :=
        Behaviour.neverNull_negateIf (hnever rfl) hrun
      intro c hc
      rw [inherited_true, List.mem_append] at hc
      rcases hc with hc | hc
      · obtain ⟨c', hc', rfl⟩ := List.mem_map.1 hc
        exact holdsFor_withoutNull hf (hrestated c' hc')
      · obtain rfl := List.mem_singleton.1 hc
        exact Clause.holdsFor_nonNull hf _

end MethodContracts
