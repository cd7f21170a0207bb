import MethodContracts.Clause.ThroughCall
import MethodContracts.Descriptor
import MethodContracts.Facts
import MethodContracts.NormalForm

/-!
# Resolving descriptors

`Descriptor.resolve` turns a descriptor into contract clauses. It never fails: whatever cannot be
established, because an expression is not found, a call leads nowhere known, a guarded expression
may have side effects, or clauses conflict, leaves fewer clauses. A method never learns anything
from itself. `Subject.infer` resolves all descriptors of a method and normalizes the result.
-/

namespace MethodContracts

namespace Subject

/-! ### Delegation -/

/-- The clause for a target that never returns null: every outcome but failure becomes *not
null*. -/
def withoutNull (c : Clause) : Clause := if c.outcome.isFail then c else c.withOutcome .nonNull

/-- What the subject inherits from the clauses of a target that it calls: those that can be
restated for its own parameters and, when the target never returns null, that the subject does
not either. -/
def inherited (m : Subject) (target : Signature) (neverNull : Bool) (call : Call)
    (negated : Bool) (clauses : List Clause) : List Clause :=
  let restated := clauses.filterMap
    (Clause.throughCall? m.signature target call (target.expands call) negated)
  if neverNull then restated.map withoutNull ++ [.unconditional m.arity .nonNull]
  else restated

/-- The contracts of the subject when it returns what the call at a range returns, or the
negation of it. -/
def delegate (facts : Facts) (m : Subject) (callRange : TextRange) (negated : Bool) :
    List Clause :=
  match m.callAt? callRange with
  | none => []
  | some call =>
      match call.target.bind facts.signature? with
      | none => []
      | some target =>
          if target.id = m.signature.id then []
          else
            match Clause.normalize? (facts.contracts target.id) with
            | none => []
            | some [] => []
            | some clauses =>
                (Clause.normalize? (m.inherited target (facts.neverNull target.id) call negated
                  clauses)).getD []

/-! ### Calls that never return null -/

/-- The states of the right arity as clauses that promise a result that is not null, when the
call at a range goes to another method that never returns null. -/
def nonNullStates (facts : Facts) (m : Subject) (callRange : TextRange) (states : List Domain) :
    List Clause :=
  match (m.callAt? callRange).bind Call.target with
  | none => []
  | some target =>
      if target = m.signature.id then []
      else if facts.neverNull target then
        (states.filter fun d => d.arity = m.arity).map fun d => ⟨d, .nonNull⟩
      else []

/-! ### Guards -/

/-- Whether a guarded expression stands in the way: it has side effects, or is not there. -/
def obstructs (facts : Facts) (m : Subject) (guard : TextRange) : Bool :=
  match m.body.bind (·.find? guard) with
  | some e => facts.sideEffects e
  | none => true

end Subject

namespace Descriptor

mutual

/-- The clauses that a descriptor stands for, looking through at most `depth` levels of
`guarded` and `negating`. -/
def resolve (facts : Facts) (m : Subject) (depth : Nat) : Descriptor → List Clause
  | known clause => [clause]
  | delegation call negated => m.delegate facts call negated
  | guarded guards inner =>
      if guards.any (m.obstructs facts) then []
      else
        match depth with
        | 0 => []
        | depth + 1 => resolveAll facts m depth inner
  | negating inner =>
      match depth with
      | 0 => []
      | depth + 1 => (resolve facts m depth inner).filterMap Clause.negate?
  | nonNullCall call states => m.nonNullStates facts call states

/-- The clauses that a list of descriptors stands for, in order. -/
def resolveAll (facts : Facts) (m : Subject) (depth : Nat) : List Descriptor → List Clause
  | [] => []
  | d :: ds => resolve facts m depth d ++ resolveAll facts m depth ds

end

theorem resolveAll_eq_flatMap (facts : Facts) (m : Subject) (depth : Nat)
    (ds : List Descriptor) :
    resolveAll facts m depth ds = ds.flatMap (resolve facts m depth) := by
  induction ds with
  | nil => rfl
  | cons d ds ih => simp [resolveAll, ih]

/-- How many levels are looked through unless another number is asked for. -/
def defaultDepth : Nat := 64

end Descriptor

/-- The contracts that the descriptors of a method amount to; none at all when they conflict. -/
def Subject.infer (facts : Facts) (m : Subject) (depth : Nat) (ds : List Descriptor) :
    List Clause :=
  (Clause.normalize? (Descriptor.resolveAll facts m depth ds)).getD []

end MethodContracts
