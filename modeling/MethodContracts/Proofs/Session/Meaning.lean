import MethodContracts.Proofs.Resolution.Contribution
import MethodContracts.Proofs.Resolution.Inheritance
import MethodContracts.Proofs.Session.Inference

/-!
# What a session says

A **world** gives every method a behaviour. A descriptor describes a behaviour if what it says
about the method is true there: a stated clause holds; a delegation to another method returns what
that method does for arguments that the call can pass, or the negation of it; the descriptors
behind guards that are found and have no side effects describe the behaviour; a negated descriptor
describes one that the behaviour is the negation of; and in each of its states, a call of another
method that never returns null makes the result not null.

A world realizes a session if everything that the session was told is true there: declared
contracts, which methods never return null, and the descriptors of the methods with a body.
-/

namespace MethodContracts

/-- The behaviour of every method. -/
abbrev World := MethodId → Behaviour

/-- Whether the call at a range of a method goes to another method of the session. -/
def Session.CallsAt (s : Session) (m : Subject) (range : TextRange) (call : Call)
    (t : Method) : Prop :=
  m.callAt? range = some call ∧ call.target.bind s.method? = some t ∧ t.id ≠ m.signature.id

namespace Descriptor

mutual

/-- Whether what a descriptor says about a method is true of a behaviour. -/
def Describes (s : Session) (world : World) (m : Subject) : Descriptor → Behaviour → Prop
  | known clause, f => clause.HoldsFor m.arity f
  | delegation range negated, f =>
      ∀ call t, s.CallsAt m range call t →
        ∃ g : Behaviour, f.Agree m.arity (g.negateIf negated) ∧
          g.RunsCall m.signature t.entry.signature call (world t.id)
  | guarded guards inner, f =>
      (∀ guard ∈ guards, ∃ e, m.body.bind (·.find? guard) = some e ∧
        e.hasSideEffects s.isPure = false) → DescribesAll s world m inner f
  | negating inner, f => ∃ g : Behaviour, f.Agree m.arity g.negate ∧ Describes s world m inner g
  | nonNullCall range states, f =>
      ∀ call t, s.CallsAt m range call t → (world t.id).NeverNull t.subject.arity →
        ∀ d ∈ states, Clause.HoldsFor m.arity f ⟨d, .nonNull⟩

/-- Whether what each of some descriptors says about a method is true of a behaviour. -/
def DescribesAll (s : Session) (world : World) (m : Subject) :
    List Descriptor → Behaviour → Prop
  | [], _ => True
  | d :: ds, f => Describes s world m d f ∧ DescribesAll s world m ds f

end

theorem describesAll_iff {s : Session} {world : World} {m : Subject} {f : Behaviour}
    {ds : List Descriptor} :
    DescribesAll s world m ds f ↔ ∀ d ∈ ds, d.Describes s world m f := by
  induction ds with
  | nil => simp [DescribesAll]
  | cons d ds ih => rw [DescribesAll, ih, List.forall_mem_cons]

end Descriptor

namespace Session

/-- Whether all that a session was told about its methods is true in a world. -/
structure RealizedBy (s : Session) (world : World) : Prop where
  /-- Declared contracts hold. -/
  declared : ∀ m ∈ s.methods, ∀ clauses, m.declared = some clauses →
    ∀ c ∈ clauses, c.HoldsFor m.subject.arity (world m.id)
  /-- Methods that are said never to return null never do. -/
  neverNull : ∀ m ∈ s.methods, m.entry.neverNull = true →
    (world m.id).NeverNull m.subject.arity
  /-- Descriptors of methods with a body and without declared contracts are right. -/
  described : ∀ m ∈ s.methods, m.declared = none → m.entry.body.isSome = true →
    ∀ d ∈ m.entry.descriptors, d.Describes s world m.subject (world m.id)

/-- Whether the clauses that are seen of the method called at a range all fit the call. -/
def SeenFits (s : Session) (found : Results) (m : Subject) (range : TextRange) : Prop :=
  ∀ call t, s.CallsAt m range call t →
    ∀ c ∈ (s.facts found).contracts t.id, c.Fits t.entry.signature call

/-- Whether this is so for each delegation in a descriptor that counts when resolution looks through
`maxDepth` levels. Of a delegation that is suppressed, or lies deeper, nothing is asked. -/
def DelegationsFit (s : Session) (found : Results) (m : Subject) (maxDepth : Nat)
    (d : Descriptor) : Prop :=
  ∀ l ∈ d.leaves, l.Counts (s.facts found) m maxDepth →
    ∀ range negated, l.source = .delegation range negated → s.SeenFits found m range

/-- Whether it is so for each descriptor of a method without declared contracts, with what is seen
when the method is inferred. -/
def AllDelegationsFit (s : Session) (depth : Nat) : Prop :=
  ∀ i m, s.methods[i]? = some m → m.declared = none →
    ∀ d ∈ m.entry.descriptors, s.DelegationsFit (s.inferFirst depth i) m.subject depth d

/-- Whether contracts are true in a world: each clause holds for the method that it is one of. -/
def Results.HoldIn (s : Session) (world : World) (found : Results) : Prop :=
  ∀ id clauses, (id, clauses) ∈ found → ∀ m ∈ s.methods, m.id = id →
    ∀ c ∈ clauses, c.HoldsFor m.subject.arity (world id)

end Session

end MethodContracts
