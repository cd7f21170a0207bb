import MethodContracts.Clause.Text
import MethodContracts.Expr.SideEffects
import MethodContracts.Resolution

/-!
# Inference sessions

A session is a list of methods in order of declaration, with what is known of each: contracts
declared in text, whether it ever returns null, whether it is pure, and for methods with a body
the descriptors recorded for it. Ids are unique in a session, and declared text has been read
when the session was built.

`Session.infer` goes through the methods in order. Declared contracts are taken as they are, and
visible from everywhere; inferred ones are visible to later methods only.
-/

namespace MethodContracts

/-- A method as it is described to a session. -/
structure Entry where
  /-- Its signature. -/
  signature : Signature
  /-- Declared contracts, in text. -/
  contract : Option String
  /-- Whether it is known never to return null. -/
  neverNull : Bool
  /-- Whether it is known to have no side effects. -/
  isPure : Bool
  /-- Its body, if it has one. -/
  body : Option Body
  /-- What was recorded about its contracts. -/
  descriptors : List Descriptor

/-- Why entries do not make a session. -/
inductive SessionError where
  /-- The text does not describe a list of entries. -/
  | malformed
  /-- Two entries have the same id. -/
  | duplicateMethod (id : MethodId)
  /-- The declared contracts of a method cannot be read. -/
  | invalidContract (method : String) (reason : ClauseError)
  deriving DecidableEq, Repr

/-- The wording of each error. -/
def SessionError.message : SessionError → String
  | .malformed => "invalid session JSON"
  | .duplicateMethod id => s!"duplicate method id {id.number.toNat}"
  | .invalidContract method reason =>
      s!"invalid contract on method '{method}': {reason.message}"

/-- A method of a session. -/
structure Method where
  /-- The method as it was described. -/
  entry : Entry
  /-- The declared contracts, if any were declared. -/
  declared : Option (List Clause)

namespace Method

/-- The id of a method. -/
def id (m : Method) : MethodId := m.entry.signature.id

/-- The name of a method. -/
def name (m : Method) : String := m.entry.signature.name

/-- The method as the subject of inference. -/
def subject (m : Method) : Subject := ⟨m.entry.signature, m.entry.body⟩

end Method

/-- Methods in order of declaration. -/
structure Session where
  /-- The methods. -/
  methods : List Method
  /-- No two methods have the same id. -/
  nodup_ids : (methods.map Method.id).Nodup

namespace Session

/-! ### Building a session -/

/-- The session without methods. -/
def empty : Session := ⟨[], List.nodup_nil⟩

/-- The contracts that an entry declares. -/
def declaredBy (e : Entry) : Except SessionError (Option (List Clause)) :=
  match e.contract with
  | none => .ok none
  | some text =>
      match Clause.listOfText e.signature.arity text with
      | .ok clauses => .ok (some clauses)
      | .error reason => .error (.invalidContract e.signature.name reason)

/-- Declare one more method. -/
def declare (s : Session) (e : Entry) : Except SessionError Session :=
  if h : e.signature.id ∈ s.methods.map Method.id then .error (.duplicateMethod e.signature.id)
  else
    (declaredBy e).map fun declared =>
      { methods := s.methods ++ [⟨e, declared⟩]
        nodup_ids := by
          rw [List.map_append, List.nodup_append]
          refine ⟨s.nodup_ids, by simp, ?_⟩
          rintro a ha b hb rfl
          simp only [List.map_cons, List.map_nil, List.mem_singleton] at hb
          have hid : a = e.signature.id := hb
          exact h (hid ▸ ha) }

/-- The session of a list of entries; the first entry that cannot be declared decides. -/
def ofEntries (es : List Entry) : Except SessionError Session := es.foldlM declare empty

/-! ### Looking up methods -/

/-- The method with an id. -/
def method? (s : Session) (id : MethodId) : Option Method := s.methods.find? fun m => m.id = id

/-- The first method with a name. -/
def methodNamed? (s : Session) (name : String) : Option Method :=
  s.methods.find? fun m => m.name = name

/-- Whether an id belongs to a method that is known to be pure. -/
def isPure (s : Session) (id : MethodId) : Bool := (s.method? id).any fun m => m.entry.isPure

/-! ### Inference -/

/-- The contracts of some methods, in order of declaration. -/
abbrev Results := List (MethodId × List Clause)

/-- The contracts of a method that have been found so far. -/
def Results.of? (found : Results) (id : MethodId) : Option (List Clause) :=
  (found.find? fun (other, _) => other = id).map Prod.snd

/-- What a method can see while it is inferred, with the contracts found before it: of every
method what is declared, and of earlier methods what was found. -/
def facts (s : Session) (found : Results) : Facts where
  signature? id := (s.method? id).map fun m => m.entry.signature
  contracts id :=
    match (s.method? id).bind Method.declared with
    | some clauses => clauses
    | none => (found.of? id).getD []
  neverNull id := (s.method? id).any fun m => m.entry.neverNull
  sideEffects e := e.hasSideEffects s.isPure

/-- The contracts of one method: what is declared; or else what its descriptors amount to, if it
has a body; or else nothing. -/
def inferMethod (s : Session) (depth : Nat) (found : Results) (m : Method) : List Clause :=
  match m.declared, m.entry.body with
  | some clauses, _ => clauses
  | none, some _ => m.subject.infer (s.facts found) depth m.entry.descriptors
  | none, none => []

/-- The contracts of all methods, in order of declaration. -/
def infer (s : Session) (depth : Nat) : Results :=
  s.methods.foldl (fun found m => found ++ [(m.id, s.inferMethod depth found m)]) []

end Session

end MethodContracts
