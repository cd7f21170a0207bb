import MethodContracts.Clause
import MethodContracts.Constraint.Text
import MethodContracts.Outcome.Text
import MethodContracts.Text.Separated

/-!
# Clauses in text

A clause is written as its constraints, separated by commas, an arrow, and its outcome:
`null, _ -> fail`. A clause of a method without parameters starts at the arrow. Lists of clauses
are separated by semicolons, and pieces of nothing but white space are skipped.

Reading checks a clause from left to right in three steps: that there is an arrow with something
after it, the constraints, the outcome. `Clause.readList` also checks each clause against the
number of parameters of the method it is written for.
-/

namespace MethodContracts

/-- The constraints of a domain, separated by commas. -/
def Domain.text (d : Domain) : String := ", ".intercalate (d.slots.map Constraint.text)

/-- Read the constraints of a domain; a blank text has none. -/
def Domain.read (cs : List Char) : Except ClauseError Domain :=
  if Text.AllBlank cs then .ok ⟨[]⟩
  else Domain.mk <$> (Text.pieces ',' cs).mapM Constraint.read

namespace Clause

/-! ### Writing -/

/-- The text of a clause. -/
def text (c : Clause) : String :=
  if c.domain.slots.isEmpty then "-> " ++ c.outcome.text
  else c.domain.text ++ " -> " ++ c.outcome.text

/-- The text of a list of clauses. -/
def listText (cs : List Clause) : String := "; ".intercalate (cs.map text)

/-! ### Reading -/

/-- Read a clause. -/
def read (cs : List Char) : Except ClauseError Clause :=
  match Text.cutAtArrow cs with
  | none => .error (.missingArrow (String.ofList (Text.trim cs)))
  | some (lhs, rhs) =>
      if Text.AllBlank rhs then .error (.missingOutcome (String.ofList (Text.trim cs)))
      else do
        let domain ← Domain.read lhs
        let outcome ← Outcome.read rhs
        return ⟨domain, outcome⟩

/-- Accept a clause, read from the given text, for a method of `n` parameters. -/
def checkFor (n : Nat) (written : List Char) (c : Clause) : Except ClauseError Clause :=
  if c.arity ≠ n then .error (.arityMismatch (String.ofList written) n c.arity)
  else
    match c.outcome with
    | .parameter index =>
        if n ≤ index.toNat then .error (.parameterOutOfRange (index.toNat + 1) n) else .ok c
    | _ => .ok c

/-- The texts of the single clauses in the text of a list. -/
def listPieces (cs : List Char) : List (List Char) :=
  ((Text.pieces ';' cs).map Text.trim).filter fun piece => !piece.isEmpty

/-- Read the clauses of a method of `n` parameters. -/
def readList (n : Nat) (cs : List Char) : Except ClauseError (List Clause) :=
  (listPieces cs).mapM fun piece => read piece >>= checkFor n piece

/-- The clause that a text writes. -/
def ofText (s : String) : Except ClauseError Clause := read s.toList

/-- The clauses that a text writes for a method of `n` parameters. -/
def listOfText (n : Nat) (s : String) : Except ClauseError (List Clause) := readList n s.toList

end Clause

end MethodContracts
