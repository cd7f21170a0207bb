import MethodContracts.Clause.Error
import MethodContracts.Constraint
import MethodContracts.Text.Blank

/-!
# Constraints in text

Each constraint is written as one word; white space around the word does not count.
-/

namespace MethodContracts.Constraint

/-- The word for a constraint. -/
def text : Constraint → String
  | any => "_"
  | null => "null"
  | nonNull => "!null"
  | bool true => "true"
  | bool false => "false"

/-- All constraints, in their order. -/
def all : List Constraint := [any, null, nonNull, bool true, bool false]

theorem mem_all (c : Constraint) : c ∈ all := by
  rcases c with _ | _ | _ | (_ | _) <;> decide

/-- The constraint that a word stands for. -/
def ofWord? (word : List Char) : Option Constraint := all.find? fun c => c.text.toList = word

/-- A word stands for the constraint that is written so, and for no other. -/
theorem ofWord?_eq_some_iff {word : List Char} {c : Constraint} :
    ofWord? word = some c ↔ word = c.text.toList := by
  constructor
  · intro h
    unfold ofWord? at h
    have hword := List.find?_some h
    simpa using (of_decide_eq_true hword).symm
  · rintro rfl
    rcases c with _ | _ | _ | (_ | _) <;> decide

/-- Read a constraint, with white space around it. -/
def read (cs : List Char) : Except ClauseError Constraint :=
  match ofWord? (Text.trim cs) with
  | some c => .ok c
  | none => .error (.unknownConstraint (String.ofList (Text.trim cs)))

end MethodContracts.Constraint
