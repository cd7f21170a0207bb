import MethodContracts.Clause.Error
import MethodContracts.Outcome
import MethodContracts.Text.Blank
import MethodContracts.Text.Decimal

/-!
# Outcomes in text

Each outcome is written as one word; a parameter is written with its number, counted from one.
-/

namespace MethodContracts.Outcome

/-- The word for an outcome. -/
def text : Outcome → String
  | fail => "fail"
  | nonNull => "!null"
  | null => "null"
  | receiver => "this"
  | parameter index => "param" ++ toString (index + 1).toNat
  | bool true => "true"
  | bool false => "false"

/-- The outcomes that are written without a number. -/
def named : List Outcome := [fail, nonNull, null, receiver, bool true, bool false]

/-- The parameter that a number, counted from one, names. -/
def ofNumber? (number : UInt64) : Option Outcome :=
  if number = 0 then none else some (parameter (number - 1))

/-- The outcome that a word stands for. -/
def ofWord? (word : List Char) : Option Outcome :=
  (named.find? fun o => o.text.toList = word) <|>
    match word with
    | 'p' :: 'a' :: 'r' :: 'a' :: 'm' :: number => (Text.readWord? number).bind ofNumber?
    | _ => none

/-- Read an outcome, with white space around it. -/
def read (cs : List Char) : Except ClauseError Outcome :=
  match ofWord? (Text.trim cs) with
  | some o => .ok o
  | none => .error (.unknownOutcome (String.ofList (Text.trim cs)))

end MethodContracts.Outcome
