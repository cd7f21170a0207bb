import MethodContracts.Clause
import MethodContracts.Constraint.Text
import MethodContracts.Json.Fields

/-!
# Clauses in JSON

Constraints and outcomes are variants, a domain is the array of its constraints, and a clause is
a record of a domain and an outcome.
-/

namespace MethodContracts

namespace Constraint

/-- The name of a constraint in JSON. -/
def jsonName : Constraint → String
  | any => "any_value"
  | null => "null_value"
  | nonNull => "not_null_value"
  | bool true => "true_value"
  | bool false => "false_value"

/-- A constraint as a JSON value. -/
def toJson (c : Constraint) : Json := .string c.jsonName

/-- The constraint that a JSON value stands for. -/
def ofJson? (j : Json) : Option Constraint :=
  match j.variant? with
  | some (name, data) => if Json.isUnit data then all.find? fun c => c.jsonName = name else none
  | none => none

end Constraint

namespace Domain

/-- A domain as a JSON value. -/
def toJson (d : Domain) : Json := .array (d.slots.map Constraint.toJson)

/-- The domain that a JSON value stands for. -/
def ofJson? (j : Json) : Option Domain := (j.toList? Constraint.ofJson?).map Domain.mk

end Domain

namespace Outcome

/-- An outcome as a JSON value. -/
def toJson : Outcome → Json
  | fail => .string "fail"
  | nonNull => .string "not_null"
  | null => .string "null"
  | receiver => .string "this"
  | parameter index => .ofVariant "parameter" (.integer index.toNat)
  | bool b => .ofVariant "boolean" (.bool b)

/-- The outcome that a JSON value stands for. -/
def ofJson? (j : Json) : Option Outcome :=
  match j.variant? with
  | some ("parameter", some data) => data.toUInt64?.map parameter
  | some ("boolean", some data) => data.toBool?.map bool
  | some (name, data) =>
      if Json.isUnit data then
        match name with
        | "fail" => some fail
        | "not_null" => some nonNull
        | "null" => some null
        | "this" => some receiver
        | _ => none
      else none
  | none => none

end Outcome

namespace Clause

/-- A clause as a JSON value. -/
def toJson (c : Clause) : Json :=
  .object [("constraints", c.domain.toJson), ("return_value", c.outcome.toJson)]

/-- The clause that a JSON value stands for. -/
def ofJson? (j : Json) : Option Clause :=
  match j.fields? ["constraints", "return_value"] with
  | some [domain, outcome] => do
      return ⟨← Json.required Domain.ofJson? domain, ← Json.required Outcome.ofJson? outcome⟩
  | _ => none

end Clause

end MethodContracts
