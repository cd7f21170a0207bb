import MethodContracts.Codec.Descriptor
import MethodContracts.Json.Reader
import MethodContracts.Session

/-!
# Sessions in JSON

A session is a record with the list of its methods. The fields of a method's signature stand
beside those of its entry, so an entry has to be an object; whatever else stands there is read
along with the signature, and must be readable.
-/

namespace MethodContracts

namespace Signature

/-- The names of the fields of a signature. -/
def fieldNames : List String := ["id", "name", "params", "varargs"]

/-- The fields of a signature. -/
def members (m : Signature) : List (String × Json) :=
  [("id", m.id.toJson), ("name", .string m.name), ("params", .array (m.params.map Json.string)),
    ("varargs", .bool m.varargs)]

/-- A signature as a JSON value. -/
def toJson (m : Signature) : Json := .object m.members

/-- The signature that a JSON value stands for. -/
def ofJson? (j : Json) : Option Signature :=
  match j.fields? fieldNames with
  | some [id, name, params, varargs] => do
      return {
        id := ← Json.required MethodId.ofJson? id
        name := ← Json.required Json.toString? name
        params := ← Json.required (Json.toList? Json.toString?) params
        varargs := ← Json.defaulted false Json.toBool? varargs }
  | _ => none

end Signature

namespace Entry

/-- The names of the fields of an entry beside those of its signature. -/
def fieldNames : List String := ["contract", "never_null", "pure", "body", "pre_contracts"]

/-- An entry as a JSON value. -/
def toJson (e : Entry) : Json :=
  .object (e.signature.members ++
    [("contract", Json.ofOption Json.string e.contract), ("never_null", .bool e.neverNull),
      ("pure", .bool e.isPure), ("body", Json.ofOption Body.toJson e.body),
      ("pre_contracts", .array (Descriptor.listJson e.descriptors))])

/-- The entry that a JSON value stands for. -/
def ofJson? : Json → Option Entry
  | .object members =>
      let (own, others) := members.partition fun (key, _) => key ∈ fieldNames
      if Json.haveReadable others then
        match (Json.object own).fields? fieldNames with
        | some [contract, neverNull, isPure, body, descriptors] => do
            return {
              signature := ← Signature.ofJson? (.object others)
              contract := ← Json.optional Json.toString? contract
              neverNull := ← Json.defaulted false Json.toBool? neverNull
              isPure := ← Json.defaulted false Json.toBool? isPure
              body := ← Json.optional Body.ofJson? body
              descriptors := ← Json.defaulted [] (Json.toList? Descriptor.ofJson?) descriptors }
        | _ => none
      else none
  | _ => none

end Entry

namespace Session

/-- The entries that a JSON value stands for. -/
def entriesOfJson? (j : Json) : Option (List Entry) :=
  match j.fields? ["methods"] with
  | some [entries] => Json.required (Json.toList? Entry.ofJson?) entries
  | _ => none

/-- The session that a JSON text describes. -/
def ofText (text : String) : Except SessionError Session :=
  match (Json.ofText? text).bind entriesOfJson? with
  | some entries => ofEntries entries
  | none => .error .malformed

end Session

end MethodContracts
