import MethodContracts.Codec.Clause
import MethodContracts.Codec.Expr
import MethodContracts.Descriptor

/-!
# Descriptors in JSON

A descriptor is a variant; reading one goes no deeper than the JSON value does.
-/

namespace MethodContracts.Descriptor

mutual

/-- A descriptor as a JSON value. -/
def toJson : Descriptor → Json
  | known clause => .ofVariant "known" clause.toJson
  | delegation call negated =>
      .ofVariant "delegation" (.object [("call", call.toJson), ("negated", .bool negated)])
  | guarded guards inner =>
      .ofVariant "side_effect_filter" (.object [("guarded", .array (guards.map TextRange.toJson)),
        ("contracts", .array (listJson inner))])
  | negating inner => .ofVariant "negating" (toJson inner)
  | nonNullCall call states =>
      .ofVariant "method_call" (.object [("call", call.toJson),
        ("states", .array (states.map Domain.toJson))])

/-- Descriptors as JSON values. -/
def listJson : List Descriptor → List Json
  | [] => []
  | d :: ds => toJson d :: listJson ds

end

/-- The data of a kind of descriptor, given a reader for its parts. -/
def ofKind? (part? : Json → Option Descriptor) : String × Option Json → Option Descriptor
  | ("known", some data) => (Clause.ofJson? data).map known
  | ("delegation", some data) =>
      match data.fields? ["call", "negated"] with
      | some [call, negated] => do
          return delegation (← Json.required TextRange.ofJson? call)
            (← Json.defaulted false Json.toBool? negated)
      | _ => none
  | ("side_effect_filter", some data) =>
      match data.fields? ["guarded", "contracts"] with
      | some [guards, inner] => do
          return guarded (← Json.required (Json.toList? TextRange.ofJson?) guards)
            (← Json.required (Json.toList? part?) inner)
      | _ => none
  | ("negating", some data) => (part? data).map negating
  | ("method_call", some data) =>
      match data.fields? ["call", "states"] with
      | some [call, states] => do
          return nonNullCall (← Json.required TextRange.ofJson? call)
            (← Json.required (Json.toList? Domain.ofJson?) states)
      | _ => none
  | _ => none

/-- The descriptor that a JSON value of at most the given depth stands for. -/
def readWithin? : Nat → Json → Option Descriptor
  | 0, _ => none
  | depth + 1, j => j.variant?.bind (ofKind? (readWithin? depth))

/-- The descriptor that a JSON value stands for. -/
def ofJson? (j : Json) : Option Descriptor := readWithin? j.depth j

end MethodContracts.Descriptor
