import MethodContracts.Expr
import MethodContracts.Json.Fields

/-!
# Expressions in JSON

An expression is a record of its range and its kind; the kind is a variant whose data are the
parts of the node. Reading an expression goes no deeper than the JSON value does.
-/

namespace MethodContracts

namespace MethodId

/-- An id as a JSON value. -/
def toJson (id : MethodId) : Json := .integer id.number.toNat

/-- The id that a JSON value stands for. -/
def ofJson? (j : Json) : Option MethodId := j.toUInt32?.map MethodId.mk

end MethodId

namespace TextRange

/-- A range as a JSON value. -/
def toJson (r : TextRange) : Json :=
  .object [("start", .integer r.start.toNat), ("end", .integer r.stop.toNat)]

/-- The range that a JSON value stands for. -/
def ofJson? (j : Json) : Option TextRange :=
  match j.fields? ["start", "end"] with
  | some [start, stop] => do
      return ⟨← Json.required Json.toUInt32? start, ← Json.required Json.toUInt32? stop⟩
  | _ => none

end TextRange

namespace Literal

/-- A literal as a JSON value. -/
def toJson : Literal → Json
  | null => .string "null"
  | bool b => .ofVariant "bool" (.bool b)
  | int n => .ofVariant "int" (.integer n.toInt)
  | float f => .ofVariant "float" (.ofFloat f)
  | str s => .ofVariant "str" (.string s)
  | char c => .ofVariant "char" (.string c.toString)

/-- The literal that a JSON value stands for. -/
def ofJson? (j : Json) : Option Literal :=
  match j.variant? with
  | some ("null", data) => if Json.isUnit data then some null else none
  | some ("bool", some data) => data.toBool?.map bool
  | some ("int", some data) => data.toInt64?.map int
  | some ("float", some data) => data.toFloat?.map float
  | some ("str", some data) => data.toString?.map str
  | some ("char", some data) => data.toChar?.map char
  | _ => none

end Literal

namespace Symbol

/-- A symbol as a JSON value. -/
def toJson : Symbol → Json
  | parameter method index =>
      .ofVariant "parameter"
        (.object [("method", method.toJson), ("index", .integer index.toNat)])
  | localName name => .ofVariant "local" (.string name)
  | fieldName name => .ofVariant "field" (.string name)

/-- The symbol that a JSON value stands for. -/
def ofJson? (j : Json) : Option Symbol :=
  match j.variant? with
  | some ("parameter", some data) =>
      match data.fields? ["method", "index"] with
      | some [method, index] => do
          return parameter (← Json.required MethodId.ofJson? method)
            (← Json.required Json.toUInt64? index)
      | _ => none
  | some ("local", some data) => data.toString?.map localName
  | some ("field", some data) => data.toString?.map fieldName
  | _ => none

end Symbol

namespace Call

/-- The call that a JSON value stands for, given a reader for its parts. -/
def read? (part? : Json → Option Expr) (j : Json) : Option Call :=
  match j.fields? ["name", "target", "receiver", "arguments", "var_args"] with
  | some [name, target, receiver, arguments, varArgs] => do
      return {
        name := ← Json.required Json.toString? name
        target := ← Json.optional MethodId.ofJson? target
        receiver := ← Json.optional part? receiver
        arguments := ← Json.defaulted [] (Json.toList? part?) arguments
        varArgs := ← Json.defaulted false Json.toBool? varArgs }
  | _ => none

end Call

namespace Expr

/-! ### Writing -/

/-- A node as a JSON value, given its kind. -/
def nodeJson (r : TextRange) (kind : Json) : Json :=
  .object [("range", r.toJson), ("kind", kind)]

mutual

/-- An expression as a JSON value. -/
def toJson : Expr → Json
  | literal r value => nodeJson r (.ofVariant "literal" value.toJson)
  | reference r name qualifier symbol =>
      nodeJson r (.ofVariant "reference" (.object [("name", .string name),
        ("qualifier", optionJson qualifier), ("symbol", Json.ofOption Symbol.toJson symbol)]))
  | parenthesized r inner => nodeJson r (.ofVariant "parenthesized" (toJson inner))
  | call r name target receiver arguments varArgs =>
      nodeJson r (.ofVariant "call" (.object [("name", .string name),
        ("target", Json.ofOption MethodId.toJson target), ("receiver", optionJson receiver),
        ("arguments", .array (listJson arguments)), ("var_args", .bool varArgs)]))
  | construction r arguments =>
      nodeJson r (.ofVariant "new" (.object [("arguments", .array (listJson arguments))]))
  | operation r operator operands =>
      nodeJson r (.ofVariant "polyadic" (.object [("operator", .string operator),
        ("operands", .array (listJson operands))]))
  | function r => nodeJson r (.string "function")
  | assignment r target value =>
      nodeJson r (.ofVariant "assignment" (.object [("target", toJson target),
        ("value", toJson value)]))
  | other r children =>
      nodeJson r (.ofVariant "other" (.object [("children", .array (listJson children))]))

/-- An expression that may be missing as a JSON value. -/
def optionJson : Option Expr → Json
  | none => .null
  | some e => toJson e

/-- Expressions as JSON values. -/
def listJson : List Expr → List Json
  | [] => []
  | e :: es => toJson e :: listJson es

end

/-! ### Reading -/

/-- The data of a kind of node as an expression, given a reader for its parts. -/
def ofKind? (part? : Json → Option Expr) (r : TextRange) : String × Option Json → Option Expr
  | ("literal", some data) => (Literal.ofJson? data).map (literal r)
  | ("reference", some data) =>
      match data.fields? ["name", "qualifier", "symbol"] with
      | some [name, qualifier, symbol] => do
          return reference r (← Json.required Json.toString? name)
            (← Json.optional part? qualifier) (← Json.optional Symbol.ofJson? symbol)
      | _ => none
  | ("parenthesized", some data) => (part? data).map (parenthesized r)
  | ("call", some data) => (Call.read? part? data).map (ofCall r)
  | ("new", some data) =>
      match data.fields? ["arguments"] with
      | some [arguments] =>
          (Json.defaulted [] (Json.toList? part?) arguments).map (construction r)
      | _ => none
  | ("polyadic", some data) =>
      match data.fields? ["operator", "operands"] with
      | some [operator, operands] => do
          return operation r (← Json.required Json.toString? operator)
            (← Json.required (Json.toList? part?) operands)
      | _ => none
  | ("function", data) => if Json.isUnit data then some (function r) else none
  | ("assignment", some data) =>
      match data.fields? ["target", "value"] with
      | some [target, value] => do
          return assignment r (← Json.required part? target) (← Json.required part? value)
      | _ => none
  | ("other", some data) =>
      match data.fields? ["children"] with
      | some [children] => (Json.defaulted [] (Json.toList? part?) children).map (other r)
      | _ => none
  | _ => none

/-- The expression that a JSON value of at most the given depth stands for. -/
def readWithin? : Nat → Json → Option Expr
  | 0, _ => none
  | depth + 1, j =>
      match j.fields? ["range", "kind"] with
      | some [range, kind] => do
          let r ← Json.required TextRange.ofJson? range
          let kind ← Json.required Json.variant? kind
          ofKind? (readWithin? depth) r kind
      | _ => none

/-- The expression that a JSON value stands for. -/
def ofJson? (j : Json) : Option Expr := readWithin? j.depth j

end Expr

namespace Call

/-- A call as a JSON value. -/
def toJson (c : Call) : Json :=
  .object [("name", .string c.name), ("target", Json.ofOption MethodId.toJson c.target),
    ("receiver", Expr.optionJson c.receiver), ("arguments", .array (Expr.listJson c.arguments)),
    ("var_args", .bool c.varArgs)]

/-- The call that a JSON value stands for. -/
def ofJson? (j : Json) : Option Call := read? Expr.ofJson? j

end Call

namespace Body

/-- A body as a JSON value. -/
def toJson (b : Body) : Json := .object [("expressions", .array (Expr.listJson b.expressions))]

/-- The body that a JSON value stands for. -/
def ofJson? (j : Json) : Option Body :=
  match j.fields? ["expressions"] with
  | some [expressions] =>
      (Json.defaulted [] (Json.toList? Expr.ofJson?) expressions).map Body.mk
  | _ => none

end Body

end MethodContracts
