import MethodContracts.Decimal.Binary64
import MethodContracts.Decimal.Shortest
import MethodContracts.Json

/-!
# Data in JSON

How records, variants and plain values are laid out in JSON.

* A **record** is written as an object with all its fields. It is also read from an object that
  lacks fields with a default, that has members of other names, or whose members come in another
  order, and from an array of its fields in order, of which the last may be missing. A field that
  is given twice is refused.
* A **variant** is an object whose only key names the alternative, or, for an alternative without
  data, its name alone.

Readers answer `none` for a value that does not have the layout; there is nothing more to say
about the reason.
-/

namespace MethodContracts.Json

/-! ### Plain values -/

/-- The boolean of a JSON value. -/
def toBool? : Json → Option Bool
  | bool b => some b
  | _ => none

/-- The string of a JSON value. -/
def toString? : Json → Option String
  | string s => some s
  | _ => none

/-- The character of a JSON string of one character. -/
def toChar? : Json → Option Char
  | string s =>
      match s.toList with
      | [c] => some c
      | _ => none
  | _ => none

/-- The 32-bit unsigned number with the value of a JSON integer. -/
def toUInt32? : Json → Option UInt32
  | integer n =>
      let word := UInt32.ofNat n.toNat
      if word.toNat = n then some word else none
  | _ => none

/-- The 64-bit unsigned number with the value of a JSON integer. -/
def toUInt64? : Json → Option UInt64
  | integer n =>
      let word := UInt64.ofNat n.toNat
      if word.toNat = n then some word else none
  | _ => none

/-- The 64-bit signed number with the value of a JSON integer. -/
def toInt64? : Json → Option Int64
  | integer n =>
      let word := Int64.ofInt n
      if word.toInt = n then some word else none
  | _ => none

@[simp] theorem toUInt32?_toNat (n : UInt32) : toUInt32? (integer n.toNat) = some n := by
  simp [toUInt32?]

@[simp] theorem toUInt64?_toNat (n : UInt64) : toUInt64? (integer n.toNat) = some n := by
  simp [toUInt64?]

@[simp] theorem toInt64?_toInt (n : Int64) : toInt64? (integer n.toInt) = some n := by
  simp [toInt64?]

/-- The float of a JSON number, unless it is too large. -/
def toFloat? : Json → Option Float
  | integer n => (Decimal.ofInt n).toFloat?
  | decimal d => d.toFloat?
  | _ => none

/-- Floats have a point in its place from five places after it to sixteen before it. -/
def floatPoint : Decimal.PointRange := ⟨-5, 16⟩

/-- A finite float as a JSON number; there is no number for the others. -/
def ofFloat (f : Float) : Json :=
  if f.isFinite then decimal (Decimal.ofFloat floatPoint f) else null

/-- The values of a JSON array. -/
def toList? {α : Type} (f : Json → Option α) : Json → Option (List α)
  | array items => items.mapM f
  | _ => none

/-! ### Records -/

/-- The values of the named fields of a record, `none` for a field that is missing. -/
def fields? (names : List String) : Json → Option (List (Option Json))
  | object members =>
      names.mapM fun name =>
        match members.filter fun (key, _) => key = name with
        | [] => some none
        | [(_, j)] => some (some j)
        | _ => none
  | array items =>
      if items.length ≤ names.length then
        some (items.map some ++ List.replicate (names.length - items.length) none)
      else none
  | _ => none

/-- A field that has to be there. -/
def required {α : Type} (f : Json → Option α) : Option Json → Option α
  | some j => f j
  | none => none

/-- A field that has a default. -/
def defaulted {α : Type} (d : α) (f : Json → Option α) : Option Json → Option α
  | some j => f j
  | none => some d

/-- A field that may be missing or null. -/
def optional {α : Type} (f : Json → Option α) : Option Json → Option (Option α)
  | some null => some none
  | some j => (f j).map some
  | none => some none

/-- An optional field as it is written. -/
def ofOption {α : Type} (f : α → Json) : Option α → Json
  | some a => f a
  | none => null

/-! ### Variants -/

/-- The name of an alternative, and its data. -/
def variant? : Json → Option (String × Option Json)
  | string name => some (name, none)
  | object [(name, j)] => some (name, some j)
  | _ => none

/-- Whether this is the data of an alternative that has none. -/
def isUnit : Option Json → Bool
  | none => true
  | some null => true
  | _ => false

/-- An alternative with data, as it is written. -/
def ofVariant (name : String) (data : Json) : Json := object [(name, data)]

/-! ### Readable values -/

/-- Whether an integer fits into 64 bits, with or without a sign. -/
def isWord (n : Int) : Bool := -9223372036854775808 ≤ n && n < 18446744073709551616

mutual

/-- Whether every part of a value can be read: an integer that fits into 64 bits as it is, every
other number if it is within the range of floats. -/
def isReadable : Json → Bool
  | unreadable => false
  | integer n => isWord n || (Decimal.ofInt n).toFloat?.isSome
  | decimal d => d.toFloat?.isSome
  | array items => areReadable items
  | object members => haveReadable members
  | null => true
  | bool _ => true
  | string _ => true

/-- Whether all of a list of values can be read. -/
def areReadable : List Json → Bool
  | [] => true
  | j :: js => isReadable j && areReadable js

/-- Whether all values of members can be read. -/
def haveReadable : List (String × Json) → Bool
  | [] => true
  | (_, j) :: ms => isReadable j && haveReadable ms

end

end MethodContracts.Json
