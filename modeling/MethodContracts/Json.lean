import MethodContracts.Decimal

/-!
# JSON values

The data format in which methods, their bodies and their contracts are exchanged. Members of an
object keep their order and may repeat a key: what repetition means is for the reader of the
object to say. Integers are kept apart from numbers written with a fraction or an exponent,
which are kept as written.

`Json.unreadable` stands for a part of a text that is well formed, and can be skipped, but has no
value: a string with half of a surrogate pair, an object with such a key, or a container nested
too deeply.
-/

namespace MethodContracts

/-- A JSON value. -/
inductive Json where
  /-- The value `null`. -/
  | null
  /-- The value `true` or `false`. -/
  | bool (b : Bool)
  /-- A number written with digits and a sign only. -/
  | integer (n : Int)
  /-- A number written in any other way, minus zero included. -/
  | decimal (d : Decimal)
  /-- A string. -/
  | string (s : String)
  /-- An array. -/
  | array (items : List Json)
  /-- An object, with its members in order. -/
  | object (members : List (String × Json))
  /-- A well-formed part of a text that has no value. -/
  | unreadable
  deriving Inhabited, Repr

namespace Json

/-! ### Nesting -/

mutual

/-- The greatest number of containers around one another. -/
def depth : Json → Nat
  | array items => depthItems items + 1
  | object members => depthMembers members + 1
  | _ => 0

/-- The greatest depth of a list of values. -/
def depthItems : List Json → Nat
  | [] => 0
  | j :: js => max (depth j) (depthItems js)

/-- The greatest depth among the values of members. -/
def depthMembers : List (String × Json) → Nat
  | [] => 0
  | (_, j) :: ms => max (depth j) (depthMembers ms)

end

mutual

/-- Keep `n` containers around one another, and make those inside them unreadable. -/
def limit (n : Nat) : Json → Json
  | array items => if n = 0 then unreadable else array (limitItems (n - 1) items)
  | object members => if n = 0 then unreadable else object (limitMembers (n - 1) members)
  | null => null
  | bool b => bool b
  | integer i => integer i
  | decimal d => decimal d
  | string s => string s
  | unreadable => unreadable

/-- Limit each of a list of values. -/
def limitItems (n : Nat) : List Json → List Json
  | [] => []
  | j :: js => limit n j :: limitItems n js

/-- Limit the value of each member. -/
def limitMembers (n : Nat) : List (String × Json) → List (String × Json)
  | [] => []
  | (k, j) :: ms => (k, limit n j) :: limitMembers n ms

end

mutual

/-- A value within the limit is not changed by it. -/
theorem limit_of_depth_le {n : Nat} : {j : Json} → j.depth ≤ n → j.limit n = j
  | array items, h => by
      rw [depth] at h
      rw [limit, if_neg (by omega), limitItems_of_depth_le (by omega)]
  | object members, h => by
      rw [depth] at h
      rw [limit, if_neg (by omega), limitMembers_of_depth_le (by omega)]
  | null, _ | bool _, _ | integer _, _ | decimal _, _ | string _, _ | unreadable, _ => rfl

/-- Values within the limit are not changed by it. -/
theorem limitItems_of_depth_le {n : Nat} :
    {js : List Json} → depthItems js ≤ n → limitItems n js = js
  | [], _ => rfl
  | j :: js, h => by
      simp only [depthItems, Nat.max_le] at h
      rw [limitItems, limit_of_depth_le h.1, limitItems_of_depth_le h.2]

/-- Members within the limit are not changed by it. -/
theorem limitMembers_of_depth_le {n : Nat} :
    {ms : List (String × Json)} → depthMembers ms ≤ n → limitMembers n ms = ms
  | [], _ => rfl
  | (k, j) :: ms, h => by
      simp only [depthMembers, Nat.max_le] at h
      rw [limitMembers, limit_of_depth_le h.1, limitMembers_of_depth_le h.2]

end

end Json

end MethodContracts
