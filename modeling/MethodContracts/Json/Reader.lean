import MethodContracts.Json.Token

/-!
# Reading JSON text

Tokens are put together on a stack of the containers that are still open, so reading is one
pass over the text. The grammar is strict: one value, no comments, no trailing commas, nothing but
white space around it. Texts may nest without bound, but only `nestingLimit` containers around one
another have values.
-/

namespace MethodContracts.Json

/-- A container of which a part has been read; its parts are in reverse order. -/
inductive Frame where
  /-- An array with the items so far. -/
  | array (done : List Json)
  /-- An object with the members so far. -/
  | object (done : List (Option String × Json))
  /-- An object with the members so far and the key of the next. -/
  | member (done : List (Option String × Json)) (key : Option String)

/-- What has been read, and what may come next. -/
inductive ReadState where
  /-- A value comes next. -/
  | value (stack : List Frame)
  /-- The first item or the end of the array on top comes next. -/
  | arrayStart (stack : List Frame)
  /-- The first key or the end of the object on top comes next. -/
  | objectStart (stack : List Frame)
  /-- A key comes next. -/
  | memberKey (stack : List Frame)
  /-- A colon comes next. -/
  | memberColon (stack : List Frame)
  /-- A comma or the end of the container on top comes next. -/
  | separator (stack : List Frame)
  /-- Nothing may come any more. -/
  | finished (j : Json)

/-- The object with these members; without a value when one of the keys has none. -/
def ofMembers (members : List (Option String × Json)) : Json :=
  match members.mapM fun (key, j) => key.map fun k => (k, j) with
  | some ms => object ms
  | none => unreadable

namespace ReadState

/-- A value is complete. -/
def complete (j : Json) : List Frame → Option ReadState
  | [] => some (.finished j)
  | .array done :: st => some (.separator (.array (j :: done) :: st))
  | .member done key :: st => some (.separator (.object ((key, j) :: done) :: st))
  | .object _ :: _ => none

/-- A value begins. -/
def startValue (st : List Frame) : Token → Option ReadState
  | .scalar j => complete j st
  | .string (some s) => complete (.string s) st
  | .string none => complete .unreadable st
  | .openArray => some (.arrayStart (.array [] :: st))
  | .openObject => some (.objectStart (.object [] :: st))
  | _ => none

/-- Take one token; `none` when it may not come next. -/
def step? : ReadState → Token → Option ReadState
  | .value st, t => startValue st t
  | .arrayStart (.array done :: st), .closeArray => complete (.array done.reverse) st
  | .arrayStart st, t => startValue st t
  | .objectStart (.object done :: st), .closeObject => complete (ofMembers done.reverse) st
  | .objectStart (.object done :: st), .string key => some (.memberColon (.member done key :: st))
  | .memberKey (.object done :: st), .string key => some (.memberColon (.member done key :: st))
  | .memberColon st, .colon => some (.value st)
  | .separator (.array done :: st), .comma => some (.value (.array done :: st))
  | .separator (.array done :: st), .closeArray => complete (.array done.reverse) st
  | .separator (.object done :: st), .comma => some (.memberKey (.object done :: st))
  | .separator (.object done :: st), .closeObject => complete (ofMembers done.reverse) st
  | _, _ => none

/-- Read a text to its end. -/
def run? (s : ReadState) (cs : List Char) : Option Json :=
  match _hspace : cs.dropWhile isSpace with
  | [] =>
      match s with
      | .finished j => some j
      | _ => none
  | c :: rest =>
      match _htoken : token? c rest with
      | some (t, rest) =>
          match s.step? t with
          | some s => run? s rest
          | none => none
      | none => none
termination_by cs.length
decreasing_by
  have hspace := (List.dropWhile_suffix (l := cs) isSpace).length_le
  have htoken := length_of_token? _htoken
  rw [_hspace, List.length_cons] at hspace
  omega

end ReadState

/-- How many containers around one another have values. -/
def nestingLimit : Nat := 127

/-- The value that a text writes. -/
def ofText? (s : String) : Option Json :=
  (ReadState.run? (.value []) s.toList).map (limit nestingLimit)

end MethodContracts.Json
