import MethodContracts.Json.Reader
import MethodContracts.Json.Writer
import MethodContracts.Proofs.Json.Token

/-!
# Written values can be read

Reading takes back every value that is written without a loss (`isExact`) and does not nest too
deeply (`ofText?_text`). A value is read in the middle of a text: on top of any open containers,
and before any text that a number at its end does not run into. The reader is then where it would
be if the value had been given to it as a whole (`ReadState.run?_compact`).
-/

namespace MethodContracts.Json

/-! ### Values that are written without a loss -/

mutual

/-- Whether a value is written without a loss. Numbers with a fraction or an exponent are left
out: written as an integer, they would be read as one. -/
def isExact : Json → Bool
  | array items => areExact items
  | object members => haveExact members
  | decimal _ => false
  | unreadable => false
  | null => true
  | bool _ => true
  | integer _ => true
  | string _ => true

/-- Whether all of a list of values are written without a loss. -/
def areExact : List Json → Bool
  | [] => true
  | j :: js => isExact j && areExact js

/-- Whether all values of members are written without a loss. -/
def haveExact : List (String × Json) → Bool
  | [] => true
  | (_, j) :: ms => isExact j && haveExact ms

end

theorem areExact_iff {js : List Json} : areExact js = true ↔ ∀ j ∈ js, j.isExact = true := by
  induction js with
  | nil => simp [areExact]
  | cons j js ih => rw [areExact, Bool.and_eq_true, ih, List.forall_mem_cons]

theorem haveExact_iff {ms : List (String × Json)} :
    haveExact ms = true ↔ ∀ m ∈ ms, m.2.isExact = true := by
  induction ms with
  | nil => simp [haveExact]
  | cons m ms ih => rw [haveExact, Bool.and_eq_true, ih, List.forall_mem_cons]

/-! ### Where numbers end -/

variable {c : Char} {cs rest : List Char}

theorem endsNumber_compactItems (js : List Json) (rest : List Char) :
    EndsNumber (compactItems js ++ ']' :: rest) := by
  cases js <;> simp [compactItems, EndsNumber] <;> decide

theorem endsNumber_compactMembers (ms : List (String × Json)) (rest : List Char) :
    EndsNumber (compactMembers ms ++ '}' :: rest) := by
  cases ms <;> simp [compactMembers, EndsNumber] <;> decide

/-! ### Members as they are collected -/

/-- Reading succeeds for a list if it does for each element. -/
theorem mapM_map_eq_some {α β γ : Type} {f : β → Option γ} {g : α → β} {h : α → γ} {as : List α}
    (hf : ∀ a ∈ as, f (g a) = some (h a)) : (as.map g).mapM f = some (as.map h) := by
  induction as with
  | nil => rfl
  | cons a as ih =>
      rw [List.map_cons, List.mapM_cons, hf a List.mem_cons_self,
        ih fun x hx => hf x (List.mem_cons_of_mem _ hx)]
      rfl

/-- The members of an object, as they are collected while it is read. -/
def collected (ms : List (String × Json)) : List (Option String × Json) :=
  ms.map fun (key, j) => (some key, j)

theorem ofMembers_collected (ms : List (String × Json)) : ofMembers (collected ms) = object ms := by
  unfold ofMembers collected
  rw [mapM_map_eq_some (h := id), List.map_id]
  intro m _
  rfl

namespace ReadState

variable {s : ReadState} {t : Token} {st : List Frame}

/-! ### One token -/

theorem run?_of_token (hc : isSpace c = false) (ht : token? c cs = some (t, rest)) :
    run? s (c :: cs) = (s.step? t).bind (run? · rest) := by
  have hspace : (c :: cs).dropWhile isSpace = c :: cs := by simp [hc]
  rw [run?.eq_def]
  split
  · rename_i h
    simp [hspace] at h
  · rename_i c' cs' h
    obtain ⟨rfl, rfl⟩ := List.cons.inj (hspace.symm.trans h)
    split
    · rename_i t' rest' ht'
      rw [ht] at ht'
      obtain ⟨rfl, rfl⟩ := Prod.mk.inj (Option.some.inj ht')
      cases s.step? t <;> rfl
    · rename_i ht'
      rw [ht] at ht'
      cases ht'

theorem run?_quoted (k : String) (rest : List Char) :
    run? s (quoted k ++ rest) = (s.step? (.string (some k))).bind (run? · rest) := by
  unfold quoted
  rw [List.append_assoc, List.cons_append]
  exact run?_of_token rfl (token?_string k rest)

/-- After a key and a colon comes the value of a member. -/
theorem run?_key {done : List (Option String × Json)} {k : String}
    (hs : s.step? (.string (some k)) = some (.memberColon (.member done (some k) :: st)))
    (rest : List Char) :
    run? s (quoted k ++ ':' :: rest) = run? (.value (.member done (some k) :: st)) rest := by
  rw [run?_quoted, hs]
  exact run?_of_token (t := .colon) rfl rfl

/-- Whether a value comes next, on top of these containers. In place of the first item of an
array, its end can come as well. -/
def AwaitsValue (s : ReadState) (st : List Frame) : Prop :=
  ∀ t, t ≠ .closeArray → s.step? t = startValue st t

theorem awaitsValue_value (st : List Frame) : AwaitsValue (.value st) st := fun _ _ => rfl

theorem awaitsValue_arrayStart (done : List Json) (st : List Frame) :
    AwaitsValue (.arrayStart (.array done :: st)) (.array done :: st) := by
  intro t ht
  cases t with
  | closeArray => exact absurd rfl ht
  | _ => rfl

theorem run?_scalar {j : Json} (hs : s.AwaitsValue st) (hc : isSpace c = false)
    (ht : token? c cs = some (.scalar j, rest)) :
    run? s (c :: cs) = (complete j st).bind (run? · rest) := by
  rw [run?_of_token hc ht, hs (.scalar j) (by simp)]
  rfl

/-! ### Whole values -/

mutual

/-- Reading a written value completes it. -/
theorem run?_compact {s : ReadState} {st : List Frame} {rest : List Char}
    (hs : s.AwaitsValue st) (hrest : EndsNumber rest) : (j : Json) → j.isExact = true →
      run? s (compact j ++ rest) = (complete j st).bind (run? · rest)
  | null, _ => run?_scalar hs rfl rfl
  | bool true, _ => run?_scalar hs rfl rfl
  | bool false, _ => run?_scalar hs rfl rfl
  | integer i, _ => by
      obtain ⟨c, cs, hchars, hspace, htoken⟩ := exists_token_integer i hrest
      rw [compact, hchars]
      exact run?_scalar hs hspace htoken
  | string k, _ => by
      rw [compact, run?_quoted, hs (.string (some k)) (by simp)]
      rfl
  | array [], _ => by
      show run? s ('[' :: ']' :: rest) = _
      rw [run?_of_token (t := .openArray) rfl rfl, hs .openArray (by simp)]
      exact run?_of_token (t := .closeArray) rfl rfl
  | array (j :: js), hj => by
      rw [isExact, areExact, Bool.and_eq_true] at hj
      have hitem := run?_compact (awaitsValue_arrayStart [] st) (endsNumber_compactItems js rest)
        j hj.1
      have hitems := run?_compactItems st rest [j] js hj.2
      show run? s ('[' :: (compact j ++ compactItems js ++ [']']) ++ rest) = _
      rw [List.cons_append, run?_of_token (t := .openArray) rfl rfl, hs .openArray (by simp)]
      simp only [List.append_assoc, List.singleton_append]
      exact hitem.trans hitems
  | object [], _ => by
      show run? s ('{' :: '}' :: rest) = _
      rw [run?_of_token (t := .openObject) rfl rfl, hs .openObject (by simp)]
      exact run?_of_token (t := .closeObject) rfl rfl
  | object ((k, j) :: ms), hj => by
      rw [isExact, haveExact, Bool.and_eq_true] at hj
      have hvalue := run?_compact (awaitsValue_value (.member [] (some k) :: st))
        (endsNumber_compactMembers ms rest) j hj.1
      have hmembers := run?_compactMembers st rest [(some k, j)] ms hj.2
      have hdone : ofMembers ([(some k, j)].reverse ++ collected ms) = object ((k, j) :: ms) :=
        ofMembers_collected ((k, j) :: ms)
      rw [hdone] at hmembers
      show run? s ('{' :: quoted k ++ ':' :: compact j ++ compactMembers ms ++ ['}'] ++ rest) = _
      simp only [List.append_assoc, List.cons_append]
      rw [run?_of_token (t := .openObject) rfl rfl, hs .openObject (by simp)]
      exact ((run?_key rfl _).trans hvalue).trans hmembers

/-- Reading the written rest of an array completes the array. -/
theorem run?_compactItems (st : List Frame) (rest : List Char) (done : List Json) :
    (js : List Json) → areExact js = true →
      run? (.separator (.array done :: st)) (compactItems js ++ ']' :: rest) =
        (complete (.array (done.reverse ++ js)) st).bind (run? · rest)
  | [], _ => by
      rw [List.append_nil]
      exact run?_of_token (t := .closeArray) rfl rfl
  | j :: js, hj => by
      rw [areExact, Bool.and_eq_true] at hj
      have hitem := run?_compact (awaitsValue_value (.array done :: st))
        (endsNumber_compactItems js rest) j hj.1
      have hitems := run?_compactItems st rest (j :: done) js hj.2
      rw [List.reverse_cons, List.append_assoc] at hitems
      rw [compactItems, List.cons_append, List.cons_append, List.append_assoc,
        run?_of_token (t := .comma) rfl rfl]
      exact hitem.trans hitems

/-- Reading the written rest of an object completes the object. -/
theorem run?_compactMembers (st : List Frame) (rest : List Char)
    (done : List (Option String × Json)) :
    (ms : List (String × Json)) → haveExact ms = true →
      run? (.separator (.object done :: st)) (compactMembers ms ++ '}' :: rest) =
        (complete (ofMembers (done.reverse ++ collected ms)) st).bind (run? · rest)
  | [], _ => by
      show _ = (complete (ofMembers (done.reverse ++ [])) st).bind _
      rw [List.append_nil]
      exact run?_of_token (t := .closeObject) rfl rfl
  | (k, j) :: ms, hj => by
      rw [haveExact, Bool.and_eq_true] at hj
      have hvalue := run?_compact (awaitsValue_value (.member done (some k) :: st))
        (endsNumber_compactMembers ms rest) j hj.1
      have hmembers := run?_compactMembers st rest ((some k, j) :: done) ms hj.2
      rw [List.reverse_cons, List.append_assoc] at hmembers
      rw [compactMembers]
      simp only [List.append_assoc, List.cons_append]
      rw [run?_of_token (t := .comma) rfl rfl]
      exact ((run?_key rfl _).trans hvalue).trans hmembers

end

theorem run?_finished (j : Json) : run? (.finished j) [] = some j := by
  rw [run?.eq_def]
  rfl

end ReadState

/-- **A written value can be read**, if nothing is lost in writing it and it does not nest too
deeply. -/
theorem ofText?_text {j : Json} (hj : j.isExact = true) (hdepth : j.depth ≤ nestingLimit) :
    ofText? j.text = some j := by
  have hrun : ReadState.run? (.value []) (compact j ++ []) = ReadState.run? (.finished j) [] :=
    ReadState.run?_compact (ReadState.awaitsValue_value []) endsNumber_nil j hj
  rw [List.append_nil, ReadState.run?_finished] at hrun
  unfold ofText? text
  rw [String.toList_ofList, hrun, Option.map_some, limit_of_depth_le hdepth]

end MethodContracts.Json
