import MethodContracts.Json
import MethodContracts.Json.Escape

/-!
# Tokens of JSON text

A text is read token by token: the punctuation marks, strings, and the other scalar values. A
number takes all characters that can occur in numbers, and has to be well formed as a whole.
-/

namespace MethodContracts.Json

/-- A token of a JSON text. -/
inductive Token where
  /-- The mark that opens an array. -/
  | openArray
  /-- The mark that closes an array. -/
  | closeArray
  /-- The mark that opens an object. -/
  | openObject
  /-- The mark that closes an object. -/
  | closeObject
  /-- The mark between parts of a container. -/
  | comma
  /-- The mark between a key and its value. -/
  | colon
  /-- A string literal; `none` when it has no value. -/
  | string (s : Option String)
  /-- Any other value without parts. -/
  | scalar (j : Json)
  deriving Repr

/-- The white space of JSON texts. -/
def isSpace (c : Char) : Bool := c = ' ' || c = '\n' || c = '\t' || c = '\r'

/-! ### Numbers -/

/-- The characters that occur in numbers. -/
def isNumberChar (c : Char) : Bool :=
  c.isDigit || c = '+' || c = '-' || c = '.' || c = 'e' || c = 'E'

/-- Whether digits may stand before the point: there is one, and a zero stands alone. -/
def wholeDigitsOk : List Char → Bool
  | [] => false
  | ['0'] => true
  | d :: _ => d ≠ '0'

/-- The integer that a text of digits after an optional sign writes. -/
def exponent? (cs : List Char) : Option Int :=
  let (negative, digits) := match cs with
    | '-' :: ds => (true, ds)
    | '+' :: ds => (false, ds)
    | ds => (false, ds)
  if digits ≠ [] ∧ digits.all Char.isDigit then
    let n : Int := Nat.ofDigitChars 10 digits 0
    some (if negative then -n else n)
  else none

/-- The numeral that a text writes. -/
def numeral? (cs : List Char) : Option Decimal := do
  let (negative, cs) := match cs with
    | '-' :: ds => (true, ds)
    | ds => (false, ds)
  let whole := cs.takeWhile Char.isDigit
  guard (wholeDigitsOk whole)
  let (fraction, cs) ← match cs.dropWhile Char.isDigit with
    | '.' :: ds =>
        let fraction := ds.takeWhile Char.isDigit
        if fraction = [] then none else some (fraction, ds.dropWhile Char.isDigit)
    | ds => some ([], ds)
  match cs with
  | [] => return ⟨negative, whole, fraction, none⟩
  | e :: ds =>
      guard (e = 'e' ∨ e = 'E')
      return ⟨negative, whole, fraction, some (← exponent? ds)⟩

/-- The value of a number: an integer when it is written as one, minus zero apart. -/
def numberValue (d : Decimal) : Json :=
  if d.fraction = [] ∧ d.exponent = none ∧ ¬(d.negative ∧ d.whole = ['0']) then
    let n : Int := Nat.ofDigitChars 10 d.whole 0
    .integer (if d.negative then -n else n)
  else .decimal d

/-! ### Tokens -/

/-- The token at the start of a text whose first character is given apart, and the text after
it. -/
def token? (c : Char) (cs : List Char) : Option (Token × List Char) :=
  match c, cs with
  | '[', cs => some (.openArray, cs)
  | ']', cs => some (.closeArray, cs)
  | '{', cs => some (.openObject, cs)
  | '}', cs => some (.closeObject, cs)
  | ',', cs => some (.comma, cs)
  | ':', cs => some (.colon, cs)
  | '"', cs =>
      (scanString? [] cs).map fun (units, rest) =>
        (.string ((joinSurrogates? units.reverse).map String.ofList), rest)
  | 'n', 'u' :: 'l' :: 'l' :: cs => some (.scalar .null, cs)
  | 't', 'r' :: 'u' :: 'e' :: cs => some (.scalar (.bool true), cs)
  | 'f', 'a' :: 'l' :: 's' :: 'e' :: cs => some (.scalar (.bool false), cs)
  | c, cs =>
      if c.isDigit || c = '-' then
        (numeral? (c :: cs.takeWhile isNumberChar)).map fun d =>
          (.scalar (numberValue d), cs.dropWhile isNumberChar)
      else none

/-- A token takes its first character, and nothing back. -/
theorem length_of_token? {c : Char} {cs rest : List Char} {t : Token}
    (h : token? c cs = some (t, rest)) : rest.length ≤ cs.length := by
  unfold token? at h
  split at h
  case h_7 =>
    obtain ⟨⟨units, rest'⟩, hs, he⟩ := Option.map_eq_some_iff.1 h
    simp only [Prod.mk.injEq] at he
    obtain ⟨-, rfl⟩ := he
    exact Nat.le_of_lt (length_of_scanString? hs)
  case h_11 =>
    split at h
    · obtain ⟨d, -, he⟩ := Option.map_eq_some_iff.1 h
      simp only [Prod.mk.injEq] at he
      obtain ⟨-, rfl⟩ := he
      exact (List.dropWhile_suffix isNumberChar).length_le
    · simp at h
  all_goals
    simp only [Option.some.injEq, Prod.mk.injEq] at h
    obtain ⟨-, rfl⟩ := h
    simp +arith

end MethodContracts.Json
