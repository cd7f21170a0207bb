/-!
# Strings in JSON text

The inside of a string literal. Reading turns it into scalar characters and, from `\u` escapes,
halves of surrogate pairs; `joinSurrogates?` then puts the halves together and fails on a half
without its partner.
-/

namespace MethodContracts.Json

/-- A unit of a string literal. -/
inductive StringUnit where
  /-- A character. -/
  | scalar (c : Char)
  /-- Half of a surrogate pair, with its code in UTF-16. -/
  | surrogate (code : Nat)
  deriving DecidableEq, Repr

/-- The value of a hexadecimal digit. -/
def hexValue? (c : Char) : Option Nat :=
  if '0' ≤ c ∧ c ≤ '9' then some (c.toNat - '0'.toNat)
  else if 'a' ≤ c ∧ c ≤ 'f' then some (c.toNat - 'a'.toNat + 10)
  else if 'A' ≤ c ∧ c ≤ 'F' then some (c.toNat - 'A'.toNat + 10)
  else none

/-- The unit that a `\u` escape with these four digits writes. -/
def unitOfHex? (a b c d : Char) : Option StringUnit := do
  let code := (((← hexValue? a) * 16 + (← hexValue? b)) * 16 + (← hexValue? c)) * 16
    + (← hexValue? d)
  if 0xD800 ≤ code ∧ code ≤ 0xDFFF then return .surrogate code
  else return .scalar (Char.ofNat code)

/-- The character that a one-letter escape writes. -/
def simpleEscape? : Char → Option Char
  | '"' => some '"'
  | '\\' => some '\\'
  | '/' => some '/'
  | 'b' => some '\x08'
  | 'f' => some '\x0c'
  | 'n' => some '\n'
  | 'r' => some '\r'
  | 't' => some '\t'
  | _ => none

/-- Split a text, from inside a string literal, after the closing quote, collecting the units
before it in reverse. -/
def scanString? (units : List StringUnit) : List Char → Option (List StringUnit × List Char)
  | [] => none
  | '"' :: cs => some (units, cs)
  | '\\' :: 'u' :: a :: b :: c :: d :: cs =>
      match unitOfHex? a b c d with
      | some u => scanString? (u :: units) cs
      | none => none
  | '\\' :: e :: cs =>
      match simpleEscape? e with
      | some c => scanString? (.scalar c :: units) cs
      | none => none
  | c :: cs => if c.toNat < 0x20 ∨ c = '\\' then none else scanString? (.scalar c :: units) cs

/-- The text after a string literal is shorter than the text from inside it. -/
theorem length_of_scanString? {units us : List StringUnit} {cs rest : List Char}
    (h : scanString? units cs = some (us, rest)) : rest.length < cs.length := by
  fun_induction scanString? units cs with
  | case1 => simp at h
  | case2 => simp_all
  | case3 units a b c d cs u hu ih => have := ih h; simp only [List.length_cons]; omega
  | case4 => simp at h
  | case5 units e cs _ c hc ih => have := ih h; simp only [List.length_cons]; omega
  | case6 => simp at h
  | case7 => simp at h
  | case8 units c cs _ _ _ hc ih => have := ih h; simp only [List.length_cons]; omega

/-- The characters of a list of units; `none` when it has half of a surrogate pair without the
other half. -/
def joinSurrogates? : List StringUnit → Option (List Char)
  | [] => some []
  | .scalar c :: us => (joinSurrogates? us).map (c :: ·)
  | .surrogate high :: .surrogate low :: us =>
      if high < 0xDC00 ∧ 0xDC00 ≤ low then
        (joinSurrogates? us).map
          (Char.ofNat (0x10000 + (high - 0xD800) * 0x400 + (low - 0xDC00)) :: ·)
      else none
  | .surrogate _ :: _ => none

/-- Lower-case hexadecimal digits. -/
def hexDigit (n : Nat) : Char := Nat.digitChar n

/-- How a character is written inside a string literal: quotes, backslashes and control
characters are escaped, in the shortest way, and everything else stands for itself. -/
def escape (c : Char) : List Char :=
  match c with
  | '"' => ['\\', '"']
  | '\\' => ['\\', '\\']
  | '\x08' => ['\\', 'b']
  | '\x0c' => ['\\', 'f']
  | '\n' => ['\\', 'n']
  | '\r' => ['\\', 'r']
  | '\t' => ['\\', 't']
  | c =>
      if c.toNat < 0x20 then
        ['\\', 'u', '0', '0', hexDigit (c.toNat / 16), hexDigit (c.toNat % 16)]
      else [c]

/-- A string literal. -/
def quoted (s : String) : List Char := '"' :: s.toList.flatMap escape ++ ['"']

end MethodContracts.Json
