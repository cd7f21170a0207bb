import MethodContracts.Json
import MethodContracts.Json.Escape

/-!
# Writing JSON text

Two layouts of the same grammar: **compact**, without any white space, and **pretty**, with one
item or member a line, indented by two spaces for each container around it; empty containers stay
on their line.
-/

namespace MethodContracts.Json

/-! ### Compact -/

mutual

/-- A value without white space. -/
def compact : Json → List Char
  | null => "null".toList
  | bool true => "true".toList
  | bool false => "false".toList
  | integer n => (toString n).toList
  | decimal d => d.chars
  | string s => quoted s
  | array [] => ['[', ']']
  | array (j :: js) => '[' :: compact j ++ compactItems js ++ [']']
  | object [] => ['{', '}']
  | object ((k, j) :: ms) => '{' :: quoted k ++ ':' :: compact j ++ compactMembers ms ++ ['}']
  | unreadable => "null".toList

/-- The items after the first, each after a comma. -/
def compactItems : List Json → List Char
  | [] => []
  | j :: js => ',' :: compact j ++ compactItems js

/-- The members after the first, each after a comma. -/
def compactMembers : List (String × Json) → List Char
  | [] => []
  | (k, j) :: ms => ',' :: quoted k ++ ':' :: compact j ++ compactMembers ms

end

/-- The text of a value without white space. -/
def text (j : Json) : String := String.ofList j.compact

/-! ### Pretty -/

/-- A new line inside `n` containers. -/
def newLine (n : Nat) : List Char := '\n' :: List.replicate (2 * n) ' '

mutual

/-- A value inside `n` containers, over several lines. -/
def pretty (n : Nat) : Json → List Char
  | array (j :: js) =>
      '[' :: newLine (n + 1) ++ pretty (n + 1) j ++ prettyItems (n + 1) js ++ newLine n ++ [']']
  | object ((k, j) :: ms) =>
      '{' :: newLine (n + 1) ++ quoted k ++ [':', ' '] ++ pretty (n + 1) j
        ++ prettyMembers (n + 1) ms ++ newLine n ++ ['}']
  | j => compact j

/-- The items after the first, each on a line of its own. -/
def prettyItems (n : Nat) : List Json → List Char
  | [] => []
  | j :: js => ',' :: newLine n ++ pretty n j ++ prettyItems n js

/-- The members after the first, each on a line of its own. -/
def prettyMembers (n : Nat) : List (String × Json) → List Char
  | [] => []
  | (k, j) :: ms =>
      ',' :: newLine n ++ quoted k ++ [':', ' '] ++ pretty n j ++ prettyMembers n ms

end

/-- The text of a value over several lines. -/
def prettyText (j : Json) : String := String.ofList (j.pretty 0)

end MethodContracts.Json
