import MethodContracts.CommandLine.Options
import MethodContracts.Resolution
import MethodContracts.Text.Decimal

/-!
# Commands

The two commands of the program and how they are written on the command line.
-/

namespace MethodContracts.CommandLine

/-- How inferred contracts are printed. -/
inductive Format where
  /-- As JSON. -/
  | json
  /-- As text, one method a line. -/
  | text
  deriving DecidableEq, Repr

/-- The format with a name. -/
def Format.ofName? : String → Option Format
  | "json" => some json
  | "text" => some text
  | _ => none

/-- A command. -/
inductive Command where
  /-- Infer the contracts of the methods in a session file, or of those with one name. -/
  | infer (input : String) (method : Option String) (format : Format) (depth : Nat)
  /-- Normalize clauses for a method with this number of parameters. -/
  | normalize (params : Nat) (clauses : List String)
  deriving DecidableEq, Repr

namespace Command

/-- The options of `infer`. -/
def inferOptions : List OptionName :=
  [⟨some 'i', "input"⟩, ⟨some 'm', "method"⟩, ⟨some 'f', "format"⟩, ⟨none, "max-depth"⟩]

/-- The options of `normalize`. -/
def normalizeOptions : List OptionName := [⟨some 'p', "params"⟩]

/-- The number that an argument writes. -/
def number? (s : String) : Option Nat := (Text.readWord? s.toList).map UInt64.toNat

/-- The command after the word `infer`. The depth is taken from the environment when it is not
given. -/
def inferOfArgs? (environmentDepth : Option String) (args : List String) : Option Command := do
  let s ← scan? inferOptions args
  guard s.operands.isEmpty
  let input ← s.once? "input"
  guard (input ≠ "")
  let method ← s.atMostOnce? "method"
  let format ← match ← s.atMostOnce? "format" with
    | some name => Format.ofName? name
    | none => some .json
  let depth ← match (← s.atMostOnce? "max-depth") <|> environmentDepth with
    | some text => number? text
    | none => some Descriptor.defaultDepth
  return infer input method format depth

/-- The command after the word `normalize`. -/
def normalizeOfArgs? (args : List String) : Option Command := do
  let s ← scan? normalizeOptions args
  let params ← (s.once? "params").bind number?
  guard !s.operands.isEmpty
  return normalize params s.operands

/-- The command that a command line gives, if it is well formed. -/
def ofArgs? (environmentDepth : Option String) : List String → Option Command
  | "infer" :: args => inferOfArgs? environmentDepth args
  | "normalize" :: args => normalizeOfArgs? args
  | _ => none

end Command

end MethodContracts.CommandLine
