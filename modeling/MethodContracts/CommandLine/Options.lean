/-!
# Options on a command line

Options take a value and have a long name, and some of them one letter as a short name. The forms
`--name value`, `--name=value`, `-n value`, `-nvalue` and `-n=value` mean the same. Options and
operands may be mixed; after `--` there are only operands. A value that stands in an argument of
its own, and an operand before `--`, may not look like an option; a lone `-` does not.
-/

namespace MethodContracts.CommandLine

/-- The names of an option. -/
structure OptionName where
  /-- The letter of the short name, if there is one. -/
  short : Option Char
  /-- The long name. -/
  long : String
  deriving DecidableEq, Repr

/-- What stands on a command line, each kind in order. -/
structure Scanned where
  /-- The values of options, each with the long name of its option. -/
  values : List (String × String)
  /-- The operands. -/
  operands : List String
  deriving DecidableEq, Repr

namespace Scanned

/-- One more value, before the others. -/
def addValue (name value : String) (s : Scanned) : Scanned :=
  { s with values := (name, value) :: s.values }

/-- One more operand, before the others. -/
def addOperand (operand : String) (s : Scanned) : Scanned :=
  { s with operands := operand :: s.operands }

/-- The value of an option that may be given once; `none` when it is given more often. -/
def atMostOnce? (s : Scanned) (name : String) : Option (Option String) :=
  match s.values.filter fun (other, _) => other = name with
  | [] => some none
  | [(_, value)] => some (some value)
  | _ => none

/-- The value of an option that has to be given once. -/
def once? (s : Scanned) (name : String) : Option String := (s.atMostOnce? name).join

end Scanned

/-- What a single argument is. -/
inductive Argument where
  /-- An operand. -/
  | operand
  /-- An option with its value. -/
  | valued (name value : String)
  /-- An option whose value comes next. -/
  | awaiting (name : String)
  /-- An option that does not exist. -/
  | unknown
  deriving DecidableEq, Repr

/-- Whether an argument looks like an option, or like the end of options. -/
def looksLikeOption (arg : String) : Bool :=
  match arg.toList with
  | '-' :: _ :: _ => true
  | _ => false

/-- What an argument is, given the options there are. -/
def classify (known : List OptionName) (arg : String) : Argument :=
  match arg.toList with
  | '-' :: '-' :: cs =>
      let name := cs.takeWhile (· ≠ '=')
      match known.find? fun o => o.long.toList = name with
      | some o =>
          match cs.dropWhile (· ≠ '=') with
          | _ :: value => .valued o.long (String.ofList value)
          | [] => .awaiting o.long
      | none => .unknown
  | '-' :: c :: cs =>
      match known.find? fun o => o.short = some c with
      | some o =>
          match cs with
          | [] => .awaiting o.long
          | '=' :: value => .valued o.long (String.ofList value)
          | value => .valued o.long (String.ofList value)
      | none => .unknown
  | _ => .operand

/-- Sort arguments into values of options and operands; `none` when an option does not exist or
lacks its value. -/
def scan? (known : List OptionName) : List String → Option Scanned
  | [] => some ⟨[], []⟩
  | arg :: rest =>
      if arg = "--" then some ⟨[], rest⟩
      else
        match classify known arg with
        | .operand => (scan? known rest).map (·.addOperand arg)
        | .valued name value => (scan? known rest).map (·.addValue name value)
        | .awaiting name =>
            match rest with
            | [] => none
            | value :: rest =>
                if looksLikeOption value then none
                else (scan? known rest).map (·.addValue name value)
        | .unknown => none

end MethodContracts.CommandLine
