import MethodContracts.Codec.Session
import MethodContracts.CommandLine.Command
import MethodContracts.Json.Writer

/-!
# What commands print

A command ends in a `Report`: an exit code, the text for standard output and the text for
standard error. Codes tell the kinds of failure apart: 1 for content that is refused, 2 for
conflicts and for command lines that are not understood, 3 for files that cannot be read. Nothing
is printed on standard output unless the code is 0.
-/

namespace MethodContracts.CommandLine

/-- The result of a command. -/
structure Report where
  /-- The exit code. -/
  code : UInt32
  /-- The text for standard output. -/
  output : String
  /-- The text for standard error. -/
  errors : String
  deriving DecidableEq, Repr

namespace Report

/-- A success that prints a text. -/
def success (output : String) : Report := ⟨0, output, ""⟩

/-- A failure with an explanation. -/
def failure (code : UInt32) (explanation : String) : Report := ⟨code, "", explanation ++ "\n"⟩

/-- How the commands are written. -/
def synopsis : String :=
  "usage: infer --input FILE [--method NAME] [--format json|text] [--max-depth N]\n" ++
  "       normalize --params N CLAUSE...\n"

/-- The report on a command line that is not understood. -/
def usage : Report := ⟨2, "", synopsis⟩

end Report

/-- Why a file cannot be read. -/
inductive ReadError where
  /-- The operating system refuses, with this explanation and code. -/
  | system (details : String) (code : Nat)
  /-- The file is not text in UTF-8. -/
  | notUtf8
  deriving DecidableEq, Repr

/-- The wording of each error. -/
def ReadError.message : ReadError → String
  | .system details code => s!"{details} (os error {code})"
  | .notUtf8 => "stream did not contain valid UTF-8"

/-- The text in the bytes of a file. -/
def textOfBytes (bytes : ByteArray) : Except ReadError String :=
  match String.fromUTF8? bytes with
  | some text => .ok text
  | none => .error .notUtf8

/-! ### Inference -/

/-- The methods to report on, with the contracts found for them. -/
def selected (s : Session) (found : Session.Results) (name : Option String) :
    List (String × List Clause) :=
  (s.methods.filter fun m => name.all (· = m.name)).map fun m =>
    (m.name, (found.of? m.id).getD [])

/-- Contracts as JSON, a record for each method. -/
def jsonOutput (methods : List (String × List Clause)) : String :=
  let record := fun (name, clauses) =>
    Json.object [("method", .string name),
      ("contracts", .array (clauses.map fun c => .string (Clause.text c)))]
  (Json.array (methods.map record)).prettyText ++ "\n"

/-- Contracts as text, a line for each method. -/
def textOutput (methods : List (String × List Clause)) : String :=
  String.join (methods.map fun (name, clauses) => name ++ ": " ++ Clause.listText clauses ++ "\n")

/-- Contracts in one of the formats. -/
def Format.output : Format → List (String × List Clause) → String
  | json => jsonOutput
  | text => textOutput

/-- The report on inference over the text of a session. -/
def inferReport (text : String) (method : Option String) (format : Format) (depth : Nat) :
    Report :=
  match Session.ofText text with
  | .error e => .failure 1 s!"Error: {e.message}"
  | .ok s =>
      match method.filter fun name => (s.methodNamed? name).isNone with
      | some name => .failure 1 s!"Error: no method named '{name}'"
      | none => .success (format.output (selected s (s.infer depth) method))

/-! ### Normalization -/

/-- The report on the normalization of clause texts. -/
def normalizeReport (params : Nat) (texts : List String) : Report :=
  match texts.mapM (Clause.listOfText params) with
  | .error e => .failure 1 s!"Error: {e.message}"
  | .ok clauses =>
      match Clause.normalize? clauses.flatten with
      | some normal => .success (Clause.listText normal ++ "\n")
      | none => .failure 2 "Conflict: contracts overlap with different outcomes"

/-! ### Commands -/

/-- The file that a command reads. -/
def Command.input? : Command → Option String
  | infer input _ _ _ => some input
  | normalize _ _ => none

/-- The report on a command, given how files are read. -/
def Command.report (read : String → Except ReadError String) : Command → Report
  | infer input method format depth =>
      match read input with
      | .error e => .failure 3 s!"Error: failed to read '{input}': {e.message}"
      | .ok text => inferReport text method format depth
  | normalize params texts => normalizeReport params texts

/-- The report on a command line. -/
def report (environmentDepth : Option String) (read : String → Except ReadError String)
    (args : List String) : Report :=
  match Command.ofArgs? environmentDepth args with
  | some command => command.report read
  | none => .usage

end MethodContracts.CommandLine
