import MethodContracts.CommandLine.Report

/-!
# The program

The outer layer of the command line: it reads the file that the command names, prints the report
on the command, and ends with its code.
-/

namespace MethodContracts.CommandLine

/-- What the operating system says about a failed attempt to read a file. The two usual reasons
are put into its own words, since they do not always arrive in them. -/
def ReadError.ofIO : IO.Error → ReadError
  | .noFileOrDirectory _ _ _ => .system "No such file or directory" 2
  | .permissionDenied _ _ _ => .system "Permission denied" 13
  | .inappropriateType _ code details => .system details code.toNat
  | .illegalOperation code details => .system details code.toNat
  | .otherError code details => .system details code.toNat
  | e => .system (toString e) 0

/-- The text of a file. -/
def readText (path : String) : IO (Except ReadError String) := do
  try
    return textOfBytes (← IO.FS.readBinFile path)
  catch e =>
    return .error (.ofIO e)

/-- Carry out a command line. -/
def run (args : List String) : IO Report := do
  match Command.ofArgs? (← IO.getEnv "INFERCON_MAX_DEPTH") args with
  | none => return .usage
  | some command =>
      match command.input? with
      | none => return command.report fun _ => .ok ""
      | some path =>
          let content ← readText path
          return command.report fun _ => content

end MethodContracts.CommandLine

/-- Run the command that the arguments give. -/
def main (args : List String) : IO UInt32 := do
  let report ← MethodContracts.CommandLine.run args
  IO.print report.output
  IO.eprint report.errors
  return report.code
