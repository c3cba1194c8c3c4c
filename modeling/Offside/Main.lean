import Offside.Cli.Report

/-!
# The command

The outermost layer: it reads the file that the command line names, prints what `Report.ofArguments`
computes, and ends with its status.
-/

namespace Offside.Cli

open Source (Obstacle)

/-- The number of a system error, which some calls give with its sign changed. -/
def errorNumber (code : UInt32) : UInt32 := min code (0 - code)

/-- The obstacle that an error of the system stands for, if it stands for one. -/
def obstacleOf? : IO.Error → Option Obstacle
  | .noFileOrDirectory .. => some .missing
  | .inappropriateType _ code _ =>
    some (if errorNumber code = 20 then .notDirectory else .directory)
  | .invalidArgument _ code _ => if errorNumber code = 36 then some .tooLong else none
  | _ => none

/-- The bytes of a file, or what stands in the way. -/
def readBytes (path : List Char) : IO (Except Obstacle (List UInt8)) := do
  if '\x00' ∈ path then return .error .nullCharacter
  try
    return .ok (← IO.FS.readBinFile (String.ofList path)).toList
  catch e =>
    match obstacleOf? e with
    | some obstacle => return .error obstacle
    | none => throw e

/-- The file that a command line names, if it is to be read. -/
def sourcePath? (arguments : List (List Char)) : Option (List Char) :=
  match Request.ofArguments arguments with
  | .ok r => if r.builtIn then none else r.source?
  | .error _ => none

end Offside.Cli

/-- Runs the command. -/
def main (arguments : List String) : IO UInt32 := do
  let arguments := arguments.map String.toList
  let bytes ← match Offside.Cli.sourcePath? arguments with
    | some path => Offside.Cli.readBytes path
    | none => pure (.error .missing)
  let report := Offside.Cli.Report.ofArguments (fun _ => bytes) arguments
  IO.print report.output
  IO.eprint report.errors
  match report.ending with
  | .status code => return UInt32.ofNat code
  | .unanswered e =>
    IO.eprintln e.message
    return 1
