import Offside.Cli.Switch
import Offside.Text.Numeral

/-!
# Usage errors

A command line that makes no sense is answered by how the command is used and by what is wrong.
-/

namespace Offside.Cli

/-- What is wrong with a command line. -/
inductive UsageError where
  /-- Neither a file nor the built-in program is named. -/
  | noSource
  /-- These arguments have no meaning. -/
  | unrecognized (arguments : List (List Char))
  /-- A shortened name stands for several switches. -/
  | ambiguous (argument : List Char) (candidates : List Switch)
  /-- A value is given to a switch that takes none. -/
  | superfluousValue (s : Switch) (value : List Char)
  /-- A switch excludes one given before. -/
  | conflict (s earlier : Switch)
  | missingValue (s : Switch)
  | invalidValue (s : Switch) (e : Text.InvalidNumeral)
  deriving DecidableEq, Repr

/-- The wording of an error about one switch. -/
def UsageError.about (s : Switch) (complaint : String) : String :=
  "argument " ++ s.title ++ ": " ++ complaint

/-- The wording of an error. -/
def UsageError.message : UsageError → String
  | .noSource => "a source file or --example is required"
  | .unrecognized arguments =>
    "unrecognized arguments: " ++ " ".intercalate (arguments.map String.ofList)
  | .ambiguous argument candidates =>
    "ambiguous option: " ++ String.ofList argument ++ " could match "
      ++ ", ".intercalate (candidates.map Switch.long)
  | .superfluousValue s value => about s ("ignored explicit argument " ++ Text.quote value)
  | .conflict s earlier => about s ("not allowed with argument " ++ earlier.title)
  | .missingValue s => about s "expected one argument"
  | .invalidValue s e => about s e.message

end Offside.Cli
