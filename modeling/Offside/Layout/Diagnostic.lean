import Offside.Text.Numeral

/-!
# Diagnostics

A margin can be doubtful without being wrong enough to stop. The model: a diagnostic names a line and
a cause with what it takes to explain it; the wording is computed from these, provided that its numbers
can be written.
-/

namespace Offside.Layout

/-- What is doubtful about a margin. -/
inductive Cause where
  /-- The line closes scopes but stands in none of the columns still open; the innermost of them is
  `nearest`. -/
  | misaligned (column nearest : Int)
  /-- The margin has both spaces and tabs in it. -/
  | mixed
  deriving DecidableEq, Repr

/-- The name of a cause. -/
def Cause.name : Cause → String
  | .misaligned .. => "dedent-misalignment"
  | .mixed => "mixed-indentation"

/-- A doubtful margin. -/
structure Diagnostic where
  line : Int
  cause : Cause
  deriving DecidableEq, Repr

/-- The wording of a diagnostic. -/
def Diagnostic.message (d : Diagnostic) : String :=
  match d.cause with
  | .misaligned column nearest =>
    "Indentation error at line " ++ toString d.line ++ ": dedent to column " ++ toString column
      ++ " does not match any enclosing level (nearest is " ++ toString nearest ++ ")"
  | .mixed => "Mixed tabs and spaces in indentation at line " ++ toString d.line

/-- The numbers in the wording of a diagnostic can be written. -/
def Diagnostic.isWritable (d : Diagnostic) : Bool :=
  Text.isWritable d.line &&
    match d.cause with
    | .misaligned column nearest => Text.isWritable column && Text.isWritable nearest
    | .mixed => true

end Offside.Layout
