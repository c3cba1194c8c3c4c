import Offside.Log.Level
import Offside.Program.Reader

/-!
# The log

Each part of the library notes what it does. The model: a record says who notes, at what level, and what;
the records of laying out a source and of reading a program are functions of the result and the source,
in the order in which they are noted.
-/

namespace Offside.Log

/-- A part of the library that notes what it does. -/
inductive Component where
  /-- Lays out sources. -/
  | layout
  /-- Turns layout tokens into items. -/
  | items
  /-- Reads programs. -/
  | program
  /-- Opens sources. -/
  | model
  deriving DecidableEq, Repr

/-- The name that a part goes by in the log. -/
def Component.name : Component → String
  | .layout => "myalang.preprocessor"
  | .items => "myalang.token_stream"
  | .program => "myalang.parser"
  | .model => "myalang.main"

/-- One note. -/
structure Record where
  component : Component
  level : Level
  message : String
  deriving DecidableEq, Repr

/-- A note as a line of the log. -/
def Record.line (r : Record) : String := r.level.name ++ ":" ++ r.component.name ++ ":" ++ r.message

/-- The lines of the log at or above a threshold. -/
def display (threshold : Level) (records : List Record) : String :=
  String.join ((records.filter (threshold.rank ≤ ·.level.rank)).map (·.line ++ "\n"))

/-- A diagnostic is a warning. -/
def ofDiagnostic (d : Layout.Diagnostic) : Record := ⟨.layout, .warning, d.message⟩

/-- What laying out a source notes: each diagnostic when it is found, up to the first that cannot be
worded, and at the end a summary. -/
def ofResult (r : Layout.Result) : List Record :=
  let worded := r.diagnostics.takeWhile Layout.Diagnostic.isWritable
  worded.map ofDiagnostic ++
    if r.finished && worded.length = r.diagnostics.length then
      [⟨.layout, .debug, "Preprocessed " ++ toString r.tokens.length ++ " tokens, "
        ++ toString r.scopes.length ++ " scopes, " ++ toString r.diagnostics.length
        ++ " diagnostics"⟩]
    else []

/-- What reading a program notes: how it is laid out, how many tokens are read, and if it is a program
how many statements stand at the top. -/
def ofParse (tab : TabWidth) (source : List Char) : List Record :=
  let laidOut := Layout.run tab.lineOptions source
  ofResult laidOut ++
    match laidOut.worded with
    | .error _ => []
    | .ok _ =>
      ⟨.items, .debug, "Feeding " ++ toString laidOut.tokens.length ++ " preprocessed tokens to Lark"⟩ ::
      match parse tab source with
      | .ok p => [⟨.program, .debug, "Parsed " ++ toString p.size ++ " top-level statements"⟩]
      | .error _ => []

end Offside.Log
