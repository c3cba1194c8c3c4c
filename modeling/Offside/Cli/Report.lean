import Offside.Cli.Example
import Offside.Cli.Help
import Offside.Cli.Request
import Offside.Layout.Listing
import Offside.Ledger.Listing
import Offside.Source.Model

/-!
# Reports

A run of the command prints what is asked for, one section after the other, and ends with a status. The
model: `Report.ofArguments` computes the whole outcome from the arguments and the files. A source that is
no program shows only when its outline is asked for; what was printed up to there stays, and no section
follows. The command answers itself for sources that are no program and for files that cannot be read;
other faults are left unanswered.
-/

namespace Offside.Cli

open Source (Files)

/-- How a run ends. -/
inductive Ending where
  | status (code : Nat)
  /-- The fault is left to whoever ran the command. -/
  | unanswered (e : Model.Fault)
  deriving DecidableEq, Repr

/-- The outcome of a run. -/
structure Report where
  output : String := ""
  errors : String := ""
  ending : Ending := .status 0
  deriving DecidableEq, Repr

/-- The command answers itself for such a fault. -/
def isAnswered : Model.Fault → Bool
  | .parse _ => true
  | .file _ e => e ≠ .nullCharacter
  | _ => false

/-- The run was ended by a fault after printing something. -/
def Report.failed (output : String) (fault : Model.Fault) : Report where
  output := if isAnswered fault then output ++ "Error: " ++ fault.message ++ "\n" else output
  ending := if isAnswered fault then .status 1 else .unanswered fault

/-- A heading's line in an outline: two spaces for each suite around it. -/
def headingLine (h : Heading) : String :=
  String.ofList (List.replicate (2 * h.depth) ' ' ++ h.text) ++ "  (line " ++ h.line?.elim "None" toString ++ ")\n"

/-- What is printed of any source: how many tokens it has and what is doubtful about it. -/
def summary (m : Model) : String :=
  "Preprocessed " ++ toString m.result.tokens.length ++ " tokens.\n"
    ++ String.join (m.result.diagnostics.map fun d => "Warning: " ++ d.message ++ "\n")

/-- The section with the tokens. -/
def tokenSection (r : Request) (m : Model) : String :=
  if r.tokens then "\n" ++ Layout.listing m.result.tokens ++ "\n" else ""

/-- The section with the ledger. -/
def ledgerSection (r : Request) (m : Model) : String :=
  if r.scopeLedger then "\n" ++ m.ledger.listing ++ "\n" else ""

/-- The section with the canonical text. -/
def canonicalSection (r : Request) (m : Model) : String :=
  if r.canonical then "\n" ++ String.ofList m.canonical else ""

/-- The ledger is asked for but cannot be written, which ends the run. -/
def stopsAtLedger (r : Request) (m : Model) : Bool := r.scopeLedger && !m.ledger.isWritable

/-- What is printed about a source after `before`. -/
def ofModel (r : Request) (before : String) (m : Model) : Report :=
  let shown := before ++ summary m ++ tokenSection r m
  let sections := shown ++ ledgerSection r m
  if stopsAtLedger r m then .failed (shown ++ "\n") (.unwritable {})
  else if r.outline then
    match m.outline with
    | .error e => .failed (sections ++ "\n") e
    | .ok headings =>
      { output := sections ++ "\n" ++ String.join (headings.map headingLine) ++ canonicalSection r m }
  else { output := sections ++ canonicalSection r m }

/-- The least level of what a run shows of the log. -/
def Request.threshold (r : Request) : Log.Level :=
  if r.quiet then .error else if r.verbose then .debug else .warning

/-- The run for a source that is known to be there. -/
def ofOrigin (files : Files) (r : Request) (before : String) (origin : Origin) : Report :=
  match TabWidth.ofSetting r.tab with
  | .error e => .failed before (.setting e)
  | .ok tab =>
    let records := Model.loadRecords files tab origin
    match Model.load files tab origin with
    | .error e => { Report.failed before e with errors := Log.display r.threshold records }
    | .ok m =>
      let records :=
        if r.outline && !stopsAtLedger r m then records ++ m.outlineRecords else records
      { ofModel r before m with errors := Log.display r.threshold records }

/-- A mistaken command line is answered by how the command is used. -/
def ofUsageError (e : UsageError) : Report where
  errors := usage ++ "myac: error: " ++ e.message ++ "\n"
  ending := .status 2

/-- The run that a request asks for. -/
def ofRequest (files : Files) (r : Request) : Report :=
  if r.builtIn then
    ofOrigin files r "Running with built-in example code...\n" (.text builtInSource)
  else
    match r.source? with
    | none | some [] => ofUsageError .noSource
    | some path =>
      if files.exists path then ofOrigin files r "" (.file path)
      else
        { output := "Error: File '" ++ String.ofList path ++ "' not found\n", ending := .status 1 }

/-- The outcome of the command for its arguments. -/
def Report.ofArguments (files : Files) (arguments : List (List Char)) : Report :=
  match Request.ofArguments arguments with
  | .error .help => { output := help }
  | .error (.usage e) => ofUsageError e
  | .ok r => ofRequest files r

end Offside.Cli
