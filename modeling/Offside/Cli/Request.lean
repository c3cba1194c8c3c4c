import Offside.Cli.Argument
import Offside.Setting

/-!
# Requests

The arguments of a command line together say what a run is to do. The model: they are taken from left to
right into a `Request`, and the first that is wrong, or that asks for help, ends the reading; only when
none is, arguments without a meaning are complained about. The first plain argument, or the one after a
separator, names the source.
-/

namespace Offside.Cli

/-- What a run of the command is to do. -/
structure Request where
  source? : Option (List Char) := none
  builtIn : Bool := false
  tokens : Bool := false
  scopeLedger : Bool := false
  outline : Bool := false
  canonical : Bool := false
  /-- What is given as the width of a tab. -/
  tab : Setting := .integer TabWidth.standard.columns
  verbose : Bool := false
  quiet : Bool := false
  deriving DecidableEq, Repr

/-- Why there is no request. -/
inductive Stop where
  /-- Help is asked for. -/
  | help
  | usage (e : UsageError)
  deriving DecidableEq, Repr

/-- A request with one more switch, which stands without a value. -/
def Request.add (r : Request) : Switch → Except Stop Request
  | .help => .error .help
  | .builtIn => .ok { r with builtIn := true }
  | .tokens => .ok { r with tokens := true }
  | .scopeLedger => .ok { r with scopeLedger := true }
  | .outline => .ok { r with outline := true }
  | .canonical => .ok { r with canonical := true }
  | .tabWidth => .error (.usage (.missingValue .tabWidth))
  | .verbose =>
    if r.quiet then .error (.usage (.conflict .verbose .quiet)) else .ok { r with verbose := true }
  | .quiet =>
    if r.verbose then .error (.usage (.conflict .quiet .verbose)) else .ok { r with quiet := true }

/-- A request with the width of a tab. A separator in the place of the value stands for no value; this is
complained about only where the width is needed. -/
def Request.addTabWidth (r : Request) (value : List Char) : Except Stop Request :=
  if value = ['-', '-'] then .ok { r with tab := .vacant }
  else
    match Text.readPositive value with
    | .ok columns => .ok { r with tab := .integer columns }
    | .error e => .error (.usage (.invalidValue .tabWidth e))

/-- A request as far as it has been read. -/
structure Reading where
  request : Request := {}
  /-- The argument that names the source has gone by. -/
  placed : Bool := false
  /-- The arguments without a meaning. -/
  extras : List (List Char) := []
  deriving DecidableEq, Repr

/-- The switches of a letter that has more text attached to it: each character of that is the letter of
one more switch. What is complained about is all the text from the first character on that is none, on
behalf of the switch before it. -/
def cluster (s : Switch) : List Char → Except UsageError (List Switch)
  | [] => .error (.superfluousValue s [])
  | c :: rest =>
    match Switch.ofLetter? c, rest with
    | none, _ => .error (.superfluousValue s (c :: rest))
    | some next, [] => .ok [s, next]
    | some next, d :: more => (s :: ·) <$> cluster next (d :: more)

/-- Takes a switch with text attached to its letter. The switches count only if all of them are known. -/
def Reading.addCluster (r : Reading) (s : Switch) (attached : List Char) : Except Stop Reading := do
  let switches ← (cluster s attached).mapError .usage
  return { r with request := ← switches.foldlM Request.add r.request }

/-- Takes a switch with a value attached to its long name. -/
def Reading.addAttached (r : Reading) (s : Switch) (value : List Char) : Except Stop Reading :=
  if s.takesValue then do return { r with request := ← r.request.addTabWidth value }
  else .error (.usage (.superfluousValue s value))

/-- Takes a plain argument as the source. -/
def Reading.place (r : Reading) (source? : Option (List Char)) : Reading :=
  { r with request.source? := source?, placed := true }

/-- Takes an argument that has no meaning. -/
def Reading.addExtra (r : Reading) (text : List Char) : Reading :=
  { r with extras := r.extras ++ [text] }

/-- Takes arguments from left to right. A separator goes with the argument that names the source if it
stands next to it. -/
def Reading.take (r : Reading) : List Argument → Except Stop Reading
  | [] => .ok r
  | .unknown text :: rest => (r.addExtra text).take rest
  | .short s (some attached) :: rest => do (← r.addCluster s attached).take rest
  | .long s (some value) :: rest => do (← r.addAttached s value).take rest
  | .short s none :: rest => do
    let request ← r.request.add s
    Reading.take { r with request } rest
  | .long s none :: rest =>
    match s.takesValue, rest with
    | true, .plain value :: rest => do
      let request ← r.request.addTabWidth value
      Reading.take { r with request } rest
    | _, rest => do
      let request ← r.request.add s
      Reading.take { r with request } rest
  | .plain text :: rest =>
    match r.placed, rest with
    | true, rest => (r.addExtra text).take rest
    | false, .separator :: rest => (r.place (some text)).take rest
    | false, rest => (r.place (some text)).take rest
  | .separator :: rest =>
    match r.placed, rest with
    | true, rest => (r.addExtra "--".toList).take rest
    | false, .plain text :: rest => (r.place (some text)).take rest
    | false, rest => (r.place none).take rest

/-- What a command line asks for. -/
def Request.ofArguments (texts : List (List Char)) : Except Stop Request := do
  let arguments ← (Argument.ofTexts texts).mapError .usage
  let reading ← Reading.take {} arguments
  if reading.extras.isEmpty then return reading.request
  else .error (.usage (.unrecognized reading.extras))

end Offside.Cli
