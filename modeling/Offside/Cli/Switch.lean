/-!
# Switches

What a run of the command is to do is said by switches, each of which has a long name and may have a
short one of a single letter. One switch takes a value.
-/

namespace Offside.Cli

/-- Something that can be asked for on the command line. -/
inductive Switch where
  | help
  /-- The built-in program is used instead of a file. -/
  | builtIn
  | tokens
  | scopeLedger
  | outline
  | canonical
  | tabWidth
  | verbose
  | quiet
  deriving DecidableEq, Repr

namespace Switch

/-- Every switch, in the order in which candidates are listed. -/
def all : List Switch := [
  .help, .builtIn, .tokens, .scopeLedger, .outline, .canonical, .tabWidth, .verbose, .quiet]

/-- The long name of a switch. -/
def long : Switch → String
  | .help => "--help"
  | .builtIn => "--example"
  | .tokens => "--tokens"
  | .scopeLedger => "--scope-ledger"
  | .outline => "--outline"
  | .canonical => "--canonical"
  | .tabWidth => "--tab-width"
  | .verbose => "--verbose"
  | .quiet => "--quiet"

/-- The letter of a switch. -/
def letter? : Switch → Option Char
  | .help => some 'h'
  | .verbose => some 'v'
  | .quiet => some 'q'
  | _ => none

/-- The switch takes a value. -/
def takesValue : Switch → Bool
  | .tabWidth => true
  | _ => false

/-- The switch of a letter. -/
def ofLetter? (c : Char) : Option Switch := all.find? (·.letter? == some c)

/-- The switch of a long name. -/
def ofLong? (name : List Char) : Option Switch := all.find? (·.long.toList == name)

/-- The switches whose long names begin so. -/
def withPrefix (beginning : List Char) : List Switch :=
  all.filter fun s => beginning.isPrefixOf s.long.toList

/-- A switch as it is called in messages, by all its names. -/
def title (s : Switch) : String :=
  match s.letter? with
  | some c => String.ofList ['-', c, '/'] ++ s.long
  | none => s.long

end Switch

end Offside.Cli
