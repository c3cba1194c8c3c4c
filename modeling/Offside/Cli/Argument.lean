import Offside.Cli.UsageError

/-!
# Arguments

What one argument of a command line is can be told from its text alone, except that after a separator
every argument is plain. The model: `Argument.ofText` tells plain arguments from switches; a long name may
be shortened as long as it stands for one switch only and may have a value attached by an equals sign, and
a letter may have more letters attached to it. Numbers below zero and texts with a space are plain even
though they begin with a hyphen.
-/

namespace Offside.Cli

/-- What an argument is. -/
inductive Argument where
  /-- A file or a value. -/
  | plain (text : List Char)
  /-- The sign that what follows is plain. -/
  | separator
  /-- A switch by its long name, and what is attached to that. -/
  | long (s : Switch) (attached? : Option (List Char))
  /-- A switch by its letter, and what is attached to that. -/
  | short (s : Switch) (attached? : Option (List Char))
  /-- Something that looks like a switch but is none. -/
  | unknown (text : List Char)
  deriving DecidableEq, Repr

/-- The text is a numeral below zero: a hyphen, digits, and possibly a point with digits after it. One
line feed may follow. -/
def isNegativeNumeral (text : List Char) : Bool :=
  let body := if text.getLast? = some '\n' then text.dropLast else text
  match body with
  | '-' :: rest =>
    match rest.dropWhile Text.isDecimalDigit with
    | [] => rest ≠ []
    | '.' :: part => part ≠ [] && part.all Text.isDecimalDigit
    | _ => false
  | _ => false

/-- The text before the first equals sign, and the text after it if there is one. -/
def splitAtEquals (text : List Char) : List Char × Option (List Char) :=
  match text.dropWhile (· ≠ '=') with
  | [] => (text, none)
  | _ :: value => (text.takeWhile (· ≠ '='), some value)

/-- What a text is that begins like a switch but is not the name of one. -/
def Argument.ofUnnamed (text : List Char) : Argument :=
  if isNegativeNumeral text || text.contains ' ' then .plain text else .unknown text

/-- What an argument is, as long as no separator stands before it. -/
def Argument.ofText (text : List Char) : Except UsageError Argument :=
  match text with
  | '-' :: '-' :: [] => .ok .separator
  | '-' :: '-' :: _ =>
    let (name, attached?) := splitAtEquals text
    match Switch.ofLong? name, Switch.withPrefix name with
    | some s, _ => .ok (.long s attached?)
    | none, [] => .ok (.ofUnnamed text)
    | none, [s] => .ok (.long s attached?)
    | none, candidates => .error (.ambiguous text candidates)
  | '-' :: c :: rest =>
    match Switch.ofLetter? c, rest with
    | some s, [] => .ok (.short s none)
    | some s, '=' :: attached => .ok (.short s (some attached))
    | some s, attached => .ok (.short s (some attached))
    | none, _ => .ok (.ofUnnamed text)
  | _ => .ok (.plain text)

/-- What the arguments of a command line are. -/
def Argument.ofTexts : List (List Char) → Except UsageError (List Argument)
  | [] => .ok []
  | text :: rest => do
    match ← Argument.ofText text with
    | .separator => return .separator :: rest.map .plain
    | argument => return argument :: (← Argument.ofTexts rest)

end Offside.Cli
