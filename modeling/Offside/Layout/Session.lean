import Offside.Layout.Run

/-!
# Sessions

A session lays out one source after another under options that may be changed in between. The model: a
session holds its options, the levels that are open and what has been given so far; laying out a source
(`Session.process`) resets all of it but the options and then changes it from code line to code line. It can
end early, at a line that finds no level or at a diagnostic that cannot be worded, and then the session stays
as it is at that point. `Session.performAll` is the session after some steps, those that failed included.

What a source gives by itself is `run`; that a session gives the same is a theorem, not part of the model.
-/

namespace Offside.Layout

/-- Why a source is refused. -/
inductive Refusal where
  /-- A diagnostic is to be worded and cannot be. -/
  | unwritable (e : Text.Unwritable)
  /-- The run ended early. -/
  | endedEarly (f : Fault)
  deriving DecidableEq, Repr

/-- The wording of a refusal. -/
def Refusal.message : Refusal → String
  | .unwritable e => e.message
  | .endedEarly f => f.message

/-- Options, and what is kept while a source is laid out under them. -/
structure Session extends Emission where
  options : Options
  /-- The levels that are open, innermost first. -/
  levels : List Int := [0]
  deriving DecidableEq, Repr

namespace Session

/-- What is done with a session. What was done before a refusal stays done. -/
abbrev Action := EStateM Refusal Session

/-- Begins anew: nothing is given, and only column 0 is open. -/
def reset : Action Unit :=
  modify fun s => { s with levels := [0], tokens := [], scopes := [], diagnostics := [] }

/-- Gives a token. -/
def emit (t : Token) : Action Unit := modify fun s => { s with tokens := s.tokens ++ [t] }

/-- Reports something doubtful, which is worded at once. -/
def report (d : Diagnostic) : Action Unit :=
  if d.isWritable then modify fun s => { s with diagnostics := s.diagnostics ++ [d] } else throw (.unwritable {})

/-- Reports the margin of a code line if it is mixed. -/
def checkMargin (line : CodeLine) : Action Unit := do
  if (← get).options.warnMixed && line.isMixed then report ⟨line.number, .mixed⟩

/-- Opens a scope with a code line, classified by the header above it, or by the line itself if it has none. -/
def enterScope (header : Option (List Char)) (line : CodeLine) (w : Int) : Action Unit := do
  modify fun s => { s with levels := w :: s.levels }
  emit (.indent line.number)
  modify fun s => { s with scopes := s.scopes ++ [⟨w, line.number, classify (header.getD line.content)⟩] }

/-- Closes the innermost level. -/
def closeLevel (number : Int) : Action Unit := do
  modify fun s => { s with levels := s.levels.tail }
  emit (.dedent number)

/-- Closes the open levels, which are given, as long as they are right of a column, and tells the innermost that is
left. -/
def closeRight (w number : Int) : List Int → Action Int
  | [] => throw (.endedEarly .noLevel)
  | level :: outer =>
    if w < level then do
      closeLevel number
      closeRight w number outer
    else return level

/-- Reports a code line if it stands in none of the columns still open. -/
def checkLevel (line : CodeLine) (w level : Int) : Action Unit := do
  if level ≠ w then report ⟨line.number, .misaligned w level⟩

/-- Closes what a code line closes. -/
def leaveScopes (line : CodeLine) (w : Int) : Action Unit := do
  let level ← closeRight w line.number (← get).levels
  checkLevel line w level

/-- Opens or closes scopes, as the width of a code line and that of the line before it say. -/
def turn (width : Int) (header : Option (List Char)) (line : CodeLine) (w : Int) : Action Unit :=
  if width < w then enterScope header line w
  else if w < width then leaveScopes line w
  else return

/-- Gives a code line itself, and its end if that is wanted. -/
def emitLine (line : CodeLine) (w : Int) : Action Unit := do
  emit (.code line.content line.number w)
  if (← get).options.newlines then emit (.newline line.number (w + line.content.length))

/-- Lays out a code line below a line of some width and content. -/
def takeLine (width : Int) (header : Option (List Char)) (line : CodeLine) : Action Unit := do
  let w := line.width (← get).options.tabWidth
  checkMargin line
  turn width header line w
  emitLine line w

/-- Lays out code lines, the first of them below a line of some width and content. -/
def takeLines (width : Int) (header : Option (List Char)) : List CodeLine → Action Unit
  | [] => return
  | line :: rest => do
    takeLine width header line
    takeLines (line.width (← get).options.tabWidth) (some line.content) rest

/-- Closes the open levels, which are given, but the last. -/
def closeAll (number : Int) : List Int → Action Unit
  | [] => return
  | [_] => return
  | _ :: outer => do
    closeLevel number
    closeAll number outer

/-- Comes to the end of a source: closes what is open, and answers with all tokens and scopes. -/
def finish (last : Int) : Action (List Token × List Scope) := do
  closeAll last (← get).levels
  emit (.endOfFile last)
  return ((← get).tokens, (← get).scopes)

/-- Lays out a source. -/
def process (source : List Char) : Action (List Token × List Scope) := do
  reset
  takeLines 0 none (codeLines source)
  finish ((Text.lines source).length + 1)

/-- The session after it has laid out a source, or failed to. -/
def after (s : Session) (source : List Char) : Session :=
  match process source s with
  | .ok _ left => left
  | .error _ left => left

end Session

/-- A change to a session between two runs. -/
inductive Assignment where
  | tabWidth (columns : Int)
  | newlines (on : Bool)
  | warnMixed (on : Bool)
  /-- The open levels, outermost first. -/
  | levels (outermostFirst : List Int)
  deriving DecidableEq, Repr

namespace Session

/-- Makes a change. Nothing is checked. -/
def assign (s : Session) : Assignment → Session
  | .tabWidth columns => { s with options.tabWidth := columns }
  | .newlines on => { s with options.newlines := on }
  | .warnMixed on => { s with options.warnMixed := on }
  | .levels levels => { s with levels := levels.reverse }

/-- The width of a line's margin under the options. -/
def measure (s : Session) (line : List Char) : Int := width s.options.tabWidth line

/-- What can be done with a session. -/
inductive Step where
  | process (source : List Char)
  | measure (line : List Char)
  | assign (a : Assignment)
  deriving DecidableEq, Repr

/-- The session after a step. -/
def perform (s : Session) : Step → Session
  | .process source => s.after source
  | .measure _ => s
  | .assign a => s.assign a

/-- The session after several steps. -/
def performAll (s : Session) (steps : List Step) : Session := steps.foldl perform s

end Session

end Offside.Layout
