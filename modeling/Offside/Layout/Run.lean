import Offside.Layout.Diagnostic
import Offside.Layout.Scope
import Offside.Layout.Token

/-!
# Laying out a source

The columns of the code lines decide the scopes: a line further right than the one before it opens a
scope, and a line further left closes every scope that was opened to its right. The model: `step` is
what one code line does, given the levels of the scopes around it, the width of the line before it and
the content of that line; it adds to what the lines before it gave (`runLines_append`) and never
changes it. `run` lays out a whole source and at its end closes what is still open.

The outermost level is column 0. A line to the left of it, which only a negative tab width can make,
finds no level at all and ends the run early.
-/

namespace Offside.Layout

/-- How a source is to be laid out. -/
structure Options where
  /-- The columns that a tab counts for. -/
  tabWidth : Int := 4
  /-- Each code line is followed by a token for its end. -/
  newlines : Bool := false
  /-- Margins with both spaces and tabs are reported. -/
  warnMixed : Bool := false
  deriving DecidableEq, Repr

/-- What laying out gives. -/
structure Emission where
  tokens : List Token := []
  /-- The scopes opened, in order. -/
  scopes : List Scope := []
  diagnostics : List Diagnostic := []
  deriving DecidableEq, Repr

instance : Append Emission where
  append a b := ⟨a.tokens ++ b.tokens, a.scopes ++ b.scopes, a.diagnostics ++ b.diagnostics⟩

/-- What the code lines read so far mean for the next. -/
structure State where
  /-- The levels of the scopes around the next line, innermost first, down to column 0. -/
  levels : List Int := [0]
  /-- The width of the line before. -/
  width : Int := 0
  /-- The content of the line before, if there is one. -/
  header : Option (List Char) := none
  deriving DecidableEq, Repr

/-- The tokens for a code line itself. -/
def CodeLine.tokens (o : Options) (line : CodeLine) : List Token :=
  let w := line.width o.tabWidth
  .code line.content line.number w ::
    if o.newlines then [.newline line.number (w + line.content.length)] else []

/-- The diagnostic for the margin of a code line by itself. -/
def CodeLine.mixed (o : Options) (line : CodeLine) : List Diagnostic :=
  if o.warnMixed && line.isMixed then [⟨line.number, .mixed⟩] else []

/-- What one code line gives, and the state after it unless it finds no level. -/
def step (o : Options) (s : State) (line : CodeLine) : Emission × Option State :=
  let w := line.width o.tabWidth
  let after (levels : List Int) : Option State := some ⟨levels, w, some line.content⟩
  if s.width < w then
    (⟨.indent line.number :: line.tokens o,
      [⟨w, line.number, classify (s.header.getD line.content)⟩],
      line.mixed o⟩,
      after (w :: s.levels))
  else if w < s.width then
    let dedents := (s.levels.takeWhile (w < ·)).map fun _ => Token.dedent line.number
    match s.levels.dropWhile (w < ·) with
    | [] => (⟨dedents, [], line.mixed o⟩, none)
    | level :: outer =>
      (⟨dedents ++ line.tokens o, [],
        line.mixed o ++ if level = w then [] else [⟨line.number, .misaligned w level⟩]⟩,
        after (level :: outer))
  else
    (⟨line.tokens o, [], line.mixed o⟩, after s.levels)

/-- What code lines give, and the state after them unless one of them finds no level. -/
def runLines (o : Options) (s : State) : List CodeLine → Emission × Option State
  | [] => ({}, some s)
  | line :: rest =>
    match step o s line with
    | (out, none) => (out, none)
    | (out, some s') =>
      let (more, last) := runLines o s' rest
      (out ++ more, last)

/-- The tokens at the end of a source: every open scope is closed. -/
def closing (line : Int) (levels : List Int) : List Token :=
  List.replicate (levels.length - 1) (.dedent line) ++ [.endOfFile line]

/-- A source laid out, as far as it could be. -/
structure Result extends Emission where
  /-- The levels still open, outermost first. -/
  levels : List Int
  /-- The end of the source was reached. -/
  finished : Bool
  deriving DecidableEq, Repr

/-- A source laid out. -/
def run (o : Options) (source : List Char) : Result :=
  let last : Int := (Text.lines source).length + 1
  match runLines o {} (codeLines source) with
  | (out, none) => ⟨out, [], false⟩
  | (out, some s) =>
    ⟨out ++ { tokens := closing last s.levels }, s.levels.drop (s.levels.length - 1), true⟩

/-- The fault of a run that ended early. -/
inductive Fault where
  /-- A line stands to the left of column 0. -/
  | noLevel
  deriving DecidableEq, Repr

/-- The wording of a fault. -/
def Fault.message : Fault → String
  | .noLevel => "list index out of range"

/-- A result all of whose diagnostics could be worded when they were found. -/
def Result.worded (r : Result) : Except Text.Unwritable Result :=
  if r.diagnostics.all Diagnostic.isWritable then .ok r else .error {}

/-! ### Laws -/

theorem Emission.append_def (a b : Emission) :
    a ++ b = ⟨a.tokens ++ b.tokens, a.scopes ++ b.scopes, a.diagnostics ++ b.diagnostics⟩ := rfl

@[simp] theorem Emission.tokens_append (a b : Emission) : (a ++ b).tokens = a.tokens ++ b.tokens := rfl

@[simp] theorem Emission.scopes_append (a b : Emission) : (a ++ b).scopes = a.scopes ++ b.scopes := rfl

@[simp] theorem Emission.diagnostics_append (a b : Emission) :
    (a ++ b).diagnostics = a.diagnostics ++ b.diagnostics := rfl

theorem Emission.append_assoc (a b c : Emission) : a ++ b ++ c = a ++ (b ++ c) := by
  simp [Emission.append_def]

@[simp] theorem Emission.nil_append (a : Emission) : {} ++ a = a := rfl

theorem Result.worded_eq_ok_iff {r r' : Result} :
    r.worded = .ok r' ↔ r = r' ∧ ∀ d ∈ r.diagnostics, d.isWritable := by
  unfold worded
  split
  · rename_i h
    simp only [Except.ok.injEq, iff_self_and]
    exact fun _ => List.all_eq_true.1 h
  · rename_i h
    simp only [reduceCtorEq, false_iff, not_and]
    exact fun _ all => h (List.all_eq_true.2 all)

/-- Code lines are laid out from where the code lines before them left off. -/
theorem runLines_append (o : Options) (s : State) (first second : List CodeLine) :
    runLines o s (first ++ second) =
      match runLines o s first with
      | (out, none) => (out, none)
      | (out, some s') => (out ++ (runLines o s' second).1, (runLines o s' second).2) := by
  induction first generalizing s with
  | nil => rfl
  | cons line rest ih =>
    simp only [List.cons_append, runLines]
    rcases step o s line with ⟨out, _ | s'⟩
    · rfl
    · simp only [ih s']
      rcases runLines o s' rest with ⟨more, _ | s''⟩
      · rfl
      · simp [Emission.append_assoc]

end Offside.Layout
