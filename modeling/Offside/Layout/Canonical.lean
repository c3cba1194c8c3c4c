import Offside.Layout.Token
import Offside.Position
import Offside.Setting

/-!
# Canonical text

Tokens can be written out as source again, with a fixed number of spaces for each open scope. The
model: only code lines are written, each ended by a line feed, and only the tokens that open and close
scopes move the margin; tokens that close more than was opened leave no margin at all. `render` gives
the text; `writeOut` gives it too, unless a margin is wider than can be counted or than there is room for.
-/

namespace Offside.Layout

/-- The margin of a code line within so many open scopes. -/
def canonicalMargin (step : IndentWidth) (depth : Int) : List Char :=
  List.replicate (step.columns * depth).toNat ' '

/-- Tokens written out as source, within so many open scopes. -/
def renderFrom (step : IndentWidth) (depth : Int) : List Token → List Char
  | [] => []
  | t :: rest =>
    match t.kind with
    | .indent => renderFrom step (depth + 1) rest
    | .dedent => renderFrom step (depth - 1) rest
    | .code => canonicalMargin step depth ++ t.payload ++ '\n' :: renderFrom step depth rest
    | .newline | .endOfFile => renderFrom step depth rest

/-- Tokens written out as source. -/
def render (step : IndentWidth) (tokens : List Token) : List Char := renderFrom step 0 tokens

/-! ### Margins beyond measure -/

/-- Why tokens are not written out. -/
inductive TooWide where
  /-- The columns of a margin are more than can be counted, to the right or to the left. -/
  | uncountable
  /-- A margin is too wide to be stored. -/
  | unstorable
  deriving DecidableEq, Repr

/-- The wording of a refusal. -/
def TooWide.message : TooWide → String
  | .uncountable => "cannot fit 'int' into an index-sized integer"
  | .unstorable => ""

/-- What is wrong with a margin of so many columns, if there is room for `room` columns. -/
def TooWide.ofColumns? (room columns : Int) : Option TooWide :=
  if !isPosition columns then some .uncountable
  else if room < columns then some .unstorable
  else none

/-- The columns of the margins of the code lines within so many open scopes, in order. -/
def marginColumns (step : IndentWidth) (depth : Int) : List Token → List Int
  | [] => []
  | t :: rest =>
    match t.kind with
    | .code => step.columns * depth :: marginColumns step depth rest
    | _ => marginColumns step (depth + t.kind.change) rest

/-- Tokens written out as source where there is room for margins of `room` columns, unless a margin is wider. -/
def writeOut (room : Int) (step : IndentWidth) (tokens : List Token) : Except TooWide (List Char) :=
  match (marginColumns step 0 tokens).findSome? (TooWide.ofColumns? room) with
  | some e => .error e
  | none => .ok (render step tokens)

/-! ### Laws -/

theorem renderFrom_append (step : IndentWidth) (depth' : Int) (first second : List Token) :
    renderFrom step depth' (first ++ second) =
      renderFrom step depth' first ++ renderFrom step (depth' + depth first) second := by
  induction first generalizing depth' with
  | nil => simp [renderFrom]
  | cons t rest ih =>
    obtain ⟨kind, payload, line, column⟩ := t
    cases kind <;> simp [renderFrom, ih, Kind.change, Int.sub_eq_add_neg, Int.add_assoc]

end Offside.Layout
