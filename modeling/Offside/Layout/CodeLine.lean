import Offside.Comment
import Offside.Text.Lines

/-!
# Code lines

Only code lines take part in layout. A physical line is a margin of spaces and tabs and the content
after it; a line without content is blank, one whose content begins with the comment sign is a
comment, and every other line is a code line. The model: `codeLines` keeps the code lines of a text
with their line numbers, from one. The width of a margin is a number of columns in which a tab counts
for as much as the caller says, even for nothing or less.
-/

namespace Offside.Layout

/-- The characters that a margin is made of. -/
def isMarginChar (c : Char) : Bool := c == ' ' || c == '\t'

/-- The spaces and tabs that a line begins with. -/
def margin (line : List Char) : List Char := line.takeWhile isMarginChar

/-- What follows the margin of a line. -/
def content (line : List Char) : List Char := line.dropWhile isMarginChar

/-- The line is blank or a comment, and so without effect on layout. -/
def isTransparent (line : List Char) : Bool :=
  match content line with
  | [] => true
  | c :: _ => c == commentSign

/-- The columns that the margin of a line covers, for tabs of a given width. -/
def width (tab : Int) : List Char → Int
  | ' ' :: rest => 1 + width tab rest
  | '\t' :: rest => tab + width tab rest
  | _ => 0

/-- A physical line that is neither blank nor a comment. -/
structure CodeLine where
  /-- Its number among the physical lines, from one. -/
  number : Int
  margin : List Char
  content : List Char
  deriving DecidableEq, Repr

/-- The columns that the margin covers. -/
def CodeLine.width (tab : Int) (line : CodeLine) : Int := Layout.width tab line.margin

/-- The margin has both a space and a tab in it. -/
def CodeLine.isMixed (line : CodeLine) : Bool :=
  line.margin.contains ' ' && line.margin.contains '\t'

/-- The code lines among physical lines that are numbered from `n` on. -/
def codeLinesFrom (n : Int) : List (List Char) → List CodeLine
  | [] => []
  | line :: rest =>
    if isTransparent line then codeLinesFrom (n + 1) rest
    else ⟨n, margin line, content line⟩ :: codeLinesFrom (n + 1) rest

/-- The code lines of a text. -/
def codeLines (source : List Char) : List CodeLine := codeLinesFrom 1 (Text.lines source)

/-! ### Laws -/

theorem margin_append_content (line : List Char) : margin line ++ content line = line :=
  List.takeWhile_append_dropWhile

/-- Only the margin of a line counts for its width. -/
theorem width_margin (tab : Int) (line : List Char) :
    Layout.width tab (margin line) = Layout.width tab line := by
  induction line with
  | nil => rfl
  | cons c rest ih =>
    rw [margin] at ih ⊢
    by_cases space : c = ' '
    · subst space
      simp [isMarginChar, Layout.width, ih]
    · by_cases tabulator : c = '\t'
      · subst tabulator
        simp [isMarginChar, Layout.width, ih]
      · simp [isMarginChar, space, tabulator, Layout.width]

/-- The width is the number of spaces in the margin and the tab width for each tab in it. -/
theorem width_eq_count (tab : Int) (line : List Char) :
    Layout.width tab line = (margin line).count ' ' + tab * (margin line).count '\t' := by
  induction line with
  | nil => simp [margin, Layout.width]
  | cons c rest ih =>
    rw [margin] at ih ⊢
    by_cases space : c = ' '
    · subst space
      simp [isMarginChar, Layout.width, ih]
      omega
    · by_cases tabulator : c = '\t'
      · subst tabulator
        simp [isMarginChar, Layout.width, ih, Int.mul_add]
        omega
      · simp [isMarginChar, space, tabulator, Layout.width]

/-- Code lines of some lines followed by others: the others are numbered after the first. -/
theorem codeLinesFrom_append (n : Int) (first second : List (List Char)) :
    codeLinesFrom n (first ++ second) =
      codeLinesFrom n first ++ codeLinesFrom (n + first.length) second := by
  induction first generalizing n with
  | nil => simp [codeLinesFrom]
  | cons line rest ih =>
    have shift : n + 1 + (rest.length : Int) = n + (rest.length + 1 : Nat) := by omega
    by_cases h : isTransparent line <;> simp [codeLinesFrom, h, ih, shift, List.length_cons]

end Offside.Layout
