import Offside.Layout.CodeLine

/-!
# Scopes

A scope is opened by a code line that stands further right than the code line before it. The model: a
scope is entered with the column it was opened at, the line that opened it and a category, which is
judged by how the line before it, its header, begins. A category is known by its name; those that
headers give are named here, and a scope entered by hand may have any other.
-/

namespace Offside.Layout

/-- What sort of block a scope is. -/
structure Category where
  name : String
  deriving DecidableEq, Repr

namespace Category

/-- The body of a function. -/
def function : Category := ⟨"function"⟩
/-- A description of what to draw. -/
def render : Category := ⟨"render"⟩
/-- Machine instructions. -/
def asm : Category := ⟨"asm"⟩
/-- The fields of a structure. -/
def struct : Category := ⟨"struct"⟩
/-- A block under a condition. -/
def conditional : Category := ⟨"conditional"⟩
/-- A block that repeats. -/
def loop : Category := ⟨"loop"⟩
/-- A block for the values that pass a filter. -/
def filter : Category := ⟨"filter"⟩
/-- Any other block. -/
def block : Category := ⟨"block"⟩

end Category

/-- How headers begin, each with the category it gives. The first that fits decides. -/
def openings : List (String × Category) := [
  ("fn ", .function), ("Main", .function), ("render", .render), ("asm", .asm), ("struct", .struct),
  ("if ", .conditional), ("for ", .loop), ("filter", .filter)]

/-- The category of the scope that a line opens. -/
def classify (line : List Char) : Category :=
  match openings.find? fun opening => opening.1.toList.isPrefixOf (content line) with
  | some opening => opening.2
  | none => .block

/-- One opened scope. -/
structure Scope where
  /-- The column of the line that opened it. -/
  level : Int
  /-- The line that opened it. -/
  line : Int
  category : Category := .block
  deriving DecidableEq, Repr

/-! ### Laws -/

theorem content_content (line : List Char) : content (content line) = content line := by
  unfold content
  induction line with
  | nil => rfl
  | cons c rest ih =>
    by_cases h : isMarginChar c
    · simp [h, ih]
    · simp [h]

/-- The margin of a header does not count for its category. -/
@[simp] theorem classify_content (line : List Char) : classify (content line) = classify line := by
  simp only [classify, content_content]

end Offside.Layout
