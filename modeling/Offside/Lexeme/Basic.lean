import Offside.Lexeme.Leading

/-!
# Lexemes of a text

A text is cut into lexemes from left to right, each as long as its sort allows, up to its end or to the
first character that nothing can begin with. The model: a lexeme has a terminal, a text and the columns
it begins in and ends before, counted from one; `lex` gives the lexemes in order and where it stopped, if
it did. A line feed, which only a string can hold, starts the count of columns afresh.
-/

namespace Offside

/-- A word, literal or sign of a code line. -/
structure Lexeme where
  terminal : Lexeme.Terminal
  text : List Char
  /-- The column of the first character. -/
  column : Nat
  /-- The column after the last character. -/
  endColumn : Nat
  deriving DecidableEq, Repr

namespace Lexeme

/-- A character that nothing can begin with, and its column. -/
structure Stop where
  char : Char
  column : Nat
  deriving DecidableEq, Repr

/-- The lexemes of a text as far as they go. -/
structure Cut where
  lexemes : List Lexeme := []
  stop? : Option Stop := none
  deriving DecidableEq, Repr

/-- The column after a text that begins in the given column. -/
def columnAfter (column : Nat) (text : List Char) : Nat :=
  text.foldl (fun column c => if c = '\n' then 1 else column + 1) column

/-- The lexemes of a text that begins in the given column. -/
def lexFrom (column : Nat) (input : List Char) : Cut :=
  match _h : leading? input with
  | none => { stop? := input.head?.map fun c => ⟨c, column⟩ }
  | some (t, text) =>
    let after := columnAfter column text
    let cut := lexFrom after (input.drop text.length)
    if t.isIgnored then cut else { cut with lexemes := ⟨t, text, column, after⟩ :: cut.lexemes }
termination_by input.length
decreasing_by exact length_drop_lt_of_leading? _h

/-- The lexemes of a text. -/
def lex (text : List Char) : Cut := lexFrom 1 text

/-! ### Laws -/

theorem lexFrom_of_none {input : List Char} (h : leading? input = none) (column : Nat) :
    lexFrom column input = { stop? := input.head?.map fun c => ⟨c, column⟩ } := by
  rw [lexFrom]
  split
  · rfl
  · simp_all

theorem lexFrom_of_some {input text : List Char} {t : Terminal} (h : leading? input = some (t, text))
    (column : Nat) :
    lexFrom column input =
      let after := columnAfter column text
      let cut := lexFrom after (input.drop text.length)
      if t.isIgnored then cut else { cut with lexemes := ⟨t, text, column, after⟩ :: cut.lexemes } := by
  rw [lexFrom]
  split
  · simp_all
  · rename_i t' text' h'
    obtain ⟨rfl, rfl⟩ := Prod.mk.inj (Option.some.inj (h.symm.trans h'))
    rfl

@[simp] theorem lexFrom_nil (column : Nat) : lexFrom column [] = {} := lexFrom_of_none rfl column

/-- A text without line feeds is as many columns wide as it has characters. -/
theorem columnAfter_eq {text : List Char} (h : '\n' ∉ text) (column : Nat) :
    columnAfter column text = column + text.length := by
  unfold columnAfter
  induction text generalizing column with
  | nil => rfl
  | cons c rest ih =>
    simp only [List.mem_cons, not_or] at h
    rw [List.foldl_cons, if_neg (Ne.symm h.1), ih h.2, List.length_cons]
    omega

end Lexeme

end Offside
