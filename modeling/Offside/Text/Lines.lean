/-!
# Physical lines

Source text is cut into physical lines at its line feeds. The model: `lines` gives the text of each
line without the line feed that ends it and without one carriage return before that. A text that
ends in a line feed has no empty last line, so `lines (s ++ t) = lines s ++ lines t` whenever `s` is
empty or ends in a line feed (`lines_append`). Text that comes from a file first has its three
spellings of a line end made one by `unifyReturns`.
-/

namespace Offside.Text

/-- A character in front of the first of some lines, or as a line of its own if there is none. -/
def pushFront (c : Char) : List (List Char) → List (List Char)
  | [] => [[c]]
  | line :: rest => (c :: line) :: rest

/-- The pieces of a text that a line feed ends, and after them what follows the last line feed if
that is not empty. -/
def pieces (text : List Char) : List (List Char) :=
  text.foldr (fun c rest => if c = '\n' then [] :: rest else pushFront c rest) []

/-- A line without the carriage return that ends it, if one does. -/
def dropReturn (line : List Char) : List Char :=
  if line.getLast? = some '\r' then line.dropLast else line

/-- The physical lines of a text. -/
def lines (text : List Char) : List (List Char) :=
  (pieces text).map dropReturn

/-- Carriage return and line feed together, and a carriage return alone, become one line feed. -/
def unifyReturns : List Char → List Char
  | [] => []
  | '\r' :: '\n' :: rest => '\n' :: unifyReturns rest
  | c :: rest => (if c = '\r' then '\n' else c) :: unifyReturns rest

/-! ### Laws -/

@[simp] theorem pieces_nil : pieces [] = [] := rfl

theorem pieces_cons (c : Char) (text : List Char) :
    pieces (c :: text) = if c = '\n' then [] :: pieces text else pushFront c (pieces text) := rfl

@[simp] theorem lines_nil : lines [] = [] := rfl

theorem pushFront_append {c : Char} {xs : List (List Char)} (h : xs ≠ []) (ys : List (List Char)) :
    pushFront c (xs ++ ys) = pushFront c xs ++ ys := by
  cases xs with
  | nil => exact absurd rfl h
  | cons => rfl

theorem pieces_ne_nil {text : List Char} (h : text ≠ []) : pieces text ≠ [] := by
  cases text with
  | nil => exact absurd rfl h
  | cons c text =>
    rw [pieces_cons]
    split
    · simp
    · cases pieces text <;> simp [pushFront]

/-- A line feed ends a line and nothing else: what follows starts afresh. -/
theorem pieces_append_newline (text rest : List Char) :
    pieces (text ++ '\n' :: rest) = pieces (text ++ ['\n']) ++ pieces rest := by
  induction text with
  | nil => simp [pieces_cons]
  | cons c text ih =>
    simp only [List.cons_append, pieces_cons, ih]
    split
    · rfl
    · exact pushFront_append (pieces_ne_nil (by simp)) _

/-- Lines of two texts are those of their join when the first is empty or ends in a line feed. -/
theorem lines_append {s : List Char} (h : s = [] ∨ s.getLast? = some '\n') (t : List Char) :
    lines (s ++ t) = lines s ++ lines t := by
  rcases h with rfl | h
  · rfl
  · obtain ⟨body, rfl⟩ := List.getLast?_eq_some_iff.1 h
    rw [List.append_assoc, List.singleton_append]
    simp [lines, pieces_append_newline body t]

end Offside.Text
