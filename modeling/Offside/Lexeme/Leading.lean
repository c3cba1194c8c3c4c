import Offside.Comment
import Offside.Lexeme.Terminal

/-!
# Leading lexemes

What a text begins with is decided by its first character and then taken as long as it goes: a word, a
number, a string, a comment, a run of space, or a sign. The model: `leading?` gives the terminal and its
text, which is a prefix of the input and not empty (`isPrefix_of_leading?`, `ne_nil_of_leading?`), or
nothing where no terminal fits.
-/

namespace Offside.Lexeme

/-- The terminal of a word. -/
def wordTerminal (word : List Char) : Terminal :=
  match Keyword.ofWord? word with
  | some k => .keyword k
  | none => .name

/-- The fraction that a text begins with: a point and at least one digit, or nothing. -/
def fraction : List Char → List Char
  | '.' :: rest =>
    match rest.takeWhile Text.isDecimalDigit with
    | [] => []
    | digits => '.' :: digits
  | _ => []

/-- The number that a text begins with: digits and possibly a fraction. -/
def number (text : List Char) : List Char :=
  text.takeWhile Text.isDecimalDigit ++ fraction (text.dropWhile Text.isDecimalDigit)

/-- The rest of a string up to its closing quote. A backslash takes the next character with it, which
may be anything but a line feed. -/
def stringRest? (quote : Char) : List Char → Option (List Char)
  | [] => none
  | '\\' :: [] => none
  | '\\' :: c :: rest =>
    if c = '\n' then none else (stringRest? quote rest).map fun more => '\\' :: c :: more
  | c :: rest => if c = quote then some [c] else (stringRest? quote rest).map (c :: ·)

/-- The terminal that a text begins with, and its text. -/
def leading? : List Char → Option (Terminal × List Char)
  | [] => none
  | c :: rest =>
    if isWordStart c then
      let word := c :: rest.takeWhile isWordChar
      some (wordTerminal word, word)
    else if Text.isDecimalDigit c then some (.number, number (c :: rest))
    else if isQuote c then (stringRest? c rest).map fun more => (.string, c :: more)
    else if c = commentSign then some (.comment, c :: rest.takeWhile (· ≠ '\n'))
    else if isSpace c then some (.space, c :: rest.takeWhile isSpace)
    else (Mark.leading? (c :: rest)).map fun m => (.mark m, m.spelling.toList)

/-! ### Laws -/

theorem fraction_isPrefix (text : List Char) : fraction text <+: text := by
  unfold fraction
  split
  · rename_i rest
    split
    · exact List.nil_prefix
    · exact (List.prefix_cons_inj _).2 (List.takeWhile_prefix _)
  · exact List.nil_prefix

theorem number_isPrefix (text : List Char) : number text <+: text := by
  conv => rhs; rw [← List.takeWhile_append_dropWhile (p := Text.isDecimalDigit) (l := text)]
  exact (List.prefix_append_right_inj _).2 (fraction_isPrefix _)

theorem isPrefix_of_stringRest? {quote : Char} {text more : List Char}
    (h : stringRest? quote text = some more) : more <+: text := by
  fun_induction stringRest? quote text generalizing more with
  | case1 => simp at h
  | case2 => simp at h
  | case3 => simp at h
  | case4 c rest _ ih =>
    obtain ⟨tail, ht, rfl⟩ := Option.map_eq_some_iff.1 h
    simpa using ih ht
  | case5 c rest =>
    obtain rfl := Option.some.inj h
    simp
  | case6 c rest _ _ _ ih =>
    obtain ⟨tail, ht, rfl⟩ := Option.map_eq_some_iff.1 h
    simpa using ih ht

theorem isPrefix_of_leading? {input text : List Char} {t : Terminal}
    (h : leading? input = some (t, text)) : text <+: input := by
  unfold leading? at h
  split at h
  · simp at h
  · rename_i c rest
    split at h
    · simp only [Option.some.injEq, Prod.mk.injEq] at h
      obtain ⟨-, rfl⟩ := h
      exact (List.prefix_cons_inj _).2 (List.takeWhile_prefix _)
    split at h
    · simp only [Option.some.injEq, Prod.mk.injEq] at h
      obtain ⟨-, rfl⟩ := h
      exact number_isPrefix _
    split at h
    · obtain ⟨more, hm, h⟩ := Option.map_eq_some_iff.1 h
      obtain ⟨-, rfl⟩ := Prod.mk.inj h
      exact (List.prefix_cons_inj _).2 (isPrefix_of_stringRest? hm)
    split at h
    · simp only [Option.some.injEq, Prod.mk.injEq] at h
      obtain ⟨-, rfl⟩ := h
      exact (List.prefix_cons_inj _).2 (List.takeWhile_prefix _)
    split at h
    · simp only [Option.some.injEq, Prod.mk.injEq] at h
      obtain ⟨-, rfl⟩ := h
      exact (List.prefix_cons_inj _).2 (List.takeWhile_prefix _)
    · obtain ⟨m, hm, h⟩ := Option.map_eq_some_iff.1 h
      obtain ⟨-, rfl⟩ := Prod.mk.inj h
      exact Mark.isPrefix_of_leading? hm

theorem ne_nil_of_leading? {input text : List Char} {t : Terminal}
    (h : leading? input = some (t, text)) : text ≠ [] := by
  unfold leading? at h
  split at h
  · simp at h
  · rename_i c rest
    split at h
    · simp only [Option.some.injEq, Prod.mk.injEq] at h
      simp [← h.2]
    split at h
    · rename_i digit
      simp only [Option.some.injEq, Prod.mk.injEq] at h
      simp [← h.2, number, digit]
    split at h
    · obtain ⟨more, _, h⟩ := Option.map_eq_some_iff.1 h
      simp [← (Prod.mk.inj h).2]
    split at h
    · simp only [Option.some.injEq, Prod.mk.injEq] at h
      simp [← h.2]
    split at h
    · simp only [Option.some.injEq, Prod.mk.injEq] at h
      simp [← h.2]
    · obtain ⟨m, _, h⟩ := Option.map_eq_some_iff.1 h
      rw [← (Prod.mk.inj h).2]
      exact m.spelling_ne_nil

theorem length_drop_lt_of_leading? {input text : List Char} {t : Terminal}
    (h : leading? input = some (t, text)) : (input.drop text.length).length < input.length := by
  have long := (isPrefix_of_leading? h).length_le
  have pos := List.length_pos_iff.2 (ne_nil_of_leading? h)
  rw [List.length_drop]
  omega

end Offside.Lexeme
