import Mathlib.Data.List.TakeWhile
import Offside.Lexeme.Basic
import Offside.Proofs.Text.Returns

/-!
# A carriage return at the end

A carriage return at the end of a text that can be cut into lexemes belongs to a comment or to space: it ends
no word, number or sign, and no string is closed by it. So without it the text has the same lexemes
(`lex_dropReturn`).
-/

namespace Offside.Lexeme

/-! ### One lexeme -/

/-- A character that a run cannot hold does not make it longer. -/
theorem takeWhile_append_singleton {α : Type} {p : α → Bool} {a : α} (h : p a = false) (l : List α) :
    (l ++ [a]).takeWhile p = l.takeWhile p := by
  rw [List.takeWhile_append]
  split
  · rename_i whole
    rw [List.takeWhile_cons_of_neg (by simp [h]), List.append_nil,
      (List.takeWhile_prefix p).eq_of_length whole]
  · rfl

theorem dropWhile_append_singleton {α : Type} {p : α → Bool} {a : α} (h : p a = false) (l : List α) :
    (l ++ [a]).dropWhile p = l.dropWhile p ++ [a] := by
  rw [List.dropWhile_append]
  split
  · rename_i nothing
    rw [List.isEmpty_iff.1 nothing, List.dropWhile_cons_of_neg (by simp [h]), List.nil_append]
  · rfl

theorem fraction_append_return (text : List Char) : fraction (text ++ ['\r']) = fraction text := by
  cases text with
  | nil => rfl
  | cons c rest =>
    by_cases point : c = '.'
    · subst point
      simp only [List.cons_append, fraction,
        takeWhile_append_singleton (p := Text.isDecimalDigit) (a := '\r') (by decide)]
    · simp [fraction, point]

theorem number_append_return (text : List Char) : number (text ++ ['\r']) = number text := by
  rw [number, takeWhile_append_singleton (by decide), dropWhile_append_singleton (by decide),
    fraction_append_return, number]

theorem stringRest?_cons {c : Char} (h : c ≠ '\\') (quote : Char) (rest : List Char) :
    stringRest? quote (c :: rest) =
      if c = quote then some [c] else (stringRest? quote rest).map (c :: ·) := by
  rw [stringRest?]
  · exact fun backslash => absurd backslash h
  · exact fun _ _ backslash => absurd backslash h

theorem stringRest?_append_return {quote : Char} (h : quote ≠ '\r') (text : List Char) :
    stringRest? quote (text ++ ['\r']) = stringRest? quote text := by
  -- the two cases of an escape leave no backslash to the last two
  have ordinary {c : Char} {rest : List Char} (none : c = '\\' → rest = [] → False)
      (some : ∀ d more, c = '\\' → rest = d :: more → False) : c ≠ '\\' := by
    intro backslash
    cases rest with
    | nil => exact none backslash rfl
    | cons d more => exact some d more backslash rfl
  fun_induction stringRest? quote text with
  | case1 => simp [stringRest?, Ne.symm h]
  | case2 => simp [stringRest?]
  | case3 rest => simp [stringRest?]
  | case4 c rest other ih => simp [stringRest?, other, ih]
  | case5 rest none some => rw [List.cons_append, stringRest?_cons (ordinary none some), if_pos rfl]
  | case6 c rest none some other ih =>
    rw [List.cons_append, stringRest?_cons (ordinary none some), if_neg other, ih]

theorem Mark.leading?_append_return (text : List Char) :
    Mark.leading? (text ++ ['\r']) = Mark.leading? text := by
  unfold Mark.leading?
  congr 1
  funext m
  have no_return : '\r' ∉ m.spelling.toList := by cases m <;> decide
  rw [Bool.eq_iff_iff, List.isPrefixOf_iff_prefix, List.isPrefixOf_iff_prefix, List.prefix_concat_iff]
  constructor
  · rintro (whole | h)
    · exact absurd (by simp [whole]) no_return
    · exact h
  · exact .inr

theorem leading?_commentSign (rest : List Char) :
    leading? (commentSign :: rest) = some (.comment, commentSign :: rest.takeWhile (· ≠ '\n')) := rfl

theorem leading?_of_isSpace {c : Char} (h : isSpace c = true) (rest : List Char) :
    leading? (c :: rest) = some (.space, c :: rest.takeWhile isSpace) := by
  have one_of : ((c = ' ' ∨ c = '\t') ∨ c = '\x0c') ∨ c = '\r' := by simpa [isSpace] using h
  rcases one_of with ((rfl | rfl) | rfl) | rfl <;> rfl

/-- A text on one line begins as it does without the carriage return at its end, unless it is a comment or
space to its end, and what is left of it is so too. -/
theorem leading?_append_return {body : List Char} (single : '\n' ∉ body) :
    leading? (body ++ ['\r']) = leading? body ∨
      ∃ t : Terminal, t.isIgnored = true ∧ leading? (body ++ ['\r']) = some (t, body ++ ['\r']) ∧
        (body = [] ∨ leading? body = some (t, body)) := by
  cases body with
  | nil => exact .inr ⟨.space, rfl, rfl, .inl rfl⟩
  | cons c rest =>
    rw [List.mem_cons, not_or] at single
    by_cases word : isWordStart c
    · left
      simp only [List.cons_append, leading?, word, if_true,
        takeWhile_append_singleton (p := isWordChar) (a := '\r') (by decide)]
    by_cases digit : Text.isDecimalDigit c
    · left
      have := number_append_return (c :: rest)
      rw [List.cons_append] at this
      simp [leading?, word, digit, this]
    by_cases quote : isQuote c
    · left
      have not_return : c ≠ '\r' := by
        rintro rfl
        exact absurd quote (by decide)
      simp [leading?, word, digit, quote, stringRest?_append_return not_return]
    by_cases comment : c = commentSign
    · subst comment
      have whole (text : List Char) (h : '\n' ∉ text) : text.takeWhile (· ≠ '\n') = text :=
        List.takeWhile_eq_self_iff.2 fun d hd => decide_eq_true fun same => h (same ▸ hd)
      refine .inr ⟨.comment, rfl, ?_, .inr ?_⟩
      · rw [List.cons_append, leading?_commentSign, whole _ (by simpa using single.2)]
      · rw [leading?_commentSign, whole _ single.2]
    by_cases space : isSpace c
    · rw [List.cons_append, leading?_of_isSpace space, leading?_of_isSpace space, List.takeWhile_append]
      split
      · rename_i whole
        have all := (List.takeWhile_prefix isSpace).eq_of_length whole
        exact .inr ⟨.space, rfl, rfl, .inr (by rw [all])⟩
      · exact .inl rfl
    · left
      have := Mark.leading?_append_return (c :: rest)
      rw [List.cons_append] at this
      simp [leading?, word, digit, quote, comment, space, this]

/-! ### All lexemes -/

/-- **A carriage return at the end of a line adds no lexeme and no fault.** -/
theorem lexFrom_append_return {body : List Char} (single : '\n' ∉ body) (column : Nat) :
    lexFrom column (body ++ ['\r']) = lexFrom column body := by
  induction h : body.length using Nat.strongRecOn generalizing body column with
  | ind n ih =>
    rcases leading?_append_return single with same | ⟨t, ignored, begins, nothing | before⟩
    · cases leads : leading? body with
      | none =>
        obtain ⟨c, rest, rfl⟩ : ∃ c rest, body = c :: rest := by
          refine List.exists_cons_of_ne_nil ?_
          rintro rfl
          exact absurd same (by decide)
        rw [lexFrom_of_none (same.trans leads), lexFrom_of_none leads]
        rfl
      | some found =>
        obtain ⟨t, word⟩ := found
        have long := (isPrefix_of_leading? leads).length_le
        have shorter := length_drop_lt_of_leading? leads
        have tail := ih _ (h ▸ shorter) (fun mem => single (List.mem_of_mem_drop mem))
          (columnAfter column word) rfl
        simp only [lexFrom_of_some (same.trans leads), lexFrom_of_some leads,
          List.drop_append_of_le_length long, tail]
    · subst nothing
      rw [lexFrom_of_some begins]
      simp [ignored]
    · rw [lexFrom_of_some begins, lexFrom_of_some before]
      simp [ignored]

/-- A line has the lexemes that it has without the carriage return at its end. -/
theorem lex_dropReturn {text : List Char} (single : '\n' ∉ text) :
    lex (Text.dropReturn text) = lex text := by
  rcases Text.eq_dropReturn_or text with same | longer
  · rw [← same]
  · have body : '\n' ∉ Text.dropReturn text := fun mem =>
      single ((Text.dropReturn_isPrefix text).subset mem)
    conv => rhs; rw [longer]
    exact (lexFrom_append_return body 1).symm

end Offside.Lexeme
