import Offside.Proofs.Lexeme.Lossless

/-!
# What separates lexemes

No word, number or sign holds a space or the sign that begins a comment, and a string does not go on once it is
closed. So what stands in front of such a character ends there, whatever comes behind it. Lexemes written with a
space between each two are found again, just these (`lexFrom_spaced`), and a comment behind a text on one line
is no lexeme and changes none (`lexFrom_append_comment`).

## The model

`Separates` says of a character that only strings and what is ignored can hold it. Were a longer lexeme found where
the character follows a text, it would hold the character; so it would be one of these sorts, and they are told by
their first character, which is the same (`terminal_of_cons`).
-/

namespace Offside.Lexeme

variable {input word : List Char} {t : Terminal} {l : Lexeme}

/-! ### Characters that separate -/

/-- Only a string or what is ignored can hold the character. -/
def Separates (d : Char) : Prop :=
  ∀ (t : Terminal) (word : List Char), t.Matches word → d ∈ word → t = .string ∨ t.isIgnored = true

theorem isWordChar_of_isWordStart {c : Char} (h : isWordStart c = true) : isWordChar c = true := by
  simp only [isWordStart, isWordChar, Char.isAlphanum, Bool.or_eq_true] at h ⊢
  exact h.imp .inl id

theorem isWordChar_of_mem_name {d : Char} (h : Terminal.name.Matches word) (mem : d ∈ word) :
    isWordChar d = true := by
  cases h with
  | name begins all =>
    rcases List.mem_cons.1 mem with rfl | mem
    · exact isWordChar_of_isWordStart begins
    · exact all d mem

/-- A character separates if it stands in no word, no number and no sign. -/
theorem separates_of {d : Char} (no_word : isWordChar d = false) (no_digit : Text.isDecimalDigit d = false)
    (no_point : d ≠ '.') (no_sign : ∀ m ∈ Mark.all, d ∉ m.spelling.toList) : Separates d := by
  intro t word isOf mem
  have other (isName : Terminal.name.Matches word) : t = .string ∨ t.isIgnored = true := by
    have inside := isWordChar_of_mem_name isName mem
    rw [no_word] at inside
    cases inside
  cases isOf with
  | keyword k => exact other k.matches_name
  | name begins all => exact other (.name begins all)
  | whole _ all =>
    have digit := all d mem
    rw [no_digit] at digit
    cases digit
  | fraction _ all _ all' =>
    have digit : Text.isDecimalDigit d = true := by
      rcases List.mem_append.1 mem with mem | mem
      · exact all d mem
      · exact all' d (List.mem_of_ne_of_mem no_point mem)
    rw [no_digit] at digit
    cases digit
  | string _ _ => exact .inl rfl
  | mark m => exact absurd mem (no_sign m m.mem_all)
  | comment _ => exact .inr rfl
  | space _ _ => exact .inr rfl

theorem separates_space : Separates ' ' := separates_of (by decide) (by decide) (by decide) (by decide)

theorem separates_commentSign : Separates commentSign :=
  separates_of (by decide) (by decide) (by decide) (by decide)

/-! ### The end of a lexeme -/

theorem wordTerminal_visible (word : List Char) :
    wordTerminal word ≠ .string ∧ (wordTerminal word).isIgnored = false := by
  unfold wordTerminal
  split <;> exact ⟨nofun, rfl⟩

/-- Strings and what is ignored are told by their first character. -/
theorem terminal_of_cons {c : Char} {rest rest' word' : List Char} {t' : Terminal}
    (h : leading? (c :: rest) = some (t, word)) (h' : leading? (c :: rest') = some (t', word'))
    (sort : t = .string ∨ t.isIgnored = true) : t' = t := by
  cases leads_of_leading? h with
  | string quoted _ =>
    rw [leading?_of_isQuote quoted] at h'
    obtain ⟨_, -, h'⟩ := Option.map_eq_some_iff.1 h'
    exact (Prod.mk.inj h').1.symm
  | comment sign =>
    subst sign
    rw [leading?_commentSign] at h'
    exact (Prod.mk.inj (Option.some.inj h')).1.symm
  | space blank =>
    rw [leading?_of_isSpace blank] at h'
    exact (Prod.mk.inj (Option.some.inj h')).1.symm
  | word _ =>
    obtain ⟨not_string, visible⟩ := wordTerminal_visible (c :: rest.takeWhile isWordChar)
    rcases sort with string | ignored
    · exact absurd string not_string
    · rw [visible] at ignored
      cases ignored
  | number _ => rcases sort with sort | sort <;> cases sort
  | mark _ => rcases sort with sort | sort <;> cases sort

/-- A string ends at its closing quote, whatever comes behind it. -/
theorem leading?_string_append (h : leading? input = some (.string, word)) (rest : List Char) :
    leading? (input ++ rest) = some (.string, word) := by
  obtain ⟨tail, rfl⟩ := isPrefix_of_leading? h
  cases matches_of_leading? h with
  | @string quote body quoted isBody =>
    have unescaped : quote ≠ '\\' := by
      rintro rfl
      exact absurd quoted (by decide)
    have closed := stringRest?_of_isStringBody unescaped isBody (tail ++ rest)
    simp only [List.cons_append, List.append_assoc, List.nil_append, leading?_of_isQuote quoted, closed,
      Option.map_some]

/-- **A lexeme ends before a character that separates**, whatever comes behind that. -/
theorem leading?_append {d : Char} (separates : Separates d) (h : leading? input = some (t, word))
    (visible : t.isIgnored = false) (rest : List Char) : leading? (input ++ d :: rest) = some (t, word) := by
  have fits : word <+: input ++ d :: rest := (isPrefix_of_leading? h).trans (List.prefix_append _ _)
  obtain ⟨t', word', h', -⟩ := exists_leading?_of_matches (matches_of_leading? h) fits
  have upTo : input ++ [d] <+: input ++ d :: rest := ⟨rest, by simp⟩
  have inside : word' <+: input ∨ d ∈ word' := by
    rcases List.prefix_or_prefix_of_prefix (isPrefix_of_leading? h') upTo with short | long
    · rcases List.prefix_concat_iff.1 short with rfl | short
      · exact .inr (by simp)
      · exact .inl short
    · exact .inr (long.subset (by simp))
  rcases inside with short | mem
  · have here := leading?_of_isPrefix h' short (List.prefix_append _ _)
    rw [h', ← here, h]
  · have sort := separates t' word' (matches_of_leading? h') mem
    obtain ⟨c, more, rfl⟩ := List.exists_cons_of_ne_nil (l := input) (by rintro rfl; cases h)
    obtain rfl := terminal_of_cons h' h sort
    rcases sort with rfl | ignored
    · exact leading?_string_append h _
    · rw [visible] at ignored
      cases ignored

/-! ### Whole lexemes -/

/-- The lexeme is all that is found in its text. -/
structure IsWhole (l : Lexeme) : Prop where
  begins : leading? l.text = some (l.terminal, l.text)
  visible : l.terminal.isIgnored = false

/-- What is found is found as well where nothing follows it. -/
theorem isWhole_of_mem_lexFrom {column : ℕ} (h : l ∈ (lexFrom column input).lexemes) :
    l.IsWhole ∧ l.text ⊆ input := by
  induction column, input using lexFrom.induct with
  | case1 column input none =>
    rw [lexFrom_of_none none] at h
    cases h
  | case2 column input t word begins _ ignored ih =>
    simp only [lexFrom_of_some begins, ignored, if_true] at h
    obtain ⟨whole, inside⟩ := ih h
    exact ⟨whole, List.Subset.trans inside (List.drop_subset _ _)⟩
  | case3 column input t word begins _ visible ih =>
    have here := isPrefix_of_leading? begins
    simp only [lexFrom_of_some begins, visible] at h
    rcases List.mem_cons.1 h with rfl | h
    · exact ⟨⟨leading?_of_isPrefix begins (List.prefix_refl _) here, by simpa using visible⟩, here.subset⟩
    · obtain ⟨whole, inside⟩ := ih h
      exact ⟨whole, List.Subset.trans inside (List.drop_subset _ _)⟩

/-- A lexeme begins with neither space nor a comment. -/
theorem IsWhole.exists_cons (h : l.IsWhole) :
    ∃ c rest, l.text = c :: rest ∧ isSpace c = false ∧ c ≠ commentSign := by
  have begins := h.begins
  have visible := h.visible
  obtain ⟨c, rest, text_eq⟩ := List.exists_cons_of_ne_nil (ne_nil_of_leading? begins)
  rw [text_eq] at begins
  refine ⟨c, rest, text_eq, ?_, ?_⟩
  · by_contra blank
    rw [leading?_of_isSpace (by simpa using blank)] at begins
    rw [← (Prod.mk.inj (Option.some.inj begins)).1] at visible
    cases visible
  · rintro rfl
    rw [leading?_commentSign] at begins
    rw [← (Prod.mk.inj (Option.some.inj begins)).1] at visible
    cases visible

theorem IsWhole.getLast?_ne_return (h : l.IsWhole) (single : '\n' ∉ l.text) : l.text.getLast? ≠ some '\r' := by
  intro last
  obtain ⟨body, text_eq⟩ := List.getLast?_eq_some_iff.1 last
  have begins := h.begins
  rw [text_eq] at begins single
  rcases leading?_append_return (fun mem => single (List.mem_append_left _ mem)) with same | ⟨t, ignored, found, -⟩
  · have long := (isPrefix_of_leading? (same.symm.trans begins)).length_le
    simp only [List.length_append, List.length_singleton] at long
    omega
  · obtain ⟨rfl, -⟩ := Prod.mk.inj (Option.some.inj (begins.symm.trans found))
    rw [h.visible] at ignored
    cases ignored

/-! ### Lexemes with a space between each two -/

/-- What a lexeme says, wherever it stands. -/
def face (l : Lexeme) : Terminal × List Char := (l.terminal, l.text)

/-- The texts of lexemes with a space between each two. -/
def spaced (ls : List Lexeme) : List Char := [' '].intercalate (ls.map Lexeme.text)

@[simp] theorem spaced_nil : spaced [] = [] := rfl

@[simp] theorem spaced_singleton (l : Lexeme) : spaced [l] = l.text := List.append_nil _

@[simp] theorem spaced_cons_cons (l l' : Lexeme) (rest : List Lexeme) :
    spaced (l :: l' :: rest) = l.text ++ ' ' :: spaced (l' :: rest) := by
  rw [spaced, List.map_cons, List.map_cons, List.intercalate_cons_cons, List.append_assoc]
  rfl

theorem isPrefix_spaced (l : Lexeme) (rest : List Lexeme) : l.text <+: spaced (l :: rest) := by
  cases rest with
  | nil => exact ⟨[], by simp⟩
  | cons l' rest => exact ⟨_, (spaced_cons_cons l l' rest).symm⟩

theorem exists_cons_spaced {ls : List Lexeme} (whole : ∀ l ∈ ls, l.IsWhole) (some_lexeme : ls ≠ []) :
    ∃ c rest, spaced ls = c :: rest ∧ isSpace c = false ∧ c ≠ commentSign := by
  obtain ⟨l, rest, rfl⟩ := List.exists_cons_of_ne_nil some_lexeme
  obtain ⟨c, more, text_eq, not_space, no_comment⟩ := (whole l List.mem_cons_self).exists_cons
  obtain ⟨tail, spaced_eq⟩ := isPrefix_spaced l rest
  rw [text_eq, List.cons_append] at spaced_eq
  exact ⟨c, more ++ tail, spaced_eq.symm, not_space, no_comment⟩

theorem not_newline_spaced {ls : List Lexeme} (single : ∀ l ∈ ls, '\n' ∉ l.text) : '\n' ∉ spaced ls := by
  induction ls with
  | nil => exact List.not_mem_nil
  | cons l rest ih =>
    have first := single l List.mem_cons_self
    have others := ih fun l' h => single l' (List.mem_cons_of_mem l h)
    cases rest with
    | nil => simpa using first
    | cons l' rest => simp [first, others]

theorem getLast?_spaced_ne_return {ls : List Lexeme} (whole : ∀ l ∈ ls, l.IsWhole)
    (single : ∀ l ∈ ls, '\n' ∉ l.text) : (spaced ls).getLast? ≠ some '\r' := by
  induction ls with
  | nil => exact nofun
  | cons l rest ih =>
    have others := fun l' h => whole l' (List.mem_cons_of_mem l h)
    cases rest with
    | nil =>
      rw [spaced_singleton]
      exact (whole l List.mem_cons_self).getLast?_ne_return (single l List.mem_cons_self)
    | cons l' rest =>
      obtain ⟨c, more, spaced_eq, -⟩ := exists_cons_spaced others (List.cons_ne_nil l' rest)
      have last := ih others fun l' h => single l' (List.mem_cons_of_mem l h)
      rw [spaced_eq] at last
      rw [spaced_cons_cons, spaced_eq, List.getLast?_append_of_ne_nil _ (by simp), List.getLast?_cons_cons]
      exact last

theorem lexFrom_of_visible (h : leading? input = some (t, word)) (visible : t.isIgnored = false) (column : ℕ) :
    lexFrom column input =
      { lexFrom (columnAfter column word) (input.drop word.length) with
        lexemes := ⟨t, word, column, columnAfter column word⟩ ::
          (lexFrom (columnAfter column word) (input.drop word.length)).lexemes } := by
  simp [lexFrom_of_some h, visible]

theorem lexFrom_space_cons {c : Char} (visible : isSpace c = false) (rest : List Char) (column : ℕ) :
    lexFrom column (' ' :: c :: rest) = lexFrom (column + 1) (c :: rest) := by
  have begins : leading? (' ' :: c :: rest) = some (.space, [' ']) := by
    rw [leading?_of_isSpace (by decide), List.takeWhile_cons_of_neg (by simp [visible])]
  rw [lexFrom_of_some begins]
  rfl

/-- **Lexemes with a space between each two are cut into these lexemes again**, in any column. -/
theorem lexFrom_spaced {ls : List Lexeme} (whole : ∀ l ∈ ls, l.IsWhole) (column : ℕ) :
    (lexFrom column (spaced ls)).stop? = none ∧ (lexFrom column (spaced ls)).lexemes.map face = ls.map face := by
  induction ls generalizing column with
  | nil => simp
  | cons l rest ih =>
    obtain ⟨begins, visible⟩ := whole l List.mem_cons_self
    have others := fun l' h => whole l' (List.mem_cons_of_mem l h)
    cases rest with
    | nil => simp [lexFrom_of_visible begins visible, face]
    | cons l' rest =>
      -- behind the space the next lexeme leads, and not with more space
      obtain ⟨c, more, spaced_eq, not_space, -⟩ := exists_cons_spaced others (List.cons_ne_nil l' rest)
      have first := leading?_append separates_space begins visible (c :: more)
      obtain ⟨ended, same⟩ := ih others (columnAfter column l.text + 1)
      rw [spaced_cons_cons, spaced_eq, lexFrom_of_visible first visible, List.drop_left,
        lexFrom_space_cons not_space, ← spaced_eq]
      exact ⟨ended, congrArg (l.face :: ·) same⟩

/-! ### A comment behind a text -/

theorem lexFrom_comment {rest : List Char} (single : '\n' ∉ rest) (column : ℕ) :
    lexFrom column (commentSign :: rest) = {} := by
  have whole : rest.takeWhile (· ≠ '\n') = rest :=
    List.takeWhile_eq_self_iff.2 fun d hd => decide_eq_true fun same => single (same ▸ hd)
  rw [lexFrom_of_some (leading?_commentSign rest), whole]
  simp [Terminal.isIgnored]

/-- Space ends before a comment. -/
theorem leading?_space_append_comment (h : leading? input = some (.space, word)) (comment : List Char) :
    leading? (input ++ commentSign :: comment) = some (.space, word) := by
  obtain ⟨tail, rfl⟩ := isPrefix_of_leading? h
  cases matches_of_leading? h with
  | space some all =>
    obtain ⟨c, rest, rfl⟩ := List.exists_cons_of_ne_nil some
    have blank := all c List.mem_cons_self
    rw [List.cons_append, leading?_of_isSpace blank] at h
    rw [List.cons_append, List.cons_append, leading?_of_isSpace blank, ← h]
    congr 3
    rw [List.takeWhile_append]
    split
    · rename_i whole
      rw [List.takeWhile_cons_of_neg (by decide), List.append_nil, (List.takeWhile_prefix _).eq_of_length whole]
    · rfl

/-- A text is cut as it is with more behind it, if the same leads and what is left is cut so. -/
theorem lexFrom_append_of_leading? {body more : List Char} {column : ℕ} (begins : leading? body = some (t, word))
    (begins' : leading? (body ++ more) = some (t, word))
    (rest : lexFrom (columnAfter column word) (body.drop word.length ++ more) =
      lexFrom (columnAfter column word) (body.drop word.length)) :
    lexFrom column (body ++ more) = lexFrom column body := by
  have long := (isPrefix_of_leading? begins).length_le
  simp only [lexFrom_of_some begins', lexFrom_of_some begins, List.drop_append_of_le_length long, rest]

/-- **A comment behind a text on one line is no lexeme and changes none**, if the text can be cut to its end. -/
theorem lexFrom_append_comment {body comment : List Char} (single : '\n' ∉ body) (single' : '\n' ∉ comment)
    {column : ℕ} (ended : (lexFrom column body).stop? = none) :
    lexFrom column (body ++ commentSign :: comment) = lexFrom column body := by
  induction column, body using lexFrom.induct with
  | case1 column body none =>
    rw [lexFrom_of_none none] at ended
    obtain rfl : body = [] := by simpa using ended
    rw [List.nil_append, lexFrom_comment single', lexFrom_nil]
  | case2 column body t word begins _ ignored ih =>
    have rest_single : '\n' ∉ body.drop word.length := fun mem => single (List.mem_of_mem_drop mem)
    simp only [lexFrom_of_some begins, ignored, if_true] at ended
    cases t with
    | space =>
      exact lexFrom_append_of_leading? begins (leading?_space_append_comment begins comment) (ih rest_single ended)
    | comment =>
      obtain ⟨rest, rfl⟩ : ∃ rest, body = commentSign :: rest := by
        obtain ⟨tail, rfl⟩ := isPrefix_of_leading? begins
        cases matches_of_leading? begins with
        | comment _ => exact ⟨_, rfl⟩
      rw [List.mem_cons, not_or] at single
      rw [List.cons_append, lexFrom_comment single.2, lexFrom_comment]
      simp [single.2, single', commentSign]
    | keyword | name | number | string | mark => cases ignored
  | case3 column body t word begins _ visible ih =>
    have rest_single : '\n' ∉ body.drop word.length := fun mem => single (List.mem_of_mem_drop mem)
    simp only [lexFrom_of_some begins, visible] at ended
    have begins' := leading?_append separates_commentSign begins (by simpa using visible) comment
    exact lexFrom_append_of_leading? begins begins' (ih rest_single ended)

end Offside.Lexeme
