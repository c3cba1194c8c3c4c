import Offside.Proofs.Lexeme.Trailing

/-!
# Patterns of terminals

Every terminal has a pattern: the texts that can be of it, wherever they stand. What a text begins with is of the
pattern of its terminal (`matches_of_leading?`), and no longer text of any pattern stands at the same place
(`exists_leading?_of_matches`). So the leading lexeme does not depend on what follows it, as long as no more than
that follows (`leading?_of_isPrefix`).

## The model

`Matches` has a rule for each form of a text. `Leads` tells the ways in which `leading?` finds something by the
first character, and of two texts that begin with the same character it takes the same way. A sign is found in a
list with the longer signs first, so no other sign there is longer.
-/

namespace Offside.Lexeme

/-! ### Patterns -/

/-- What stands between two quotes: anything but the quote, where a backslash takes the next character with it,
which may be anything but a line feed. -/
inductive IsStringBody (quote : Char) : List Char → Prop
  | nil : IsStringBody quote []
  | plain {c : Char} {rest : List Char} (other : c ≠ quote) (unescaped : c ≠ '\\')
      (h : IsStringBody quote rest) : IsStringBody quote (c :: rest)
  | escape {c : Char} {rest : List Char} (single : c ≠ '\n') (h : IsStringBody quote rest) :
      IsStringBody quote ('\\' :: c :: rest)

/-- The text is of the pattern of the terminal. -/
inductive Terminal.Matches : Terminal → List Char → Prop
  /-- A keyword is its spelling. -/
  | keyword (k : Keyword) : Matches (.keyword k) k.spelling.toList
  /-- A name is a letter or an underscore and then letters, digits and underscores. -/
  | name {c : Char} {rest : List Char} (begins : isWordStart c = true)
      (all : ∀ d ∈ rest, isWordChar d = true) : Matches .name (c :: rest)
  /-- A number is made of digits. -/
  | whole {digits : List Char} (some : digits ≠ []) (all : ∀ d ∈ digits, Text.isDecimalDigit d = true) :
      Matches .number digits
  /-- There may be a point among them, with digits on both sides. -/
  | fraction {digits decimals : List Char} (some : digits ≠ [])
      (all : ∀ d ∈ digits, Text.isDecimalDigit d = true) (some' : decimals ≠ [])
      (all' : ∀ d ∈ decimals, Text.isDecimalDigit d = true) : Matches .number (digits ++ '.' :: decimals)
  /-- A string stands between two of the same quotes. -/
  | string {quote : Char} {body : List Char} (quoted : isQuote quote = true) (h : IsStringBody quote body) :
      Matches .string (quote :: (body ++ [quote]))
  /-- A sign is its spelling. -/
  | mark (m : Mark) : Matches (.mark m) m.spelling.toList
  /-- A comment is the comment sign and anything on the same line. -/
  | comment {rest : List Char} (single : '\n' ∉ rest) : Matches .comment (commentSign :: rest)
  /-- Space is made of characters that separate lexemes. -/
  | space {text : List Char} (some : text ≠ []) (all : ∀ c ∈ text, isSpace c = true) : Matches .space text

theorem Keyword.matches_name (k : Keyword) : Terminal.name.Matches k.spelling.toList := by
  cases k <;> exact .name rfl (List.all_eq_true.1 rfl)

theorem Keyword.ofWord?_spelling (k : Keyword) : Keyword.ofWord? k.spelling.toList = some k := by
  cases k <;> decide

theorem Mark.spelling_inj {m m' : Mark} (h : m.spelling.toList = m'.spelling.toList) : m = m' := by
  have all : ∀ m ∈ Mark.all, ∀ m' ∈ Mark.all, m.spelling.toList = m'.spelling.toList → m = m' := by
    decide
  exact all m m.mem_all m' m'.mem_all h

theorem wordTerminal_spelling (k : Keyword) : wordTerminal k.spelling.toList = .keyword k := by
  rw [wordTerminal, k.ofWord?_spelling]

theorem wordTerminal_of_ne {word : List Char} (h : ∀ k : Keyword, word ≠ k.spelling.toList) :
    wordTerminal word = .name := by
  cases found : Keyword.ofWord? word with
  | none => rw [wordTerminal, found]
  | some k => exact absurd (Keyword.spelling_of_ofWord? found).symm (h k)

theorem matches_wordTerminal {word : List Char} (h : Terminal.name.Matches word) :
    (wordTerminal word).Matches word := by
  by_cases keyword : ∃ k : Keyword, word = k.spelling.toList
  · obtain ⟨k, rfl⟩ := keyword
    rw [wordTerminal_spelling]
    exact .keyword k
  · rw [wordTerminal_of_ne (not_exists.1 keyword)]
    exact h

/-! ### By the first character -/

section First

variable {c : Char}

theorem leading?_of_isWordStart (h : isWordStart c = true) (rest : List Char) :
    leading? (c :: rest) =
      some (wordTerminal (c :: rest.takeWhile isWordChar), c :: rest.takeWhile isWordChar) := by
  rw [leading?, if_pos h]

/-- The ASCII letters and the underscore by their code points. -/
theorem isWordStart_iff : isWordStart c = true ↔
    ((65 ≤ c.toNat ∧ c.toNat ≤ 90) ∨ (97 ≤ c.toNat ∧ c.toNat ≤ 122)) ∨ c = '_' := by
  have letter : c.isAlpha = (decide ('A'.val ≤ c.val ∧ c.val ≤ 'Z'.val) ||
      decide ('a'.val ≤ c.val) && decide (c.val ≤ 'z'.val)) := rfl
  simp only [isWordStart, letter, Bool.or_eq_true, Bool.and_eq_true, decide_eq_true_eq, beq_iff_eq,
    UInt32.le_iff_toNat_le]
  rfl

theorem isWordStart_of_isDecimalDigit (h : Text.isDecimalDigit c = true) : isWordStart c = false := by
  rw [Bool.eq_false_iff, ne_eq, isWordStart_iff]
  have digit := Text.isDecimalDigit_ascii h
  rintro ((_ | _) | rfl)
  · omega
  · omega
  · exact absurd h (by decide)

theorem leading?_of_isDecimalDigit (h : Text.isDecimalDigit c = true) (rest : List Char) :
    leading? (c :: rest) = some (.number, number (c :: rest)) := by
  rw [leading?, if_neg (by simp [isWordStart_of_isDecimalDigit h]), if_pos h]

theorem leading?_of_isQuote (h : isQuote c = true) (rest : List Char) :
    leading? (c :: rest) = (stringRest? c rest).map fun more => (.string, c :: more) := by
  have one_of : c = '"' ∨ c = '\'' := by simpa [isQuote] using h
  rcases one_of with rfl | rfl <;> rfl

theorem leading?_of_mark {m : Mark} (h : m.spelling.toList.head? = some c) (rest : List Char) :
    leading? (c :: rest) = (Mark.leading? (c :: rest)).map fun m => (.mark m, m.spelling.toList) := by
  cases m <;> (obtain rfl := Option.some.inj h; rfl)

end First

/-- The ways in which a text that is not empty begins with something. -/
inductive Leads (c : Char) (rest : List Char) : Terminal → List Char → Prop
  | word (h : isWordStart c = true) :
      Leads c rest (wordTerminal (c :: rest.takeWhile isWordChar)) (c :: rest.takeWhile isWordChar)
  | number (h : Text.isDecimalDigit c = true) : Leads c rest .number (number (c :: rest))
  | string {more : List Char} (h : isQuote c = true) (closed : stringRest? c rest = some more) :
      Leads c rest .string (c :: more)
  | comment (h : c = commentSign) : Leads c rest .comment (c :: rest.takeWhile (· ≠ '\n'))
  | space (h : isSpace c = true) : Leads c rest .space (c :: rest.takeWhile isSpace)
  | mark {m : Mark} (h : Mark.leading? (c :: rest) = some m) : Leads c rest (.mark m) m.spelling.toList

variable {input word : List Char} {t : Terminal}

theorem leads_of_leading? {c : Char} {rest : List Char} (h : leading? (c :: rest) = some (t, word)) :
    Leads c rest t word := by
  rw [leading?] at h
  split at h
  · rename_i begins
    obtain ⟨rfl, rfl⟩ := Prod.mk.inj (Option.some.inj h)
    exact .word begins
  split at h
  · rename_i digit
    obtain ⟨rfl, rfl⟩ := Prod.mk.inj (Option.some.inj h)
    exact .number digit
  split at h
  · rename_i quoted
    obtain ⟨more, closed, h⟩ := Option.map_eq_some_iff.1 h
    obtain ⟨rfl, rfl⟩ := Prod.mk.inj h
    exact .string quoted closed
  split at h
  · rename_i sign
    obtain ⟨rfl, rfl⟩ := Prod.mk.inj (Option.some.inj h)
    exact .comment sign
  split at h
  · rename_i blank
    obtain ⟨rfl, rfl⟩ := Prod.mk.inj (Option.some.inj h)
    exact .space blank
  · obtain ⟨m, found, h⟩ := Option.map_eq_some_iff.1 h
    obtain ⟨rfl, rfl⟩ := Prod.mk.inj h
    exact .mark found

/-! ### What leads is of its pattern -/

theorem of_fraction_eq_cons {text : List Char} {c : Char} {decimals : List Char}
    (h : fraction text = c :: decimals) :
    c = '.' ∧ decimals ≠ [] ∧ ∀ d ∈ decimals, Text.isDecimalDigit d = true := by
  unfold fraction at h
  split at h
  · rename_i rest
    split at h
    · cases h
    · rename_i some
      obtain ⟨rfl, rfl⟩ := List.cons.inj h
      exact ⟨rfl, some, fun d hd => List.mem_takeWhile_imp hd⟩
  · cases h

/-- A number that is found has the form of one. -/
theorem matches_number {c : Char} (h : Text.isDecimalDigit c = true) (rest : List Char) :
    Terminal.number.Matches (number (c :: rest)) := by
  have some : (c :: rest).takeWhile Text.isDecimalDigit ≠ [] := by simp [h]
  have all : ∀ d ∈ (c :: rest).takeWhile Text.isDecimalDigit, Text.isDecimalDigit d = true :=
    fun d hd => List.mem_takeWhile_imp hd
  rw [number]
  cases point : fraction ((c :: rest).dropWhile Text.isDecimalDigit) with
  | nil =>
    rw [List.append_nil]
    exact .whole some all
  | cons p decimals =>
    obtain ⟨rfl, some', all'⟩ := of_fraction_eq_cons point
    exact .fraction some all some' all'

theorem exists_body_of_stringRest? {quote : Char} {text more : List Char}
    (h : stringRest? quote text = some more) : ∃ body, more = body ++ [quote] ∧ IsStringBody quote body := by
  fun_induction stringRest? quote text generalizing more with
  | case1 => cases h
  | case2 => cases h
  | case3 => cases h
  | case4 c rest other ih =>
    obtain ⟨tail, found, rfl⟩ := Option.map_eq_some_iff.1 h
    obtain ⟨body, rfl, isBody⟩ := ih found
    exact ⟨'\\' :: c :: body, rfl, .escape other isBody⟩
  | case5 rest =>
    obtain rfl := Option.some.inj h
    exact ⟨[], rfl, .nil⟩
  | case6 c rest none some other ih =>
    obtain ⟨tail, found, rfl⟩ := Option.map_eq_some_iff.1 h
    obtain ⟨body, rfl, isBody⟩ := ih found
    refine ⟨c :: body, rfl, .plain other ?_ isBody⟩
    rintro rfl
    cases rest with
    | nil => exact none rfl rfl
    | cons d more => exact some d more rfl rfl

/-- **What a text begins with is of the pattern of its terminal.** -/
theorem matches_of_leading? (h : leading? input = some (t, word)) : t.Matches word := by
  cases input with
  | nil => cases h
  | cons c rest =>
    cases leads_of_leading? h with
    | word begins => exact matches_wordTerminal (.name begins fun d hd => List.mem_takeWhile_imp hd)
    | number digit => exact matches_number digit rest
    | string quoted closed =>
      obtain ⟨body, rfl, isBody⟩ := exists_body_of_stringRest? closed
      exact .string quoted isBody
    | comment sign =>
      subst sign
      exact .comment fun mem => absurd (List.mem_takeWhile_imp mem) (by decide)
    | space blank =>
      refine .space (List.cons_ne_nil _ _) fun d hd => ?_
      rcases List.mem_cons.1 hd with rfl | hd
      · exact blank
      · exact List.mem_takeWhile_imp hd
    | mark found => exact .mark _

/-- The terminal depends on the text only. -/
theorem terminal_of_leading? {input' : List Char} {t' : Terminal} (h : leading? input = some (t, word))
    (h' : leading? input' = some (t', word)) : t' = t := by
  obtain ⟨c, more, rfl⟩ := List.exists_cons_of_ne_nil (ne_nil_of_leading? h)
  obtain ⟨tail, rfl⟩ := isPrefix_of_leading? h
  obtain ⟨tail', rfl⟩ := isPrefix_of_leading? h'
  rw [List.cons_append] at h h'
  generalize same : c :: more = word at h h'
  cases leads_of_leading? h with
  | word begins =>
    rw [leading?_of_isWordStart begins] at h'
    obtain ⟨rfl, eq⟩ := Prod.mk.inj (Option.some.inj h')
    rw [eq]
  | number digit =>
    rw [leading?_of_isDecimalDigit digit] at h'
    exact (Prod.mk.inj (Option.some.inj h')).1.symm
  | string quoted _ =>
    rw [leading?_of_isQuote quoted] at h'
    obtain ⟨_, -, h'⟩ := Option.map_eq_some_iff.1 h'
    exact (Prod.mk.inj h').1.symm
  | comment sign =>
    subst sign
    rw [leading?_commentSign] at h'
    exact (Prod.mk.inj (Option.some.inj h')).1.symm
  | space blank =>
    rw [leading?_of_isSpace blank] at h'
    exact (Prod.mk.inj (Option.some.inj h')).1.symm
  | @mark m found =>
    have head : m.spelling.toList.head? = some c := by rw [← same]; rfl
    rw [leading?_of_mark head] at h'
    obtain ⟨m', -, h'⟩ := Option.map_eq_some_iff.1 h'
    obtain ⟨rfl, spelled⟩ := Prod.mk.inj h'
    rw [Mark.spelling_inj spelled]

theorem terminal_of_isWord (h : leading? input = some (t, word)) (isWord : Terminal.name.Matches word) :
    t = wordTerminal word := by
  obtain ⟨tail, rfl⟩ := isPrefix_of_leading? h
  cases isWord with
  | name begins _ =>
    rw [List.cons_append, leading?_of_isWordStart begins] at h
    obtain ⟨rfl, same⟩ := Prod.mk.inj (Option.some.inj h)
    rw [same]

/-! ### Nothing longer is of a pattern -/

/-- A run of characters of a class is not longer than all of them that a text begins with. -/
theorem length_le_length_takeWhile {α : Type} {p : α → Bool} {run text : List α}
    (all : ∀ a ∈ run, p a = true) (h : run <+: text) : run.length ≤ (text.takeWhile p).length := by
  obtain ⟨tail, rfl⟩ := h
  rw [List.takeWhile_append_of_pos all, List.length_append]
  exact Nat.le_add_right _ _

/-- The point and the digits of a fraction are found as far as they go. -/
theorem length_le_length_fraction {decimals text : List Char} (some : decimals ≠ [])
    (all : ∀ d ∈ decimals, Text.isDecimalDigit d = true) (h : decimals <+: text) :
    decimals.length + 1 ≤ (fraction ('.' :: text)).length := by
  have long := length_le_length_takeWhile all h
  have pos := List.length_pos_iff.2 some
  rw [fraction]
  split
  · rename_i nothing
    rw [nothing] at long
    exact absurd long (by simpa using some)
  · rw [List.length_cons]
    omega

theorem takeWhile_digits_point {digits : List Char} (all : ∀ d ∈ digits, Text.isDecimalDigit d = true)
    (rest : List Char) : (digits ++ '.' :: rest).takeWhile Text.isDecimalDigit = digits := by
  rw [List.takeWhile_append_of_pos all, List.takeWhile_cons_of_neg (by decide), List.append_nil]

/-- A number is found as far as it goes. -/
theorem length_le_length_number (isNumber : Terminal.number.Matches word) (h : word <+: input) :
    word.length ≤ (number input).length := by
  rw [number, List.length_append]
  cases isNumber with
  | whole _ all => exact Nat.le_add_right_of_le (length_le_length_takeWhile all h)
  | @fraction digits decimals _ all some' all' =>
    obtain ⟨tail, rfl⟩ := h
    rw [List.append_assoc, List.cons_append, takeWhile_digits_point all, List.dropWhile_append_of_pos all,
      List.dropWhile_cons_of_neg (by decide), List.length_append, List.length_cons]
    have := length_le_length_fraction some' all' (List.prefix_append decimals tail)
    omega

theorem stringRest?_of_isStringBody {quote : Char} {body : List Char} (unescaped : quote ≠ '\\')
    (h : IsStringBody quote body) (rest : List Char) :
    stringRest? quote (body ++ quote :: rest) = some (body ++ [quote]) := by
  induction h with
  | nil => rw [List.nil_append, stringRest?_cons unescaped, if_pos rfl, List.nil_append]
  | plain other plain _ ih => rw [List.cons_append, stringRest?_cons plain, if_neg other, ih]; rfl
  | escape single _ ih => rw [List.cons_append, List.cons_append, stringRest?, if_neg single, ih]; rfl

/-- A sign is found where there is one, and no sign there is longer. -/
theorem Mark.exists_leading? {m : Mark} (h : m.spelling.toList <+: input) :
    ∃ m', Mark.leading? input = some m' ∧ m.spelling.toList.length ≤ m'.spelling.toList.length := by
  have ordered : Mark.all.Pairwise fun m m' => m'.spelling.toList.length ≤ m.spelling.toList.length := by decide
  cases found : Mark.leading? input with
  | none =>
    have missed := List.find?_eq_none.1 found m m.mem_all
    exact absurd (List.isPrefixOf_iff_prefix.2 h) missed
  | some m' =>
    refine ⟨m', rfl, ?_⟩
    obtain ⟨-, before, after, split, missed⟩ := List.find?_eq_some_iff_append.1 found
    have mem := m.mem_all
    rw [split] at mem ordered
    rcases List.mem_append.1 mem with earlier | mem
    · have absent : m.spelling.toList.isPrefixOf input = false := by simpa using missed m earlier
      rw [List.isPrefixOf_iff_prefix.2 h] at absent
      cases absent
    · rcases List.mem_cons.1 mem with rfl | later
      · exact Nat.le_refl _
      · exact List.rel_of_pairwise_cons (List.pairwise_append.1 ordered).2.1 later

theorem exists_leading?_of_name (isName : Terminal.name.Matches word) (h : word <+: input) :
    ∃ t' word', leading? input = some (t', word') ∧ word.length ≤ word'.length := by
  obtain ⟨tail, rfl⟩ := h
  cases isName with
  | @name c rest begins all =>
    exact ⟨_, _, leading?_of_isWordStart begins _, Nat.succ_le_succ (length_le_length_takeWhile all
      (List.prefix_append rest tail))⟩

theorem exists_digit_of_number (h : Terminal.number.Matches word) :
    ∃ c rest, word = c :: rest ∧ Text.isDecimalDigit c = true := by
  cases h with
  | whole some all =>
    obtain ⟨c, rest, rfl⟩ := List.exists_cons_of_ne_nil some
    exact ⟨c, rest, rfl, all c List.mem_cons_self⟩
  | fraction some all =>
    obtain ⟨c, rest, rfl⟩ := List.exists_cons_of_ne_nil some
    exact ⟨c, _, rfl, all c List.mem_cons_self⟩

theorem exists_leading?_of_number (isNumber : Terminal.number.Matches word) (h : word <+: input) :
    ∃ t' word', leading? input = some (t', word') ∧ word.length ≤ word'.length := by
  have long := length_le_length_number isNumber h
  obtain ⟨tail, rfl⟩ := h
  obtain ⟨c, rest, rfl, digit⟩ := exists_digit_of_number isNumber
  exact ⟨_, _, leading?_of_isDecimalDigit digit _, long⟩

/-- **Nothing longer is of a pattern**: where a text of a pattern stands, a lexeme begins that is at least as
long. -/
theorem exists_leading?_of_matches (isOf : t.Matches word) (h : word <+: input) :
    ∃ t' word', leading? input = some (t', word') ∧ word.length ≤ word'.length := by
  obtain ⟨tail, rfl⟩ := h
  cases isOf with
  | keyword k => exact exists_leading?_of_name k.matches_name (List.prefix_append _ tail)
  | name begins all => exact exists_leading?_of_name (.name begins all) (List.prefix_append _ tail)
  | whole some all => exact exists_leading?_of_number (.whole some all) (List.prefix_append _ tail)
  | fraction some all some' all' =>
    exact exists_leading?_of_number (.fraction some all some' all') (List.prefix_append _ tail)
  | @string quote body quoted isBody =>
    have unescaped : quote ≠ '\\' := by
      rintro rfl
      exact absurd quoted (by decide)
    have closed := stringRest?_of_isStringBody unescaped isBody tail
    refine ⟨.string, quote :: (body ++ [quote]), ?_, Nat.le_refl _⟩
    rw [List.cons_append, List.append_assoc, List.singleton_append, leading?_of_isQuote quoted, closed]
    rfl
  | mark m =>
    obtain ⟨c, more, spelled⟩ := List.exists_cons_of_ne_nil m.spelling_ne_nil
    obtain ⟨m', found, long⟩ := Mark.exists_leading? (List.prefix_append m.spelling.toList tail)
    refine ⟨.mark m', m'.spelling.toList, ?_, long⟩
    have first : m.spelling.toList.head? = some c := by rw [spelled]; rfl
    rw [spelled, List.cons_append] at found ⊢
    rw [leading?_of_mark first, found]
    rfl
  | @comment rest single =>
    have all : ∀ d ∈ rest, decide (d ≠ '\n') = true :=
      fun d hd => decide_eq_true fun same => single (same ▸ hd)
    exact ⟨_, _, leading?_commentSign _, Nat.succ_le_succ (length_le_length_takeWhile all
      (List.prefix_append rest tail))⟩
  | space some all =>
    obtain ⟨c, rest, rfl⟩ := List.exists_cons_of_ne_nil some
    have later : ∀ d ∈ rest, isSpace d = true := fun d hd => all d (List.mem_cons_of_mem c hd)
    exact ⟨_, _, leading?_of_isSpace (all c List.mem_cons_self) _, Nat.succ_le_succ
      (length_le_length_takeWhile later (List.prefix_append rest tail))⟩

/-- A leading lexeme is found as well where less follows it. -/
theorem leading?_of_isPrefix {input' : List Char} (h : leading? input = some (t, word))
    (within : word <+: input') (shorter : input' <+: input) : leading? input' = some (t, word) := by
  obtain ⟨t', word', h', long⟩ := exists_leading?_of_matches (matches_of_leading? h) within
  have isPrefix' := (isPrefix_of_leading? h').trans shorter
  obtain ⟨_, _, again, long'⟩ := exists_leading?_of_matches (matches_of_leading? h') isPrefix'
  obtain ⟨rfl, rfl⟩ := Prod.mk.inj (Option.some.inj (h.symm.trans again))
  obtain rfl : word = word' :=
    (List.prefix_of_prefix_length_le (isPrefix_of_leading? h) isPrefix' long).eq_of_length
      (Nat.le_antisymm long long')
  rw [h', terminal_of_leading? h h']

end Offside.Lexeme
