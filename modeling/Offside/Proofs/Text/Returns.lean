import Offside.Text.Lines

/-!
# Line ends

What cutting a text into physical lines takes away: the line feed that ends each line, and one carriage
return before it. A line holds no line feed, and a text that ends each of its lines with one is cut into
those lines again, each without the carriage return at its end.

A text may also be relieved of its carriage returns before it is cut. Where each of them stands before a line
feed (`ReturnsPaired`), that makes no difference to the lines (`lines_joinReturns`), and a text from a file is
what is left of it (`unifyReturns_eq_joinReturns`).
-/

namespace Offside.Text

/-! ### Carriage returns -/

@[simp] theorem dropReturn_nil : dropReturn [] = [] := rfl

@[simp] theorem dropReturn_return (line : List Char) : dropReturn (line ++ ['\r']) = line := by
  simp [dropReturn]

/-- Only a carriage return at the end is dropped. -/
theorem dropReturn_eq_self_iff {line : List Char} :
    dropReturn line = line ↔ line.getLast? ≠ some '\r' := by
  constructor
  · intro same last
    obtain ⟨body, rfl⟩ := List.getLast?_eq_some_iff.1 last
    rw [dropReturn_return] at same
    simp at same
  · intro h
    rw [dropReturn, if_neg h]

theorem eq_dropReturn_or (line : List Char) :
    line = dropReturn line ∨ line = dropReturn line ++ ['\r'] := by
  by_cases h : line.getLast? = some '\r'
  · obtain ⟨body, rfl⟩ := List.getLast?_eq_some_iff.1 h
    exact .inr (by rw [dropReturn_return])
  · exact .inl (dropReturn_eq_self_iff.2 h).symm

/-- Nothing is left of a carriage return, and of no other line that is not empty. -/
theorem eq_singleton_of_dropReturn_eq_nil {line : List Char} (some_text : line ≠ []) (h : dropReturn line = []) :
    line = ['\r'] := by
  rcases eq_dropReturn_or line with same | same
  · exact absurd (same.trans h) some_text
  · rw [same, h, List.nil_append]

theorem dropReturn_isPrefix (line : List Char) : dropReturn line <+: line := by
  rcases eq_dropReturn_or line with h | h
  · exact ⟨[], by rw [List.append_nil, ← h]⟩
  · exact ⟨['\r'], h.symm⟩

theorem dropReturn_append (first : List Char) {second : List Char} (h : second ≠ []) :
    dropReturn (first ++ second) = first ++ dropReturn second := by
  have last : (first ++ second).getLast? = second.getLast? := by
    rw [List.getLast?_append, List.getLast?_eq_some_getLast h, Option.some_or]
  unfold dropReturn
  rw [last]
  split
  · exact List.dropLast_append_of_ne_nil h
  · rfl

/-! ### Line feeds -/

theorem not_newline_of_mem_pieces {text piece : List Char} (h : piece ∈ pieces text) : '\n' ∉ piece := by
  induction text generalizing piece with
  | nil => cases h
  | cons c text ih =>
    rw [pieces_cons] at h
    split at h
    · rcases List.mem_cons.1 h with rfl | h
      · exact List.not_mem_nil
      · exact ih h
    · rename_i other
      cases rest : pieces text with
      | nil =>
        rw [rest] at h
        rw [List.mem_singleton.1 h]
        simpa using Ne.symm other
      | cons first others =>
        rw [rest] at h ih
        rcases List.mem_cons.1 h with rfl | h
        · simpa using ⟨Ne.symm other, ih List.mem_cons_self⟩
        · exact ih (List.mem_cons_of_mem _ h)

theorem not_newline_of_mem_lines {text line : List Char} (h : line ∈ lines text) : '\n' ∉ line := by
  obtain ⟨piece, hp, rfl⟩ := List.mem_map.1 h
  exact fun mem => not_newline_of_mem_pieces hp ((dropReturn_isPrefix piece).subset mem)

theorem pieces_terminated {line : List Char} (h : '\n' ∉ line) : pieces (line ++ ['\n']) = [line] := by
  induction line with
  | nil => rfl
  | cons c line ih =>
    simp only [List.mem_cons, not_or] at h
    rw [List.cons_append, pieces_cons, if_neg (Ne.symm h.1), ih h.2]
    rfl

theorem lines_terminated {line : List Char} (h : '\n' ∉ line) :
    lines (line ++ ['\n']) = [dropReturn line] := by
  rw [lines, pieces_terminated h, List.map_singleton]

/-- Texts that are ended one after the other are the lines of what they make, but for a carriage return each. -/
theorem lines_flatMap_ended {texts : List (List Char)} (single : ∀ text ∈ texts, '\n' ∉ text) :
    lines (texts.flatMap (· ++ ['\n'])) = texts.map dropReturn := by
  induction texts with
  | nil => rfl
  | cons text rest ih =>
    have ended : (text ++ ['\n']).getLast? = some '\n' := by simp
    rw [List.flatMap_cons, lines_append (.inr ended), lines_terminated (single text List.mem_cons_self),
      ih fun t ht => single t (List.mem_cons_of_mem text ht)]
    rfl

theorem lines_cons_newline (text : List Char) : lines ('\n' :: text) = [] :: lines text := rfl

/-- A character other than those that end lines stands at the front of the first line. -/
theorem lines_cons {c : Char} (not_feed : c ≠ '\n') (not_return : c ≠ '\r') (text : List Char) :
    lines (c :: text) = pushFront c (lines text) := by
  have single : dropReturn [c] = [c] := dropReturn_eq_self_iff.2 (by simpa using not_return)
  rw [lines, pieces_cons, if_neg not_feed, lines]
  cases pieces text with
  | nil => simp [pushFront, single]
  | cons first others =>
    cases first with
    | nil => simp [pushFront, single]
    | cons d first => simpa [pushFront] using dropReturn_append [c] (List.cons_ne_nil d first)

/-- What comes after a character does not change what it does, unless that is a carriage return. -/
theorem lines_cons_congr {c : Char} (not_return : c ≠ '\r') {text text' : List Char}
    (same : lines text = lines text') : lines (c :: text) = lines (c :: text') := by
  by_cases feed : c = '\n'
  · rw [feed, lines_cons_newline, lines_cons_newline, same]
  · rw [lines_cons feed not_return, lines_cons feed not_return, same]

/-- The last line is the same whether it is ended or not. -/
theorem lines_append_newline {text : List Char} (some_text : text ≠ []) (unended : text.getLast? ≠ some '\n') :
    lines (text ++ ['\n']) = lines text := by
  have same : pieces (text ++ ['\n']) = pieces text := by
    induction text with
    | nil => exact absurd rfl some_text
    | cons c rest ih =>
      rw [List.cons_append, pieces_cons, pieces_cons]
      cases rest with
      | nil =>
        have not_feed : c ≠ '\n' := by simpa using unended
        rw [if_neg not_feed, if_neg not_feed]
        rfl
      | cons d rest => rw [ih (List.cons_ne_nil d rest) (by simpa using unended)]
  rw [lines, same, lines]

theorem lines_eq_singleton {text : List Char} (some_text : text ≠ []) (single : '\n' ∉ text)
    (unended : text.getLast? ≠ some '\r') : lines text = [text] := by
  have no_feed : text.getLast? ≠ some '\n' := fun last => single (List.mem_of_getLast? last)
  rw [← lines_append_newline some_text no_feed, lines_terminated single, dropReturn_eq_self_iff.2 unended]

/-! ### Spellings of a line end -/

/-- Every carriage return stands right before a line feed. -/
def ReturnsPaired (text : List Char) : Prop :=
  ∀ i < text.length, text[i]? = some '\r' → text[i + 1]? = some '\n'

instance (text : List Char) : Decidable (ReturnsPaired text) :=
  inferInstanceAs (Decidable (∀ i < text.length, text[i]? = some '\r' → text[i + 1]? = some '\n'))

/-- Carriage return and line feed together become one line feed. -/
def joinReturns : List Char → List Char
  | [] => []
  | '\r' :: '\n' :: rest => '\n' :: joinReturns rest
  | c :: rest => c :: joinReturns rest

theorem ReturnsPaired.tail {c : Char} {rest : List Char} (h : ReturnsPaired (c :: rest)) : ReturnsPaired rest :=
  fun i lt => h (i + 1) (Nat.succ_lt_succ lt)

/-- A carriage return has the line feed that it stands before. -/
theorem ReturnsPaired.ne_return {c : Char} {rest : List Char} (h : ReturnsPaired (c :: rest))
    (alone : ∀ more, c = '\r' → rest = '\n' :: more → False) : c ≠ '\r' := by
  rintro rfl
  have next : rest[0]? = some '\n' := h 0 (Nat.succ_pos _) rfl
  rw [← List.head?_eq_getElem?] at next
  obtain ⟨more, rest_eq⟩ := List.head?_eq_some_iff.1 next
  exact alone more rfl rest_eq

/-- Where no carriage return is alone, there is only one spelling of a line end to be replaced. -/
theorem unifyReturns_eq_joinReturns {text : List Char} (h : ReturnsPaired text) :
    unifyReturns text = joinReturns text := by
  induction text using joinReturns.induct with
  | case1 => rfl
  | case2 rest ih => rw [unifyReturns, joinReturns, ih h.tail.tail]
  | case3 c rest alone ih =>
    rw [unifyReturns, joinReturns, ih h.tail, if_neg (h.ne_return alone)]
    · exact alone
    · exact alone

/-- **Replacing the paired carriage returns does not change the lines.** -/
theorem lines_joinReturns {text : List Char} (h : ReturnsPaired text) : lines (joinReturns text) = lines text := by
  induction text using joinReturns.induct with
  | case1 => rfl
  | case2 rest ih =>
    rw [joinReturns, lines_cons_newline, ih h.tail.tail]
    rfl
  | case3 c rest alone ih =>
    rw [joinReturns]
    · exact lines_cons_congr (h.ne_return alone) (ih h.tail)
    · exact alone

/-- In a text from a file, too, the last line is the same whether it is ended or not. -/
theorem lines_unifyReturns_append_newline {text : List Char} (some_text : text ≠ [])
    (unended : text.getLast? ≠ some '\n') :
    lines (unifyReturns (text ++ ['\n'])) = lines (unifyReturns text) := by
  induction text using unifyReturns.induct with
  | case1 => exact absurd rfl some_text
  | case2 rest ih =>
    cases rest with
    | nil => exact absurd rfl unended
    | cons d rest =>
      rw [List.getLast?_cons_cons, List.getLast?_cons_cons] at unended
      have same := ih (List.cons_ne_nil d rest) unended
      exact lines_cons_congr (by decide) same
  | case3 c rest alone ih =>
    have replaced : (if c = '\r' then '\n' else c) ≠ '\r' := by
      split
      · decide
      · assumption
    cases rest with
    | nil =>
      by_cases is_return : c = '\r'
      · rw [is_return]
        rfl
      · have single : unifyReturns [c] = [c] := by simp [unifyReturns, is_return]
        have ended : unifyReturns ([c] ++ ['\n']) = [c] ++ ['\n'] := by simp [unifyReturns, is_return]
        rw [single, ended, lines_append_newline some_text unended]
    | cons d rest =>
      rw [List.getLast?_cons_cons] at unended
      have same := ih (List.cons_ne_nil d rest) unended
      rw [List.cons_append, unifyReturns, unifyReturns]
      · exact lines_cons_congr replaced same
      · exact alone
      · intro more is_return split
        obtain ⟨rfl, -⟩ := List.cons.inj split
        exact alone rest is_return rfl

end Offside.Text
