import Offside.Text.Numeral

/-!
# Plain decimals

A plain decimal is written with the digits from 0 to 9 and nothing else: no blank, no sign, no underscore. It is read
as the number that it spells, whatever zeros it begins with, unless it has too many digits.

## The model

`Spells text n` says that a text is a plain decimal for a number. Reading a numeral takes three steps, and a plain
decimal passes each: nothing is trimmed from it (`Spells.trimBlanks_eq`), each of its characters is worth something
(`readDigits?_eq`), and its digits are summed up as they are in `Nat.ofDigitChars` (`ofDigits_map`). What comes of it
is decided by its length alone (`Spells.readPositive_eq`).
-/

namespace Offside.Text

/-- The text is a plain decimal for the number. -/
structure Spells (text : List Char) (n : Nat) : Prop where
  digits : ∀ c ∈ text, c.isDigit = true
  value : Nat.ofDigitChars 10 text 0 = n

variable {text : List Char} {n : Nat}

/-! ### Digits -/

theorem toNat_of_isDigit {c : Char} (h : c.isDigit = true) : 0x30 ≤ c.toNat ∧ c.toNat ≤ 0x39 := by
  simp only [Char.isDigit, Bool.and_eq_true, decide_eq_true_eq] at h
  exact h

/-- The digits from 0 to 9 are the first of all decimal digits. -/
theorem digitValue?_of_isDigit {c : Char} (h : c.isDigit = true) : digitValue? c = some (c.toNat - '0'.toNat) := by
  obtain ⟨low, high⟩ := toNat_of_isDigit h
  have found : zeros.find? (fun z => z ≤ c.toNat && c.toNat < z + 10) = some 0x30 := by
    refine List.find?_cons_of_pos ?_
    rw [Bool.and_eq_true, decide_eq_true_eq, decide_eq_true_eq]
    omega
  rw [digitValue?, found]
  rfl

theorem not_isBlank_of_isDigit {c : Char} (h : c.isDigit = true) : isBlank c = false := by
  obtain ⟨low, high⟩ := toNat_of_isDigit h
  have apart : ∀ b ∈ blanks, b < 0x30 ∨ 0x39 < b := by decide
  simp only [isBlank, List.contains_eq_mem, decide_eq_false_iff_not]
  intro blank
  rcases apart _ blank with far | far <;> omega

theorem ne_of_isDigit {c d : Char} (h : c.isDigit = true) (other : d.isDigit = false) : c ≠ d := by
  rintro rfl
  exact absurd h (by simp [other])

/-! ### Reading -/

theorem readDigits?_eq (digits : ∀ c ∈ text, c.isDigit = true) (some_digit : text ≠ []) :
    readDigits? text = some (text.map fun c => c.toNat - '0'.toNat) := by
  induction text with
  | nil => exact absurd rfl some_digit
  | cons c rest ih =>
    have value := digitValue?_of_isDigit (digits c List.mem_cons_self)
    cases rest with
    | nil => simp [readDigits?, value]
    | cons next more =>
      -- the character after a digit could also be an underscore, and then it would be skipped
      have plain : next ≠ '_' := ne_of_isDigit (digits next (by simp)) rfl
      have others := ih (fun d hd => digits d (List.mem_cons_of_mem _ hd)) (List.cons_ne_nil _ _)
      simp [readDigits?, value, others]

theorem ofDigits_map (text : List Char) :
    ofDigits (text.map fun c => c.toNat - '0'.toNat) = Nat.ofDigitChars 10 text 0 := by
  rw [ofDigits, Nat.ofDigitChars, List.foldl_map]

namespace Spells

/-- There is nothing around the digits. -/
theorem trimBlanks_eq (h : Spells text n) : trimBlanks text = text := by
  have kept {digits : List Char} (all : ∀ c ∈ digits, c.isDigit = true) : digits.dropWhile isBlank = digits := by
    cases digits with
    | nil => rfl
    | cons c rest => rw [List.dropWhile_cons_of_neg (by simp [not_isBlank_of_isDigit (all c List.mem_cons_self)])]
  rw [trimBlanks, kept h.digits, kept fun c hc => h.digits c (List.mem_reverse.1 hc), List.reverse_reverse]

theorem ne_nil (h : Spells text n) (pos : 0 < n) : text ≠ [] := by
  rintro rfl
  exact absurd h.value (Nat.ne_of_lt pos)

theorem head?_ne {c : Char} (h : Spells text n) (other : c.isDigit = false) : text.head? ≠ some c := by
  intro first
  exact absurd rfl (ne_of_isDigit (h.digits c (List.mem_of_mem_head? first)) other)

theorem readInteger?_eq (h : Spells text n) (pos : 0 < n) :
    readInteger? text = if text.length ≤ longestNumeral then some (n : Int) else none := by
  have natural : readNatural? text = if text.length ≤ longestNumeral then some n else none := by
    simp only [readNatural?, readDigits?_eq h.digits (h.ne_nil pos), Option.bind_eq_bind, Option.bind_some,
      List.length_map, ofDigits_map, h.value]
  rw [readInteger?, h.trimBlanks_eq]
  split
  · exact absurd rfl (h.head?_ne rfl)
  · exact absurd rfl (h.head?_ne rfl)
  · rw [natural]
    split <;> rfl

/-- **A plain decimal above zero is read as what it spells, unless it is too long.** -/
theorem readPositive_eq (h : Spells text n) (pos : 0 < n) :
    readPositive text = if text.length ≤ longestNumeral then .ok n else .error ⟨text⟩ := by
  rw [readPositive, h.readInteger?_eq pos]
  by_cases short : text.length ≤ longestNumeral
  · simp [short, pos]
  · simp [short]

/-- Zeros at the end multiply by powers of ten. -/
theorem append_zeros (h : Spells text n) (k : Nat) : Spells (text ++ List.replicate k '0') (Nat.pow 10 k * n) := by
  constructor
  · intro c hc
    rcases List.mem_append.1 hc with digit | zero
    · exact h.digits c digit
    · rw [List.eq_of_mem_replicate zero]
      rfl
  · rw [Nat.ofDigitChars_append, h.value, Nat.ofDigitChars_replicate_zero]
    rfl

end Spells

end Offside.Text
