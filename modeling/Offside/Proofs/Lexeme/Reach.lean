import Offside.Lexeme.Basic

/-!
# Where cutting a text stops

Cutting a text into lexemes comes from offset to offset, ignored lexemes included, until the end of the
text or an offset where nothing begins (`reaches_end_or_stops`). `lex` tells the column of such an offset,
which for a text on one line is the next number (`stop?_lex_eq_some_iff`).
-/

namespace Offside.Lexeme

/-- The offsets that cutting a text comes to. -/
inductive Reaches (text : List Char) : Nat → Prop
  /-- It begins at the beginning. -/
  | start : Reaches text 0
  /-- It goes on after a lexeme. -/
  | next {q : Nat} {t : Terminal} {word : List Char} (before : Reaches text q)
      (begins : leading? (text.drop q) = some (t, word)) : Reaches text (q + word.length)

/-- Cutting a text comes to a character that nothing begins with. -/
structure StopsAt (text : List Char) (q : Nat) (c : Char) : Prop where
  reaches : Reaches text q
  here : text[q]? = some c
  none : leading? (text.drop q) = none

/-- Cutting a text comes to its end or to a character that nothing begins with. -/
theorem reaches_end_or_stops (text : List Char) :
    Reaches text text.length ∨ ∃ q c, StopsAt text q c := by
  suffices go : ∀ n q, text.length - q = n → q ≤ text.length → Reaches text q →
      Reaches text text.length ∨ ∃ q c, StopsAt text q c from
    go _ 0 rfl (Nat.zero_le _) .start
  intro n
  induction n using Nat.strongRecOn with
  | ind n ih =>
    intro q left le reaches
    rcases Nat.eq_or_lt_of_le le with rfl | lt
    · exact .inl reaches
    · cases h : leading? (text.drop q) with
      | none => exact .inr ⟨q, text[q], reaches, List.getElem?_eq_getElem lt, h⟩
      | some found =>
        obtain ⟨t, word⟩ := found
        have long := (isPrefix_of_leading? h).length_le
        have pos := List.length_pos_iff.2 (ne_nil_of_leading? h)
        rw [List.length_drop] at long
        exact ih (text.length - (q + word.length)) (by omega) _ rfl (by omega) (reaches.next h)

variable {text : List Char} {q : Nat}

/-- From an offset that is reached on, cutting stops where it stops from the beginning. -/
theorem Reaches.stop?_lexFrom (single : '\n' ∉ text) (h : Reaches text q) :
    (lexFrom (q + 1) (text.drop q)).stop? = (lex text).stop? := by
  induction h with
  | start => rfl
  | @next q t word _ begins ih =>
    have word_single : '\n' ∉ word := fun mem =>
      single (List.mem_of_mem_drop ((isPrefix_of_leading? begins).subset mem))
    have after : columnAfter (q + 1) word = q + word.length + 1 := by
      rw [columnAfter_eq word_single]
      omega
    rw [← ih, lexFrom_of_some begins, after, List.drop_drop]
    split <;> rfl

/-- A text that is cut up to its end has no stop. -/
theorem Reaches.stop?_lex (single : '\n' ∉ text) (h : Reaches text text.length) :
    (lex text).stop? = none := by
  rw [← h.stop?_lexFrom single, List.drop_length, lexFrom_nil]

theorem StopsAt.stop?_lex {c : Char} (single : '\n' ∉ text) (h : StopsAt text q c) :
    (lex text).stop? = some ⟨c, q + 1⟩ := by
  rw [← h.reaches.stop?_lexFrom single, lexFrom_of_none h.none, List.head?_drop, h.here]
  rfl

/-- A text on one line stops at an offset exactly when `lex` tells the column after it. -/
theorem stop?_lex_eq_some_iff (single : '\n' ∉ text) {stop : Stop} :
    (lex text).stop? = some stop ↔ ∃ q, StopsAt text q stop.char ∧ stop.column = q + 1 := by
  constructor
  · intro h
    rcases reaches_end_or_stops text with ended | ⟨q, c, stops⟩
    · rw [ended.stop?_lex single] at h
      cases h
    · rw [stops.stop?_lex single] at h
      obtain rfl := Option.some.inj h
      exact ⟨q, stops, rfl⟩
  · rintro ⟨q, stops, column⟩
    rw [stops.stop?_lex single, ← column]

end Offside.Lexeme
