import Offside.Proofs.Layout.Content
import Offside.Proofs.Layout.Invariant
import Offside.Proofs.Lexeme.Pattern
import Offside.Proofs.Lexeme.Reach

/-!
# Nothing is lost in cutting

The lexemes of a text on one line stand side by side in it, each as long as any pattern allows, and only space
and a comment at the end lie between and after them. Where cutting stops, no pattern fits, and what lies before
is cut by itself as it is cut within the whole.

## The model

`CutTo` adds to the offsets that are reached the lexemes up to there. `IsCut` is what holds of them at every such
offset; it is kept by one more lexeme that is ignored (`IsCut.skip`) and by one that is not (`IsCut.take`). A
comment reaches up to the end of a line, so nothing comes after it.
-/

namespace Offside.Lexeme

/-! ### Where lexemes stand -/

/-- What stands in a text from one offset up to another. -/
def slice (text : List Char) (first last : Nat) : List Char := (text.drop first).take (last - first)

/-- The offset after the last lexeme, or the beginning if there is none. -/
def endOf (lexemes : List Lexeme) : Nat := (lexemes.getLast?.map (·.endColumn - 1)).getD 0

/-- The lexeme stands in the text: it is what there is between its columns and of the pattern of its terminal,
it is a keyword if it is spelled as one, and no pattern fits on more of the text from its beginning on. -/
structure StandsIn (text : List Char) (l : Lexeme) : Prop where
  column_pos : 0 < l.column
  column_lt : l.column < l.endColumn
  endColumn_le : l.endColumn ≤ text.length + 1
  text_eq : l.text = slice text (l.column - 1) (l.endColumn - 1)
  pattern : l.terminal.Matches l.text
  keyword : ∀ k : Keyword, l.text = k.spelling.toList → l.terminal = .keyword k
  name : Terminal.name.Matches l.text → (∀ k : Keyword, l.text ≠ k.spelling.toList) → l.terminal = .name
  visible : l.terminal.isIgnored = false
  longest : ∀ (t : Terminal) (word : List Char), t.Matches word → word <+: text.drop (l.column - 1) →
    word.length ≤ l.endColumn - l.column

/-- The lexemes are all that stands in the text up to an offset, in order, but for space and for a comment at the
end of the text. -/
structure IsCut (text : List Char) (q : Nat) (lexemes : List Lexeme) : Prop where
  stands : ∀ l ∈ lexemes, l.StandsIn text
  ordered : lexemes.Pairwise fun l l' => l.endColumn ≤ l'.column
  within : ∀ l ∈ lexemes, l.endColumn ≤ q + 1
  /-- Only space lies before a lexeme, up to the one before it. -/
  before : ∀ front l back, lexemes = front ++ l :: back →
    ∀ c ∈ slice text (endOf front) (l.column - 1), isSpace c = true
  /-- Space and possibly a comment lie after the last lexeme. -/
  after : ∃ blank comment, slice text (endOf lexemes) q = blank ++ comment ∧ (∀ c ∈ blank, isSpace c = true) ∧
    (comment = [] ∨ q = text.length ∧ comment.head? = some commentSign)

theorem endOf_append_singleton (lexemes : List Lexeme) (l : Lexeme) :
    endOf (lexemes ++ [l]) = l.endColumn - 1 := by simp [endOf]

theorem slice_self (text : List Char) (q : Nat) : slice text q q = [] := by simp [slice]

theorem slice_append {first mid last : Nat} (h : first ≤ mid) (h' : mid ≤ last) (text : List Char) :
    slice text first mid ++ slice text mid last = slice text first last := by
  have split : last - first = (mid - first) + (last - mid) := by omega
  have mid_eq : first + (mid - first) = mid := by omega
  rw [slice, slice, slice, split, List.take_add, List.drop_drop, mid_eq]

/-- A text that one begins with at an offset stands there. -/
theorem slice_of_isPrefix {text word : List Char} {q : Nat} (h : word <+: text.drop q) :
    slice text q (q + word.length) = word := by
  rw [slice, Nat.add_sub_cancel_left, ← List.prefix_iff_eq_take.1 h]

theorem IsCut.endOf_le {text : List Char} {q : Nat} {lexemes : List Lexeme} (h : IsCut text q lexemes) :
    endOf lexemes ≤ q := by
  rcases lexemes.eq_nil_or_concat with rfl | ⟨front, l, rfl⟩
  · exact Nat.zero_le q
  · have := h.within l (by simp)
    rw [List.concat_eq_append, endOf_append_singleton]
    omega

/-! ### One more lexeme -/

section Step

variable {text word : List Char} {q : Nat} {lexemes : List Lexeme} {t : Terminal}

theorem add_length_le_of_leading? (h : leading? (text.drop q) = some (t, word)) :
    q + word.length ≤ text.length := by
  have long := (isPrefix_of_leading? h).length_le
  have pos := List.length_pos_iff.2 (ne_nil_of_leading? h)
  rw [List.length_drop] at long
  omega

theorem standsIn_of_leading? (begins : leading? (text.drop q) = some (t, word)) (visible : t.isIgnored = false) :
    StandsIn text ⟨t, word, q + 1, q + word.length + 1⟩ where
  column_pos := Nat.succ_pos q
  column_lt := by
    have pos := List.length_pos_iff.2 (ne_nil_of_leading? begins)
    exact Nat.succ_lt_succ (Nat.lt_add_of_pos_right pos)
  endColumn_le := Nat.succ_le_succ (add_length_le_of_leading? begins)
  text_eq := (slice_of_isPrefix (isPrefix_of_leading? begins)).symm
  pattern := matches_of_leading? begins
  keyword := by
    rintro k rfl
    exact (terminal_of_isWord begins k.matches_name).trans (wordTerminal_spelling k)
  name := fun isWord other => (terminal_of_isWord begins isWord).trans (wordTerminal_of_ne other)
  visible := visible
  longest := by
    intro t' word' isOf fits
    obtain ⟨t'', word'', found, long⟩ := exists_leading?_of_matches isOf fits
    obtain ⟨rfl, rfl⟩ := Prod.mk.inj (Option.some.inj (begins.symm.trans found))
    show word'.length ≤ q + word.length + 1 - (q + 1)
    omega

/-- Where something begins, only space lies behind the last lexeme. -/
theorem IsCut.isSpace_of_leading? (h : IsCut text q lexemes) (begins : leading? (text.drop q) = some (t, word)) :
    ∀ c ∈ slice text (endOf lexemes) q, isSpace c = true := by
  obtain ⟨blank, comment, split, blanks, none | ⟨ended, -⟩⟩ := h.after
  · rw [split, none, List.append_nil]
    exact blanks
  · have pos := List.length_pos_iff.2 (ne_nil_of_leading? begins)
    have := add_length_le_of_leading? begins
    omega

/-- **A lexeme is put where it stands.** -/
theorem IsCut.take (h : IsCut text q lexemes) (begins : leading? (text.drop q) = some (t, word))
    (visible : t.isIgnored = false) :
    IsCut text (q + word.length) (lexemes ++ [⟨t, word, q + 1, q + word.length + 1⟩]) where
  stands := by
    intro l hl
    rcases List.mem_append.1 hl with hl | hl
    · exact h.stands l hl
    · rw [List.mem_singleton.1 hl]
      exact standsIn_of_leading? begins visible
  ordered := by
    refine List.pairwise_append.2 ⟨h.ordered, List.pairwise_singleton _ _, fun l hl l' hl' => ?_⟩
    rw [List.mem_singleton.1 hl']
    exact h.within l hl
  within := by
    intro l hl
    rcases List.mem_append.1 hl with hl | hl
    · exact (h.within l hl).trans (Nat.succ_le_succ (Nat.le_add_right _ _))
    · rw [List.mem_singleton.1 hl]
  before := by
    intro front l back split
    rcases Layout.split_append split with ⟨_, earlier, -⟩ | ⟨between, rfl, last⟩
    · exact h.before front l _ earlier
    · cases between with
      | nil =>
        obtain ⟨rfl, rfl⟩ := List.cons.inj last
        rw [List.append_nil]
        exact h.isSpace_of_leading? begins
      | cons l' more => simp at last
  after := by
    refine ⟨[], [], ?_, fun c none => absurd none List.not_mem_nil, .inl rfl⟩
    rw [endOf_append_singleton]
    exact slice_self text (q + word.length)

/-- A comment reaches up to the end of a text on one line. -/
theorem end_of_comment (single : '\n' ∉ text) (begins : leading? (text.drop q) = some (.comment, word)) :
    q + word.length = text.length := by
  obtain ⟨tail, whole⟩ := isPrefix_of_leading? begins
  have isComment : Terminal.comment.Matches (text.drop q) := by
    cases matches_of_leading? begins with
    | @comment rest _ =>
      rw [← whole, List.cons_append]
      refine .comment fun mem => single (List.mem_of_mem_drop (i := q) ?_)
      rw [← whole, List.cons_append]
      exact List.mem_cons_of_mem _ mem
  obtain ⟨t', word', found, long⟩ := exists_leading?_of_matches isComment (List.prefix_refl _)
  obtain ⟨rfl, rfl⟩ := Prod.mk.inj (Option.some.inj (begins.symm.trans found))
  have := add_length_le_of_leading? begins
  rw [List.length_drop] at long
  omega

/-- **What is ignored is space or the comment at the end.** -/
theorem IsCut.skip (single : '\n' ∉ text) (h : IsCut text q lexemes)
    (begins : leading? (text.drop q) = some (t, word)) (ignored : t.isIgnored = true) :
    IsCut text (q + word.length) lexemes where
  stands := h.stands
  ordered := h.ordered
  within := fun l hl => (h.within l hl).trans (Nat.succ_le_succ (Nat.le_add_right _ _))
  before := h.before
  after := by
    have blanks := h.isSpace_of_leading? begins
    have split : slice text (endOf lexemes) (q + word.length) = slice text (endOf lexemes) q ++ word := by
      rw [← slice_append h.endOf_le (Nat.le_add_right _ _), slice_of_isPrefix (isPrefix_of_leading? begins)]
    have isOf := matches_of_leading? begins
    cases t with
    | comment =>
      refine ⟨_, _, split, blanks, .inr ⟨end_of_comment single begins, ?_⟩⟩
      cases isOf
      rfl
    | space =>
      refine ⟨_, [], by rw [split, List.append_nil], fun c hc => ?_, .inl rfl⟩
      cases isOf with
      | space _ all => exact (List.mem_append.1 hc).elim (blanks c) (all c)
    | keyword | name | number | string | mark => cases ignored

end Step

/-! ### All lexemes -/

/-- The offsets that cutting a text comes to, with the lexemes up to there. -/
inductive CutTo (text : List Char) : Nat → List Lexeme → Prop
  /-- It begins at the beginning. -/
  | start : CutTo text 0 []
  /-- What is ignored is left out. -/
  | skip {q : Nat} {lexemes : List Lexeme} {t : Terminal} {word : List Char} (before : CutTo text q lexemes)
      (begins : leading? (text.drop q) = some (t, word)) (ignored : t.isIgnored = true) :
      CutTo text (q + word.length) lexemes
  /-- Anything else is put at the end. -/
  | take {q : Nat} {lexemes : List Lexeme} {t : Terminal} {word : List Char} (before : CutTo text q lexemes)
      (begins : leading? (text.drop q) = some (t, word)) (visible : t.isIgnored = false) :
      CutTo text (q + word.length) (lexemes ++ [⟨t, word, q + 1, q + word.length + 1⟩])

variable {text : List Char} {q : Nat} {lexemes : List Lexeme}

theorem Reaches.exists_cutTo (h : Reaches text q) : ∃ lexemes, CutTo text q lexemes := by
  induction h with
  | start => exact ⟨[], .start⟩
  | @next q t word _ begins ih =>
    obtain ⟨lexemes, before⟩ := ih
    cases ignored : t.isIgnored with
    | true => exact ⟨lexemes, before.skip begins ignored⟩
    | false => exact ⟨_, before.take begins ignored⟩

/-- Cutting goes on from an offset with the lexemes up to there behind it. -/
theorem CutTo.lex_eq (single : '\n' ∉ text) (h : CutTo text q lexemes) :
    lex text = ⟨lexemes ++ (lexFrom (q + 1) (text.drop q)).lexemes, (lexFrom (q + 1) (text.drop q)).stop?⟩ := by
  have columns {q : Nat} {t : Terminal} {word : List Char} (begins : leading? (text.drop q) = some (t, word)) :
      columnAfter (q + 1) word = q + word.length + 1 := by
    have word_single : '\n' ∉ word := fun mem =>
      single (List.mem_of_mem_drop ((isPrefix_of_leading? begins).subset mem))
    rw [columnAfter_eq word_single]
    omega
  induction h with
  | start => rfl
  | skip _ begins ignored ih =>
    rw [ih, lexFrom_of_some begins, columns begins, List.drop_drop]
    simp [ignored]
  | take _ begins visible ih =>
    rw [ih, lexFrom_of_some begins, columns begins, List.drop_drop]
    simp [visible]

/-- Up to every offset nothing is lost. -/
theorem CutTo.isCut (single : '\n' ∉ text) (h : CutTo text q lexemes) : IsCut text q lexemes := by
  induction h with
  | start =>
    refine ⟨by simp, .nil, by simp, by simp, [], [], ?_, by simp, .inl rfl⟩
    exact slice_self text 0
  | skip _ begins ignored ih => exact ih.skip single begins ignored
  | take _ begins visible ih => exact ih.take begins visible

/-- The lexemes up to an offset are those of the text without what comes later. -/
theorem CutTo.of_take {n : Nat} (h : CutTo text q lexemes) (le : q ≤ n) : CutTo (text.take n) q lexemes := by
  have shorter {q : Nat} {t : Terminal} {word : List Char} (begins : leading? (text.drop q) = some (t, word))
      (le : q + word.length ≤ n) : leading? ((text.take n).drop q) = some (t, word) := by
    rw [List.drop_take]
    refine leading?_of_isPrefix begins ?_ (List.take_prefix _ _)
    exact List.prefix_take_iff.2 ⟨isPrefix_of_leading? begins, by omega⟩
  induction h with
  | start => exact .start
  | skip _ begins ignored ih => exact (ih (by omega)).skip (shorter begins le) ignored
  | take _ begins visible ih => exact (ih (by omega)).take (shorter begins le) visible

/-- A text that is cut up to its end has the lexemes up to there. -/
theorem CutTo.lex_eq_of_end (single : '\n' ∉ text) (h : CutTo text text.length lexemes) :
    lex text = ⟨lexemes, none⟩ := by
  rw [h.lex_eq single, List.drop_length, lexFrom_nil, List.append_nil]

/-- Where cutting stops, the lexemes are those of what lies before. -/
theorem lex_take_of_stopsAt {c : Char} (single : '\n' ∉ text) (h : StopsAt text q c) :
    lex (text.take q) = ⟨(lex text).lexemes, none⟩ := by
  obtain ⟨lexemes, cut⟩ := h.reaches.exists_cutTo
  have lt : q < text.length := (List.getElem?_eq_some_iff.1 h.here).1
  have whole : (lex text).lexemes = lexemes := by
    rw [cut.lex_eq single, lexFrom_of_none h.none, List.append_nil]
  have before : CutTo (text.take q) (text.take q).length lexemes := by
    rw [List.length_take, Nat.min_eq_left lt.le]
    exact cut.of_take (Nat.le_refl q)
  rw [whole, before.lex_eq_of_end fun mem => single (List.mem_of_mem_take mem)]

/-- **Nothing is lost in cutting.** The content of a code line is a text on one line. If such a text can be cut
up to its end, its lexemes stand in it in order, each as long as any pattern allows, and only space and a comment
at the end are left out. If not, no pattern fits at the offset where cutting stops, and the lexemes are those of
what lies before it. -/
theorem lex_lossless :
    (∀ (o : Layout.Options) (source : List Char), 0 ≤ o.tabWidth → ∀ token ∈ (Layout.run o source).tokens,
      token.kind = .code → '\n' ∉ token.payload) ∧
    ∀ text : List Char, '\n' ∉ text →
      ((lex text).stop? = none → IsCut text text.length (lex text).lexemes) ∧
      ∀ stop, (lex text).stop? = some stop → ∃ q, stop.column = q + 1 ∧ text[q]? = some stop.char ∧
        (∀ (t : Terminal) (word : List Char), t.Matches word → ¬ word <+: text.drop q) ∧
        lex (text.take q) = ⟨(lex text).lexemes, none⟩ := by
  refine ⟨fun o source nonneg token mem code => ?_, fun text single => ⟨fun ended => ?_, fun stop stopped => ?_⟩⟩
  · exact ((Layout.isLaid_of_mem_run nonneg token mem).content code).single
  · rcases reaches_end_or_stops text with reaches | ⟨q, c, stops⟩
    · obtain ⟨lexemes, cut⟩ := reaches.exists_cutTo
      rw [cut.lex_eq_of_end single]
      exact cut.isCut single
    · rw [stops.stop?_lex single] at ended
      cases ended
  · obtain ⟨q, stops, column⟩ := (stop?_lex_eq_some_iff single).1 stopped
    refine ⟨q, column, stops.here, fun t word isOf fits => ?_, lex_take_of_stopsAt single stops⟩
    obtain ⟨t', word', found, -⟩ := exists_leading?_of_matches isOf fits
    rw [stops.none] at found
    cases found

/-- The lines of a source, a line of which everything is left but the comment, and one with a character that
nothing begins with. -/
theorem lex_lossless_line :
    (∀ token ∈ (Layout.run {} "in2:\n\t5".toList).tokens, token.kind = .code → '\n' ∉ token.payload) ∧
    ('\n' ∉ "in2<=.5\"$\"$b".toList ∧ (lex "in2<=.5\"$\"$b".toList).stop? = none ∧
      IsCut "in2<=.5\"$\"$b".toList 12 (lex "in2<=.5\"$\"$b".toList).lexemes) ∧
    ('\n' ∉ "in 1. #b".toList ∧ (lex "in 1. #b".toList).stop? = some ⟨'#', 7⟩ ∧
      ∃ q, 7 = q + 1 ∧ "in 1. #b".toList[q]? = some '#' ∧
        (∀ (t : Terminal) (word : List Char), t.Matches word → ¬ word <+: "in 1. #b".toList.drop q) ∧
        lex ("in 1. #b".toList.take q) = ⟨(lex "in 1. #b".toList).lexemes, none⟩) := by
  have single : '\n' ∉ "in2<=.5\"$\"$b".toList := by decide
  have single' : '\n' ∉ "in 1. #b".toList := by decide
  have ended : (lex "in2<=.5\"$\"$b".toList).stop? = none := by
    have name := @Reaches.next "in2<=.5\"$\"$b".toList 0 .name "in2".toList .start rfl
    have sign := @Reaches.next _ 3 (.mark .lessEqual) "<=".toList name rfl
    have point := @Reaches.next _ 5 (.mark .dot) ".".toList sign rfl
    have number := @Reaches.next _ 6 .number "5".toList point rfl
    have string := @Reaches.next _ 7 .string "\"$\"".toList number rfl
    exact (@Reaches.next _ 10 .comment "$b".toList string rfl).stop?_lex single
  have stopped : (lex "in 1. #b".toList).stop? = some ⟨'#', 7⟩ := by
    have keyword := @Reaches.next "in 1. #b".toList 0 (.keyword .inWord) "in".toList .start rfl
    have space := @Reaches.next _ 2 .space " ".toList keyword rfl
    have number := @Reaches.next _ 3 .number "1".toList space rfl
    have point := @Reaches.next _ 4 (.mark .dot) ".".toList number rfl
    have reaches := @Reaches.next _ 5 .space " ".toList point rfl
    exact (stop?_lex_eq_some_iff single').2 ⟨6, ⟨reaches, rfl, rfl⟩, rfl⟩
  exact ⟨lex_lossless.1 {} _ (by decide), ⟨single, ended, (lex_lossless.2 _ single).1 ended⟩, single', stopped,
    (lex_lossless.2 _ single').2 _ stopped⟩

end Offside.Lexeme
