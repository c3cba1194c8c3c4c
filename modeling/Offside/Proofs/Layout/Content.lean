import Offside.Proofs.Layout.Turn
import Offside.Proofs.Text.Returns

/-!
# Contents of code lines

Which texts are the content of a code line: those that are not empty, begin neither with a margin nor with
a comment, and stand on one line. Behind any margin such a text makes a code line of its own. The tokens of
a source have such a text or the one that belongs to their kind (`isLaid_of_mem_run`).
-/

namespace Offside.Layout

/-- The text can be the content of a code line. -/
structure IsContent (text : List Char) : Prop where
  ne_nil : text ≠ []
  begins : ∀ c ∈ text.head?, isMarginChar c = false ∧ c ≠ commentSign
  single : '\n' ∉ text

theorem IsContent.exists_cons {text : List Char} (h : IsContent text) :
    ∃ c rest, text = c :: rest ∧ isMarginChar c = false ∧ c ≠ commentSign := by
  obtain ⟨c, rest, rfl⟩ := List.exists_cons_of_ne_nil h.ne_nil
  exact ⟨c, rest, rfl, h.begins c rfl⟩

/-- What is left of a content without the carriage return at its end is a content, if anything is left. -/
theorem IsContent.dropReturn {text : List Char} (h : IsContent text) (left : Text.dropReturn text ≠ []) :
    IsContent (Text.dropReturn text) := by
  obtain ⟨tail, ht⟩ := Text.dropReturn_isPrefix text
  refine ⟨left, fun c hc => h.begins c ?_, fun mem => h.single ?_⟩
  · rw [← ht, List.head?_append, Option.mem_def.1 hc]
    rfl
  · exact (Text.dropReturn_isPrefix text).subset mem

theorem isContent_content {text : List Char} (h : isTransparent text = false) (single : '\n' ∉ text) :
    IsContent (content text) := by
  have tail : content text <:+ text := List.dropWhile_suffix _
  have stops := List.head?_dropWhile_not isMarginChar text
  unfold isTransparent at h
  cases hc : content text with
  | nil => simp [hc] at h
  | cons c rest =>
    rw [← content, hc] at stops
    rw [hc] at h tail
    refine ⟨List.cons_ne_nil c rest, fun d hd => ?_, fun mem => single (tail.subset mem)⟩
    obtain rfl := Option.some.inj hd
    exact ⟨by simpa using stops, by simpa using h⟩

theorem isContent_of_mem_codeLinesFrom {n : Int} {texts : List (List Char)} {line : CodeLine}
    (single : ∀ text ∈ texts, '\n' ∉ text) (h : line ∈ codeLinesFrom n texts) :
    IsContent line.content := by
  induction texts generalizing n with
  | nil => cases h
  | cons text rest ih =>
    have tail := fun t ht => single t (List.mem_cons_of_mem text ht)
    rw [codeLinesFrom] at h
    split at h
    · exact ih tail h
    · rename_i opaque_line
      rcases List.mem_cons.1 h with rfl | h
      · exact isContent_content (by simpa using opaque_line) (single text List.mem_cons_self)
      · exact ih tail h

theorem isContent_of_mem_codeLines {source : List Char} {line : CodeLine} (h : line ∈ codeLines source) :
    IsContent line.content :=
  isContent_of_mem_codeLinesFrom (fun _ ht => Text.not_newline_of_mem_lines ht) h

theorem le_number_of_mem_codeLinesFrom {n : Int} {texts : List (List Char)} {line : CodeLine}
    (h : line ∈ codeLinesFrom n texts) : n ≤ line.number := by
  induction texts generalizing n with
  | nil => cases h
  | cons text rest ih =>
    rw [codeLinesFrom] at h
    split at h
    · have := ih h
      omega
    · rcases List.mem_cons.1 h with rfl | h
      · exact Int.le_refl n
      · have := ih h
        omega

theorem codeLinesFrom_content {indent text : List Char} (blank : ∀ c ∈ indent, isMarginChar c = true)
    (h : IsContent text) (n : Int) : codeLinesFrom n [indent ++ text] = [⟨n, indent, text⟩] := by
  obtain ⟨c, rest, rfl, stops, no_comment⟩ := h.exists_cons
  have hc : content (indent ++ c :: rest) = c :: rest := by
    rw [content, List.dropWhile_append_of_pos blank, List.dropWhile_cons_of_neg (by simp [stops])]
  have hm : margin (indent ++ c :: rest) = indent := by
    rw [margin, List.takeWhile_append_of_pos blank, List.takeWhile_cons_of_neg (by simp [stops]),
      List.append_nil]
  have opaque_line : isTransparent (indent ++ c :: rest) = false := by
    simp [isTransparent, hc, no_comment]
  simp [codeLinesFrom, opaque_line, hc, hm]

theorem codeLinesFrom_margin {indent : List Char} (blank : ∀ c ∈ indent, isMarginChar c = true) (n : Int) :
    codeLinesFrom n [indent] = [] := by
  have none : content indent = [] := List.dropWhile_eq_nil_iff.2 blank
  simp [codeLinesFrom, isTransparent, none]

/-! ### Tokens of a source -/

/-- The text of a token that layout adds to the code lines. -/
def Kind.fixedText? : Kind → Option (List Char)
  | .indent => some "<INDENT>".toList
  | .dedent => some "<DEDENT>".toList
  | .newline => some ['\n']
  | .endOfFile => some "<EOF>".toList
  | .code => none

/-- The token says what a token of its kind says. -/
structure Token.IsLaid (t : Token) : Prop where
  fixed : ∀ text ∈ t.kind.fixedText?, t.payload = text
  content : t.kind = .code → IsContent t.payload

theorem Token.isLaid_indent (line : Int) : (Token.indent line).IsLaid :=
  ⟨fun _ ht => Option.some.inj ht, fun code => by simp [indent] at code⟩

theorem Token.isLaid_dedent (line : Int) : (Token.dedent line).IsLaid :=
  ⟨fun _ ht => Option.some.inj ht, fun code => by simp [dedent] at code⟩

variable {o : Options} {s : State} {line : CodeLine} {turn : Emission} {levels : List Int}

theorem Turns.isLaid (t : Turns o s line turn levels) : ∀ u ∈ turn.tokens, u.IsLaid := by
  intro u hu
  cases t with
  | enter _ =>
    rw [List.mem_singleton.1 hu]
    exact Token.isLaid_indent _
  | leave _ _ _ _ =>
    rw [List.eq_of_mem_replicate hu]
    exact Token.isLaid_dedent _

theorem CodeLine.isLaid (o : Options) (h : IsContent line.content) : ∀ u ∈ line.tokens o, u.IsLaid := by
  intro u hu
  unfold CodeLine.tokens at hu
  rcases List.mem_cons.1 hu with rfl | hu
  · exact ⟨fun _ ht => by simp [Token.code, Kind.fixedText?] at ht, fun _ => h⟩
  · split at hu
    · rw [List.mem_singleton.1 hu]
      exact ⟨fun _ ht => Option.some.inj ht, fun code => by simp [Token.newline] at code⟩
    · cases hu

theorem isLaid_closing (number : Int) (levels : List Int) : ∀ u ∈ closing number levels, u.IsLaid := by
  intro u hu
  rcases List.mem_append.1 hu with hu | hu
  · rw [List.eq_of_mem_replicate hu]
    exact Token.isLaid_dedent _
  · rw [List.mem_singleton.1 hu]
    exact ⟨fun _ ht => Option.some.inj ht, fun code => by simp [Token.endOfFile] at code⟩

theorem Reached.isLaid {lines : List CodeLine} {out : Emission} (h : Reached o lines out s)
    (contents : ∀ line ∈ lines, IsContent line.content) : ∀ u ∈ out.tokens, u.IsLaid := by
  induction h with
  | start => simp
  | @next _ _ _ line _ _ _ t ih =>
    intro u hu
    simp only [Emission.tokens_append, CodeLine.tokens_emission, List.mem_append] at hu
    rcases hu with hu | hu | hu
    · exact ih (fun l hl => contents l (List.mem_append_left _ hl)) u hu
    · exact t.isLaid u hu
    · exact line.isLaid o (contents line (by simp)) u hu

theorem isLaid_of_mem_run (h : 0 ≤ o.tabWidth) {source : List Char} :
    ∀ u ∈ (run o source).tokens, u.IsLaid := by
  obtain ⟨out, s, reached, whole⟩ := exists_run h source
  rw [whole]
  intro u hu
  rcases List.mem_append.1 hu with hu | hu
  · exact reached.isLaid (fun _ hl => isContent_of_mem_codeLines hl) u hu
  · exact isLaid_closing _ _ u hu

end Offside.Layout
