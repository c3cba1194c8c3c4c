import Offside.Proofs.Layout.Tabs
import Offside.Proofs.Lexeme.Separator
import Offside.Proofs.Program.Canonical
import Offside.Proofs.Program.Concatenation

/-!
# Remarks

A comment may be put at the end of any line of a program, be it a code line, a blank line or a comment already, and
nothing of the program changes, not even where its items stand.

## The model

`Remarked` says what may become of a line. The sign of a comment is looked for twice: a physical line that begins with
it is transparent, and a lexeme that begins with it is none. A line is transparent with a remark if it is so without
(`SameLexemes`), and if it is not, it keeps its margin and its lexemes, as these can be cut to their end
(`Lexeme.lexFrom_append_comment`). Two runs then keep side by side: they pass the same levels, and their tokens leave
the same traces, since the end of a line leaves no place (`Layout.Reached.remarked`).

Putting remarks in ends each line with a line feed, and with that a line may lose one more carriage return. It belongs
to no lexeme; a code line that is nothing else would be lost, but no program has such a line.
-/

namespace Offside

open Layout (Token CodeLine Emission Options Turns Reached isTransparent margin content)

/-- What becomes of a line when a comment may be put behind it. -/
inductive Remarked (line : List Char) : List Char → Prop
  /-- The line is left as it is. -/
  | plain : Remarked line line
  /-- A comment is put behind it. -/
  | remark {text : List Char} (single : '\n' ∉ text) : Remarked line (line ++ commentSign :: text)

/-- A remark does not cut its line in two. -/
theorem Remarked.single {line line' : List Char} (h : Remarked line line') (single : '\n' ∉ line) : '\n' ∉ line' := by
  cases h with
  | plain => exact single
  | remark single' => simp [single, single', commentSign]

/-! ### One physical line -/

namespace Layout

/-- The lines do the same for a program: both are transparent, or neither is and they have the same margin and the
same lexemes. -/
structure SameLexemes (text text' : List Char) : Prop where
  isTransparent_eq : isTransparent text' = isTransparent text
  margin_eq : isTransparent text = false → margin text' = margin text
  lex_eq : isTransparent text = false → Lexeme.lex (content text') = Lexeme.lex (content text)

variable {text text' first : List Char}

theorem SameLexemes.refl (text : List Char) : SameLexemes text text := ⟨rfl, fun _ => rfl, fun _ => rfl⟩

theorem SameLexemes.symm (h : SameLexemes text text') : SameLexemes text' text := by
  refine ⟨h.isTransparent_eq.symm, ?_, ?_⟩
  · intro visible
    exact (h.margin_eq (h.isTransparent_eq ▸ visible)).symm
  · intro visible
    exact (h.lex_eq (h.isTransparent_eq ▸ visible)).symm

theorem content_append (h : content first ≠ []) (more : List Char) :
    content (first ++ more) = content first ++ more := by
  have not_empty : ¬ (first.dropWhile isMarginChar).isEmpty := by simpa [content] using h
  rw [content, List.dropWhile_append, if_neg not_empty, content]

theorem margin_append (h : content first ≠ []) (more : List Char) : margin (first ++ more) = margin first := by
  have shorter : (first.takeWhile isMarginChar).length ≠ first.length := by
    intro whole
    have parts := congrArg List.length (margin_append_content first)
    have pos := List.length_pos_iff.2 h
    rw [List.length_append, margin] at parts
    omega
  rw [margin, List.takeWhile_append, if_neg shorter, margin]

theorem isTransparent_append (h : content first ≠ []) (more : List Char) :
    isTransparent (first ++ more) = isTransparent first := by
  obtain ⟨c, rest, content_eq⟩ := List.exists_cons_of_ne_nil h
  simp [isTransparent, content_append h more, content_eq]

/-- A line has the lexemes that it has with more behind its content, if no lexeme is added. -/
theorem SameLexemes.of_append (h : content first ≠ []) {more : List Char}
    (same : isTransparent first = false → Lexeme.lex (content first ++ more) = Lexeme.lex (content first)) :
    SameLexemes first (first ++ more) := by
  refine ⟨isTransparent_append h more, fun _ => margin_append h more, ?_⟩
  intro visible
  rw [content_append h more, same visible]

theorem not_newline_content (single : '\n' ∉ text) : '\n' ∉ content text := by
  intro mem
  exact single ((List.dropWhile_suffix _).subset mem)

theorem sameLexemes_remark (single : '\n' ∉ first) (single' : '\n' ∉ text)
    (readable : isTransparent first = false → IsReadable (content first)) :
    SameLexemes first (first ++ commentSign :: text) := by
  by_cases h : content first = []
  · -- a blank line becomes a comment
    have blank : ∀ c ∈ first, isMarginChar c = true := List.dropWhile_eq_nil_iff.1 h
    have transparent : isTransparent first = true := by rw [isTransparent, h]
    have content_eq : content (first ++ commentSign :: text) = commentSign :: text := by
      rw [content_append_of_blank blank]
      rfl
    refine ⟨?_, ?_, ?_⟩
    · rw [transparent, isTransparent, content_eq]
      rfl
    · simp [transparent]
    · simp [transparent]
  · refine .of_append h ?_
    intro visible
    exact Lexeme.lexFrom_append_comment (not_newline_content single) single' (readable visible).lexes

theorem not_isReadable_return : ¬ IsReadable ['\r'] := by
  intro readable
  have nothing := readable.has_lexeme
  rw [Lexeme.lex, ← List.nil_append ['\r'], Lexeme.lexFrom_append_return List.not_mem_nil] at nothing
  simp at nothing

theorem sameLexemes_dropReturn (single : '\n' ∉ text)
    (readable : isTransparent text = false → IsReadable (content text)) :
    SameLexemes text (Text.dropReturn text) := by
  rcases Text.eq_dropReturn_or text with same | longer
  · rw [← same]
    exact .refl text
  · generalize Text.dropReturn text = first at longer
    subst longer
    by_cases h : content first = []
    · -- nothing but the carriage return stands on the line, and that cannot be read
      have blank : ∀ c ∈ first, isMarginChar c = true := List.dropWhile_eq_nil_iff.1 h
      have content_eq : content (first ++ ['\r']) = ['\r'] := content_append_of_blank blank ['\r']
      have visible : isTransparent (first ++ ['\r']) = false := by
        rw [isTransparent, content_eq]
        rfl
      exact absurd (content_eq ▸ readable visible) not_isReadable_return
    · have first_single : '\n' ∉ content first := by
        intro mem
        exact not_newline_content single (by rw [content_append h]; exact List.mem_append_left _ mem)
      have kept : SameLexemes first (first ++ ['\r']) := by
        refine .of_append h ?_
        intro _
        exact Lexeme.lexFrom_append_return first_single 1
      exact kept.symm

/-- A line has the lexemes that it had before a remark was put behind it and its end was written. -/
theorem sameLexemes_of_remarked {line line' : List Char} (h : Remarked line line') (single : '\n' ∉ line)
    (readable : isTransparent line = false → IsReadable (content line)) :
    SameLexemes line (Text.dropReturn line') := by
  cases h with
  | plain => exact sameLexemes_dropReturn single readable
  | @remark text single' =>
    have kept : Text.dropReturn (commentSign :: text) = commentSign :: Text.dropReturn text := by
      cases text with
      | nil => rfl
      | cons c rest => exact Text.dropReturn_append [commentSign] (List.cons_ne_nil c rest)
    rw [Text.dropReturn_append line (List.cons_ne_nil _ _), kept]
    refine sameLexemes_remark single ?_ readable
    intro mem
    exact single' ((Text.dropReturn_isPrefix text).subset mem)

/-! ### Code lines -/

/-- The code lines have the same number, margin and lexemes. -/
structure CodeLine.SameLexemes (line line' : CodeLine) : Prop where
  number_eq : line'.number = line.number
  margin_eq : line'.margin = line.margin
  lex_eq : Lexeme.lex line'.content = Lexeme.lex line.content

/-- With remarks the code lines are the same but for their contents. -/
theorem codeLinesFrom_remarked {texts texts' : List (List Char)} (h : List.Forall₂ Remarked texts texts') (n : Int)
    (single : ∀ text ∈ texts, '\n' ∉ text) (readable : ∀ line ∈ codeLinesFrom n texts, IsReadable line.content) :
    List.Forall₂ CodeLine.SameLexemes (codeLinesFrom n texts) (codeLinesFrom n (texts'.map Text.dropReturn)) := by
  induction h generalizing n with
  | nil => exact .nil
  | @cons text text' rest _ head _ ih =>
    have others := fun t ht => single t (List.mem_cons_of_mem text ht)
    have here := single text List.mem_cons_self
    rw [codeLinesFrom] at readable
    rw [List.map_cons, codeLinesFrom, codeLinesFrom]
    by_cases transparent : isTransparent text = true
    · have same := sameLexemes_of_remarked head here (by simp [transparent])
      rw [if_pos transparent] at readable
      rw [if_pos transparent, if_pos (same.isTransparent_eq.trans transparent)]
      exact ih (n + 1) others readable
    · have visible : isTransparent text = false := by simpa using transparent
      rw [if_neg transparent] at readable
      have same := sameLexemes_of_remarked head here fun _ => readable _ List.mem_cons_self
      rw [if_neg transparent, if_neg (by rw [same.isTransparent_eq]; exact transparent)]
      refine .cons ⟨rfl, same.margin_eq visible, same.lex_eq visible⟩ (ih (n + 1) others ?_)
      intro line hl
      exact readable line (List.mem_cons_of_mem _ hl)

variable {o : Options} {s s' : State} {line line' : CodeLine} {turn out : Emission} {levels : List Int}
  {lines lines' : List CodeLine}

theorem CodeLine.SameLexemes.width_eq (h : line.SameLexemes line') (tab : Int) : line'.width tab = line.width tab := by
  rw [CodeLine.width, CodeLine.width, h.margin_eq]

/-- A code line leaves the same items wherever its content ends. -/
theorem CodeLine.SameLexemes.items_eq (h : line.SameLexemes line') (o : Options) :
    (line'.token o).items = (line.token o).items := by
  simp only [Token.items, CodeLine.token, Token.code, h.lex_eq, h.number_eq, h.width_eq]
  rfl

theorem Turns.remarked (t : Turns o s line turn levels) (same_levels : s'.levels = s.levels)
    (same_width : s'.width = s.width) (h : line.SameLexemes line') :
    ∃ turn', Turns o s' line' turn' levels ∧ turn'.tokens = turn.tokens ∧ turn'.diagnostics = turn.diagnostics := by
  cases t with
  | enter right =>
    rw [← same_width, ← h.width_eq] at right
    rw [← same_levels, ← h.width_eq]
    exact ⟨_, .enter right, by rw [h.number_eq], rfl⟩
  | @leave closed outer level left split right within =>
    have width_eq := h.width_eq o.tabWidth
    rw [← same_width, ← width_eq] at left
    rw [← width_eq] at right within
    refine ⟨_, .leave left (same_levels.trans split) right within, ?_, ?_⟩
    · rw [h.number_eq]
    · rw [h.number_eq, width_eq, same_width]

theorem CodeLine.SameLexemes.mixed_eq (h : line.SameLexemes line') (o : Options) : line'.mixed o = line.mixed o := by
  rw [CodeLine.mixed, CodeLine.mixed, CodeLine.isMixed, CodeLine.isMixed, h.margin_eq, h.number_eq]

/-- **Code lines with the same lexemes leave the same traces**, and what is doubtful about them is the same. -/
theorem Reached.remarked (reached : Reached o lines out s) (newlines : o.newlines = true)
    (same : List.Forall₂ CodeLine.SameLexemes lines lines') :
    ∃ out' s', Reached o lines' out' s' ∧ s'.levels = s.levels ∧ s'.width = s.width ∧
      out'.diagnostics = out.diagnostics ∧
      (Item.ofTokens out'.tokens).map Item.trace = (Item.ofTokens out.tokens).map Item.trace := by
  induction reached generalizing lines' with
  | start =>
    cases same
    exact ⟨{}, {}, .start, rfl, rfl, rfl, rfl⟩
  | @next lines out s line turn levels _ t ih =>
    obtain ⟨lines', last, rfl, before, last_same⟩ := exists_append_of_forall₂ same
    cases last_same with
    | @cons _ line' _ _ line_same none =>
      cases none
      obtain ⟨out', s', reached', levels_eq, width_eq, diagnostics_eq, traces_eq⟩ := ih before
      obtain ⟨turn', t', tokens_eq, turn_diagnostics_eq⟩ := t.remarked levels_eq width_eq line_same
      refine ⟨_, _, reached'.next t', rfl, line_same.width_eq _, ?_, ?_⟩
      · simp only [Emission.diagnostics_append, CodeLine.diagnostics_emission, diagnostics_eq, turn_diagnostics_eq,
          line_same.mixed_eq]
      · simp only [Emission.tokens_append, CodeLine.tokens_emission, Item.ofTokens_append, List.map_append, traces_eq,
          tokens_eq, CodeLine.map_trace_tokens newlines, line_same.items_eq]

end Layout

/-! ### Whole sources -/

variable {tab : TabWidth} {source : List Char} {p : Program}

/-- Where something about the layout cannot be worded, no program is told. -/
theorem Program.ofSource_of_not_writable
    (h : ¬ ∀ d ∈ (Layout.run tab.lineOptions source).diagnostics, d.isWritable) :
    Program.ofSource tab source = .error (.unwritable {}) := by
  have refused : (Layout.run tab.lineOptions source).worded = .error {} := by
    rw [Layout.Result.worded, if_neg (by simpa using h)]
  simp [ofSource, Stretch.ofWordedSource, refused, bind, Except.bind]

/-- What is told of a program is decided by its diagnostics. -/
theorem Program.ofSource_eq_of_parse {source' : List Char} (h : parse tab source = .ok p)
    (h' : parse tab source' = .ok p)
    (same : (Layout.run tab.lineOptions source').diagnostics = (Layout.run tab.lineOptions source).diagnostics) :
    Program.ofSource tab source' = Program.ofSource tab source := by
  by_cases writable : ∀ d ∈ (Layout.run tab.lineOptions source).diagnostics, d.isWritable
  · rw [Program.ofSource_eq_ok_iff.2 ⟨h, writable⟩, Program.ofSource_eq_ok_iff.2 ⟨h', same ▸ writable⟩]
  · rw [ofSource_of_not_writable writable, ofSource_of_not_writable (same ▸ writable)]

/-- **Remarks never change a program.** When comments are put behind any lines of a source that is a program, and
each line is ended with a line feed, the source is the same program: its statements are nested as before, and they and
their items stand where they stood. It is told whenever the program was told. -/
theorem parse_of_remarked {texts : List (List Char)} (h : parse tab source = .ok p)
    (remarked : List.Forall₂ Remarked (Text.lines source) texts) :
    parse tab (texts.flatMap (· ++ ['\n'])) = .ok p ∧
      Program.ofSource tab (texts.flatMap (· ++ ['\n'])) = Program.ofSource tab source := by
  obtain ⟨readable, proper, traces_eq⟩ := parse_eq_ok_iff.1 h
  have lines_eq : Text.lines (texts.flatMap (· ++ ['\n'])) = texts.map Text.dropReturn := by
    refine Text.lines_flatMap_ended ?_
    intro text mem
    obtain ⟨line, hl, become⟩ := Layout.exists_of_mem_forall₂ remarked mem
    exact become.single (Text.not_newline_of_mem_lines hl)
  have same : List.Forall₂ CodeLine.SameLexemes (Layout.codeLines source)
      (Layout.codeLines (texts.flatMap (· ++ ['\n']))) := by
    rw [Layout.codeLines, Layout.codeLines, lines_eq]
    exact Layout.codeLinesFrom_remarked remarked 1 (fun _ ht => Text.not_newline_of_mem_lines ht) readable
  obtain ⟨out, s, reached, whole⟩ := Layout.exists_run tab.nonneg_lineOptions source
  obtain ⟨out', s', reached', levels_eq, -, diagnostics_eq, out_traces_eq⟩ := reached.remarked rfl same
  have whole' := reached'.run_eq
  rw [lines_eq, List.length_map, ← remarked.length_eq, levels_eq] at whole'
  have parsed : parse tab (texts.flatMap (· ++ ['\n'])) = .ok p := by
    refine parse_eq_ok_iff.2 ⟨?_, proper, ?_⟩
    · intro line' hl'
      obtain ⟨line, hl, line_same⟩ := Layout.exists_of_mem_forall₂ same hl'
      exact (readable line hl).of_lex_eq line_same.lex_eq
    · rw [traces_eq, whole, whole']
      simp only [Emission.tokens_append, Item.ofTokens_append, List.map_append, out_traces_eq]
  refine ⟨parsed, Program.ofSource_eq_of_parse h parsed ?_⟩
  rw [whole, whole']
  simp only [Emission.diagnostics_append, diagnostics_eq]

/-- Remarks behind a line that ends in a carriage return, a blank line and a comment sign in a string, but behind
neither a comment nor a misaligned line. -/
theorem parse_of_remarked_misaligned :
    ∃ p, parse .standard "a\r\r\n\n\tb\"$\"\n $c\n  d".toList = .ok p ∧
      List.Forall₂ Remarked (Text.lines "a\r\r\n\n\tb\"$\"\n $c\n  d".toList)
        ["a\r$#\r".toList, "$".toList, "\tb\"$\"$\"".toList, " $c".toList, "  d".toList] ∧
      parse .standard "a\r$#\r\n$\n\tb\"$\"$\"\n $c\n  d\n".toList = .ok p ∧
      Program.ofSource .standard "a\r$#\r\n$\n\tb\"$\"$\"\n $c\n  d\n".toList =
        Program.ofSource .standard "a\r\r\n\n\tb\"$\"\n $c\n  d".toList := by
  have parsed : parse .standard "a\r\r\n\n\tb\"$\"\n $c\n  d".toList = .ok ⟨none, .line
      (.group .empty [⟨.lexeme .name, ['a'], ⟨1, 1⟩, some ⟨1, 2⟩⟩] ⟨3, 1⟩
        (.line .empty [⟨.lexeme .name, ['b'], ⟨3, 5⟩, some ⟨3, 6⟩⟩,
          ⟨.lexeme .string, "\"$\"".toList, ⟨3, 6⟩, some ⟨3, 9⟩⟩]))
      [⟨.lexeme .name, ['d'], ⟨5, 3⟩, some ⟨5, 4⟩⟩]⟩ := by decide +kernel
  have remarked : List.Forall₂ Remarked (Text.lines "a\r\r\n\n\tb\"$\"\n $c\n  d".toList)
      ["a\r$#\r".toList, "$".toList, "\tb\"$\"$\"".toList, " $c".toList, "  d".toList] :=
    .cons (@Remarked.remark "a\r".toList "#\r".toList (by decide)) <|
      .cons (@Remarked.remark [] [] (by decide)) <|
        .cons (@Remarked.remark "\tb\"$\"".toList ['"'] (by decide)) <| .cons .plain <| .cons .plain .nil
  have joined : ["a\r$#\r".toList, "$".toList, "\tb\"$\"$\"".toList, " $c".toList, "  d".toList].flatMap
      (· ++ ['\n']) = "a\r$#\r\n$\n\tb\"$\"$\"\n $c\n  d\n".toList := by decide +kernel
  obtain ⟨again, told⟩ := parse_of_remarked parsed remarked
  rw [joined] at again told
  exact ⟨_, parsed, remarked, again, told⟩

end Offside
