import Mathlib.Data.List.Forall2
import Offside.Proofs.Layout.Extent
import Offside.Proofs.Layout.Renumber

/-!
# Every line in its place

Layout loses no line of its source and says none twice. The code lines of a source are told one by one and in
order, each with the number that it has among all lines, and whatever else is given for a code line has the number
of that line too.

## The model

`Emission.On` says on which lines everything stands that is given. A turn is on its line (`Turns.on_emission`), so
what code lines lead to is on those lines (`Reached.on`). `Passes` says how one code line stands in what many lead
to: what is given before it is on the lines before it, and what is given after it is on the lines after it. Every
token belongs to a line in this way (`Reached.exists_place`) until the end of the source is reached, and what is
given there is on the line below the last.

`Token.TellsLine` is what a code line looks like in the end. Margin and content of a line are cut off by one scan
and its width is measured by another; that both stop at the same character is `width_margin`.
-/

namespace Offside.Layout

/-! ### Lines of what is given -/

/-- All that is given stands on lines of which `p` is true. -/
structure Emission.On (p : Int → Prop) (out : Emission) : Prop where
  token : ∀ t ∈ out.tokens, p t.line
  scope : ∀ scope ∈ out.scopes, p scope.line
  diagnostic : ∀ d ∈ out.diagnostics, p d.line

theorem Emission.on_empty (p : Int → Prop) : Emission.On p {} := ⟨by simp, by simp, by simp⟩

theorem Emission.On.imp {p q : Int → Prop} {out : Emission} (h : out.On p) (weaker : ∀ n, p n → q n) : out.On q :=
  ⟨fun t ht => weaker _ (h.token t ht), fun scope hs => weaker _ (h.scope scope hs),
    fun d hd => weaker _ (h.diagnostic d hd)⟩

theorem Emission.On.append {p : Int → Prop} {a b : Emission} (ha : a.On p) (hb : b.On p) : (a ++ b).On p where
  token := List.forall_mem_append.2 ⟨ha.token, hb.token⟩
  scope := List.forall_mem_append.2 ⟨ha.scope, hb.scope⟩
  diagnostic := List.forall_mem_append.2 ⟨ha.diagnostic, hb.diagnostic⟩

variable {o : Options} {s : State} {line : CodeLine} {turn : Emission} {levels : List Int}
  {lines first rest : List CodeLine} {out : Emission}

theorem CodeLine.line_of_mem_tokens {t : Token} (h : t ∈ line.tokens o) : t.line = line.number := by
  unfold CodeLine.tokens at h
  rcases List.mem_cons.1 h with rfl | h
  · rfl
  · split at h
    · rw [List.mem_singleton.1 h]
      rfl
    · cases h

theorem CodeLine.line_of_mem_mixed {d : Diagnostic} (h : d ∈ line.mixed o) : d.line = line.number := by
  unfold CodeLine.mixed at h
  split at h
  · rw [List.mem_singleton.1 h]
  · cases h

theorem Turns.on (t : Turns o s line turn levels) : turn.On (· = line.number) := by
  cases t with
  | enter _ =>
    refine ⟨fun u hu => ?_, fun scope hs => ?_, by simp⟩
    · rw [List.mem_singleton.1 hu]
      rfl
    · rw [List.mem_singleton.1 hs]
  | leave _ _ _ _ =>
    refine ⟨fun u hu => ?_, by simp, fun d hd => ?_⟩
    · rw [List.eq_of_mem_replicate hu]
      rfl
    · simp only at hd
      split at hd
      · cases hd
      · rw [List.mem_singleton.1 hd]

theorem Turns.on_emission (t : Turns o s line turn levels) : (line.emission o turn).On (· = line.number) where
  token := List.forall_mem_append.2 ⟨t.on.token, fun _ hu => CodeLine.line_of_mem_tokens hu⟩
  scope := t.on.scope
  diagnostic := List.forall_mem_append.2 ⟨fun _ hd => CodeLine.line_of_mem_mixed hd, t.on.diagnostic⟩

/-- **What code lines lead to is on those lines.** -/
theorem Reached.on (h : Reached o lines out s) : out.On (· ∈ lines.map CodeLine.number) := by
  induction h with
  | start => exact Emission.on_empty _
  | next _ t ih =>
    refine (ih.imp fun n hn => ?_).append (t.on_emission.imp fun n hn => ?_)
    · rw [List.map_append]
      exact List.mem_append_left _ hn
    · simp [hn]

theorem line_of_mem_closing {n : Int} {t : Token} (h : t ∈ closing n levels) : t.line = n := by
  rcases List.mem_append.1 h with h | h
  · rw [List.eq_of_mem_replicate h]
    rfl
  · rw [List.mem_singleton.1 h]
    rfl

/-! ### One line among many -/

theorem Reached.exists_append (h : Reached o (first ++ rest) out s) :
    ∃ earlier s₁ later, Reached o first earlier s₁ ∧ out = earlier ++ later ∧
      later.On (· ∈ rest.map CodeLine.number) := by
  induction rest using List.reverseRecOn generalizing out s with
  | nil =>
    rw [List.append_nil] at h
    exact ⟨out, s, {}, h, by simp [Emission.append_def], Emission.on_empty _⟩
  | append_singleton rest last ih =>
    rw [← List.append_assoc] at h
    obtain ⟨out₁, s₁, turn, levels, before, t, rfl, rfl⟩ := h.exists_last
    obtain ⟨earlier, s₂, later, reached, rfl, on⟩ := ih before
    refine ⟨earlier, s₂, later ++ last.emission o turn, reached, Emission.append_assoc .., ?_⟩
    refine (on.imp fun n hn => ?_).append (t.on_emission.imp fun n hn => ?_)
    · rw [List.map_append]
      exact List.mem_append_left _ hn
    · simp [hn]

/-- How a code line stands in what it leads to together with the lines before and after it. -/
structure Passes (o : Options) (out : Emission) (first : List CodeLine) (line : CodeLine) (rest : List CodeLine)
    (earlier : Emission) (s : State) (turn : Emission) (levels : List Int) (later : Emission) : Prop where
  reached : Reached o first earlier s
  turns : Turns o s line turn levels
  out_eq : out = earlier ++ line.emission o turn ++ later
  later_on : later.On (· ∈ rest.map CodeLine.number)

/-- **Every token belongs to a code line**: it is part of the turn of the line or of the line itself. -/
theorem Reached.exists_place (h : Reached o lines out s) {before after : List Token} {t : Token}
    (split : out.tokens = before ++ t :: after) :
    ∃ first line rest earlier s₁ turn levels later r r', lines = first ++ line :: rest ∧
      Passes o out first line rest earlier s₁ turn levels later ∧ before = earlier.tokens ++ r ∧
      turn.tokens ++ line.tokens o = r ++ t :: r' ∧ after = r' ++ later.tokens := by
  induction h generalizing after with
  | start => simp at split
  | @next lines out s line turn levels reached turns ih =>
    rw [Emission.tokens_append] at split
    rcases split_append split with ⟨q, tokens_eq, rfl⟩ | ⟨r, rfl, here⟩
    · obtain ⟨first, line', rest, earlier, s₁, turn', levels', later, r, r', rfl, passes, rfl, place, rfl⟩ :=
        ih tokens_eq
      have on := passes.later_on.imp (q := (· ∈ (rest ++ [line]).map CodeLine.number)) fun n hn => by
        rw [List.map_append]
        exact List.mem_append_left _ hn
      refine ⟨first, line', rest ++ [line], earlier, s₁, turn', levels', later ++ line.emission o turn, r, r',
        by simp, ⟨passes.reached, passes.turns, ?_, on.append (turns.on_emission.imp fun n hn => ?_)⟩, rfl, place,
        by simp⟩
      · rw [passes.out_eq, Emission.append_assoc _ later]
      · simp [hn]
    · exact ⟨lines, line, [], out, s, turn, levels, {}, r, after, rfl,
        ⟨reached, turns, by simp [Emission.append_def], Emission.on_empty _⟩, rfl, here, by simp⟩

/-- After what opens or closes a scope comes the line for which it does. -/
theorem Reached.exists_next_code (h : Reached o lines out s) {before after : List Token} {t : Token}
    (split : out.tokens = before ++ t :: after) (turning : t.kind = .indent ∨ t.kind = .dedent) :
    ∃ c more, codes after = c :: more ∧ t.line = c.line := by
  obtain ⟨first, line, rest, earlier, s₁, turn, levels, later, r, r', -, passes, -, place, rfl⟩ :=
    h.exists_place split
  rcases split_append place with ⟨q, turn_eq, rfl⟩ | ⟨q, -, own⟩
  · have mem : t ∈ turn.tokens := by simp [turn_eq]
    have none : codes q = [] := codes_eq_nil fun u hu => passes.turns.kind_ne_code (by simp [turn_eq, hu])
    exact ⟨line.token o, codes later.tokens, by simp [none], passes.turns.on.token t mem⟩
  · have mem : t ∈ line.tokens o := by simp [own]
    rcases CodeLine.kind_of_mem_tokens mem with kind | kind <;> simp [kind] at turning

/-! ### Numbers of code lines -/

theorem pairwise_number_codeLinesFrom (n : Int) (texts : List (List Char)) :
    (codeLinesFrom n texts).Pairwise (·.number < ·.number) := by
  induction texts generalizing n with
  | nil => exact .nil
  | cons text rest ih =>
    rw [codeLinesFrom]
    split
    · exact ih (n + 1)
    · refine List.pairwise_cons.2 ⟨fun line hl => ?_, ih (n + 1)⟩
      have := le_number_of_mem_codeLinesFrom hl
      simp only
      omega

theorem pairwise_number_codeLines (source : List Char) : (codeLines source).Pairwise (·.number < ·.number) :=
  pairwise_number_codeLinesFrom 1 _

/-- The code lines are the physical lines that are neither blank nor comments. -/
theorem codeLinesFrom_eq_map (n : Nat) (texts : List (List Char)) :
    codeLinesFrom (n + 1) texts =
      ((texts.zipIdx n).filter (!isTransparent ·.1)).map fun numbered =>
        ⟨numbered.2 + 1, margin numbered.1, content numbered.1⟩ := by
  induction texts generalizing n with
  | nil => rfl
  | cons text rest ih =>
    have next : (n : Int) + 1 + 1 = (n + 1 : Nat) + 1 := by omega
    rw [codeLinesFrom, List.zipIdx_cons, List.filter_cons, next, ih (n + 1)]
    by_cases transparent : isTransparent text <;> simp [transparent]

theorem Reached.pairwise_line (h : Reached o lines out s) (ascending : lines.Pairwise (·.number < ·.number)) :
    out.tokens.Pairwise (·.line ≤ ·.line) := by
  induction h with
  | start => exact .nil
  | @next lines out s line turn levels before t ih =>
    obtain ⟨earlier, -, below⟩ := List.pairwise_append.1 ascending
    refine List.pairwise_append.2 ⟨ih earlier, ?_, fun u hu v hv => ?_⟩
    · refine List.pairwise_of_forall_mem_list fun u hu v hv => ?_
      exact Int.le_of_eq ((t.on_emission.token u hu).trans (t.on_emission.token v hv).symm)
    · obtain ⟨l, hl, number_eq⟩ := List.mem_map.1 (before.on.token u hu)
      have := below l hl line (List.mem_singleton_self line)
      rw [t.on_emission.token v hv]
      omega

/-! ### Lines of a source -/

/-- The token tells the physical line with the given text, before which so many others stand: it has the text
without the longest margin there is, and stands where that margin ends. -/
structure Token.TellsLine (tab : Int) (above : Nat) (text : List Char) (t : Token) : Prop where
  line_eq : t.line = above + 1
  text_eq : ∃ blank, text = blank ++ t.payload ∧ (∀ c ∈ blank, c = ' ' ∨ c = '\t') ∧
    (∀ c ∈ t.payload.head?, c ≠ ' ' ∧ c ≠ '\t') ∧
    t.column = blank.count ' ' + tab * blank.count '\t' ∧
    t.column + t.payload.length = text.length + (tab - 1) * blank.count '\t'

theorem length_margin (text : List Char) :
    (margin text).length = (margin text).count ' ' + (margin text).count '\t' := by
  have blank : ∀ c ∈ margin text, c = ' ' ∨ c = '\t' := fun c hc => by
    simpa [isMarginChar] using List.mem_takeWhile_imp hc
  generalize margin text = blanks at blank
  induction blanks with
  | nil => rfl
  | cons c rest ih =>
    have tail := ih fun d hd => blank d (List.mem_cons_of_mem c hd)
    rcases blank c List.mem_cons_self with rfl | rfl
    · simp [tail]
      omega
    · simp [tail]
      omega

theorem tellsLine_token (o : Options) (above : Nat) (text : List Char) :
    (CodeLine.token o ⟨above + 1, margin text, content text⟩).TellsLine o.tabWidth above text := by
  have width_eq : CodeLine.width o.tabWidth ⟨above + 1, margin text, content text⟩ =
      (margin text).count ' ' + o.tabWidth * (margin text).count '\t' := by
    rw [CodeLine.width, width_margin, width_eq_count]
  have whole : text.length = (margin text).length + (content text).length := by
    rw [← List.length_append, margin_append_content]
  refine ⟨rfl, margin text, (margin_append_content text).symm, fun c hc => ?_, fun c hc => ?_, width_eq, ?_⟩
  · simpa [isMarginChar] using List.mem_takeWhile_imp hc
  · have stops := List.head?_dropWhile_not isMarginChar text
    have begins : (text.dropWhile isMarginChar).head? = some c := hc
    simpa [begins, isMarginChar] using stops
  · simp only [CodeLine.token, Token.code, width_eq, whole, length_margin, Int.sub_mul, Int.one_mul]
    omega

/-- The tokens for contents tell the code lines one by one. -/
theorem forall₂_tellsLine_codes_run (h : 0 ≤ o.tabWidth) (source : List Char) :
    List.Forall₂ (fun numbered t => t.TellsLine o.tabWidth numbered.2 numbered.1)
      ((Text.lines source).zipIdx.filter (!isTransparent ·.1)) (codes (run o source).tokens) := by
  have numbered := codeLinesFrom_eq_map 0 (Text.lines source)
  rw [Int.natCast_zero, Int.zero_add] at numbered
  rw [codes_run h, codeLines, numbered, List.map_map, List.forall₂_map_right_iff]
  exact List.forall₂_same.2 fun numbered _ => tellsLine_token o numbered.2 numbered.1

theorem Reached.line_le {source : List Char} (h : Reached o (codeLines source) out s) :
    ∀ t ∈ out.tokens, t.line ≤ (Text.lines source).length := by
  intro t ht
  obtain ⟨line, hl, number_eq⟩ := List.mem_map.1 (h.on.token t ht)
  have := number_lt_of_mem_codeLinesFrom hl
  omega

theorem pairwise_line_run (h : 0 ≤ o.tabWidth) (source : List Char) :
    (run o source).tokens.Pairwise (·.line ≤ ·.line) := by
  obtain ⟨out, s, reached, whole⟩ := exists_run h source
  rw [whole]
  refine List.pairwise_append.2 ⟨reached.pairwise_line (pairwise_number_codeLines source), ?_, ?_⟩
  · refine List.pairwise_of_forall_mem_list fun u hu v hv => ?_
    exact Int.le_of_eq ((line_of_mem_closing hu).trans (line_of_mem_closing hv).symm)
  · intro u hu v hv
    have := reached.line_le u hu
    rw [line_of_mem_closing hv]
    omega

/-- What opens or closes a scope is on the line that comes next, and what ends the source below the last line. -/
theorem line_eq_of_run (h : 0 ≤ o.tabWidth) {source : List Char} {before after : List Token} {t : Token}
    (split : (run o source).tokens = before ++ t :: after) :
    (t.kind = .indent → codes after ≠ []) ∧
      (t.kind = .indent ∨ t.kind = .dedent → ∀ c ∈ (codes after).head?, t.line = c.line) ∧
      ((t.kind = .dedent ∧ codes after = []) ∨ t.kind = .endOfFile → t.line = (Text.lines source).length + 1) := by
  obtain ⟨out, s, reached, whole⟩ := exists_run h source
  rw [whole] at split
  rcases split_append split with ⟨r, out_eq, rfl⟩ | ⟨r, -, ending⟩
  · -- the token belongs to a code line, so it does not end the source
    have not_ending : t.kind ≠ .endOfFile := reached.kind_ne_endOfFile t (by simp [out_eq])
    by_cases turning : t.kind = .indent ∨ t.kind = .dedent
    · obtain ⟨c, more, codes_eq, line_eq⟩ := reached.exists_next_code out_eq turning
      simp [codes_eq, line_eq, not_ending]
    · rw [not_or] at turning
      simp [turning, not_ending]
  · have ending : closing ((Text.lines source).length + 1) s.levels = r ++ t :: after := ending
    have mem : t ∈ closing ((Text.lines source).length + 1) s.levels := by simp [ending]
    have none : codes after = [] := codes_eq_nil fun u hu => by
      have mem' : u ∈ closing ((Text.lines source).length + 1) s.levels := by simp [ending, hu]
      exact kind_ne_code_of_mem_closing mem'
    have not_indent : t.kind ≠ .indent := kind_ne_of_mem_closing (by decide) (by decide) mem
    simp [none, not_indent, line_of_mem_closing mem]

/-- **No line is lost, told twice or told in another place.** The tokens for contents tell the lines of the source
that are neither blank nor comments, one by one and in order. From token to token the lines never decrease: what
opens or closes a scope is on the line that comes next, and what is closed at the end is, like the end, on the line
below the last. -/
theorem codes_run_tellLines (h : 0 < o.tabWidth) (source : List Char) :
    List.Forall₂ (fun numbered t => t.TellsLine o.tabWidth numbered.2 numbered.1)
        ((Text.lines source).zipIdx.filter (!isTransparent ·.1)) (codes (run o source).tokens) ∧
      (run o source).tokens.Pairwise (·.line ≤ ·.line) ∧
      ∀ before t after, (run o source).tokens = before ++ t :: after →
        (t.kind = .indent → codes after ≠ []) ∧
        (t.kind = .indent ∨ t.kind = .dedent → ∀ c ∈ (codes after).head?, t.line = c.line) ∧
        ((t.kind = .dedent ∧ codes after = []) ∨ t.kind = .endOfFile →
          t.line = (Text.lines source).length + 1) := by
  have nonneg := Int.le_of_lt h
  refine ⟨forall₂_tellsLine_codes_run nonneg source, pairwise_line_run nonneg source, ?_⟩
  intro before t after split
  exact line_eq_of_run nonneg split

/-- Tabs and spaces, a comment, a blank line, a carriage return, and a last line that is not ended; two scopes are
open at the end. -/
theorem codes_run_tellLines_mixed :
    (0 : Int) < 4 ∧
      List.Forall₂ (fun numbered t => t.TellsLine 4 numbered.2 numbered.1)
        ((Text.lines "fn f\n\t a\r\n  $ c\n\n \t b".toList).zipIdx.filter (!isTransparent ·.1))
        (codes (run { tabWidth := 4 } "fn f\n\t a\r\n  $ c\n\n \t b".toList).tokens) ∧
      ∃ before t after, (run { tabWidth := 4 } "fn f\n\t a\r\n  $ c\n\n \t b".toList).tokens =
          before ++ t :: after ∧
        t.kind = .dedent ∧ codes after = [] ∧
        t.line = (Text.lines "fn f\n\t a\r\n  $ c\n\n \t b".toList).length + 1 := by
  obtain ⟨tell, -, placed⟩ :=
    codes_run_tellLines (o := { tabWidth := 4 }) (by decide) "fn f\n\t a\r\n  $ c\n\n \t b".toList
  have split : (run { tabWidth := 4 } "fn f\n\t a\r\n  $ c\n\n \t b".toList).tokens =
      [.code "fn f".toList 1 0, .indent 2, .code ['a'] 2 5, .indent 5, .code ['b'] 5 6] ++
        .dedent 6 :: [.dedent 6, .endOfFile 6] := by
    decide +kernel
  exact ⟨by decide, tell, _, _, _, split, rfl, rfl, (placed _ _ _ split).2.2 (.inl ⟨rfl, rfl⟩)⟩

end Offside.Layout
