import Offside.Layout.Canonical
import Offside.Proofs.Layout.Content
import Offside.Proofs.Layout.Invariant

/-!
# Laying out canonical text

What becomes of the tokens of a source when they are written out as canonical text and that text is laid
out again.

## The model

The text of a run grows by one line for each code line (`Reached.render_next`), so the run over the text
keeps step with the run over the source. Where the source has any levels, the text has those of a `ladder`,
with the same step between each two, and its lines always stand at the innermost of them
(`State.Canonical`); so each of its turns opens and closes what the turn of the source does
(`Turns.canonical`). The contents are the same but for a carriage return at the end of each
(`Reached.contents_render`), with which a content that is nothing else gets lost.
-/

namespace Offside.Layout

/-- What a token says, without where it stands. -/
def Token.face (t : Token) : Kind × List Char := (t.kind, t.payload)

/-! ### The text of a run -/

theorem renderFrom_eq_nil {tokens : List Token} (h : ∀ t ∈ tokens, t.kind ≠ .code) (step : IndentWidth)
    (depth' : Int) : renderFrom step depth' tokens = [] := by
  induction tokens generalizing depth' with
  | nil => rfl
  | cons t rest ih =>
    have tail := fun depth' => ih (fun u hu => h u (List.mem_cons_of_mem _ hu)) depth'
    have head := h t List.mem_cons_self
    obtain ⟨kind, payload, line, column⟩ := t
    cases kind <;> simp_all [renderFrom]

theorem renderFrom_tokens (step : IndentWidth) (depth' : Int) (o : Options) (line : CodeLine) :
    renderFrom step depth' (line.tokens o) = canonicalMargin step depth' ++ line.content ++ ['\n'] := by
  unfold CodeLine.tokens
  split <;> simp [renderFrom, Token.code, Token.newline]

variable {o : Options} {s : State} {line : CodeLine} {turn : Emission} {levels : List Int}
  {lines : List CodeLine} {out : Emission}

theorem Reached.render_next (h : Reached o lines out s) (t : Turns o s line turn levels)
    (step : IndentWidth) :
    render step (out ++ line.emission o turn).tokens =
      render step out.tokens ++
        (canonicalMargin step ((levels.length : Int) - 1) ++ line.content ++ ['\n']) := by
  have depth_after : 0 + depth out.tokens + depth turn.tokens = (levels.length : Int) - 1 := by
    rw [h.depth_eq, t.depth_eq]
    omega
  have none : renderFrom step (0 + depth out.tokens) turn.tokens = [] :=
    renderFrom_eq_nil (fun _ hu => t.kind_ne_code hu) step _
  simp only [render, Emission.tokens_append, CodeLine.tokens_emission, renderFrom_append, none,
    renderFrom_tokens, depth_after, List.nil_append]

theorem Reached.render_ended (h : Reached o lines out s) (step : IndentWidth) :
    render step out.tokens = [] ∨ (render step out.tokens).getLast? = some '\n' := by
  cases h with
  | start => exact .inl rfl
  | next before t =>
    rw [before.render_next t]
    exact .inr (by simp [List.getLast?_append])

theorem isMarginChar_of_mem_canonicalMargin {step : IndentWidth} {depth' : Int} {c : Char}
    (h : c ∈ canonicalMargin step depth') : isMarginChar c = true := by
  rw [List.eq_of_mem_replicate h]
  rfl

theorem CodeLine.mixed_canonicalMargin (o : Options) (number : Int) (step : IndentWidth) (depth' : Int)
    (content : List Char) : CodeLine.mixed o ⟨number, canonicalMargin step depth', content⟩ = [] := by
  simp [CodeLine.mixed, CodeLine.isMixed, canonicalMargin]

theorem width_canonicalMargin {step : IndentWidth} {depth' : Int} (nonneg : 0 ≤ depth') (tab : Int) :
    Layout.width tab (canonicalMargin step depth') = step.columns * depth' := by
  have spaces (n : Nat) : Layout.width tab (List.replicate n ' ') = n := by
    induction n with
    | zero => rfl
    | succ n ih =>
      rw [List.replicate_succ, Layout.width, ih]
      omega
  rw [canonicalMargin, spaces, Int.toNat_of_nonneg (Int.mul_nonneg (Int.natCast_nonneg _) nonneg)]

theorem Reached.codeLines_render_next (h : Reached o lines out s) (t : Turns o s line turn levels)
    (content : IsContent line.content) (step : IndentWidth) :
    codeLines (render step (out ++ line.emission o turn).tokens) =
      codeLines (render step out.tokens) ++
        codeLinesFrom (1 + (Text.lines (render step out.tokens)).length)
          [canonicalMargin step ((levels.length : Int) - 1) ++ Text.dropReturn line.content] := by
  have single : '\n' ∉ canonicalMargin step ((levels.length : Int) - 1) ++ line.content := by
    rw [List.mem_append, not_or]
    refine ⟨fun mem => ?_, content.single⟩
    have := isMarginChar_of_mem_canonicalMargin mem
    simp [isMarginChar] at this
  rw [h.render_next t, codeLines, Text.lines_append (h.render_ended step), codeLinesFrom_append,
    Text.lines_terminated single, Text.dropReturn_append _ content.ne_nil, ← codeLines]

/-- The contents of the text are those of the source, each without the carriage return at its end, and
without those of which nothing is left. -/
theorem Reached.contents_render (h : Reached o lines out s)
    (contents : ∀ line ∈ lines, IsContent line.content) (step : IndentWidth) :
    (codeLines (render step out.tokens)).map CodeLine.content =
      ((lines.map CodeLine.content).map Text.dropReturn).filter (· ≠ []) := by
  induction h with
  | start => rfl
  | @next lines out s line turn levels before t ih =>
    have content := contents line (by simp)
    rw [before.codeLines_render_next t content, List.map_append,
      ih fun l hl => contents l (List.mem_append_left _ hl)]
    by_cases left : Text.dropReturn line.content = []
    · rw [left, List.append_nil,
        codeLinesFrom_margin fun c hc => isMarginChar_of_mem_canonicalMargin hc]
      simp [left]
    · rw [codeLinesFrom_content (fun c hc => isMarginChar_of_mem_canonicalMargin hc)
        (content.dropReturn left)]
      simp [left]

/-! ### Evenly spaced levels -/

/-- So many levels, innermost first, with the same step between each two and column 0 outermost. -/
def ladder (step : IndentWidth) : Nat → List Int
  | 0 => []
  | n + 1 => step.columns * n :: ladder step n

@[simp] theorem length_ladder (step : IndentWidth) (n : Nat) : (ladder step n).length = n := by
  induction n with
  | zero => rfl
  | succ n ih => rw [ladder, List.length_cons, ih]

theorem ladder_add (step : IndentWidth) (k n : Nat) :
    ∃ inner, ladder step (k + n) = inner ++ ladder step n ∧ inner.length = k ∧
      ∀ l ∈ inner, (step.columns : Int) * n ≤ l := by
  induction k with
  | zero => exact ⟨[], by simp, rfl, by simp⟩
  | succ k ih =>
    obtain ⟨inner, split, length, right⟩ := ih
    refine ⟨step.columns * ((k + n : Nat) : Int) :: inner, ?_, by rw [List.length_cons, length], ?_⟩
    · rw [Nat.add_right_comm, ladder, split, List.cons_append]
    · intro l hl
      rcases List.mem_cons.1 hl with rfl | hl
      · exact Int.mul_le_mul_of_nonneg_left (by omega) (Int.natCast_nonneg _)
      · exact right l hl

/-- The state of a run over canonical text within so many levels. -/
structure State.Canonical (step : IndentWidth) (n : Nat) (s : State) : Prop where
  levels_eq : s.levels = ladder step n
  /-- The line before stands at the innermost level. -/
  width_eq : s.width = step.columns * ((n : Int) - 1)

theorem State.canonical_start (step : IndentWidth) : State.Canonical step 1 {} :=
  ⟨by simp [ladder], by simp⟩

theorem columns_mul_lt (step : IndentWidth) {m n : Int} (h : m < n) :
    (step.columns : Int) * m < step.columns * n :=
  Int.mul_lt_mul_of_pos_left h (Int.natCast_pos.2 step.columns_pos)

/-- A line of the text that stands a step to the right of the innermost level opens a scope. -/
theorem State.Canonical.enter {step : IndentWidth} {n : Nat} (c : s.Canonical step n)
    (w : line.width o.tabWidth = step.columns * n) :
    Turns o s line
      ⟨[.indent line.number],
        [⟨line.width o.tabWidth, line.number, classify (s.header.getD line.content)⟩], []⟩
      (ladder step (n + 1)) := by
  have right : s.width < line.width o.tabWidth := by
    rw [c.width_eq, w]
    exact columns_mul_lt step (by omega)
  have t : Turns o s line _ _ := .enter right
  rwa [c.levels_eq, w, ← ladder, ← w] at t

/-- A line of the text that stands at a level closes the scopes to its right, and nothing about it is
doubtful. -/
theorem State.Canonical.leave {step : IndentWidth} {k n : Nat} (c : s.Canonical step (k + (n + 1)))
    (w : line.width o.tabWidth = step.columns * n) :
    Turns o s line ⟨List.replicate k (.dedent line.number), [], []⟩ (ladder step (n + 1)) := by
  obtain ⟨inner, rungs, rfl, right⟩ := ladder_add step k (n + 1)
  have left : line.width o.tabWidth ≤ s.width := by
    rw [c.width_eq, w]
    exact Int.mul_le_mul_of_nonneg_left (by omega) (Int.natCast_nonneg _)
  have beyond : ∀ l ∈ inner, line.width o.tabWidth < l := by
    intro l hl
    have := columns_mul_lt step (m := n) (n := ((n + 1 : Nat) : Int)) (by omega)
    have := right l hl
    omega
  have levels_eq : s.levels = inner ++ line.width o.tabWidth :: ladder step n := by
    rw [c.levels_eq, rungs, ladder, w]
  have t : Turns o s line _ _ := .leave left levels_eq beyond (Int.le_refl _)
  rwa [if_pos (.inl rfl), w, ← ladder] at t

/-- Where a line of the text stands at the innermost of as many levels as there are in the source, its turn
opens and closes the same scopes, and nothing about it is doubtful. -/
theorem Turns.canonical {o₂ : Options} {s₂ : State} {line₂ : CodeLine} {step : IndentWidth}
    (t : Turns o s line turn levels) (c : s₂.Canonical step s.levels.length)
    (w : line₂.width o₂.tabWidth = step.columns * ((levels.length : Int) - 1)) :
    ∃ turn₂, Turns o₂ s₂ line₂ turn₂ (ladder step levels.length) ∧
      turn₂.tokens.map Token.face = turn.tokens.map Token.face ∧ turn₂.diagnostics = [] := by
  cases t with
  | enter _ =>
    have top : line₂.width o₂.tabWidth = step.columns * (s.levels.length : Int) := by
      rw [w, List.length_cons]
      congr 1
      omega
    exact ⟨_, c.enter top, rfl, rfl⟩
  | @leave closed outer level _ split _ _ =>
    have top : line₂.width o₂.tabWidth = step.columns * (outer.length : Int) := by
      rw [w, List.length_cons]
      congr 1
      omega
    rw [split, List.length_append, List.length_cons] at c
    exact ⟨_, c.leave top, by simp [Token.face, Token.dedent], rfl⟩

/-! ### The run over the text -/

/-- A token of the source as it comes back from canonical text. -/
def Token.returned (t : Token) : Kind × List Char := (t.kind, Text.dropReturn t.payload)

theorem Token.IsLaid.returned_eq {u : Token} (h : u.IsLaid) (added : u.kind ≠ .code) :
    u.returned = u.face := by
  obtain ⟨kind, payload, line, column⟩ := u
  have fixed := h.fixed
  cases kind with
  | code => exact absurd rfl added
  | _ =>
    obtain rfl := fixed _ rfl
    rfl

theorem Turns.map_returned (t : Turns o s line turn levels) :
    turn.tokens.map Token.returned = turn.tokens.map Token.face :=
  List.map_congr_left fun u hu => (t.isLaid u hu).returned_eq (t.kind_ne_code hu)

theorem CodeLine.map_returned {o₂ : Options} {line₂ : CodeLine} (newlines : o₂.newlines = o.newlines)
    (h : line₂.content = Text.dropReturn line.content) :
    (line₂.tokens o₂).map Token.face = (line.tokens o).map Token.returned := by
  unfold CodeLine.tokens
  rw [newlines]
  split <;> simp [Token.face, Token.returned, Token.code, Token.newline, h, Text.dropReturn]

/-- **The run over the canonical text of a run gives the same tokens**, each without the carriage return at
its end, as long as something is left of every content. It reports nothing and keeps to the ladder. -/
theorem Reached.canonical (h : Reached o lines out s) {o₂ : Options} (newlines : o₂.newlines = o.newlines)
    (contents : ∀ line ∈ lines, IsContent line.content)
    (left : ∀ line ∈ lines, Text.dropReturn line.content ≠ []) (step : IndentWidth) :
    ∃ out₂ s₂, Reached o₂ (codeLines (render step out.tokens)) out₂ s₂ ∧
      s₂.Canonical step s.levels.length ∧
      out₂.tokens.map Token.face = out.tokens.map Token.returned ∧ out₂.diagnostics = [] := by
  induction h with
  | start => exact ⟨{}, {}, .start, State.canonical_start step, rfl, rfl⟩
  | @next lines out s line turn levels before t ih =>
    obtain ⟨out₂, s₂, reached, canonical, same, nothing⟩ :=
      ih (fun l hl => contents l (List.mem_append_left _ hl)) fun l hl => left l (List.mem_append_left _ hl)
    have content := (contents line (by simp)).dropReturn (left line (by simp))
    rw [before.codeLines_render_next t (contents line (by simp)),
      codeLinesFrom_content (fun c hc => isMarginChar_of_mem_canonicalMargin hc) content]
    generalize 1 + ((Text.lines (render step out.tokens)).length : Int) = number
    generalize written : CodeLine.mk number (canonicalMargin step ((levels.length : Int) - 1))
      (Text.dropReturn line.content) = line₂
    have width : line₂.width o₂.tabWidth = step.columns * ((levels.length : Int) - 1) := by
      have := (t.sound before.sound).length_pos
      rw [CodeLine.levels_state] at this
      rw [← written, CodeLine.width]
      exact width_canonicalMargin (by omega) _
    obtain ⟨turn₂, t₂, same_turn, nothing_turn⟩ := t.canonical canonical width
    refine ⟨_, _, reached.next t₂, ⟨rfl, width⟩, ?_, ?_⟩
    · have same_line : (line₂.tokens o₂).map Token.face = (line.tokens o).map Token.returned :=
        CodeLine.map_returned newlines (by rw [← written])
      simp only [Emission.tokens_append, CodeLine.tokens_emission, List.map_append, same, same_turn,
        same_line, t.map_returned]
    · have not_mixed : line₂.mixed o₂ = [] := by
        rw [← written]
        exact CodeLine.mixed_canonicalMargin ..
      simp [nothing, nothing_turn, not_mixed]

end Offside.Layout
