import Offside.Proofs.Layout.Canonical

/-!
# From tokens to text and back

When canonical text gives the tokens back that it was written from. Nothing about the source matters but
the ends of its lines: of the carriage returns at the end of a line only one is taken away, so one may be
left at the end of a content, and it is taken away when the canonical text is laid out.
-/

namespace Offside.Layout

variable {o : Options} {s : State} {out : Emission}

/-- What a source leaves open at its end is not written. -/
theorem Reached.render_run {source : List Char} (h : Reached o (codeLines source) out s)
    (step : IndentWidth) : render step (run o source).tokens = render step out.tokens := by
  have none : renderFrom step (0 + depth out.tokens)
      (closing ((Text.lines source).length + 1) s.levels) = [] :=
    renderFrom_eq_nil (fun _ hu => kind_ne_code_of_mem_closing hu) step _
  rw [h.run_eq, render, Emission.tokens_append, renderFrom_append, none, List.append_nil, render]

theorem map_face_closing {levels levels' : List Int} (h : levels.length = levels'.length) (n n' : Int) :
    (closing n levels).map Token.face = (closing n' levels').map Token.face := by
  simp [closing, h, Token.face, Token.dedent, Token.endOfFile]

theorem map_returned_closing (n : Int) (levels : List Int) :
    (closing n levels).map Token.returned = (closing n levels).map Token.face :=
  List.map_congr_left fun u hu =>
    (isLaid_closing n levels u hu).returned_eq (kind_ne_code_of_mem_closing hu)

/-- **Canonical text gives the tokens of a source back**, each without the carriage return at its end, as
long as something is left of every content. -/
theorem map_face_run_render {source : List Char} {o₂ : Options} (h : 0 ≤ o.tabWidth)
    (newlines : o₂.newlines = o.newlines)
    (left : ∀ line ∈ codeLines source, Text.dropReturn line.content ≠ []) (step : IndentWidth) :
    (run o₂ (render step (run o source).tokens)).tokens.map Token.face =
      (run o source).tokens.map Token.returned := by
  obtain ⟨out, s, reached, -⟩ := exists_run h source
  obtain ⟨out₂, s₂, reached₂, canonical, same, -⟩ :=
    reached.canonical newlines (fun _ hl => isContent_of_mem_codeLines hl) left step
  have open_scopes : s₂.levels.length = s.levels.length := by rw [canonical.levels_eq, length_ladder]
  rw [reached.render_run, reached.run_eq, reached₂.run_eq]
  simp only [Emission.tokens_append, List.map_append, same, map_returned_closing]
  exact congrArg _ (map_face_closing open_scopes _ _)

theorem diagnostics_run_render {source : List Char} {o₂ : Options} (h : 0 ≤ o.tabWidth)
    (newlines : o₂.newlines = o.newlines)
    (left : ∀ line ∈ codeLines source, Text.dropReturn line.content ≠ []) (step : IndentWidth) :
    (run o₂ (render step (run o source).tokens)).diagnostics = [] := by
  obtain ⟨out, s, reached, -⟩ := exists_run h source
  obtain ⟨out₂, s₂, reached₂, -, -, nothing⟩ :=
    reached.canonical newlines (fun _ hl => isContent_of_mem_codeLines hl) left step
  rw [reached.render_run, reached₂.run_eq, Emission.diagnostics_append, nothing, List.append_nil]

/-- Where no content ends in a carriage return all tokens come back as they are. -/
theorem Reached.map_returned {lines : List CodeLine} (h : Reached o lines out s)
    (kept : ∀ line ∈ lines, Text.dropReturn line.content = line.content) :
    out.tokens.map Token.returned = out.tokens.map Token.face := by
  induction h with
  | start => rfl
  | @next _ _ _ line _ _ _ t ih =>
    have before := ih fun l hl => kept l (List.mem_append_left _ hl)
    have same := kept line (by simp)
    simp only [Emission.tokens_append, CodeLine.tokens_emission, List.map_append, before, t.map_returned,
      CodeLine.map_returned rfl same.symm]

theorem map_payload_codes (tokens : List Token) :
    (codes tokens).map Token.payload =
      ((tokens.map Token.face).filter (·.1 == .code)).map Prod.snd := by
  induction tokens with
  | nil => rfl
  | cons t rest ih => by_cases h : t.kind = .code <;> simp_all [codes, Token.face]

theorem map_payload_codes_run (h : 0 ≤ o.tabWidth) (source : List Char) :
    (codes (run o source).tokens).map Token.payload = (codeLines source).map CodeLine.content := by
  rw [codes_run h, List.map_map]
  rfl

/-- Where canonical text gives the same contents back, none of them ends in a carriage return. -/
theorem dropReturn_eq_of_contents_eq {contents : List (List Char)}
    (h : (contents.map Text.dropReturn).filter (· ≠ []) = contents) :
    ∀ c ∈ contents, Text.dropReturn c = c := by
  -- no content gets lost, as there are as many as before
  have all : (contents.map Text.dropReturn).filter (· ≠ []) = contents.map Text.dropReturn := by
    refine List.filter_eq_self.2 (List.length_filter_eq_length_iff.1 ?_)
    rw [h, List.length_map]
  rw [all] at h
  intro c hc
  have same : contents.map Text.dropReturn = contents.map id := by rw [h, List.map_id]
  exact List.map_inj_left.1 same c hc

/-- **Laying out the canonical text of a source gives its tokens back, as kinds and texts, exactly when no
content of a code line ends in a carriage return.** -/
theorem map_face_run_render_eq_iff (h : 0 < o.tabWidth) (step : IndentWidth) (source : List Char) :
    (run o (render step (run o source).tokens)).tokens.map Token.face =
        (run o source).tokens.map Token.face ↔
      ∀ t ∈ (run o source).tokens, t.kind = .code → t.payload.getLast? ≠ some '\r' := by
  have nonneg := Int.le_of_lt h
  constructor
  · intro same t ht code last
    obtain ⟨out, s, reached, -⟩ := exists_run nonneg source
    have contents : (codeLines (render step out.tokens)).map CodeLine.content =
        (codeLines source).map CodeLine.content := by
      rw [← map_payload_codes_run nonneg, ← map_payload_codes_run nonneg source, map_payload_codes,
        map_payload_codes, ← same, reached.render_run]
    rw [reached.contents_render (fun _ hl => isContent_of_mem_codeLines hl)] at contents
    have kept := dropReturn_eq_of_contents_eq contents t.payload (by
      rw [← map_payload_codes_run nonneg]
      exact List.mem_map_of_mem (List.mem_filter.2 ⟨ht, by simp [code]⟩))
    exact Text.dropReturn_eq_self_iff.1 kept last
  · intro clean
    have kept : ∀ line ∈ codeLines source, Text.dropReturn line.content = line.content := by
      intro line hl
      have ht : line.token o ∈ codes (run o source).tokens := by
        rw [codes_run nonneg]
        exact List.mem_map_of_mem hl
      exact Text.dropReturn_eq_self_iff.2 (clean _ (List.mem_filter.1 ht).1 rfl)
    have left : ∀ line ∈ codeLines source, Text.dropReturn line.content ≠ [] := by
      intro line hl
      rw [kept line hl]
      exact (isContent_of_mem_codeLines hl).ne_nil
    obtain ⟨out, s, reached, -⟩ := exists_run nonneg source
    rw [map_face_run_render nonneg rfl left, reached.run_eq, Emission.tokens_append, List.map_append,
      List.map_append, reached.map_returned kept, map_returned_closing]

/-- Tabs, a misaligned line and a carriage return within a line: the tokens come back. -/
theorem map_face_run_render_misaligned :
    (0 : Int) < 8 ∧
      (run { tabWidth := 8, newlines := true } (render { columns := 3 }
          (run { tabWidth := 8, newlines := true } "a\r\n\tb\rc\n  d".toList).tokens)).tokens.map Token.face =
        (run { tabWidth := 8, newlines := true } "a\r\n\tb\rc\n  d".toList).tokens.map Token.face :=
  ⟨by decide, (map_face_run_render_eq_iff (by decide) { columns := 3 } _).2 (by decide)⟩

/-- A line that ends in two carriage returns does not come back as it is. -/
theorem run_render_ne_of_two_returns :
    (run {} (render .standard (run {} "x\r\r\n".toList).tokens)).tokens.map Token.face ≠
      (run {} "x\r\r\n".toList).tokens.map Token.face := by
  decide

end Offside.Layout
