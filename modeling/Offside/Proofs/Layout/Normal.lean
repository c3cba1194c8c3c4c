import Offside.Proofs.Layout.Image
import Offside.Proofs.Layout.RoundTrip

/-!
# Canonical text is a normal form

A source that is laid out from canonical text is in normal form: every physical line is a code line and stands
a whole number of steps to the right, one for each scope around it, and nothing about it is doubtful. Which
normal form it is depends on the step alone, so writing it out again forgets all steps but the last.

## The model

`IsNormal` says where code lines and scopes stand in a layout without looking at its text. The code lines of
canonical text are known from the tokens that it is written from (`codeLines_render`), and only what the tokens
say counts for them (`canonicalLines_of_map_face`). Since the layout of the text says the same, its own tokens
tell where its code lines stand. A scope stands where the code line after its opening does, and its category is
that of the code line before (`Accounts`); so all scopes are known from the tokens too.
-/

namespace Offside.Layout

/-- The layout of a source in which each scope stands one step to the right of the scope around it. -/
structure IsNormal (step : IndentWidth) (r : Result) : Prop where
  finished : r.finished = true
  diagnostics_eq : r.diagnostics = []
  /-- There is one code line to each physical line, and it stands at the innermost scope. -/
  code : ∀ before t after, r.tokens = before ++ t :: after → t.kind = .code →
    t.line = (countKind .code before : Int) + 1 ∧ t.column = step.columns * depth before
  /-- There is one scope for each token that opens one, in order. -/
  length_scopes : r.scopes.length = countKind .indent r.tokens
  /-- A scope stands as many steps to the right as there are scopes open in it. -/
  level : ∀ before t after, r.tokens = before ++ t :: after → t.kind = .indent →
    ∃ scope, r.scopes[countKind .indent before]? = some scope ∧
      scope.level = step.columns * (depth before + 1)

/-! ### The code lines of canonical text -/

/-- The code lines that tokens within so many open scopes are written as, numbered from `n` on. -/
def canonicalLines (step : IndentWidth) (n depth' : Int) : List Token → List CodeLine
  | [] => []
  | t :: rest =>
    match t.kind with
    | .code => ⟨n, canonicalMargin step depth', t.payload⟩ :: canonicalLines step (n + 1) depth' rest
    | kind => canonicalLines step n (depth' + kind.change) rest

variable {step : IndentWidth} {tokens tokens' : List Token}

theorem codeLinesFrom_lines_canonical {text : List Char} (content : IsContent text)
    (clean : text.getLast? ≠ some '\r') (n depth' : Int) (rest : List Char) :
    codeLinesFrom n (Text.lines (canonicalMargin step depth' ++ text ++ '\n' :: rest)) =
      ⟨n, canonicalMargin step depth', text⟩ :: codeLinesFrom (n + 1) (Text.lines rest) := by
  have single : '\n' ∉ canonicalMargin step depth' ++ text := by
    rw [List.mem_append, not_or]
    refine ⟨fun mem => ?_, content.single⟩
    have := isMarginChar_of_mem_canonicalMargin mem
    simp [isMarginChar] at this
  have line_eq : Text.lines (canonicalMargin step depth' ++ text ++ ['\n']) =
      [canonicalMargin step depth' ++ text] := by
    rw [Text.lines_terminated single, Text.dropReturn_append _ content.ne_nil,
      Text.dropReturn_eq_self_iff.2 clean]
  have ended : (canonicalMargin step depth' ++ text ++ ['\n']).getLast? = some '\n' := by simp
  rw [← List.singleton_append (x := '\n'), ← List.append_assoc, Text.lines_append (.inr ended), line_eq,
    codeLinesFrom_append, codeLinesFrom_content fun _ hc => isMarginChar_of_mem_canonicalMargin hc]
  · rfl
  · exact content

theorem codeLinesFrom_lines_renderFrom (contents : ∀ t ∈ tokens, t.kind = .code → IsContent t.payload)
    (clean : ∀ t ∈ tokens, t.kind = .code → t.payload.getLast? ≠ some '\r') (n depth' : Int) :
    codeLinesFrom n (Text.lines (renderFrom step depth' tokens)) = canonicalLines step n depth' tokens := by
  induction tokens generalizing n depth' with
  | nil => rfl
  | cons t rest ih =>
    have tail := ih (fun u hu => contents u (List.mem_cons_of_mem _ hu))
      fun u hu => clean u (List.mem_cons_of_mem _ hu)
    have head := contents t List.mem_cons_self
    have head_clean := clean t List.mem_cons_self
    obtain ⟨kind, payload, line, column⟩ := t
    cases kind with
    | code =>
      rw [renderFrom, codeLinesFrom_lines_canonical (head rfl) (head_clean rfl), tail, canonicalLines]
    | indent => exact tail n (depth' + 1)
    | dedent => exact tail n (depth' + -1)
    | newline => simpa [renderFrom, canonicalLines, Kind.change] using tail n depth'
    | endOfFile => simpa [renderFrom, canonicalLines, Kind.change] using tail n depth'

/-- Canonical text has the code lines that its tokens tell. -/
theorem codeLines_render (contents : ∀ t ∈ tokens, t.kind = .code → IsContent t.payload)
    (clean : ∀ t ∈ tokens, t.kind = .code → t.payload.getLast? ≠ some '\r') :
    codeLines (render step tokens) = canonicalLines step 1 0 tokens :=
  codeLinesFrom_lines_renderFrom contents clean 1 0

theorem canonicalLines_append (n depth' : Int) (first second : List Token) :
    canonicalLines step n depth' (first ++ second) =
      canonicalLines step n depth' first ++
        canonicalLines step (n + countKind .code first) (depth' + depth first) second := by
  induction first generalizing n depth' with
  | nil => simp [canonicalLines]
  | cons t rest ih =>
    obtain ⟨kind, payload, line, column⟩ := t
    cases kind <;> simp [canonicalLines, ih, countKind_cons, Kind.change, Int.add_assoc, Int.add_comm]

theorem length_canonicalLines (n depth' : Int) (tokens : List Token) :
    (canonicalLines step n depth' tokens).length = (codes tokens).length := by
  induction tokens generalizing n depth' with
  | nil => rfl
  | cons t rest ih =>
    obtain ⟨kind, payload, line, column⟩ := t
    cases kind <;> simp_all [canonicalLines, codes]

/-! ### Only what tokens say counts -/

theorem renderFrom_of_map_face (same : tokens'.map Token.face = tokens.map Token.face) (depth' : Int) :
    renderFrom step depth' tokens' = renderFrom step depth' tokens := by
  induction tokens generalizing tokens' depth' with
  | nil =>
    obtain rfl := List.map_eq_nil_iff.1 same
    rfl
  | cons t rest ih =>
    obtain ⟨t', rest', rfl, face, rest_same⟩ := List.map_eq_cons_iff.1 same
    obtain ⟨kind, payload, line, column⟩ := t
    obtain ⟨kind', payload', line', column'⟩ := t'
    obtain ⟨rfl, rfl⟩ := Prod.mk.inj face
    cases kind' <;> simp [renderFrom, ih rest_same]

theorem canonicalLines_of_map_face (same : tokens'.map Token.face = tokens.map Token.face) (n depth' : Int) :
    canonicalLines step n depth' tokens' = canonicalLines step n depth' tokens := by
  induction tokens generalizing tokens' n depth' with
  | nil =>
    obtain rfl := List.map_eq_nil_iff.1 same
    rfl
  | cons t rest ih =>
    obtain ⟨t', rest', rfl, face, rest_same⟩ := List.map_eq_cons_iff.1 same
    obtain ⟨kind, payload, line, column⟩ := t
    obtain ⟨kind', payload', line', column'⟩ := t'
    obtain ⟨rfl, rfl⟩ := Prod.mk.inj face
    cases kind' <;> simp [canonicalLines, ih rest_same]

theorem lastCode?_of_map_face (same : tokens'.map Token.face = tokens.map Token.face) :
    lastCode? tokens' = lastCode? tokens := by
  rw [lastCode?, lastCode?, ← List.getLast?_map, ← List.getLast?_map, map_payload_codes, map_payload_codes,
    same]

/-- So many tokens of a kind come before one that has more of it before its end. -/
theorem exists_split_of_lt_countKind {kind : Kind} {i : Nat} (h : i < countKind kind tokens) :
    ∃ before t after, tokens = before ++ t :: after ∧ t.kind = kind ∧ countKind kind before = i := by
  induction tokens generalizing i with
  | nil => cases h
  | cons t rest ih =>
    rw [countKind_cons] at h
    by_cases here : t.kind = kind
    · rw [if_pos here] at h
      cases i with
      | zero => exact ⟨[], t, rest, rfl, here, rfl⟩
      | succ i =>
        obtain ⟨before, u, after, rfl, kind_eq, count⟩ := ih (Nat.lt_of_succ_lt_succ h)
        exact ⟨t :: before, u, after, rfl, kind_eq, by rw [countKind_cons, if_pos here, count]⟩
    · rw [if_neg here] at h
      obtain ⟨before, u, after, rfl, kind_eq, count⟩ := ih h
      exact ⟨t :: before, u, after, rfl, kind_eq, by rw [countKind_cons, if_neg here, count, Nat.add_zero]⟩

/-- Tokens that say the same open scopes of the same categories. -/
theorem Accounts.map_category {scopes scopes' : List Scope} (h : Accounts tokens scopes)
    (h' : Accounts tokens' scopes') (same : tokens'.map Token.face = tokens.map Token.face) :
    scopes'.map Scope.category = scopes.map Scope.category := by
  have as_many : countKind .indent tokens' = countKind .indent tokens := by
    rw [← countP_map_face, same, countP_map_face]
  refine List.ext_getElem? fun i => ?_
  rcases Nat.lt_or_ge i (countKind .indent tokens) with lt | ge
  · obtain ⟨before, t, after, split, opens, rfl⟩ := exists_split_of_lt_countKind lt
    obtain ⟨c, rest, rfl, -, entered⟩ := h.entry before t after split opens
    have same_here : tokens'.map Token.face = before.map Token.face ++ t.face :: (c :: rest).map Token.face := by
      rw [same, split, List.map_append, List.map_cons]
    obtain ⟨before', t', after', split', before_same, face, after_same⟩ := exists_split_of_map_face same_here
    obtain ⟨c', rest', rfl, -, entered'⟩ := h'.entry before' t' after' split'
      ((congrArg Prod.fst face).trans opens)
    have count : countKind .indent before' = countKind .indent before := by
      rw [← countP_map_face, before_same, countP_map_face]
    have content : c'.payload = c.payload := congrArg Prod.snd (List.cons.inj after_same).1
    rw [count] at entered'
    rw [List.getElem?_map, List.getElem?_map, entered, entered', lastCode?_of_map_face before_same, content]
    rfl
  · rw [List.getElem?_eq_none, List.getElem?_eq_none]
    · rwa [List.length_map, h.length_eq]
    · rwa [List.length_map, h'.length_eq, as_many]

/-! ### The layout of canonical text -/

variable {o : Options} {source : List Char}

/-- Where no content ends in a carriage return, canonical text gives back what the tokens say. -/
theorem map_face_run_render_of_clean (h : 0 ≤ o.tabWidth) (step : IndentWidth)
    (clean : ∀ t ∈ (run o source).tokens, t.kind = .code → t.payload.getLast? ≠ some '\r') :
    (∀ line ∈ codeLines source, Text.dropReturn line.content ≠ []) ∧
      (run o (render step (run o source).tokens)).tokens.map Token.face =
        (run o source).tokens.map Token.face := by
  have kept : ∀ line ∈ codeLines source, Text.dropReturn line.content = line.content := by
    intro line hl
    have mem : line.token o ∈ codes (run o source).tokens := by
      rw [codes_run h]
      exact List.mem_map_of_mem hl
    exact Text.dropReturn_eq_self_iff.2 (clean _ (List.mem_filter.1 mem).1 rfl)
  have left : ∀ line ∈ codeLines source, Text.dropReturn line.content ≠ [] := by
    intro line hl
    rw [kept line hl]
    exact (isContent_of_mem_codeLines hl).ne_nil
  obtain ⟨out, s, reached, -⟩ := exists_run h source
  refine ⟨left, ?_⟩
  rw [map_face_run_render h rfl left, reached.run_eq, Emission.tokens_append, List.map_append,
    List.map_append, reached.map_returned kept, map_returned_closing]

/-- The tokens of a source are complete. -/
theorem complete_run (h : 0 ≤ o.tabWidth) (source : List Char) :
    Complete (Text.lines source).length (run o source) := by
  obtain ⟨out, s, reached, whole⟩ := exists_run h source
  exact whole ▸ reached.complete _

/-- Where the code lines of a layout are those that its own tokens are written as, they stand in order and at
the innermost scopes. -/
theorem code_of_codes_eq (complete : NeverNegative tokens)
    (own : codes tokens = (canonicalLines step 1 0 tokens).map (·.token o)) :
    ∀ before t after, tokens = before ++ t :: after → t.kind = .code →
      t.line = (countKind .code before : Int) + 1 ∧ t.column = step.columns * depth before := by
  intro before t after split code
  have nonneg : 0 ≤ depth before := complete before ⟨t :: after, split.symm⟩
  have lines_eq : canonicalLines step 1 0 (before ++ t :: after) =
      canonicalLines step 1 0 before ++
        ⟨1 + countKind .code before, canonicalMargin step (depth before), t.payload⟩ ::
          canonicalLines step (1 + countKind .code before + 1) (depth before) after := by
    rw [canonicalLines_append, Int.zero_add]
    obtain ⟨kind, payload, line, column⟩ := t
    obtain rfl : kind = .code := code
    rfl
  have codes_eq : codes (before ++ t :: after) = codes before ++ t :: codes after := by
    simp [codes, code]
  rw [split, codes_eq, lines_eq, List.map_append, List.map_cons] at own
  have as_many : (codes before).length = ((canonicalLines step 1 0 before).map (·.token o)).length := by
    rw [List.length_map, length_canonicalLines]
  have here := (List.cons.inj (List.append_inj own as_many).2).1
  constructor
  · rw [here, Int.add_comm]
    rfl
  · rw [here]
    exact width_canonicalMargin nonneg _

/-- **Canonical text is in normal form.** Where no content ends in a carriage return, the layout of the text
has the scopes that its source has, as categories, and writing it out with another step gives what the source
gives with that step. -/
theorem run_render_isNormal (h : 0 < o.tabWidth) (step : IndentWidth) (source : List Char)
    (clean : ∀ t ∈ (run o source).tokens, t.kind = .code → t.payload.getLast? ≠ some '\r') :
    IsNormal step (run o (render step (run o source).tokens)) ∧
      (run o (render step (run o source).tokens)).scopes.map Scope.category =
        (run o source).scopes.map Scope.category ∧
      ∀ other : IndentWidth, render other (run o (render step (run o source).tokens)).tokens =
        render other (run o source).tokens := by
  have nonneg := Int.le_of_lt h
  obtain ⟨left, same⟩ := map_face_run_render_of_clean nonneg step clean
  have complete := complete_run nonneg source
  have complete' := complete_run nonneg (render step (run o source).tokens)
  have contents : ∀ t ∈ (run o source).tokens, t.kind = .code → IsContent t.payload := fun t ht =>
    (isLaid_of_mem_run nonneg t ht).content
  -- the layout of the text tells its own code lines, as it says what the tokens of the source say
  have own := codes_run nonneg (render step (run o source).tokens)
  rw [codeLines_render contents clean, ← canonicalLines_of_map_face same] at own
  have code := code_of_codes_eq complete'.neverNegative own
  refine ⟨⟨complete'.finished, diagnostics_run_render nonneg rfl left step, code,
    complete'.accounts.length_eq, ?_⟩, complete.accounts.map_category complete'.accounts same,
    fun other => renderFrom_of_map_face same 0⟩
  intro before t after split opens
  obtain ⟨c, rest, rfl, is_code, entered⟩ := complete'.accounts.entry before t after split opens
  refine ⟨_, entered, ?_⟩
  have place := (code (before ++ [t]) c rest (by rw [split, List.append_assoc]; rfl) is_code).2
  rw [place, depth_append, depth_cons, opens]
  rfl

/-- An indented first line, and one that stands in none of the columns still open. -/
theorem run_render_isNormal_misaligned :
    (0 : Int) < 8 ∧
      (∀ t ∈ (run { tabWidth := 8, warnMixed := true } "  fn f\n\ta\n \t b\n    c\nd".toList).tokens,
        t.kind = .code → t.payload.getLast? ≠ some '\r') ∧
      IsNormal { columns := 5 } (run { tabWidth := 8, warnMixed := true } (render { columns := 5 }
        (run { tabWidth := 8, warnMixed := true } "  fn f\n\ta\n \t b\n    c\nd".toList).tokens)) :=
  have clean : ∀ t ∈ (run { tabWidth := 8, warnMixed := true } "  fn f\n\ta\n \t b\n    c\nd".toList).tokens,
      t.kind = .code → t.payload.getLast? ≠ some '\r' := by decide
  ⟨by decide, clean, (run_render_isNormal (o := { tabWidth := 8, warnMixed := true }) (by decide) { columns := 5 }
    _ clean).1⟩

end Offside.Layout
