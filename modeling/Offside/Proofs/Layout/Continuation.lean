import Offside.Proofs.Layout.Numbering

/-!
# Sources that go on

What is given for the first lines of a source does not depend on how the source goes on, and nothing of it is taken
back: tokens, scopes and diagnostics are only ever added to. So a source can be laid out while it is still being
written, and only what is closed at its end has to be given up when more lines come.

## The model

`Emission.upTo n` is what is given on the first `n` lines. A run over a source passes the state that these lines
lead to, and what it adds from there on is on later lines (`exists_run_firstLines`); the end of the source is on a
later line too. So what is given on the first `n` lines is what their code lines lead to, and this is the same for
all sources that begin with these lines (`Reached.unique`).
-/

namespace Offside.Layout

/-! ### What is given first -/

/-- What is given on the lines up to a number. -/
def Emission.upTo (n : Int) (out : Emission) : Emission :=
  ⟨out.tokens.filter (·.line ≤ n), out.scopes.filter (·.line ≤ n), out.diagnostics.filter (·.line ≤ n)⟩

/-- All of one is what the other begins with. -/
structure Emission.Begins (a b : Emission) : Prop where
  tokens : a.tokens <+: b.tokens
  scopes : a.scopes <+: b.scopes
  diagnostics : a.diagnostics <+: b.diagnostics

theorem Emission.begins_append (a b : Emission) : a.Begins (a ++ b) :=
  ⟨List.prefix_append _ _, List.prefix_append _ _, List.prefix_append _ _⟩

theorem Emission.upTo_append {n : Int} {earlier later : Emission} (before : earlier.On (· ≤ n))
    (after : later.On (n < ·)) : (earlier ++ later).upTo n = earlier := by
  have kept {α : Type} {f : α → Int} {xs ys : List α} (le : ∀ x ∈ xs, f x ≤ n) (gt : ∀ y ∈ ys, n < f y) :
      (xs ++ ys).filter (fun x => decide (f x ≤ n)) = xs := by
    rw [List.filter_append, List.filter_eq_self.2 fun x hx => decide_eq_true (le x hx),
      List.filter_eq_nil_iff.2 fun y hy => ?_, List.append_nil]
    have := gt y hy
    simp only [decide_eq_true_eq]
    omega
  simp only [upTo, Emission.append_def, kept before.token after.token, kept before.scope after.scope,
    kept before.diagnostic after.diagnostic]

/-! ### The first lines of a source -/

variable {o : Options} {source source' : List Char} {n : Nat}

theorem codeLines_eq_firstCodeLines_append (le : n ≤ (Text.lines source).length) :
    codeLines source = firstCodeLines n source ++ codeLinesFrom (1 + n) ((Text.lines source).drop n) := by
  have count : ((Text.lines source).take n).length = n := List.length_take_of_le le
  conv => lhs; rw [codeLines, ← List.take_append_drop n (Text.lines source), codeLinesFrom_append, count]
  rfl

theorem number_le_of_mem_firstCodeLines {line : CodeLine} (h : line ∈ firstCodeLines n source) :
    line.number ≤ n := by
  have := number_lt_of_mem_codeLinesFrom h
  have := List.length_take_le n (Text.lines source)
  omega

/-- **A run passes what the first lines lead to, and adds to it on later lines only.** -/
theorem exists_run_firstLines (h : 0 ≤ o.tabWidth) (le : n ≤ (Text.lines source).length) :
    ∃ out s later, Reached o (firstCodeLines n source) out s ∧ (run o source).toEmission = out ++ later ∧
      out.On (· ≤ n) ∧ later.On ((n : Int) < ·) := by
  obtain ⟨all, s, reached, whole⟩ := exists_run h source
  rw [codeLines_eq_firstCodeLines_append le] at reached
  obtain ⟨out, s₁, later, first_reached, rfl, on⟩ := reached.exists_append
  have ending : Emission.On ((n : Int) < ·) { tokens := closing ((Text.lines source).length + 1) s.levels } := by
    refine ⟨fun t ht => ?_, by simp, by simp⟩
    rw [line_of_mem_closing ht]
    omega
  refine ⟨out, s₁, later ++ { tokens := closing ((Text.lines source).length + 1) s.levels }, first_reached, ?_,
    first_reached.on.imp fun m hm => ?_, (on.imp fun m hm => ?_).append ending⟩
  · rw [whole, Emission.append_assoc]
  · obtain ⟨line, hl, rfl⟩ := List.mem_map.1 hm
    exact number_le_of_mem_firstCodeLines hl
  · obtain ⟨line, hl, rfl⟩ := List.mem_map.1 hm
    have := le_number_of_mem_codeLinesFrom hl
    omega

theorem exists_reached_upTo (h : 0 ≤ o.tabWidth) (le : n ≤ (Text.lines source).length) :
    ∃ s, Reached o (firstCodeLines n source) ((run o source).upTo n) s ∧
      ((run o source).upTo n).Begins (run o source).toEmission := by
  obtain ⟨out, s, later, reached, whole, before, after⟩ := exists_run_firstLines h le
  rw [whole, Emission.upTo_append before after]
  exact ⟨s, reached, out.begins_append later⟩

theorem firstCodeLines_append {first : List Char} (ended : first = [] ∨ first.getLast? = some '\n')
    (second : List Char) :
    firstCodeLines (Text.lines first).length (first ++ second) = codeLines first := by
  rw [firstCodeLines, Text.lines_append ended, List.take_left, codeLines]

theorem upTo_run_eq (h : 0 ≤ o.tabWidth) (le : n ≤ (Text.lines source).length) (le' : n ≤ (Text.lines source').length)
    (same : (Text.lines source).take n = (Text.lines source').take n) :
    (run o source).upTo n = (run o source').upTo n ∧ ((run o source).upTo n).Begins (run o source).toEmission ∧
      ((run o source').upTo n).Begins (run o source').toEmission := by
  obtain ⟨s, reached, begins⟩ := exists_reached_upTo h le
  obtain ⟨s', reached', begins'⟩ := exists_reached_upTo h le'
  have lines_eq : firstCodeLines n source' = firstCodeLines n source := by
    rw [firstCodeLines, firstCodeLines, same]
  rw [lines_eq] at reached'
  exact ⟨(reached.unique reached').1, begins, begins'⟩

/-- What the lines of a text lead to is given first when the text goes on. -/
theorem Reached.begins_run_append {first : List Char} {out : Emission} {s : State}
    (reached : Reached o (codeLines first) out s) (h : 0 ≤ o.tabWidth)
    (ended : first = [] ∨ first.getLast? = some '\n') (second : List Char) :
    out.Begins (run o (first ++ second)).toEmission := by
  have longer : (Text.lines first).length ≤ (Text.lines (first ++ second)).length := by
    rw [Text.lines_append ended, List.length_append]
    omega
  obtain ⟨out', s', later, reached', whole, -, -⟩ := exists_run_firstLines h longer
  rw [firstCodeLines_append ended] at reached'
  obtain ⟨rfl, rfl⟩ := reached.unique reached'
  rw [whole]
  exact out.begins_append later

theorem Reached.length_levels_eq {lines : List CodeLine} {out : Emission} {s : State} (h : Reached o lines out s) :
    ((s.levels.length - 1 : Nat) : Int) = countKind .indent out.tokens - countKind .dedent out.tokens := by
  have open_scopes := h.depth_eq
  have some_level := h.sound.length_pos
  rw [depth_eq_count] at open_scopes
  omega

/-- **What is given for the first lines of a source does not depend on the others, and is given first.** So when a
text that ends its last line goes on, all stays that was given for it but what was closed at its end; and that was
just what was open. -/
theorem upTo_run_eq_of_take_lines_eq (h : 0 < o.tabWidth) :
    (∀ (n : Nat) (source source' : List Char), n ≤ (Text.lines source).length → n ≤ (Text.lines source').length →
      (Text.lines source).take n = (Text.lines source').take n →
      (run o source).upTo n = (run o source').upTo n ∧
        ((run o source).upTo n).Begins (run o source).toEmission ∧
        ((run o source').upTo n).Begins (run o source').toEmission) ∧
    ∀ first second : List Char, (first = [] ∨ first.getLast? = some '\n') →
      ∃ body closed, (run o first).tokens = body ++
          (List.replicate closed (.dedent ((Text.lines first).length + 1)) ++
            [.endOfFile ((Text.lines first).length + 1)]) ∧
        (∀ t ∈ body.getLast?, t.kind ≠ .dedent) ∧
        (closed : Int) = countKind .indent body - countKind .dedent body ∧
        body <+: (run o (first ++ second)).tokens ∧
        (run o first).scopes <+: (run o (first ++ second)).scopes ∧
        (run o first).diagnostics <+: (run o (first ++ second)).diagnostics := by
  have nonneg := Int.le_of_lt h
  refine ⟨fun n source source' le le' same => upTo_run_eq nonneg le le' same, ?_⟩
  intro first second ended
  obtain ⟨out, s, reached, whole⟩ := exists_run nonneg first
  have begins := reached.begins_run_append nonneg ended second
  refine ⟨out.tokens, s.levels.length - 1, by rw [whole]; rfl, fun t ht => ?_, reached.length_levels_eq,
    begins.tokens, ?_, ?_⟩
  · rcases reached.kind_of_getLast t ht with kind | kind <;> simp [kind]
  · simpa [whole] using begins.scopes
  · simpa [whole] using begins.diagnostics

/-- Two sources that part after a misaligned line, and a text that goes on within its innermost scope. -/
theorem upTo_run_eq_misaligned :
    (0 : Int) < 4 ∧
      (Text.lines "a\n\tb\n  c\n\td".toList).take 3 = (Text.lines "a\n\tb\n  c\ne\n\n".toList).take 3 ∧
      (run { tabWidth := 4 } "a\n\tb\n  c\n\td".toList).upTo 3 =
        (run { tabWidth := 4 } "a\n\tb\n  c\ne\n\n".toList).upTo 3 ∧
      ∃ body closed, (run { tabWidth := 4 } "a\n\tb\n".toList).tokens = body ++
          (List.replicate closed (.dedent 3) ++ [.endOfFile 3]) ∧
        (closed : Int) = countKind .indent body - countKind .dedent body ∧
        body <+: (run { tabWidth := 4 } ("a\n\tb\n".toList ++ "\tc".toList)).tokens := by
  have same : (Text.lines "a\n\tb\n  c\n\td".toList).take 3 = (Text.lines "a\n\tb\n  c\ne\n\n".toList).take 3 := by
    decide
  have apart := (upTo_run_eq_of_take_lines_eq (o := { tabWidth := 4 }) (by decide)).1 3 _ _ (by decide) (by decide)
    same
  obtain ⟨body, closed, tokens_eq, -, count, begins, -, -⟩ :=
    (upTo_run_eq_of_take_lines_eq (o := { tabWidth := 4 }) (by decide)).2 "a\n\tb\n".toList "\tc".toList
      (.inr (by decide))
  exact ⟨by decide, same, apart.1, body, closed, tokens_eq, count, begins⟩

end Offside.Layout
