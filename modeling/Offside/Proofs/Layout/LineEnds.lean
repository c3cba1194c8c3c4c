import Offside.Layout.Canonical
import Offside.Proofs.Layout.Turn

/-!
# Tokens for the ends of lines

Of the options only the width of a tab decides how a source is laid out. Asking for the ends of lines adds
tokens between the others and changes none of them (`tokensWithin_run`), and since canonical text does not
show the ends of lines it is the same with them and without (`render_run_of_tabWidth`).
-/

namespace Offside.Layout

/-- The tokens that are not for the end of a line. -/
def tokensWithin (tokens : List Token) : List Token := tokens.filter (·.kind != .newline)

@[simp] theorem tokensWithin_append (first second : List Token) :
    tokensWithin (first ++ second) = tokensWithin first ++ tokensWithin second := List.filter_append ..

theorem tokensWithin_eq_self {tokens : List Token} (h : ∀ t ∈ tokens, t.kind ≠ .newline) :
    tokensWithin tokens = tokens :=
  List.filter_eq_self.2 fun t ht => bne_iff_ne.2 (h t ht)

theorem renderFrom_tokensWithin (step : IndentWidth) (depth' : Int) (tokens : List Token) :
    renderFrom step depth' (tokensWithin tokens) = renderFrom step depth' tokens := by
  induction tokens generalizing depth' with
  | nil => rfl
  | cons t rest ih =>
    obtain ⟨kind, payload, line, column⟩ := t
    rw [tokensWithin] at ih ⊢
    cases kind <;> simp [renderFrom, ih]

variable {o o' : Options} {s : State} {line : CodeLine} {turn : Emission} {levels : List Int}

theorem CodeLine.tokensWithin_tokens (o : Options) (line : CodeLine) :
    tokensWithin (line.tokens o) = [line.token o] := by
  unfold CodeLine.tokens
  split <;> rfl

theorem CodeLine.token_of_tabWidth (tab : o'.tabWidth = o.tabWidth) (line : CodeLine) :
    line.token o' = line.token o := by
  rw [CodeLine.token, CodeLine.token, tab]

theorem CodeLine.state_of_tabWidth (tab : o'.tabWidth = o.tabWidth) (line : CodeLine) (levels : List Int) :
    line.state o' levels = line.state o levels := by
  rw [CodeLine.state, CodeLine.state, tab]

theorem Turns.of_tabWidth (tab : o'.tabWidth = o.tabWidth) (t : Turns o s line turn levels) :
    Turns o' s line turn levels := by
  obtain ⟨tabWidth, newlines, warnMixed⟩ := o
  obtain rfl : o'.tabWidth = tabWidth := tab
  cases t with
  | enter right => exact .enter right
  | leave left split right within => exact .leave left split right within

/-- Under the same tab width code lines lead to the same state, and to the same tokens but for the ends of
lines. -/
theorem Reached.of_tabWidth {lines : List CodeLine} {out : Emission} (tab : o'.tabWidth = o.tabWidth)
    (h : Reached o lines out s) :
    ∃ out', Reached o' lines out' s ∧ tokensWithin out'.tokens = tokensWithin out.tokens := by
  induction h with
  | start => exact ⟨{}, .start, rfl⟩
  | @next _ _ _ line turn levels _ t ih =>
    obtain ⟨out', reached, same⟩ := ih
    refine ⟨_, line.state_of_tabWidth tab levels ▸ reached.next (t.of_tabWidth tab), ?_⟩
    simp only [Emission.tokens_append, CodeLine.tokens_emission, tokensWithin_append, same,
      CodeLine.tokensWithin_tokens, line.token_of_tabWidth tab]

/-- **Under the same tab width a source gives the same tokens but for the ends of its lines.** -/
theorem tokensWithin_run (h : 0 ≤ o.tabWidth) (tab : o'.tabWidth = o.tabWidth) (source : List Char) :
    tokensWithin (run o' source).tokens = tokensWithin (run o source).tokens := by
  obtain ⟨out, s, reached, whole⟩ := exists_run h source
  obtain ⟨out', reached', same⟩ := reached.of_tabWidth tab
  rw [whole, reached'.run_eq, Emission.tokens_append, Emission.tokens_append, tokensWithin_append, same,
    tokensWithin_append]

theorem render_run_of_tabWidth (h : 0 ≤ o.tabWidth) (tab : o'.tabWidth = o.tabWidth) (source : List Char)
    (step : IndentWidth) :
    render step (run o' source).tokens = render step (run o source).tokens := by
  rw [render, ← renderFrom_tokensWithin, tokensWithin_run h tab, renderFrom_tokensWithin, render]

end Offside.Layout
