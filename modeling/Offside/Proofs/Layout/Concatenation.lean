import Offside.Proofs.Layout.Extent
import Offside.Proofs.Layout.Renumber

/-!
# Sources one after the other

A code line in column 0 closes every scope that is open, and what comes from it on is laid out as if nothing came
before it. So when the first code line of a source stands in column 0, the source can be put below any other: its
scopes and its diagnostics come after those of the other source, only on later lines. The tokens are not simply
put together, for what the first source leaves open is closed where the second begins and not where the first ends.

## The model

`runLines_flush` says what a line in column 0 does to the levels of any sound state: it leaves column 0 alone, which
is where a run begins. `exists_run_append` says it for two sources, with everything that the second gives moved down
by the lines of the first (`Emission.mapLines`). The last line of the first source need not stand at the innermost
level, and the header it leaves is not looked at, since a line in column 0 opens nothing.
-/

namespace Offside.Layout

variable {o : Options} {s : State} {line : CodeLine} {lines : List CodeLine} {out : Emission}

/-- A line in column 0 closes all scopes and is aligned with what encloses them. -/
theorem State.Sound.turns_flush (h : s.Sound) (flush : line.width o.tabWidth = 0) :
    Turns o s line ⟨List.replicate (s.levels.length - 1) (.dedent line.number), [], []⟩ [0] := by
  have split : s.levels = s.levels.dropLast ++ [0] := (List.dropLast_append_getLast? 0 h.base).symm
  have right : ∀ l ∈ s.levels.dropLast, line.width o.tabWidth < l := by
    intro l hl
    have decreasing := h.decreasing
    rw [split, List.pairwise_append] at decreasing
    rw [flush]
    exact decreasing.2.2 l hl 0 (List.mem_singleton_self 0)
  have left : line.width o.tabWidth ≤ s.width := by
    rw [flush]
    exact h.le_width 0 (List.mem_of_getLast? h.base)
  have t := Turns.leave left split right (Int.le_of_eq flush.symm)
  rwa [if_pos (.inl flush.symm), List.length_dropLast] at t

/-- **What begins in column 0 is laid out as if nothing came before it**, once all scopes are closed. -/
theorem runLines_flush (h : s.Sound) (flush : line.width o.tabWidth = 0) (rest : List CodeLine) :
    runLines o s (line :: rest) =
      ({ tokens := List.replicate (s.levels.length - 1) (.dedent line.number) } ++
          (runLines o {} (line :: rest)).1,
        (runLines o {} (line :: rest)).2) := by
  have here := step_of_turns h (h.turns_flush flush)
  have afresh := step_of_turns State.sound_start (State.sound_start.turns_flush flush)
  have none : List.replicate (({} : State).levels.length - 1) (Token.dedent line.number) = [] := rfl
  rw [none] at afresh
  simp only [runLines, here, afresh]
  simp [Emission.append_def, CodeLine.emission]

/-- What becomes of a line number when another source is put above. -/
def lineBelow (above : List Char) (n : Int) : Int := n + (Text.lines above).length

theorem codeLines_append {first : List Char} (ended : first = [] ∨ first.getLast? = some '\n')
    (second : List Char) :
    codeLines (first ++ second) =
      codeLines first ++ (codeLines second).map (CodeLine.mapNumber (lineBelow first)) := by
  rw [codeLines, Text.lines_append ended, codeLinesFrom_append, codeLinesFrom_add]
  rfl

theorem length_lines_append {first : List Char} (ended : first = [] ∨ first.getLast? = some '\n')
    (second : List Char) :
    ((Text.lines (first ++ second)).length : Int) + 1 = lineBelow first ((Text.lines second).length + 1) := by
  rw [Text.lines_append ended, List.length_append, lineBelow]
  omega

/-- **Two sources, of which the second begins in column 0**: what the first leaves open is closed, and then the
second is laid out by itself, only further down. -/
theorem exists_run_append (h : 0 ≤ o.tabWidth) {first second : List Char}
    (ended : first = [] ∨ first.getLast? = some '\n')
    (flush : ∀ line ∈ (codeLines second).head?, line.width o.tabWidth = 0) :
    ∃ out s number, Reached o (codeLines first) out s ∧
      run o (first ++ second) =
        ⟨out ++ { tokens := List.replicate (s.levels.length - 1) (.dedent number) } ++
          (run o second).toEmission.mapLines (lineBelow first), [0], true⟩ := by
  obtain ⟨out, s, reached⟩ := exists_reached h (codeLines first)
  obtain ⟨out₂, s₂, reached₂, whole₂⟩ := exists_run h second
  have moved := map_mapLine_closing (lineBelow first) ((Text.lines second).length + 1)
  have last := length_lines_append ended second
  cases lines_eq : codeLines second with
  | nil =>
    -- nothing is left to close but the scopes of the first source, at the end of the second
    rw [lines_eq] at reached₂
    obtain ⟨rfl, rfl⟩ := reached₂.unique .start
    have together : Reached o (codeLines (first ++ second)) out s := by
      rw [codeLines_append ended, lines_eq, List.map_nil, List.append_nil]
      exact reached
    have moved_end := moved [0]
    refine ⟨out, s, (Text.lines (first ++ second)).length + 1, reached, ?_⟩
    rw [together.run_eq, whole₂, last]
    simp only [Emission.append_def, Emission.mapLines, List.map_nil, List.nil_append, List.append_nil, moved_end]
    simp [closing]
  | cons line rest =>
    rw [lines_eq] at reached₂ flush
    have flush : (line.mapNumber (lineBelow first)).width o.tabWidth = 0 := flush line rfl
    have by_itself := runLines_map_mapNumber (lineBelow first) o {} (line :: rest)
    have together : runLines o {} (codeLines (first ++ second)) =
        (out ++ { tokens :=
            List.replicate (s.levels.length - 1) (.dedent (lineBelow first line.number)) } ++
          out₂.mapLines (lineBelow first), some s₂) := by
      rw [codeLines_append ended, lines_eq, runLines_append, reached.runLines_eq]
      rw [List.map_cons, reached₂.runLines_eq] at by_itself
      simp only [List.map_cons, runLines_flush reached.sound flush, by_itself, Emission.append_assoc]
      rfl
    refine ⟨out, s, lineBelow first line.number, reached, ?_⟩
    rw [run, together, whole₂, last]
    simp only [reached₂.sound.drop_levels, Emission.mapLines_append, Emission.append_assoc]
    rw [← moved]
    rfl

/-- The scopes of two sources are those of the first and then those of the second, and so are the diagnostics. -/
theorem scopes_diagnostics_run_append (h : 0 ≤ o.tabWidth) {first second : List Char}
    (ended : first = [] ∨ first.getLast? = some '\n')
    (flush : ∀ line ∈ (codeLines second).head?, line.width o.tabWidth = 0) :
    (run o (first ++ second)).scopes =
        (run o first).scopes ++ (run o second).scopes.map (Scope.mapLine (lineBelow first)) ∧
      (run o (first ++ second)).diagnostics =
        (run o first).diagnostics ++ (run o second).diagnostics.map (Diagnostic.mapLine (lineBelow first)) := by
  obtain ⟨out, s, number, reached, together⟩ := exists_run_append h ended flush
  rw [together, reached.run_eq]
  simp [Emission.mapLines]

end Offside.Layout
