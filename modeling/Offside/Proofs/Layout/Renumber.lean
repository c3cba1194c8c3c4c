import Offside.Layout.Run
import Offside.Proofs.Layout.Content

/-!
# Lines that move

Line numbers are given out and never looked at. When the code lines of a source get other numbers, its layout
gets them too and stays the same otherwise (`run_mapLines`). So a blank line or a comment may be put in at any
line of a source: all that changes is that the lines below it are one further down.

## The model

`mapLines f` gives everything that a run gives the line number `f n` for `n`; the line that the wording of a
diagnostic tells moves with it (`Diagnostic.message_mapLine`). One line commutes with this
(`step_mapNumber`), and so does a run. `Padded f` relates a source to what becomes of it when transparent lines
are put in one after the other: line `n` of the source is line `f n` then. As `f` is strictly increasing, taking
lines out is the same read backwards.
-/

namespace Offside.Layout

/-! ### Giving other numbers -/

/-- The token on another line. -/
def Token.mapLine (f : Int → Int) (t : Token) : Token := { t with line := f t.line }

/-- The scope opened by another line. -/
def Scope.mapLine (f : Int → Int) (scope : Scope) : Scope := { scope with line := f scope.line }

/-- The diagnostic of another line. -/
def Diagnostic.mapLine (f : Int → Int) (d : Diagnostic) : Diagnostic := { d with line := f d.line }

/-- The code line with another number. -/
def CodeLine.mapNumber (f : Int → Int) (line : CodeLine) : CodeLine := { line with number := f line.number }

/-- All that is given, on other lines. -/
def Emission.mapLines (f : Int → Int) (out : Emission) : Emission :=
  ⟨out.tokens.map (Token.mapLine f), out.scopes.map (Scope.mapLine f), out.diagnostics.map (Diagnostic.mapLine f)⟩

/-- A source laid out, with its lines elsewhere. -/
def Result.mapLines (f : Int → Int) (r : Result) : Result := ⟨r.toEmission.mapLines f, r.levels, r.finished⟩

variable (f : Int → Int)

/-- The wording of a diagnostic tells the line to which it has moved. -/
theorem Diagnostic.message_mapLine (d : Diagnostic) : (d.mapLine f).message =
    match d.cause with
    | .misaligned column nearest =>
      "Indentation error at line " ++ toString (f d.line) ++ ": dedent to column " ++ toString column
        ++ " does not match any enclosing level (nearest is " ++ toString nearest ++ ")"
    | .mixed => "Mixed tabs and spaces in indentation at line " ++ toString (f d.line) := rfl

@[simp] theorem Emission.mapLines_append (a b : Emission) :
    (a ++ b).mapLines f = a.mapLines f ++ b.mapLines f := by
  simp [Emission.mapLines, Emission.append_def]

theorem CodeLine.tokens_mapNumber (o : Options) (line : CodeLine) :
    (line.mapNumber f).tokens o = (line.tokens o).map (Token.mapLine f) := by
  unfold CodeLine.tokens
  split <;> rfl

theorem CodeLine.mixed_mapNumber (o : Options) (line : CodeLine) :
    (line.mapNumber f).mixed o = (line.mixed o).map (Diagnostic.mapLine f) := by
  have margin : (line.mapNumber f).isMixed = line.isMixed := rfl
  unfold CodeLine.mixed
  rw [margin]
  split <;> rfl

theorem map_mapLine_dedents (number : Int) (levels : List Int) :
    (levels.map fun _ => Token.dedent number).map (Token.mapLine f) =
      levels.map fun _ => Token.dedent (f number) := by
  rw [List.map_map]
  rfl

theorem step_mapNumber (o : Options) (s : State) (line : CodeLine) :
    step o s (line.mapNumber f) = ((step o s line).1.mapLines f, (step o s line).2) := by
  have width : (line.mapNumber f).width o.tabWidth = line.width o.tabWidth := rfl
  by_cases right : s.width < line.width o.tabWidth
  · rw [step, step, if_pos right, if_pos (width ▸ right), CodeLine.tokens_mapNumber, CodeLine.mixed_mapNumber]
    rfl
  by_cases left : line.width o.tabWidth < s.width
  · rw [step, step, if_neg right, if_pos left, if_neg (width ▸ right), if_pos (width ▸ left),
      CodeLine.tokens_mapNumber, CodeLine.mixed_mapNumber]
    cases rest : s.levels.dropWhile (line.width o.tabWidth < ·) with
    | nil =>
      have rest' : s.levels.dropWhile ((line.mapNumber f).width o.tabWidth < ·) = [] := rest
      simp only [rest', Emission.mapLines, map_mapLine_dedents]
      rfl
    | cons level outer =>
      have rest' : s.levels.dropWhile ((line.mapNumber f).width o.tabWidth < ·) = level :: outer := rest
      have reported : (if level = line.width o.tabWidth then []
            else [(⟨line.number, .misaligned (line.width o.tabWidth) level⟩ : Diagnostic)]).map
              (Diagnostic.mapLine f) =
          if level = (line.mapNumber f).width o.tabWidth then []
            else [⟨(line.mapNumber f).number, .misaligned ((line.mapNumber f).width o.tabWidth) level⟩] := by
        rw [width]
        split <;> rfl
      simp only [rest', Emission.mapLines, List.map_append, map_mapLine_dedents, reported]
      rfl
  · rw [step, step, if_neg right, if_neg left, if_neg (width ▸ right), if_neg (width ▸ left),
      CodeLine.tokens_mapNumber, CodeLine.mixed_mapNumber]
    rfl

/-- **Line numbers are given out and never looked at.** -/
theorem runLines_map_mapNumber (o : Options) (s : State) (lines : List CodeLine) :
    runLines o s (lines.map (CodeLine.mapNumber f)) =
      ((runLines o s lines).1.mapLines f, (runLines o s lines).2) := by
  induction lines generalizing s with
  | nil => rfl
  | cons line rest ih =>
    rw [List.map_cons, runLines, step_mapNumber, runLines]
    rcases step o s line with ⟨out, _ | s'⟩
    · rfl
    · simp only [ih s', Emission.mapLines_append]

theorem map_mapLine_closing (number : Int) (levels : List Int) :
    (closing number levels).map (Token.mapLine f) = closing (f number) levels := by
  simp [closing, Token.mapLine, Token.dedent, Token.endOfFile]

variable {f}

/-- Sources whose code lines and end differ in their numbers only are laid out alike. -/
theorem run_mapLines {source source' : List Char} (o : Options)
    (lines : codeLines source' = (codeLines source).map (CodeLine.mapNumber f))
    (ending : f ((Text.lines source).length + 1) = (Text.lines source').length + 1) :
    run o source' = (run o source).mapLines f := by
  rw [run, run, lines, runLines_map_mapNumber]
  rcases runLines o {} (codeLines source) with ⟨out, _ | s⟩
  · rfl
  · simp only [Result.mapLines, Emission.mapLines_append, ← ending]
    rw [← map_mapLine_closing]
    rfl

/-! ### Lines further down -/

/-- The lines after the first `k` are one further down. -/
def shiftAfter (k : Nat) (n : Int) : Int := if (k : Int) < n then n + 1 else n

theorem shiftAfter_lt (k : Nat) {m n : Int} (h : m < n) : shiftAfter k m < shiftAfter k n := by
  unfold shiftAfter
  split <;> split <;> omega

theorem number_lt_of_mem_codeLinesFrom {n : Int} {texts : List (List Char)} {line : CodeLine}
    (h : line ∈ codeLinesFrom n texts) : line.number < n + texts.length := by
  induction texts generalizing n with
  | nil => cases h
  | cons text rest ih =>
    rw [List.length_cons]
    rw [codeLinesFrom] at h
    split at h
    · have := ih h
      omega
    · rcases List.mem_cons.1 h with rfl | h
      · simp only
        omega
      · have := ih h
        omega

theorem codeLinesFrom_add (n d : Int) (texts : List (List Char)) :
    codeLinesFrom (n + d) texts = (codeLinesFrom n texts).map (CodeLine.mapNumber (· + d)) := by
  induction texts generalizing n with
  | nil => rfl
  | cons text rest ih =>
    have next : n + d + 1 = n + 1 + d := by omega
    rw [codeLinesFrom, codeLinesFrom, next, ih]
    split <;> rfl

/-- A transparent line moves the code lines after it. -/
theorem codeLinesFrom_transparent {text : List Char} (h : isTransparent text = true)
    (first second : List (List Char)) :
    codeLinesFrom 1 (first ++ text :: second) =
      (codeLinesFrom 1 (first ++ second)).map (CodeLine.mapNumber (shiftAfter first.length)) := by
  have stay : (codeLinesFrom 1 first).map (CodeLine.mapNumber (shiftAfter first.length)) =
      codeLinesFrom 1 first := by
    refine (List.map_congr_left fun line hl => ?_).trans (List.map_id _)
    have := number_lt_of_mem_codeLinesFrom hl
    simp only [CodeLine.mapNumber, shiftAfter, if_neg (show ¬ (first.length : Int) < line.number by omega)]
    rfl
  have move : (codeLinesFrom (1 + first.length) second).map (CodeLine.mapNumber (shiftAfter first.length)) =
      codeLinesFrom (1 + first.length + 1) second := by
    rw [codeLinesFrom_add _ 1]
    refine List.map_congr_left fun line hl => ?_
    have := le_number_of_mem_codeLinesFrom hl
    simp only [CodeLine.mapNumber, shiftAfter, if_pos (show (first.length : Int) < line.number by omega)]
  rw [codeLinesFrom_append, codeLinesFrom_append, List.map_append, stay, move, codeLinesFrom, if_pos h]

/-! ### Putting lines in -/

theorem lines_insert {first line : List Char} (ended : first = [] ∨ first.getLast? = some '\n')
    (single : '\n' ∉ line) (second : List Char) :
    Text.lines (first ++ (line ++ '\n' :: second)) =
      Text.lines first ++ Text.dropReturn line :: Text.lines second := by
  have line_ended : (line ++ ['\n']).getLast? = some '\n' := by simp
  rw [Text.lines_append ended, ← List.singleton_append (x := '\n'), ← List.append_assoc,
    Text.lines_append (.inr line_ended), Text.lines_terminated single, List.singleton_append]

/-- A blank line or a comment moves all that stands below it one line down. -/
theorem run_insert (o : Options) {first line : List Char} (ended : first = [] ∨ first.getLast? = some '\n')
    (single : '\n' ∉ line) (transparent : isTransparent (Text.dropReturn line) = true) (second : List Char) :
    run o (first ++ (line ++ '\n' :: second)) =
      (run o (first ++ second)).mapLines (shiftAfter (Text.lines first).length) := by
  refine run_mapLines o ?_ ?_
  · rw [codeLines, codeLines, lines_insert ended single, Text.lines_append ended,
      codeLinesFrom_transparent transparent]
  · rw [lines_insert ended single, Text.lines_append ended, List.length_append, List.length_append,
      List.length_cons, shiftAfter, if_pos (by omega)]
    omega

/-- A source, and what becomes of it when blank lines and comments are put in one after the other: its line `n`
is line `f n` then. -/
inductive Padded (source : List Char) : (Int → Int) → List Char → Prop
  /-- Nothing is put in. -/
  | start : Padded source id source
  /-- One more line is put in before a line or at the end. -/
  | insert {f : Int → Int} (first line second : List Char) (before : Padded source f (first ++ second))
      (ended : first = [] ∨ first.getLast? = some '\n') (single : '\n' ∉ line)
      (transparent : isTransparent (Text.dropReturn line) = true) :
      Padded source (shiftAfter (Text.lines first).length ∘ f) (first ++ (line ++ '\n' :: second))

theorem Padded.lt {source source' : List Char} (h : Padded source f source') {m n : Int} (lt : m < n) :
    f m < f n := by
  induction h with
  | start => exact lt
  | insert _ _ _ _ _ _ _ ih => exact shiftAfter_lt _ ih

theorem Result.mapLines_id (r : Result) : r.mapLines id = r := by
  have tokens : Token.mapLine id = id := rfl
  have scopes : Scope.mapLine id = id := rfl
  have diagnostics : Diagnostic.mapLine id = id := rfl
  simp [Result.mapLines, Emission.mapLines, tokens, scopes, diagnostics]

theorem Result.mapLines_mapLines (f g : Int → Int) (r : Result) :
    (r.mapLines f).mapLines g = r.mapLines (g ∘ f) := by
  simp only [Result.mapLines, Emission.mapLines, List.map_map]
  rfl

theorem Padded.run_eq {source source' : List Char} (h : Padded source f source') (o : Options) :
    run o source' = (run o source).mapLines f := by
  induction h with
  | start => exact (Result.mapLines_id _).symm
  | insert _ _ _ _ ended single transparent ih =>
    rw [run_insert o ended single transparent, ih, Result.mapLines_mapLines]

end Offside.Layout
