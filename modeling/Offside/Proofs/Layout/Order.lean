import Mathlib.Data.List.Forall2
import Offside.Proofs.Layout.Turn

/-!
# Only the order of widths matters

Widths are compared with each other and never used otherwise. So two sources with the same contents on the same
lines are laid out alike as soon as the widths of their code lines are in the same order, whatever they are.

## The model

A relation `R` pairs the widths of one source with those of another, column 0 with itself, and `SameOrder` says
that two pairs compare in the same way on both sides. Two runs then keep side by side: their levels are paired
(`State.Alike`), so a line takes the same turn in both (`Turns.alike`), and what they give differs in paired
columns and levels only (`Emission.Alike`). For whole sources the pairs are the widths of the code lines at the
same place (`PairedWidths`).
-/

namespace Offside.Layout

/-! ### What is alike -/

/-- Two pairs of widths compare in the same way on both sides. -/
def SameOrder (R : Int → Int → Prop) : Prop := ∀ a a' b b', R a a' → R b b' → (a < b ↔ a' < b')

/-- The tokens say the same on the same line, and their columns are paired; in the column of the end of a line
the content of the line counts as well. -/
structure Token.Alike (R : Int → Int → Prop) (t t' : Token) : Prop where
  kind_eq : t.kind = t'.kind
  payload_eq : t.payload = t'.payload
  line_eq : t.line = t'.line
  column : ∃ w w' n, R w w' ∧ t.column = w + n ∧ t'.column = w' + n ∧ (t.kind ≠ .newline → n = 0)

/-- The scopes are of the same category and opened by the same line, at paired levels. -/
structure Scope.Alike (R : Int → Int → Prop) (scope scope' : Scope) : Prop where
  level : R scope.level scope'.level
  line_eq : scope.line = scope'.line
  category_eq : scope.category = scope'.category

/-- The same is doubtful, in paired columns. -/
inductive Cause.Alike (R : Int → Int → Prop) : Cause → Cause → Prop
  | misaligned {column column' nearest nearest' : Int} (hc : R column column') (hn : R nearest nearest') :
      Alike R (.misaligned column nearest) (.misaligned column' nearest')
  | mixed : Alike R .mixed .mixed

/-- The same is doubtful on the same line. -/
structure Diagnostic.Alike (R : Int → Int → Prop) (d d' : Diagnostic) : Prop where
  line_eq : d.line = d'.line
  cause : d.cause.Alike R d'.cause

/-- What is given is the same but for paired columns and levels. -/
structure Emission.Alike (R : Int → Int → Prop) (out out' : Emission) : Prop where
  tokens : List.Forall₂ (Token.Alike R) out.tokens out'.tokens
  scopes : List.Forall₂ (Scope.Alike R) out.scopes out'.scopes
  diagnostics : List.Forall₂ (Diagnostic.Alike R) out.diagnostics out'.diagnostics

/-- Two sources are laid out to their ends, and what is given is the same but for paired columns and levels. -/
structure Result.Alike (R : Int → Int → Prop) (r r' : Result) : Prop where
  finished : r.finished = true ∧ r'.finished = true
  levels_eq : r.levels = r'.levels
  emission : r.toEmission.Alike R r'.toEmission

/-- The code lines have the same number and content, and paired widths. -/
structure CodeLine.Alike (R : Int → Int → Prop) (tab tab' : Int) (line line' : CodeLine) : Prop where
  number_eq : line.number = line'.number
  content_eq : line.content = line'.content
  width : R (line.width tab) (line'.width tab')

/-- Two runs have come equally far, within paired levels. -/
structure State.Alike (R : Int → Int → Prop) (s s' : State) : Prop where
  levels : List.Forall₂ R s.levels s'.levels
  width : R s.width s'.width
  header_eq : s.header = s'.header

theorem Emission.Alike.empty (R : Int → Int → Prop) : Emission.Alike R {} {} := ⟨.nil, .nil, .nil⟩

theorem Emission.Alike.append {R : Int → Int → Prop} {a a' b b' : Emission} (h : a.Alike R a')
    (h' : b.Alike R b') : (a ++ b).Alike R (a' ++ b') :=
  ⟨List.rel_append h.tokens h'.tokens, List.rel_append h.scopes h'.scopes,
    List.rel_append h.diagnostics h'.diagnostics⟩

/-! ### Equal widths -/

section Equal

variable {R : Int → Int → Prop} (same : ∀ w w', R w w' → w = w')
include same

theorem Token.Alike.eq {t t' : Token} (h : t.Alike R t') : t = t' := by
  obtain ⟨w, w', n, pair, column, column', -⟩ := h.column
  have columns_eq : t.column = t'.column := by rw [column, column', same w w' pair]
  cases t
  cases t'
  exact (Token.mk.injEq ..).mpr ⟨h.kind_eq, h.payload_eq, h.line_eq, columns_eq⟩

theorem Scope.Alike.eq {scope scope' : Scope} (h : scope.Alike R scope') : scope = scope' := by
  cases scope
  cases scope'
  exact (Scope.mk.injEq ..).mpr ⟨same _ _ h.level, h.line_eq, h.category_eq⟩

theorem Cause.Alike.eq {cause cause' : Cause} (h : cause.Alike R cause') : cause = cause' := by
  cases h with
  | misaligned hc hn => rw [same _ _ hc, same _ _ hn]
  | mixed => rfl

theorem Diagnostic.Alike.eq {d d' : Diagnostic} (h : d.Alike R d') : d = d' := by
  cases d
  cases d'
  exact (Diagnostic.mk.injEq ..).mpr ⟨h.line_eq, h.cause.eq same⟩

theorem Result.Alike.eq {r r' : Result} (h : r.Alike R r') : r = r' := by
  have tokens_eq : r.tokens = r'.tokens :=
    List.forall₂_eq_eq_eq ▸ h.emission.tokens.imp fun _ _ alike => alike.eq same
  have scopes_eq : r.scopes = r'.scopes :=
    List.forall₂_eq_eq_eq ▸ h.emission.scopes.imp fun _ _ alike => alike.eq same
  have diagnostics_eq : r.diagnostics = r'.diagnostics :=
    List.forall₂_eq_eq_eq ▸ h.emission.diagnostics.imp fun _ _ alike => alike.eq same
  cases r
  cases r'
  exact (Result.mk.injEq ..).mpr ⟨(Emission.mk.injEq ..).mpr ⟨tokens_eq, scopes_eq, diagnostics_eq⟩,
    h.levels_eq, h.finished.1.trans h.finished.2.symm⟩

end Equal

/-! ### Lists that are paired -/

theorem exists_append_of_forall₂ {α β : Type} {P : α → β → Prop} {first second : List α} {all : List β}
    (h : List.Forall₂ P (first ++ second) all) :
    ∃ first' second', all = first' ++ second' ∧ List.Forall₂ P first first' ∧
      List.Forall₂ P second second' := by
  induction first generalizing all with
  | nil => exact ⟨[], all, rfl, .nil, h⟩
  | cons a rest ih =>
    cases h with
    | cons head tail =>
      obtain ⟨first', second', rfl, hf, hs⟩ := ih tail
      exact ⟨_ :: first', second', rfl, .cons head hf, hs⟩

theorem exists_of_mem_forall₂ {α β : Type} {P : α → β → Prop} {first : List α} {second : List β} {b : β}
    (h : List.Forall₂ P first second) (mem : b ∈ second) : ∃ a ∈ first, P a b := by
  induction h with
  | nil => cases mem
  | @cons a _ _ _ head _ ih =>
    rcases List.mem_cons.1 mem with rfl | mem
    · exact ⟨a, List.mem_cons_self, head⟩
    · obtain ⟨a', ha', related⟩ := ih mem
      exact ⟨a', List.mem_cons_of_mem _ ha', related⟩

theorem forall₂_replicate {α β : Type} {P : α → β → Prop} {a : α} {b : β} (h : P a b) (n : Nat) :
    List.Forall₂ P (List.replicate n a) (List.replicate n b) := by
  induction n with
  | zero => exact .nil
  | succ n ih => exact .cons h ih

/-! ### One line -/

variable {R : Int → Int → Prop}

theorem Token.Alike.outermost (zero : R 0 0) {t t' : Token} (same : t = t') (column : t.column = 0) :
    t.Alike R t' := by
  subst same
  exact ⟨rfl, rfl, rfl, 0, 0, 0, zero, by rw [column]; rfl, by rw [column]; rfl, fun _ => rfl⟩

variable {o o' : Options} {s s' : State} {line line' : CodeLine} {turn : Emission} {levels : List Int}

theorem CodeLine.Alike.tokens (h : line.Alike R o.tabWidth o'.tabWidth line')
    (newlines : o'.newlines = o.newlines) :
    List.Forall₂ (Token.Alike R) (line.tokens o) (line'.tokens o') := by
  have code : Token.Alike R (.code line.content line.number (line.width o.tabWidth))
      (.code line'.content line'.number (line'.width o'.tabWidth)) :=
    ⟨rfl, h.content_eq, h.number_eq, _, _, 0, h.width, (Int.add_zero _).symm, (Int.add_zero _).symm,
      fun _ => rfl⟩
  unfold CodeLine.tokens
  rw [newlines]
  refine .cons code ?_
  split
  · refine .cons ⟨rfl, rfl, h.number_eq, _, _, line.content.length, h.width, rfl, ?_, ?_⟩ .nil
    · rw [h.content_eq]
      rfl
    · exact fun other => absurd rfl other
  · exact .nil

theorem SameOrder.eq_iff (order : SameOrder R) {a a' b b' : Int} (ha : R a a') (hb : R b b') :
    a = b ↔ a' = b' := by
  have lt := order a a' b b' ha hb
  have gt := order b b' a a' hb ha
  omega

theorem SameOrder.le_iff (order : SameOrder R) {a a' b b' : Int} (ha : R a a') (hb : R b b') :
    a ≤ b ↔ a' ≤ b' := by
  have gt := order b b' a a' hb ha
  omega

/-- **Lines that are alike take the same turn** within levels that are alike. -/
theorem Turns.alike (order : SameOrder R) (zero : R 0 0) (states : s.Alike R s')
    (lines : line.Alike R o.tabWidth o'.tabWidth line') (t : Turns o s line turn levels) :
    ∃ turn' levels', Turns o' s' line' turn' levels' ∧ turn.Alike R turn' ∧
      List.Forall₂ R levels levels' := by
  cases t with
  | enter right =>
    refine ⟨_, _, .enter ((order _ _ _ _ states.width lines.width).1 right), ⟨?_, ?_, .nil⟩,
      .cons lines.width states.levels⟩
    · exact .cons (.outermost zero (by rw [lines.number_eq]) rfl) .nil
    · exact .cons ⟨lines.width, lines.number_eq, by rw [states.header_eq, lines.content_eq]⟩ .nil
  | @leave closed outer level left split right within =>
    have paired := states.levels
    rw [split] at paired
    obtain ⟨closed', rest', split', closed_paired, rest_paired⟩ := exists_append_of_forall₂ paired
    cases rest_paired with
    | @cons _ level' _ outer' level_paired outer_paired =>
      have right' : ∀ l' ∈ closed', line'.width o'.tabWidth < l' := by
        intro l' hl'
        obtain ⟨i, hi, rfl⟩ := List.mem_iff_getElem.1 hl'
        have i_lt : i < closed.length := closed_paired.length_eq ▸ hi
        have pair := closed_paired.get i_lt hi
        exact (order _ _ _ _ lines.width pair).1 (right _ (List.get_mem _ _))
      have turns : Turns o' s' line' _ _ := .leave ((order.le_iff lines.width states.width).1 left) split' right'
        ((order.le_iff level_paired lines.width).1 within)
      refine ⟨_, _, turns, ⟨?_, .nil, ?_⟩, .cons level_paired outer_paired⟩
      · rw [← closed_paired.length_eq]
        exact forall₂_replicate (.outermost zero (by rw [lines.number_eq]) rfl) _
      · have aligned : (level = line.width o.tabWidth ∨ line.width o.tabWidth = s.width) ↔
            (level' = line'.width o'.tabWidth ∨ line'.width o'.tabWidth = s'.width) :=
          or_congr (order.eq_iff level_paired lines.width) (order.eq_iff lines.width states.width)
        by_cases here : level = line.width o.tabWidth ∨ line.width o.tabWidth = s.width
        · rw [if_pos here, if_pos (aligned.1 here)]
          exact .nil
        · rw [if_neg here, if_neg (mt aligned.2 here)]
          exact .cons ⟨lines.number_eq, .misaligned lines.width level_paired⟩ .nil

/-! ### Many lines -/

/-- **Code lines that are alike lead to what is alike**, as long as mixed margins are not reported. -/
theorem Reached.alike {lines lines' : List CodeLine} {out : Emission} (h : Reached o lines out s)
    (order : SameOrder R) (zero : R 0 0) (newlines : o'.newlines = o.newlines) (off : o.warnMixed = false)
    (off' : o'.warnMixed = false)
    (alike : List.Forall₂ (CodeLine.Alike R o.tabWidth o'.tabWidth) lines lines') :
    ∃ out' s', Reached o' lines' out' s' ∧ out.Alike R out' ∧ s.Alike R s' := by
  induction h generalizing lines' with
  | start =>
    cases alike
    exact ⟨{}, {}, .start, .empty R, .cons zero .nil, zero, rfl⟩
  | @next lines out s line turn levels _ t ih =>
    obtain ⟨lines', last, rfl, before, last_alike⟩ := exists_append_of_forall₂ alike
    cases last_alike with
    | @cons _ line' _ _ line_alike none =>
      cases none
      obtain ⟨out', s', reached, out_alike, states⟩ := ih before
      obtain ⟨turn', levels', t', turn_alike, levels_alike⟩ := t.alike order zero states line_alike
      refine ⟨_, _, reached.next t', out_alike.append ⟨?_, turn_alike.scopes, ?_⟩, levels_alike,
        line_alike.width, congrArg some line_alike.content_eq⟩
      · exact List.rel_append turn_alike.tokens (line_alike.tokens newlines)
      · simpa [CodeLine.emission, CodeLine.mixed, off, off'] using turn_alike.diagnostics

/-! ### Whole sources -/

/-- The lines of two texts do the same for layout but for their margins: either both are transparent, or
neither is and they have the same content. -/
structure SameContent (text text' : List Char) : Prop where
  isTransparent_eq : isTransparent text = isTransparent text'
  content_eq : isTransparent text = false → content text = content text'

/-- The widths of the code lines of a source, and column 0 before the first. -/
def widths (tab : Int) (source : List Char) : List Int := 0 :: (codeLines source).map (·.width tab)

/-- The widths of the code lines at the same place in two sources. -/
def PairedWidths (tab tab' : Int) (source source' : List Char) (w w' : Int) : Prop :=
  (w, w') ∈ (widths tab source).zip (widths tab' source')

theorem pairedWidths_zero (tab tab' : Int) (source source' : List Char) :
    PairedWidths tab tab' source source' 0 0 := List.mem_cons_self

theorem codeLinesFrom_sameContent {texts texts' : List (List Char)} (n : Int)
    (same : List.Forall₂ SameContent texts texts') :
    List.Forall₂ (fun line line' : CodeLine => line.number = line'.number ∧ line.content = line'.content)
      (codeLinesFrom n texts) (codeLinesFrom n texts') := by
  induction same generalizing n with
  | nil => exact .nil
  | @cons text text' _ _ head _ ih =>
    rw [codeLinesFrom, codeLinesFrom, ← head.isTransparent_eq]
    split
    · exact ih (n + 1)
    · rename_i visible
      exact .cons ⟨rfl, head.content_eq (by simpa using visible)⟩ (ih (n + 1))

/-- Sources with the same contents have code lines that are alike for the pairs of their widths. -/
theorem codeLines_alike {source source' : List Char}
    (same : List.Forall₂ SameContent (Text.lines source) (Text.lines source')) (tab tab' : Int) :
    List.Forall₂ (CodeLine.Alike (PairedWidths tab tab' source source') tab tab') (codeLines source)
      (codeLines source') := by
  have contents := codeLinesFrom_sameContent 1 same
  refine List.forall₂_iff_zip.2 ⟨contents.length_eq, fun {line line'} mem => ?_⟩
  obtain ⟨number_eq, content_eq⟩ := List.forall₂_zip contents mem
  have pair : (line.width tab, line'.width tab') ∈
      ((codeLines source).map (·.width tab)).zip ((codeLines source').map (·.width tab')) := by
    rw [List.zip_map]
    exact List.mem_map.2 ⟨(line, line'), mem, rfl⟩
  exact ⟨number_eq, content_eq, List.mem_cons_of_mem _ pair⟩

/-- Sources with the same contents on the same lines, in margins of the same order, are laid out alike. -/
theorem run_alike_of_sameOrder {source source' : List Char} {tab tab' : Int} (h : 0 ≤ tab) (newlines : Bool)
    (same : List.Forall₂ SameContent (Text.lines source) (Text.lines source'))
    (order : SameOrder (PairedWidths tab tab' source source')) :
    (run { tabWidth := tab, newlines } source).Alike (PairedWidths tab tab' source source')
      (run { tabWidth := tab', newlines } source') := by
  have zero := pairedWidths_zero tab tab' source source'
  obtain ⟨out, s, reached, whole⟩ := exists_run (o := { tabWidth := tab, newlines }) h source
  have newlines_eq : ({ tabWidth := tab', newlines } : Options).newlines =
      ({ tabWidth := tab, newlines } : Options).newlines := rfl
  obtain ⟨out', s', reached', out_alike, states⟩ :=
    reached.alike order zero newlines_eq rfl rfl (codeLines_alike same tab tab')
  have ending (t : Token) (column : t.column = 0) : t.Alike _ t := .outermost zero rfl column
  rw [whole, reached'.run_eq]
  refine ⟨⟨rfl, rfl⟩, rfl, out_alike.append ⟨?_, .nil, .nil⟩⟩
  rw [closing, closing, same.length_eq, states.levels.length_eq]
  exact List.rel_append (forall₂_replicate (ending _ rfl) _) (.cons (ending _ rfl) .nil)

end Offside.Layout
