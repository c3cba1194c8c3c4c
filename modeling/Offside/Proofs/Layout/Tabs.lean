import Offside.Proofs.Layout.Order
import Offside.Proofs.Text.Returns
import Offside.Setting

/-!
# Tabs and spaces

Two cases in which margins keep their order. Margins of tabs alone are in the order of how many tabs they have,
whatever a tab counts for; and a tab can be written as the spaces that it counts for, which leaves every width
as it is.

## The model

`expandTabs` goes through a text and writes each tab of a margin as spaces. Its physical lines are those of the
text, with the tabs of their margins written out (`lines_expandTabs`); neither width nor content of a line
changes by that. The case analysis is the same everywhere: a line goes on after a space or a tab as it would
alone, and anything else ends its margin.
-/

namespace Offside.Layout

/-! ### Tabs written as spaces -/

/-- A line in whose margin each tab is written as so many spaces. -/
def expandMargin (tab : Nat) : List Char → List Char
  | ' ' :: rest => ' ' :: expandMargin tab rest
  | '\t' :: rest => List.replicate tab ' ' ++ expandMargin tab rest
  | line => line

/-- A text in whose margins each tab is written as so many spaces. It begins within a margin or after one. -/
def expandTabsFrom (tab : Nat) (inMargin : Bool) : List Char → List Char
  | [] => []
  | c :: rest =>
    if c = '\n' then '\n' :: expandTabsFrom tab true rest
    else if inMargin && c == '\t' then List.replicate tab ' ' ++ expandTabsFrom tab true rest
    else c :: expandTabsFrom tab (inMargin && c == ' ') rest

/-- A text in whose margins each tab is written as so many spaces. -/
def expandTabs (tab : Nat) (source : List Char) : List Char := expandTabsFrom tab true source

variable {tab : Nat}

theorem expandMargin_of_not_margin {c : Char} (h : isMarginChar c = false) (rest : List Char) :
    expandMargin tab (c :: rest) = c :: rest := by
  simp only [isMarginChar, Bool.or_eq_false_iff, beq_eq_false_iff_ne] at h
  rw [expandMargin]
  · exact fun _ same => h.1 (List.cons.inj same).1
  · exact fun _ same => h.2 (List.cons.inj same).1

theorem isMarginChar_iff {c : Char} : isMarginChar c = true ↔ c = ' ' ∨ c = '\t' := by simp [isMarginChar]

theorem expandMargin_ne_nil (h : 0 < tab) {line : List Char} (some_char : line ≠ []) :
    expandMargin tab line ≠ [] := by
  fun_cases expandMargin tab line with
  | case1 rest => simp
  | case2 rest =>
    intro none
    have := congrArg List.length none
    simp only [List.length_append, List.length_replicate, List.length_nil] at this
    omega
  | case3 => exact some_char

theorem content_append_of_blank {front : List Char} (blank : ∀ c ∈ front, isMarginChar c = true)
    (rest : List Char) : content (front ++ rest) = content rest :=
  List.dropWhile_append_of_pos blank

theorem content_expandMargin (line : List Char) : content (expandMargin tab line) = content line := by
  fun_induction expandMargin tab line with
  | case1 rest ih => exact ih
  | case2 rest ih =>
    rw [content_append_of_blank fun c hc => isMarginChar_iff.2 (.inl (List.eq_of_mem_replicate hc)), ih]
    rfl
  | case3 => rfl

theorem width_replicate_append (columns : Int) (n : Nat) (rest : List Char) :
    width columns (List.replicate n ' ' ++ rest) = n + width columns rest := by
  induction n with
  | zero => simp
  | succ n ih =>
    rw [List.replicate_succ, List.cons_append, width, ih]
    omega

theorem width_expandMargin (line : List Char) : width tab (expandMargin tab line) = width tab line := by
  fun_induction expandMargin tab line with
  | case1 rest ih => rw [width, ih, width]
  | case2 rest ih => rw [width_replicate_append, ih, width]
  | case3 => rfl

/-- A carriage return at the end of a line does not belong to its margin. -/
theorem dropReturn_expandMargin (h : 0 < tab) (line : List Char) :
    Text.dropReturn (expandMargin tab line) = expandMargin tab (Text.dropReturn line) := by
  fun_induction expandMargin tab line with
  | case1 rest ih =>
    by_cases none : rest = []
    · subst none
      rfl
    · have left : Text.dropReturn (' ' :: rest) = ' ' :: Text.dropReturn rest := Text.dropReturn_append [' '] none
      have right : Text.dropReturn (' ' :: expandMargin tab rest) =
          ' ' :: Text.dropReturn (expandMargin tab rest) := Text.dropReturn_append [' '] (expandMargin_ne_nil h none)
      rw [left, right, ih, expandMargin]
  | case2 rest ih =>
    by_cases none : rest = []
    · subst none
      have single : Text.dropReturn ['\t'] = ['\t'] := rfl
      have no_return : (List.replicate tab ' ' ++ []).getLast? ≠ some '\r' := by
        intro last
        have mem := List.mem_of_getLast? last
        rw [List.append_nil] at mem
        exact absurd (List.eq_of_mem_replicate mem) (by decide)
      rw [single, expandMargin, expandMargin]
      · exact Text.dropReturn_eq_self_iff.2 no_return
      all_goals simp
    · have left : Text.dropReturn ('\t' :: rest) = '\t' :: Text.dropReturn rest :=
        Text.dropReturn_append ['\t'] none
      rw [left, Text.dropReturn_append _ (expandMargin_ne_nil h none), ih, expandMargin]
  | case3 line no_space no_tab =>
    cases line with
    | nil => rfl
    | cons c rest =>
      have other : isMarginChar c = false := by
        rw [Bool.eq_false_iff, ne_eq, isMarginChar_iff]
        rintro (rfl | rfl)
        · exact no_space rest rfl
        · exact no_tab rest rfl
      rcases Text.eq_dropReturn_or (c :: rest) with same | longer
      · rw [← same, expandMargin_of_not_margin other]
      · cases body : Text.dropReturn (c :: rest) with
        | nil => rfl
        | cons d more =>
          rw [body, List.cons_append] at longer
          rw [(List.cons.inj longer).1] at other
          rw [expandMargin_of_not_margin other]

/-! ### Physical lines -/

/-- The first of some lines as it is, and the margins of the others written out. -/
def expandOthers (tab : Nat) : List (List Char) → List (List Char)
  | [] => []
  | line :: rest => line :: rest.map (expandMargin tab)

theorem pieces_append {front : List Char} (h : '\n' ∉ front) (text : List Char) :
    Text.pieces (front ++ text) = front.foldr Text.pushFront (Text.pieces text) := by
  induction front with
  | nil => rfl
  | cons c rest ih =>
    simp only [List.mem_cons, not_or] at h
    rw [List.cons_append, Text.pieces_cons, if_neg (Ne.symm h.1), ih h.2, List.foldr_cons]

theorem foldr_pushFront (front line : List Char) (rest : List (List Char)) :
    front.foldr Text.pushFront (line :: rest) = (front ++ line) :: rest := by
  induction front with
  | nil => rfl
  | cons c front ih => rw [List.foldr_cons, ih, Text.pushFront, List.cons_append]

/-- Characters in front of no line make a line of their own. -/
theorem foldr_pushFront_nil {front : List Char} (h : front ≠ []) : front.foldr Text.pushFront [] = [front] := by
  rcases front.eq_nil_or_concat with none | ⟨body, last, rfl⟩
  · exact absurd none h
  · rw [List.concat_eq_append, List.foldr_append, List.foldr_cons, List.foldr_nil, Text.pushFront,
      foldr_pushFront]

theorem map_pushFront_space (texts : List (List Char)) :
    (Text.pushFront ' ' texts).map (expandMargin tab) = Text.pushFront ' ' (texts.map (expandMargin tab)) := by
  cases texts <;> simp [Text.pushFront, expandMargin]

theorem map_pushFront_tab (h : 0 < tab) (texts : List (List Char)) :
    (Text.pushFront '\t' texts).map (expandMargin tab) =
      (List.replicate tab ' ').foldr Text.pushFront (texts.map (expandMargin tab)) := by
  have some_space : List.replicate tab ' ' ≠ [] := by
    rw [ne_eq, List.replicate_eq_nil_iff]
    omega
  cases texts with
  | nil => simp [foldr_pushFront_nil some_space, Text.pushFront, expandMargin]
  | cons line others => simp [foldr_pushFront, Text.pushFront, expandMargin]

theorem map_pushFront_of_not_margin {c : Char} (h : isMarginChar c = false) (texts : List (List Char)) :
    (Text.pushFront c texts).map (expandMargin tab) = expandOthers tab (Text.pushFront c texts) := by
  cases texts <;> simp [Text.pushFront, expandOthers, expandMargin_of_not_margin h]

theorem expandOthers_pushFront (c : Char) (texts : List (List Char)) :
    expandOthers tab (Text.pushFront c texts) = Text.pushFront c (expandOthers tab texts) := by
  cases texts <;> rfl

theorem pieces_expandTabsFrom (h : 0 < tab) (text : List Char) :
    Text.pieces (expandTabsFrom tab true text) = (Text.pieces text).map (expandMargin tab) ∧
      Text.pieces (expandTabsFrom tab false text) = expandOthers tab (Text.pieces text) := by
  induction text with
  | nil => exact ⟨rfl, rfl⟩
  | cons c rest ih =>
    obtain ⟨within, after⟩ := ih
    by_cases newline : c = '\n'
    · subst newline
      simp [expandTabsFrom, Text.pieces_cons, within, expandOthers, expandMargin]
    have outside : Text.pieces (expandTabsFrom tab false (c :: rest)) =
        expandOthers tab (Text.pieces (c :: rest)) := by
      simp [expandTabsFrom, newline, Text.pieces_cons, after, expandOthers_pushFront]
    refine ⟨?_, outside⟩
    by_cases tabulator : c = '\t'
    · subst tabulator
      have spaces : '\n' ∉ List.replicate tab ' ' := fun mem =>
        absurd (List.eq_of_mem_replicate mem) (by decide)
      rw [Text.pieces_cons, if_neg newline, map_pushFront_tab h, ← within, ← pieces_append spaces]
      rfl
    by_cases space : c = ' '
    · subst space
      rw [Text.pieces_cons, if_neg newline, map_pushFront_space, ← within]
      rfl
    · have other : isMarginChar c = false := by simp [isMarginChar, tabulator, space]
      have same : expandTabsFrom tab true (c :: rest) = expandTabsFrom tab false (c :: rest) := by
        simp [expandTabsFrom, newline, tabulator, beq_eq_false_iff_ne.2 space]
      rw [same, outside, Text.pieces_cons, if_neg newline, map_pushFront_of_not_margin other]

/-- The physical lines of a text are written out one by one. -/
theorem lines_expandTabs (h : 0 < tab) (source : List Char) :
    Text.lines (expandTabs tab source) = (Text.lines source).map (expandMargin tab) := by
  rw [Text.lines, expandTabs, (pieces_expandTabsFrom h source).1, Text.lines, List.map_map, List.map_map]
  exact List.map_congr_left fun piece _ => dropReturn_expandMargin h piece

/-! ### Margins in order -/

/-- Whether pairs of widths are in the same order can be seen from the code lines. -/
theorem sameOrder_pairedWidths_iff {columns columns' : Int} {source source' : List Char} :
    SameOrder (PairedWidths columns columns' source source') ↔
      ∀ p ∈ (widths columns source).zip (widths columns' source'),
        ∀ q ∈ (widths columns source).zip (widths columns' source'), p.1 < q.1 ↔ p.2 < q.2 :=
  ⟨fun order p hp q hq => order p.1 p.2 q.1 q.2 hp hq,
    fun order a a' b b' ha hb => order (a, a') ha (b, b') hb⟩

theorem width_replicate_tab (columns : Int) (n : Nat) :
    width columns (List.replicate n '\t') = columns * n := by
  induction n with
  | zero => simp [width]
  | succ n ih =>
    rw [List.replicate_succ, width, ih, Int.natCast_add, Int.mul_add]
    omega

theorem exists_mul_of_pairedWidths {source : List Char} {columns columns' w w' : Int}
    (tabs : ∀ line ∈ codeLines source, ∀ c ∈ line.margin, c = '\t')
    (pair : PairedWidths columns columns' source source w w') :
    ∃ n : Nat, w = columns * n ∧ w' = columns' * n := by
  rcases List.mem_cons.1 pair with outermost | mem
  · obtain ⟨rfl, rfl⟩ := Prod.mk.inj outermost
    exact ⟨0, by simp, by simp⟩
  · have zipped : (w, w') ∈ ((codeLines source).map (·.width columns)).zip
        ((codeLines source).map (·.width columns')) := mem
    rw [List.zip_map'] at zipped
    obtain ⟨line, hl, same⟩ := List.mem_map.1 zipped
    obtain ⟨rfl, rfl⟩ := Prod.mk.inj same
    have margin_eq : line.margin = List.replicate line.margin.length '\t' :=
      List.eq_replicate_of_mem (tabs line hl)
    refine ⟨line.margin.length, ?_, ?_⟩
    · rw [CodeLine.width, margin_eq, width_replicate_tab, List.length_replicate]
    · rw [CodeLine.width, margin_eq, width_replicate_tab, List.length_replicate]

/-- Margins of tabs are in the same order whatever a tab counts for. -/
theorem sameOrder_of_tabs {source : List Char} {columns columns' : Int} (pos : 0 < columns) (pos' : 0 < columns')
    (tabs : ∀ line ∈ codeLines source, ∀ c ∈ line.margin, c = '\t') :
    SameOrder (PairedWidths columns columns' source source) := by
  intro a a' b b' ha hb
  obtain ⟨m, rfl, rfl⟩ := exists_mul_of_pairedWidths tabs ha
  obtain ⟨n, rfl, rfl⟩ := exists_mul_of_pairedWidths tabs hb
  rw [Int.mul_lt_mul_left pos, Int.mul_lt_mul_left pos']

theorem sameContent_self (texts : List (List Char)) : List.Forall₂ SameContent texts texts :=
  List.forall₂_same.2 fun _ _ => ⟨rfl, fun _ => rfl⟩

theorem sameContent_expandMargin (text : List Char) : SameContent text (expandMargin tab text) := by
  refine ⟨?_, fun _ => (content_expandMargin text).symm⟩
  rw [isTransparent, isTransparent, content_expandMargin]

theorem map_width_codeLinesFrom_expandMargin (n : Int) (texts : List (List Char)) :
    (codeLinesFrom n (texts.map (expandMargin tab))).map (·.width tab) =
      (codeLinesFrom n texts).map (·.width tab) := by
  induction texts generalizing n with
  | nil => rfl
  | cons text rest ih =>
    rw [List.map_cons, codeLinesFrom, codeLinesFrom, ← (sameContent_expandMargin text).isTransparent_eq]
    split
    · exact ih (n + 1)
    · have same : CodeLine.width tab ⟨n, margin (expandMargin tab text), content (expandMargin tab text)⟩ =
          CodeLine.width tab ⟨n, margin text, content text⟩ := by
        simp only [CodeLine.width, width_margin, width_expandMargin]
      rw [List.map_cons, List.map_cons, same, ih]

/-- Writing tabs as spaces leaves every width as it is. -/
theorem widths_expandTabs (h : 0 < tab) (source : List Char) :
    widths tab (expandTabs tab source) = widths tab source := by
  rw [widths, widths, codeLines, codeLines, lines_expandTabs h, map_width_codeLinesFrom_expandMargin]

theorem eq_of_pairedWidths_expandTabs (h : 0 < tab) {source : List Char} {w w' : Int}
    (pair : PairedWidths tab tab source (expandTabs tab source) w w') : w = w' := by
  rw [PairedWidths, widths_expandTabs h, ← List.map_id (widths tab source), List.zip_map'] at pair
  obtain ⟨_, _, same⟩ := List.mem_map.1 pair
  obtain ⟨rfl, rfl⟩ := Prod.mk.inj same
  rfl

/-- **Only the order of widths matters.** Sources with the same contents on the same lines, whose code lines
are in the same order of widths, are laid out alike, each under its own tab width. So the layout of a source
with margins of tabs is the same whatever a tab counts for, and writing the tabs of margins as spaces changes
nothing. -/
theorem run_alike (tab tab' : TabWidth) (newlines : Bool) :
    (∀ source source' : List Char,
      List.Forall₂ SameContent (Text.lines source) (Text.lines source') →
      SameOrder (PairedWidths tab.columns tab'.columns source source') →
      (run { tabWidth := tab.columns, newlines } source).Alike
        (PairedWidths tab.columns tab'.columns source source')
        (run { tabWidth := tab'.columns, newlines } source')) ∧
    (∀ source : List Char, (∀ line ∈ codeLines source, ∀ c ∈ line.margin, c = '\t') →
      (run { tabWidth := tab.columns, newlines } source).Alike
        (PairedWidths tab.columns tab'.columns source source)
        (run { tabWidth := tab'.columns, newlines } source)) ∧
    ∀ source : List Char,
      run { tabWidth := tab.columns, newlines } (expandTabs tab.columns source) =
        run { tabWidth := tab.columns, newlines } source := by
  have nonneg : (0 : Int) ≤ tab.columns := Int.natCast_nonneg _
  refine ⟨fun source source' same order => ?_, fun source tabs => ?_, fun source => ?_⟩
  · exact run_alike_of_sameOrder nonneg newlines same order
  · exact run_alike_of_sameOrder nonneg newlines (sameContent_self _)
      (sameOrder_of_tabs (Int.natCast_pos.2 tab.columns_pos) (Int.natCast_pos.2 tab'.columns_pos) tabs)
  · have same : ∀ w w', PairedWidths tab.columns tab.columns source (expandTabs tab.columns source) w w' →
        w = w' := fun _ _ pair => eq_of_pairedWidths_expandTabs tab.columns_pos pair
    have contents : List.Forall₂ SameContent (Text.lines source) (Text.lines (expandTabs tab.columns source)) := by
      rw [lines_expandTabs tab.columns_pos, List.forall₂_map_right_iff]
      exact List.forall₂_same.2 fun text _ => sameContent_expandMargin text
    have order : SameOrder (PairedWidths tab.columns tab.columns source (expandTabs tab.columns source)) := by
      intro a a' b b' ha hb
      rw [same a a' ha, same b b' hb]
    exact ((run_alike_of_sameOrder nonneg newlines contents order).eq same).symm

/-- A line that stands in none of the columns still open, in two sources with other margins and tab widths, and
a source with margins of tabs. -/
theorem run_alike_misaligned :
    (List.Forall₂ SameContent (Text.lines "a\n\t b\n\n\tc\n d".toList)
        (Text.lines "a\n\t\tb\n$\n   c\n  d\n".toList) ∧
      SameOrder (PairedWidths 4 2 "a\n\t b\n\n\tc\n d".toList "a\n\t\tb\n$\n   c\n  d\n".toList) ∧
      (run { tabWidth := 4, newlines := true } "a\n\t b\n\n\tc\n d".toList).Alike
        (PairedWidths 4 2 "a\n\t b\n\n\tc\n d".toList "a\n\t\tb\n$\n   c\n  d\n".toList)
        (run { tabWidth := 2, newlines := true } "a\n\t\tb\n$\n   c\n  d\n".toList)) ∧
    (∀ line ∈ codeLines "a\n\t\tb\n\tc\n".toList, ∀ c ∈ line.margin, c = '\t') ∧
      (run { tabWidth := 4, newlines := true } "a\n\t\tb\n\tc\n".toList).Alike
        (PairedWidths 4 2 "a\n\t\tb\n\tc\n".toList "a\n\t\tb\n\tc\n".toList)
        (run { tabWidth := 2, newlines := true } "a\n\t\tb\n\tc\n".toList) :=
  have contents : List.Forall₂ SameContent (Text.lines "a\n\t b\n\n\tc\n d".toList)
      (Text.lines "a\n\t\tb\n$\n   c\n  d\n".toList) :=
    .cons ⟨by decide, fun _ => by decide⟩ (.cons ⟨by decide, fun _ => by decide⟩ (.cons ⟨by decide, by decide⟩
      (.cons ⟨by decide, fun _ => by decide⟩ (.cons ⟨by decide, fun _ => by decide⟩ .nil))))
  have order : SameOrder (PairedWidths 4 2 "a\n\t b\n\n\tc\n d".toList
      "a\n\t\tb\n$\n   c\n  d\n".toList) := sameOrder_pairedWidths_iff.2 (by decide)
  have tabs : ∀ line ∈ codeLines "a\n\t\tb\n\tc\n".toList, ∀ c ∈ line.margin, c = '\t' := by
    have all : (codeLines "a\n\t\tb\n\tc\n".toList).all (·.margin.all (· == '\t')) = true := rfl
    simpa only [List.all_eq_true, beq_iff_eq] using all
  ⟨⟨contents, order, (run_alike { columns := 4 } { columns := 2 } true).1 _ _ contents order⟩, tabs,
    (run_alike { columns := 4 } { columns := 2 } true).2.1 _ tabs⟩

end Offside.Layout
