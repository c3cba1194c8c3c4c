import Offside.Proofs.Layout.LineEnds
import Offside.Proofs.Layout.RoundTrip
import Offside.Proofs.Lexeme.Trailing
import Offside.Proofs.Program.Places
import Offside.Proofs.Program.Reading

/-!
# Reading canonical text

A program written out as canonical text is read as the same program, only at other places. What the text
may lose is a carriage return at the end of a line, and that is no part of a lexeme (`Lexeme.lex_dropReturn`);
so the tokens of the text have the items of the source (`Item.map_mapPlaces_ofTokens`), and a reader makes
the same of them wherever they stand (`Reader.shape_tree_eq_of_feedAll`).
-/

namespace Offside

open Layout (Token CodeLine codes)

/-! ### What is left of a readable line -/

theorem IsReadable.dropReturn {text : List Char} (h : IsReadable text) (single : '\n' ∉ text) :
    IsReadable (Text.dropReturn text) :=
  h.of_lex_eq (Lexeme.lex_dropReturn single)

theorem IsReadable.ne_nil {text : List Char} (h : IsReadable text) : text ≠ [] := by
  rintro rfl
  exact h.has_lexeme (by simp [Lexeme.lex])

/-! ### Items of the text -/

/-- The same place for everything. -/
def Place.forget (_ : Place) : Place := ⟨0, 0⟩

/-- A token that comes back from canonical text has the items that it had, at other places. -/
theorem Layout.Token.map_mapPlaces_items {t t' : Token} (laid : t.IsLaid) (same : t'.face = t.returned) :
    t'.items.map (Item.mapPlaces Place.forget) = t.items.map (Item.mapPlaces Place.forget) := by
  have kind_eq : t'.kind = t.kind := congrArg Prod.fst same
  have payload_eq : t'.payload = Text.dropReturn t.payload := congrArg Prod.snd same
  by_cases code : t.kind = .code
  · have lex_eq := Lexeme.lex_dropReturn (laid.content code).single
    simp [items, kind_eq, code, payload_eq, lex_eq, Item.mapPlaces, Place.forget, Item.ofLexeme]
  · have whole : t'.payload = t.payload := congrArg Prod.snd (same.trans (laid.returned_eq code))
    rw [items, items, kind_eq]
    cases kind : t.kind with
    | code => exact absurd kind code
    | endOfFile => rfl
    | _ => simp [Item.mapPlaces, Place.forget, Item.ofToken, whole]

theorem Item.map_mapPlaces_ofTokens {tokens tokens' : List Token} (laid : ∀ t ∈ tokens, t.IsLaid)
    (same : tokens'.map Token.face = tokens.map Token.returned) :
    (ofTokens tokens').map (mapPlaces Place.forget) = (ofTokens tokens).map (mapPlaces Place.forget) := by
  induction tokens generalizing tokens' with
  | nil =>
    obtain rfl := List.map_eq_nil_iff.1 same
    rfl
  | cons t rest ih =>
    obtain ⟨t', rest', rfl, first, others⟩ := List.map_eq_cons_iff.1 same
    rw [ofTokens_cons, ofTokens_cons, List.map_append, List.map_append,
      Token.map_mapPlaces_items (laid t List.mem_cons_self) first,
      ih (fun u hu => laid u (List.mem_cons_of_mem _ hu)) others]

/-! ### The program of the text -/

theorem readable_of_mem_codeLines_render {o : Layout.Options} {source : List Char} (h : 0 ≤ o.tabWidth)
    (readable : ∀ line ∈ Layout.codeLines source, IsReadable line.content) (step : IndentWidth) :
    ∀ line ∈ Layout.codeLines (Layout.render step (Layout.run o source).tokens), IsReadable line.content := by
  intro line hl
  obtain ⟨out, s, reached, -⟩ := Layout.exists_run h source
  rw [reached.render_run] at hl
  have mem : line.content ∈ (Layout.codeLines (Layout.render step out.tokens)).map CodeLine.content :=
    List.mem_map_of_mem hl
  rw [reached.contents_render (fun _ hl => Layout.isContent_of_mem_codeLines hl), List.map_map] at mem
  obtain ⟨original, ho, same⟩ := List.mem_map.1 (List.mem_filter.1 mem).1
  rw [← same]
  exact (readable original ho).dropReturn (Layout.isContent_of_mem_codeLines ho).single

/-- Canonical text written from the tokens that a program was read from is a program of the same shape. -/
theorem exists_ofSource_render {tab : TabWidth} {source : List Char} {p : Program}
    (h : parse tab source = .ok p) (step : IndentWidth) (tab' : TabWidth) :
    ∃ p', Program.ofSource tab' (Layout.render step (Layout.run tab.lineOptions source).tokens) = .ok p' ∧
      p'.tree.shape = p.tree.shape := by
  have nonneg := tab.nonneg_lineOptions
  have newlines : tab'.lineOptions.newlines = tab.lineOptions.newlines := rfl
  have readable := readable_of_parse h
  have left : ∀ line ∈ Layout.codeLines source, Text.dropReturn line.content ≠ [] := fun line hl =>
    ((readable line hl).dropReturn (Layout.isContent_of_mem_codeLines hl).single).ne_nil
  have quiet := Layout.diagnostics_run_render nonneg newlines left step
  have faces := Layout.map_face_run_render nonneg newlines left step
  obtain ⟨r, fed, parsed⟩ := parse_of_readable tab readable
  obtain ⟨r', fed', parsed'⟩ :=
    parse_of_readable tab' (readable_of_mem_codeLines_render nonneg readable step)
  obtain rfl := Except.ok.inj (parsed.symm.trans h)
  refine ⟨_, Program.ofSource_eq_ok_iff.2 ⟨parsed', by simp [quiet]⟩, ?_⟩
  exact Reader.shape_tree_eq_of_feedAll Place.forget fed' fed
    (Item.map_mapPlaces_ofTokens (Layout.isLaid_of_mem_run nonneg) faces)

/-- **The canonical text of a program is a program whose tree has the same shape**, under every step of
indentation and every tab width. Whether it was written from tokens with the ends of lines or without makes
no difference. The program is also told (`Program.ofSource`), since nothing has to be said about the layout
of the text. -/
theorem ofSource_render_shape_eq {tab : TabWidth} {source : List Char} {p : Program}
    (h : parse tab source = .ok p) (newlines warnMixed : Bool) (step : IndentWidth) (tab' : TabWidth) :
    ∃ p', Program.ofSource tab' (Layout.render step
        (Layout.run { tabWidth := tab.columns, newlines, warnMixed } source).tokens) = .ok p' ∧
      p'.tree.shape = p.tree.shape := by
  have tab_eq : ({ tabWidth := tab.columns, newlines, warnMixed } : Layout.Options).tabWidth =
      tab.lineOptions.tabWidth := rfl
  rw [Layout.render_run_of_tabWidth tab.nonneg_lineOptions tab_eq]
  exact exists_ofSource_render h step tab'

/-- A tab, a comment, a misaligned line, and two lines that end in two carriage returns. -/
theorem ofSource_render_shape_eq_misaligned :
    ∃ p, parse .standard "a\r\r\n\tb $c\r\r\n  d".toList = .ok p ∧
      ∃ p', Program.ofSource { columns := 8 } (Layout.render { columns := 2 } (Layout.run
          { tabWidth := TabWidth.standard.columns, newlines := false, warnMixed := true }
          "a\r\r\n\tb $c\r\r\n  d".toList).tokens) = .ok p' ∧
        p'.tree.shape = p.tree.shape := by
  have parsed : parse .standard "a\r\r\n\tb $c\r\r\n  d".toList = .ok ⟨none, .line
      (.group .empty [⟨.lexeme .name, ['a'], ⟨1, 1⟩, some ⟨1, 2⟩⟩] ⟨2, 1⟩
        (.line .empty [⟨.lexeme .name, ['b'], ⟨2, 5⟩, some ⟨2, 6⟩⟩]))
      [⟨.lexeme .name, ['d'], ⟨3, 3⟩, some ⟨3, 4⟩⟩]⟩ := by decide +kernel
  exact ⟨_, parsed, ofSource_render_shape_eq parsed false true { columns := 2 } { columns := 8 }⟩

end Offside
