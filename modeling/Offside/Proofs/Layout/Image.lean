import Offside.Proofs.Layout.Canonical
import Offside.Proofs.Layout.Extent
import Offside.Proofs.Layout.LineEnds

/-!
# Which tokens a source can have

What the tokens of a source say, without where they stand, is described exactly by `IsLayout`: there is
nothing that holds of all sources and does not follow from it, since every list that it allows comes from a
source.

## The model

A list that is allowed is taken apart line by line (`Drafted`): each code line comes either right after the
opening of a scope or after the closing of some. The source that is put together for it has the lines of
canonical text, with a carriage return before each line feed: the one that is taken away when the text is
laid out, so that a content may end in carriage returns of its own.
-/

namespace Offside.Layout

/-! ### What is allowed -/

/-- What a list of tokens says is what the tokens of some source say, ends of lines not asked for. -/
structure IsLayout (faces : List (Kind × List Char)) : Prop where
  /-- The last token says that the source ends, and no other does. -/
  ends : ∃ before last, faces = before ++ [last] ∧ last.1 = .endOfFile ∧ ∀ f ∈ before, f.1 ≠ .endOfFile
  no_newline : ∀ f ∈ faces, f.1 ≠ .newline
  /-- At no moment have more scopes been closed than opened. -/
  neverNegative : ∀ p, p <+: faces → p.countP (·.1 == .dedent) ≤ p.countP (·.1 == .indent)
  balanced : faces.countP (·.1 == .indent) = faces.countP (·.1 == .dedent)
  /-- A scope is opened right before a code line. -/
  opens_before : ∀ before f after, faces = before ++ f :: after → f.1 = .indent →
    ∃ c rest, after = c :: rest ∧ c.1 = .code
  /-- A scope is opened at the beginning or right after a code line. -/
  opens_after : ∀ before f after, faces = before ++ f :: after → f.1 = .indent →
    ∀ c ∈ before.getLast?, c.1 = .code
  /-- What layout adds to the code lines has a fixed text. -/
  fixed : ∀ f ∈ faces, ∀ text ∈ f.1.fixedText?, f.2 = text
  content : ∀ f ∈ faces, f.1 = .code → IsContent f.2

/-- The same with the end of each code line. -/
def withLineEnds (faces : List (Kind × List Char)) : List (Kind × List Char) :=
  faces.flatMap fun f => if f.1 = .code then [f, (.newline, ['\n'])] else [f]

@[simp] theorem withLineEnds_append (first second : List (Kind × List Char)) :
    withLineEnds (first ++ second) = withLineEnds first ++ withLineEnds second := List.flatMap_append

theorem withLineEnds_eq_self {faces : List (Kind × List Char)} (h : ∀ f ∈ faces, f.1 ≠ .code) :
    withLineEnds faces = faces := by
  induction faces with
  | nil => rfl
  | cons f rest ih =>
    have head := h f List.mem_cons_self
    have tail := ih fun g hg => h g (List.mem_cons_of_mem _ hg)
    rw [withLineEnds] at tail ⊢
    rw [List.flatMap_cons, if_neg head, tail, List.singleton_append]

/-! ### The tokens of a source are allowed -/

variable {o : Options} {s : State} {line : CodeLine} {turn : Emission} {levels : List Int}
  {lines : List CodeLine} {out : Emission}

theorem countP_map_face (kind : Kind) (tokens : List Token) :
    (tokens.map Token.face).countP (·.1 == kind) = countKind kind tokens := by
  rw [List.countP_map]
  rfl

/-- What opens a scope comes first in what a line gives. -/
theorem Turns.eq_nil_of_opens (t : Turns o s line turn levels) {r after : List Token} {u : Token}
    (split : turn.tokens ++ line.tokens o = r ++ u :: after) (opens : u.kind = .indent) : r = [] := by
  have not_line : u ∉ line.tokens o := fun hu =>
    CodeLine.kind_ne_of_mem_tokens (by decide) (by decide) hu opens
  have mem : u ∈ turn.tokens := CodeLine.mem_of_opens (by rw [split]; simp) opens
  rw [(t.eq_enter (t.right_of_opens mem opens)).1] at split
  cases r with
  | nil => rfl
  | cons v r =>
    have rest : line.tokens o = r ++ u :: after := (List.cons.inj split).2
    exact absurd (by simp [rest]) not_line

theorem Reached.opens_after (h : Reached o lines out s) {before after : List Token} {t : Token}
    (split : out.tokens = before ++ t :: after) (opens : t.kind = .indent) :
    ∀ c ∈ before.getLast?, c.kind = .code ∨ c.kind = .newline := by
  induction h generalizing after with
  | start => simp at split
  | @next lines out s line turn levels earlier turns ih =>
    rw [Emission.tokens_append] at split
    rcases split_append split with ⟨r, tokens_eq, -⟩ | ⟨r, rfl, here⟩
    · exact ih tokens_eq
    · obtain rfl := turns.eq_nil_of_opens here opens
      rw [List.append_nil]
      exact earlier.kind_of_getLast

theorem Reached.kind_ne_newline (h : Reached o lines out s) (off : o.newlines = false) :
    ∀ t ∈ out.tokens, t.kind ≠ .newline := by
  induction h with
  | start => simp
  | @next _ _ _ line _ _ _ turns ih =>
    intro t ht
    simp only [Emission.tokens_append, CodeLine.tokens_emission, List.mem_append] at ht
    rcases ht with ht | ht | ht
    · exact ih t ht
    · rcases turns.kind_of_mem ht with kind | kind <;> simp [kind]
    · have code : t = line.token o := by simpa [CodeLine.tokens, off, CodeLine.token] using ht
      rw [code]
      simp [CodeLine.token, Token.code]

theorem kind_ne_newline_of_mem_run (h : 0 ≤ o.tabWidth) (off : o.newlines = false) {source : List Char} :
    ∀ t ∈ (run o source).tokens, t.kind ≠ .newline := by
  obtain ⟨out, s, reached, whole⟩ := exists_run h source
  intro t ht
  rw [whole] at ht
  rcases List.mem_append.1 ht with ht | ht
  · exact reached.kind_ne_newline off t ht
  · exact kind_ne_of_mem_closing (by decide) (by decide) ht

/-- In a whole source a scope is opened at the beginning or right after a code line, when no ends of lines
come between. -/
theorem code_of_getLast_of_opens (h : 0 ≤ o.tabWidth) (off : o.newlines = false) {source : List Char}
    {before after : List Token} {t : Token} (split : (run o source).tokens = before ++ t :: after)
    (opens : t.kind = .indent) : ∀ c ∈ before.getLast?, c.kind = .code := by
  obtain ⟨out, s, reached, whole⟩ := exists_run h source
  intro c hc
  have mem : c ∈ (run o source).tokens := by
    rw [split]
    exact List.mem_append_left _ (List.mem_of_getLast? hc)
  have not_end := kind_ne_newline_of_mem_run h off c mem
  have tokens_eq : out.tokens ++ closing ((Text.lines source).length + 1) s.levels = before ++ t :: after := by
    rw [← split, whole]
    rfl
  rcases split_append tokens_eq with ⟨r, out_eq, -⟩ | ⟨r, -, closing_eq⟩
  · exact (reached.opens_after out_eq opens c hc).resolve_right not_end
  · have closes : t ∈ closing ((Text.lines source).length + 1) s.levels := by
      rw [closing_eq]
      simp
    exact absurd opens (kind_ne_of_mem_closing (by decide) (by decide) closes)

theorem exists_split_of_map_face {tokens : List Token} {before after : List (Kind × List Char)}
    {f : Kind × List Char} (h : tokens.map Token.face = before ++ f :: after) :
    ∃ first t second, tokens = first ++ t :: second ∧ first.map Token.face = before ∧ t.face = f ∧
      second.map Token.face = after := by
  obtain ⟨first, others, rfl, hb, ho⟩ := List.map_eq_append_iff.1 h
  obtain ⟨t, second, rfl, hf, ha⟩ := List.map_eq_cons_iff.1 ho
  exact ⟨first, t, second, rfl, hb, hf, ha⟩

/-- Every source says what is allowed. -/
theorem isLayout_run (h : 0 ≤ o.tabWidth) (off : o.newlines = false) (source : List Char) :
    IsLayout ((run o source).tokens.map Token.face) := by
  obtain ⟨out, s, reached, whole⟩ := exists_run h source
  have complete := whole ▸ reached.complete (Text.lines source).length
  have laid : ∀ t ∈ (run o source).tokens, t.IsLaid := isLaid_of_mem_run h
  refine ⟨?_, ?_, ?_, ?_, ?_, ?_, ?_, ?_⟩
  · obtain ⟨before, tokens_eq, none⟩ := complete.ends
    refine ⟨before.map Token.face, (Token.endOfFile _).face, by rw [tokens_eq, List.map_append]; rfl, rfl, ?_⟩
    exact List.forall_mem_map.2 none
  · exact List.forall_mem_map.2 (kind_ne_newline_of_mem_run h off)
  · rintro p ⟨q, hq⟩
    obtain ⟨first, second, tokens_eq, rfl, -⟩ := List.map_eq_append_iff.1 hq.symm
    have nonneg := complete.neverNegative first ⟨second, tokens_eq.symm⟩
    rw [depth_eq_count] at nonneg
    rw [countP_map_face, countP_map_face]
    omega
  · rw [countP_map_face, countP_map_face]
    exact complete.balanced
  · intro before f after split opens
    obtain ⟨first, t, second, tokens_eq, -, rfl, rfl⟩ := exists_split_of_map_face split
    obtain ⟨c, rest, rfl, code, -⟩ := complete.accounts.entry first t second tokens_eq opens
    exact ⟨c.face, rest.map Token.face, rfl, code⟩
  · intro before f after split opens
    obtain ⟨first, t, second, tokens_eq, rfl, rfl, -⟩ := exists_split_of_map_face split
    intro c hc
    rw [List.getLast?_map] at hc
    obtain ⟨u, hu, rfl⟩ := Option.map_eq_some_iff.1 hc
    exact code_of_getLast_of_opens h off tokens_eq opens u hu
  · exact List.forall_mem_map.2 fun t ht => (laid t ht).fixed
  · exact List.forall_mem_map.2 fun t ht => (laid t ht).content

/-! ### What is allowed is said by a source -/

/-- What a token says that layout adds to the code lines. -/
def Kind.face (kind : Kind) : Kind × List Char := (kind, kind.fixedText?.getD [])

@[simp] theorem Kind.fst_face (kind : Kind) : kind.face.1 = kind := rfl

/-- What is said up to a code line, and how many scopes are left open there: line by line, either a scope is
opened or some are closed, possibly none. -/
inductive Drafted : Nat → List (Kind × List Char) → Prop
  /-- Before the first line nothing is said. -/
  | start : Drafted 0 []
  | enter {n : Nat} {faces : List (Kind × List Char)} {content : List Char} (before : Drafted n faces)
      (h : IsContent content) : Drafted (n + 1) (faces ++ [Kind.indent.face, (.code, content)])
  | leave {k n : Nat} {faces : List (Kind × List Char)} {content : List Char}
      (before : Drafted (k + n) faces) (h : IsContent content) :
      Drafted n (faces ++ (List.replicate k Kind.dedent.face ++ [(.code, content)]))

/-- What is said in the middle of a source: either some scopes have been closed since the last line, possibly
none, or one has been opened. -/
inductive Drafting : List (Kind × List Char) → Prop
  | closing {k n : Nat} {faces : List (Kind × List Char)} (before : Drafted (k + n) faces) :
      Drafting (faces ++ List.replicate k Kind.dedent.face)
  | opening {n : Nat} {faces : List (Kind × List Char)} (before : Drafted n faces) :
      Drafting (faces ++ [Kind.indent.face])

theorem Drafted.drafting {n : Nat} {faces : List (Kind × List Char)} (h : Drafted n faces) :
    Drafting faces := by
  have closing : Drafting (faces ++ List.replicate 0 Kind.dedent.face) := .closing (by rwa [Nat.zero_add])
  simpa using closing

theorem Drafted.countP_eq {n : Nat} {faces : List (Kind × List Char)} (h : Drafted n faces) :
    faces.countP (·.1 == .indent) = faces.countP (·.1 == .dedent) + n := by
  induction h with
  | start => rfl
  | enter _ _ ih =>
    simp [List.countP_append, ih]
    omega
  | leave _ _ ih =>
    simp [List.countP_append, ih, List.countP_replicate]
    omega

/-- What is added to the code lines is determined by its kind. -/
theorem IsLayout.eq_face {faces : List (Kind × List Char)} (h : IsLayout faces) {kind : Kind}
    {text : List Char} (mem : (kind, text) ∈ faces) (added : kind ≠ .code) : (kind, text) = kind.face := by
  have fixed := h.fixed _ mem
  cases kind with
  | code => exact absurd rfl added
  | indent => exact congrArg _ (fixed _ rfl)
  | dedent => exact congrArg _ (fixed _ rfl)
  | newline => exact congrArg _ (fixed _ rfl)
  | endOfFile => exact congrArg _ (fixed _ rfl)

theorem IsLayout.kind_ne_endOfFile {faces after : List (Kind × List Char)} {f : Kind × List Char}
    (h : IsLayout (faces ++ f :: after)) (more : after ≠ []) : f.1 ≠ .endOfFile := by
  obtain ⟨before, last, split, -, none⟩ := h.ends
  have rest : before = (faces ++ f :: after).dropLast := by rw [split, List.dropLast_concat]
  refine none f ?_
  rw [rest, List.dropLast_append_of_ne_nil (by simp), List.dropLast_cons_of_ne_nil more]
  simp

theorem IsLayout.pos_of_dedent {k n : Nat} {faces after : List (Kind × List Char)} {f : Kind × List Char}
    (h : IsLayout (faces ++ List.replicate k Kind.dedent.face ++ f :: after)) (closes : f.1 = .dedent)
    (before : Drafted (k + n) faces) : 0 < n := by
  have counts := before.countP_eq
  have enough := h.neverNegative (faces ++ List.replicate k Kind.dedent.face ++ [f]) ⟨after, by simp⟩
  simp only [List.countP_append, List.countP_replicate, List.countP_singleton, closes, Kind.fst_face,
    beq_self_eq_true, if_true, reduceCtorEq, beq_iff_eq, if_false] at enough
  omega

/-- Line by line, the beginning of what is allowed can be drafted. -/
theorem IsLayout.drafting {faces after : List (Kind × List Char)} (h : IsLayout (faces ++ after))
    (more : after ≠ []) : Drafting faces := by
  induction faces using List.reverseRecOn generalizing after with
  | nil => exact Drafted.start.drafting
  | append_singleton faces f ih =>
    rw [List.append_assoc, List.singleton_append] at h
    have mem : f ∈ faces ++ f :: after := by simp
    obtain ⟨kind, text⟩ := f
    cases ih h (by simp) with
    | @closing k n faces before =>
      cases kind with
      | indent =>
        -- it comes right after a code line, so no scope has been closed in between
        obtain rfl : k = 0 := by
          have code := h.opens_after _ _ _ rfl rfl
          cases k with
          | zero => rfl
          | succ k => simp [List.replicate_succ', ← List.append_assoc] at code
        rw [Nat.zero_add] at before
        rw [h.eq_face mem (by simp), List.replicate_zero, List.append_nil]
        exact .opening before
      | dedent =>
        obtain ⟨m, rfl⟩ := Nat.exists_eq_succ_of_ne_zero (h.pos_of_dedent rfl before).ne'
        rw [h.eq_face mem (by simp), List.append_assoc, ← List.replicate_succ']
        exact .closing (n := m) (by rwa [Nat.add_right_comm])
      | code =>
        rw [List.append_assoc]
        exact (Drafted.leave before (h.content _ mem rfl)).drafting
      | newline => exact absurd rfl (h.no_newline _ mem)
      | endOfFile => exact absurd rfl (h.kind_ne_endOfFile more)
    | @opening n faces before =>
      rw [List.append_assoc, List.singleton_append] at h
      obtain ⟨c, rest, next, code⟩ := h.opens_before faces _ _ rfl rfl
      obtain ⟨rfl, -⟩ := List.cons.inj next
      obtain rfl : kind = .code := code
      rw [List.append_assoc]
      exact (Drafted.enter before (h.content (.code, text) (by simp) rfl)).drafting

/-- What is allowed is drafted up to its last code line; then what is open is closed and the source ends. -/
theorem IsLayout.exists_drafted {faces : List (Kind × List Char)} (h : IsLayout faces) :
    ∃ n before, Drafted n before ∧
      faces = before ++ (List.replicate n Kind.dedent.face ++ [Kind.endOfFile.face]) := by
  obtain ⟨before, ⟨kind, text⟩, rfl, ends, -⟩ := h.ends
  obtain rfl : kind = .endOfFile := ends
  cases h.drafting (by simp) with
  | @closing k n faces drafted =>
    obtain rfl : n = 0 := by
      have counts := drafted.countP_eq
      have balanced := h.balanced
      simp [List.countP_append, List.countP_replicate] at balanced
      omega
    refine ⟨k, faces, drafted, ?_⟩
    rw [h.eq_face (by simp) (by simp), List.append_assoc]
  | @opening n faces drafted =>
    rw [List.append_assoc, List.singleton_append] at h
    obtain ⟨c, rest, next, code⟩ := h.opens_before faces _ _ rfl rfl
    obtain ⟨rfl, -⟩ := List.cons.inj next
    cases code

/-! ### The source of a draft -/

theorem codeLines_append_line {source indent content : List Char}
    (ended : source = [] ∨ source.getLast? = some '\n') (blank : ∀ c ∈ indent, isMarginChar c = true)
    (h : IsContent content) :
    codeLines (source ++ (indent ++ content ++ ['\r'] ++ ['\n'])) =
      codeLines source ++ [⟨1 + (Text.lines source).length, indent, content⟩] := by
  have single : '\n' ∉ indent ++ content ++ ['\r'] := by
    simp only [List.mem_append, List.mem_singleton, not_or]
    refine ⟨⟨fun mem => ?_, h.single⟩, by decide⟩
    exact absurd (blank _ mem) (by decide)
  rw [codeLines, Text.lines_append ended, codeLinesFrom_append, Text.lines_terminated single,
    Text.dropReturn_return, codeLinesFrom_content blank h, ← codeLines]

/-- A source that says what a draft says. It consists of ended lines, and its levels are evenly spaced. -/
structure IsSpelled (o : Options) (n : Nat) (faces : List (Kind × List Char)) (source : List Char)
    (out : Emission) (s : State) : Prop where
  ended : source = [] ∨ source.getLast? = some '\n'
  reached : Reached o (codeLines source) out s
  canonical : s.Canonical .standard (n + 1)
  faces_eq : out.tokens.map Token.face = faces

theorem IsSpelled.next {n m : Nat} {faces : List (Kind × List Char)} {source content : List Char}
    (turnFaces : List (Kind × List Char)) (spelled : IsSpelled o n faces source out s)
    (off : o.newlines = false) (h : IsContent content)
    (turns : ∀ line : CodeLine, line.width o.tabWidth = IndentWidth.standard.columns * (m : Int) →
      ∃ turn, Turns o s line turn (ladder .standard (m + 1)) ∧ turn.tokens.map Token.face = turnFaces) :
    ∃ source out s, IsSpelled o m (faces ++ (turnFaces ++ [(.code, content)])) source out s := by
  have blank : ∀ c ∈ canonicalMargin .standard (m : Int), isMarginChar c = true :=
    fun _ hc => isMarginChar_of_mem_canonicalMargin hc
  have lines_eq := codeLines_append_line spelled.ended blank h
  generalize written : CodeLine.mk (1 + (Text.lines source).length) (canonicalMargin .standard (m : Int))
    content = line at lines_eq
  have width : line.width o.tabWidth = IndentWidth.standard.columns * (m : Int) := by
    rw [← written, CodeLine.width]
    exact width_canonicalMargin (Int.natCast_nonneg m) _
  obtain ⟨turn, t, turn_faces⟩ := turns line width
  refine ⟨_, _, _, .inr (by simp), lines_eq ▸ spelled.reached.next t, ⟨rfl, ?_⟩, ?_⟩
  · rw [CodeLine.width_state, width]
    congr 1
    omega
  · have code : (line.tokens o).map Token.face = [(.code, content)] := by
      simp [CodeLine.tokens, off, ← written, Token.face, Token.code]
    simp [spelled.faces_eq, turn_faces, code]

/-- Every draft is spelled by a source. -/
theorem Drafted.exists_spelled {n : Nat} {faces : List (Kind × List Char)} (h : Drafted n faces)
    (off : o.newlines = false) : ∃ source out s, IsSpelled o n faces source out s := by
  induction h with
  | start => exact ⟨[], {}, {}, .inl rfl, .start, State.canonical_start .standard, rfl⟩
  | @enter n _ content _ h ih =>
    obtain ⟨source, out, s, spelled⟩ := ih
    exact spelled.next [Kind.indent.face] off h fun line width => ⟨_, spelled.canonical.enter width, rfl⟩
  | @leave k n _ content _ h ih =>
    obtain ⟨source, out, s, spelled⟩ := ih
    refine spelled.next (List.replicate k Kind.dedent.face) off h fun line width => ?_
    exact ⟨_, spelled.canonical.leave (k := k) (n := n) width, List.map_replicate⟩

/-- **What is allowed is said by a source.** -/
theorem IsLayout.exists_source {faces : List (Kind × List Char)} (h : IsLayout faces)
    (off : o.newlines = false) : ∃ source, (run o source).tokens.map Token.face = faces := by
  obtain ⟨n, before, drafted, rfl⟩ := h.exists_drafted
  obtain ⟨source, out, s, spelled⟩ := drafted.exists_spelled off
  refine ⟨source, ?_⟩
  have open_scopes : s.levels.length - 1 = n := by
    rw [spelled.canonical.levels_eq, length_ladder, Nat.add_sub_cancel]
  rw [spelled.reached.run_eq]
  simp [spelled.faces_eq, closing, open_scopes, Token.face, Token.dedent, Token.endOfFile, Kind.face,
    Kind.fixedText?]

/-! ### Ends of lines -/

/-- Where ends of lines are asked for there is one after each code line. -/
theorem Reached.map_face_of_newlines (h : Reached o lines out s) (on : o.newlines = true) :
    out.tokens.map Token.face = withLineEnds ((tokensWithin out.tokens).map Token.face) := by
  induction h with
  | start => rfl
  | @next _ _ _ line turn _ _ t ih =>
    have within : tokensWithin turn.tokens = turn.tokens := by
      refine tokensWithin_eq_self fun u hu => ?_
      rcases t.kind_of_mem hu with kind | kind <;> simp [kind]
    have turn_faces : withLineEnds (turn.tokens.map Token.face) = turn.tokens.map Token.face :=
      withLineEnds_eq_self (List.forall_mem_map.2 fun u hu => t.kind_ne_code hu)
    have line_faces : (line.tokens o).map Token.face = withLineEnds ([line.token o].map Token.face) := by
      simp only [CodeLine.tokens, on, if_true]
      rfl
    simp only [Emission.tokens_append, CodeLine.tokens_emission, tokensWithin_append, List.map_append,
      withLineEnds_append, CodeLine.tokensWithin_tokens, within, turn_faces, line_faces, ← ih]

/-- Asking for ends of lines adds one after each code line and changes nothing else. -/
theorem map_face_run_of_newlines {o' : Options} (h : 0 ≤ o.tabWidth) (off : o.newlines = false)
    (tab : o'.tabWidth = o.tabWidth) (on : o'.newlines = true) (source : List Char) :
    (run o' source).tokens.map Token.face = withLineEnds ((run o source).tokens.map Token.face) := by
  obtain ⟨out, s, reached, whole⟩ := exists_run (tab ▸ h) source
  have none : ∀ t ∈ (run o source).tokens, t.kind ≠ .newline := kind_ne_newline_of_mem_run h off
  have closing_none : ∀ t ∈ closing ((Text.lines source).length + 1) s.levels, t.kind ≠ .newline :=
    fun t ht => kind_ne_of_mem_closing (by decide) (by decide) ht
  have closing_faces : withLineEnds ((closing ((Text.lines source).length + 1) s.levels).map Token.face) =
      (closing ((Text.lines source).length + 1) s.levels).map Token.face :=
    withLineEnds_eq_self (List.forall_mem_map.2 fun u hu => kind_ne_code_of_mem_closing hu)
  rw [← tokensWithin_eq_self none, ← tokensWithin_run h tab, whole]
  simp only [Emission.tokens_append, tokensWithin_append, List.map_append, withLineEnds_append,
    tokensWithin_eq_self closing_none, closing_faces, ← reached.map_face_of_newlines on]

/-- **The tokens of sources are those that `IsLayout` allows**, as kinds and texts, under every tab width.
Where ends of lines are asked for they are these with one after each code line. -/
theorem exists_run_iff_isLayout (tab : TabWidth) (warnMixed : Bool) (faces : List (Kind × List Char)) :
    ((∃ source, (run { tabWidth := tab.columns, newlines := false, warnMixed } source).tokens.map
        Token.face = faces) ↔ IsLayout faces) ∧
    ((∃ source, (run { tabWidth := tab.columns, newlines := true, warnMixed } source).tokens.map
        Token.face = faces) ↔ ∃ within, IsLayout within ∧ faces = withLineEnds within) := by
  have nonneg : (0 : Int) ≤ tab.columns := Int.natCast_nonneg _
  have added (source : List Char) :
      (run { tabWidth := tab.columns, newlines := true, warnMixed } source).tokens.map Token.face =
        withLineEnds ((run { tabWidth := tab.columns, newlines := false, warnMixed } source).tokens.map
          Token.face) :=
    map_face_run_of_newlines (by exact nonneg) (by rfl) (by rfl) (by rfl) source
  constructor
  · constructor
    · rintro ⟨source, rfl⟩
      exact isLayout_run nonneg rfl source
    · exact fun h => h.exists_source rfl
  · constructor
    · rintro ⟨source, rfl⟩
      exact ⟨_, isLayout_run nonneg rfl source, added source⟩
    · rintro ⟨within, h, rfl⟩
      obtain ⟨source, rfl⟩ :=
        h.exists_source (o := { tabWidth := tab.columns, newlines := false, warnMixed }) rfl
      exact ⟨source, added source⟩

end Offside.Layout
