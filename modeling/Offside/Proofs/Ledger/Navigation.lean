import Offside.Proofs.Layout.LineEnds
import Offside.Proofs.Layout.Nesting
import Offside.Proofs.Ledger.Siblings

/-!
# From block to block

A ledger tells how far to the right its scopes stand and not which of them lies in which, so a step to the next
sibling is found from levels alone. It never leads into a block that was opened after the scope it starts from. Where
each scope stands one step to the right of the scope around it, the siblings of a scope are just those that are
opened directly in the same scope.

## The model

The scopes around a scope stand to its left (`level_lt_of_mem_scopesAround`). So what is around the later of two
siblings is neither the other one nor was it opened since, and then it is around the other one as well
(`isPrefix_of_areSiblings`). Where levels are `IsUniform` they tell how many scopes are around each, so siblings have
all of them in common; and scopes with the same parent have them in common too, with what is opened between
(`areSiblings_of_parent_eq`).
-/

namespace Offside.Layout

variable {o o' : Options} {source : List Char} {i j k : Nat} {level : Int} {step : IndentWidth}

/-- The ledger has as many scopes as the tokens open. -/
theorem length_scopes_run (h : 0 ≤ o.tabWidth) (source : List Char) :
    (run o source).scopes.length = countKind .indent (run o source).tokens :=
  (complete_run h source).accounts.length_eq

theorem lt_countKind_of_level (h : 0 ≤ o.tabWidth)
    (entry : (Ledger.mk (run o source).scopes).levels[k]? = some level) :
    k < countKind .indent (run o source).tokens := by
  have inside := (List.getElem?_eq_some_iff.1 entry).1
  rwa [Ledger.levels, List.length_map, length_scopes_run h] at inside

/-! ### Steps to siblings -/

/-- What is around the later of two siblings is around the earlier one. -/
theorem isPrefix_of_areSiblings (h : 0 ≤ o.tabWidth) (lt : i < j)
    (siblings : (Ledger.mk (run o source).scopes).AreSiblings level i j) :
    scopesAround (run o source).tokens j <+: scopesAround (run o source).tokens i := by
  have later := lt_countKind_of_level h siblings.right
  apply scopesAround_isPrefix lt later
  intro p mem
  obtain ⟨outer, inner, outer_eq, inner_eq, left⟩ := level_lt_of_mem_scopesAround h later mem
  obtain rfl : inner = level := Option.some.inj (inner_eq.symm.trans siblings.right)
  have before := lt_of_mem_scopesAround later mem
  rcases Nat.lt_trichotomy p i with earlier | rfl | since
  · exact earlier
  · obtain rfl : outer = inner := Option.some.inj (outer_eq.symm.trans siblings.left)
    exact absurd left (Int.lt_irrefl outer)
  · exact absurd (siblings.between p (.inl ⟨since, before⟩) outer outer_eq) (Int.not_le.2 left)

/-- **A step to the next sibling never leads into a block that was opened since**: the scopes around the sibling are
around the scope that the step starts from, and they are the outermost of those. -/
theorem isPrefix_of_nextSibling (h : 0 < o.tabWidth) (source : List Char) (i j : Nat)
    (next : Ledger.nextSibling ⟨(run o source).scopes⟩ i = .ok (some j)) :
    i < j ∧ j < countKind .indent (run o source).tokens ∧
      scopesAround (run o source).tokens j <+: scopesAround (run o source).tokens i := by
  have nonneg := Int.le_of_lt h
  obtain ⟨level, follows⟩ := Ledger.next?_eq_some_iff.1 (Ledger.nextSibling_eq_ok_iff.1 next).2
  exact ⟨follows.lt, lt_countKind_of_level nonneg follows.right,
    isPrefix_of_areSiblings nonneg follows.lt follows.areSiblings⟩

/-- Past a block that was opened in a column which no line comes back to. -/
theorem isPrefix_of_nextSibling_misaligned :
    (0 : Int) < 4 ∧
      Ledger.nextSibling ⟨(run {} "a\n  b\n      c\n    d\ne\n  f\n".toList).scopes⟩ 0 = .ok (some 2) ∧
      scopesAround (run {} "a\n  b\n      c\n    d\ne\n  f\n".toList).tokens 2 <+:
        scopesAround (run {} "a\n  b\n      c\n    d\ne\n  f\n".toList).tokens 0 :=
  have next : Ledger.nextSibling ⟨(run {} "a\n  b\n      c\n    d\ne\n  f\n".toList).scopes⟩ (0 : Nat) =
      .ok (some 2) := by decide +kernel
  ⟨by decide, next, (isPrefix_of_nextSibling (by decide) _ 0 2 next).2.2⟩

/-! ### Uniform levels -/

/-- Every scope stands as many steps to the right as scopes are open in it. -/
def IsUniform (step : IndentWidth) (r : Result) : Prop :=
  ∀ k scope, r.scopes[k]? = some scope →
    scope.level = step.columns * (depth (beforeScope k r.tokens) + 1)

/-- Where levels are uniform they tell how many scopes are around each. -/
theorem IsUniform.levels_eq (uniform : IsUniform step (run o source)) (h : 0 ≤ o.tabWidth)
    (hk : k < countKind .indent (run o source).tokens) :
    (Ledger.mk (run o source).scopes).levels[k]? =
      some ((step.columns : Int) * (((scopesAround (run o source).tokens k).length : Int) + 1)) := by
  have inside : k < (run o source).scopes.length := by rwa [length_scopes_run h]
  have entry := List.getElem?_eq_getElem inside
  rw [Ledger.levels, List.getElem?_map, entry, Option.map_some, uniform k _ entry,
    length_scopesAround (complete_run h source).neverNegative hk]

theorem columns_mul_le_iff {m n : Int} : (step.columns : Int) * m ≤ step.columns * n ↔ m ≤ n :=
  Int.mul_le_mul_left (Int.natCast_pos.2 step.columns_pos)

/-- Of ascending numbers, the first few end with another number than all of them. -/
theorem eq_of_isPrefix_of_getLast? {first all : List Nat} (ascending : all.Pairwise (· < ·))
    (outer : first <+: all) (last : first.getLast? = all.getLast?) : first = all := by
  obtain ⟨rest, rfl⟩ := outer
  cases rest_eq : rest.getLast? with
  | none => rw [List.getLast?_eq_none_iff.1 rest_eq, List.append_nil]
  | some p =>
    rw [List.getLast?_append, rest_eq, Option.some_or] at last
    have lt := (List.pairwise_append.1 ascending).2.2 p (List.mem_of_getLast? last) p
      (List.mem_of_getLast? rest_eq)
    exact absurd lt (Nat.lt_irrefl p)

theorem le_of_getLast? {all : List Nat} {p q : Nat} (ascending : all.Pairwise (· < ·)) (last : all.getLast? = some q)
    (mem : p ∈ all) : p ≤ q := by
  obtain ⟨before, rfl⟩ := List.getLast?_eq_some_iff.1 last
  rcases List.mem_append.1 mem with mem | mem
  · exact Nat.le_of_lt ((List.pairwise_append.1 ascending).2.2 p mem q (List.mem_singleton_self q))
  · exact Nat.le_of_eq (List.mem_singleton.1 mem)

/-- Siblings have the same scopes around them. -/
theorem IsUniform.scopesAround_eq (uniform : IsUniform step (run o source)) (h : 0 ≤ o.tabWidth) (lt : i < j)
    (siblings : (Ledger.mk (run o source).scopes).AreSiblings level i j) :
    scopesAround (run o source).tokens j = scopesAround (run o source).tokens i := by
  have left := uniform.levels_eq h (lt_countKind_of_level h siblings.left)
  have right := uniform.levels_eq h (lt_countKind_of_level h siblings.right)
  have same := Option.some.inj ((right.symm.trans siblings.right).trans (siblings.left.symm.trans left))
  have le := columns_mul_le_iff.1 (Int.le_of_eq same.symm)
  refine (isPrefix_of_areSiblings h lt siblings).eq_of_length_le ?_
  omega

theorem IsUniform.areSiblings_of_parent_eq (uniform : IsUniform step (run o source)) (h : 0 ≤ o.tabWidth)
    (lt : i < j) (hj : j < countKind .indent (run o source).tokens)
    (parent : parent? (run o source).tokens j = parent? (run o source).tokens i) :
    ∃ level, (Ledger.mk (run o source).scopes).AreSiblings level i j := by
  have hi := Nat.lt_trans lt hj
  -- the parent was opened before the first of the two, and so was all around it
  have earlier : ∀ p ∈ scopesAround (run o source).tokens j, p < i := by
    intro p mem
    cases last : parent? (run o source).tokens j with
    | none =>
      rw [List.getLast?_eq_none_iff.1 last] at mem
      cases mem
    | some q =>
      have le := le_of_getLast? (pairwise_scopesAround _ j) last mem
      have before := lt_of_mem_scopesAround hi (List.mem_of_getLast? (parent.symm.trans last))
      omega
  have same : scopesAround (run o source).tokens j = scopesAround (run o source).tokens i :=
    eq_of_isPrefix_of_getLast? (pairwise_scopesAround _ i) (scopesAround_isPrefix lt hj earlier) parent
  have left := uniform.levels_eq h hi
  rw [← same] at left
  refine ⟨_, left, uniform.levels_eq h hj, fun k between m hm => ?_⟩
  rcases between with ⟨after, before⟩ | ⟨_, _⟩
  · have outer := scopesAround_isPrefix before hj fun p mem => Nat.lt_trans (earlier p mem) after
    have here := uniform.levels_eq h (Nat.lt_trans before hj)
    obtain rfl := Option.some.inj (here.symm.trans hm)
    have le := outer.length_le
    exact columns_mul_le_iff.2 (by omega)
  · omega

/-- Where levels are uniform, the siblings of a scope are those opened directly in the same scope. -/
theorem IsUniform.areSiblings_iff (uniform : IsUniform step (run o source)) (h : 0 ≤ o.tabWidth)
    (entry : (Ledger.mk (run o source).scopes).levels[i]? = some level)
    (hj : j < countKind .indent (run o source).tokens) :
    (Ledger.mk (run o source).scopes).AreSiblings level i j ↔
      parent? (run o source).tokens j = parent? (run o source).tokens i := by
  have hi := lt_countKind_of_level h entry
  constructor
  · intro siblings
    rcases Nat.lt_trichotomy i j with lt | rfl | lt
    · exact congrArg List.getLast? (uniform.scopesAround_eq h lt siblings)
    · rfl
    · exact congrArg List.getLast? (uniform.scopesAround_eq h lt siblings.symm).symm
  · intro parent
    rcases Nat.lt_trichotomy i j with lt | rfl | lt
    · obtain ⟨level', siblings⟩ := uniform.areSiblings_of_parent_eq h lt hj parent
      obtain rfl := Option.some.inj (entry.symm.trans siblings.left)
      exact siblings
    · exact .refl entry
    · obtain ⟨level', siblings⟩ := uniform.areSiblings_of_parent_eq h lt hi parent.symm
      obtain rfl := Option.some.inj (entry.symm.trans siblings.right)
      exact siblings.symm

/-- The siblings listed are the scopes opened directly in the same scope. -/
theorem IsUniform.siblings_eq (uniform : IsUniform step (run o source)) (h : 0 ≤ o.tabWidth)
    (hi : i < (run o source).scopes.length) :
    Ledger.siblings ⟨(run o source).scopes⟩ i =
      .ok ((List.range (run o source).scopes.length).filter fun k =>
        parent? (run o source).tokens k = parent? (run o source).tokens i) := by
  have entry : (Ledger.mk (run o source).scopes).levels[i]? = some (run o source).scopes[i].level := by
    rw [Ledger.levels, List.getElem?_map, List.getElem?_eq_getElem hi, Option.map_some]
  refine Ledger.siblings_eq_ok entry (List.pairwise_lt_range.filter _) fun j => ?_
  rw [List.mem_filter, List.mem_range, decide_eq_true_iff]
  constructor
  · rintro ⟨hj, parent⟩
    rw [length_scopes_run h] at hj
    exact (uniform.areSiblings_iff h entry hj).2 parent
  · intro siblings
    have hj := lt_countKind_of_level h siblings.right
    exact ⟨by rwa [length_scopes_run h], (uniform.areSiblings_iff h entry hj).1 siblings⟩

/-! ### Canonical text -/

/-- A line of canonical text that opens a scope stands one step to the right of the innermost level. -/
theorem Reached.width_eq_of_canonical {s s₁ : State} {lines first rest : List CodeLine} {line : CodeLine}
    {out out₁ : Emission} (h : Reached o lines out s) (newlines : o'.newlines = o.newlines)
    (contents : ∀ line ∈ lines, IsContent line.content)
    (left : ∀ line ∈ lines, Text.dropReturn line.content ≠ [])
    (split : codeLines (render step out.tokens) = first ++ line :: rest) (before : Reached o' first out₁ s₁)
    (right : s₁.width < line.width o'.tabWidth) :
    line.width o'.tabWidth = step.columns * s₁.levels.length := by
  induction h generalizing rest with
  | start => simp [render, renderFrom, codeLines, codeLinesFrom] at split
  | @next lines out s last turn levels earlier t ih =>
    have content := (contents last (by simp)).dropReturn (left last (by simp))
    obtain ⟨out₂, s₂, reached, canonical, -, -⟩ :=
      (earlier.next t).canonical newlines contents left step
    rw [earlier.codeLines_render_next t (contents last (by simp)),
      codeLinesFrom_content (fun c hc => isMarginChar_of_mem_canonicalMargin hc) content] at split reached
    rcases rest.eq_nil_or_concat with rfl | ⟨rest, other, rfl⟩
    · obtain ⟨rfl, rfl⟩ := List.append_singleton_inj.1 split
      obtain ⟨out₃, s₃, turn₃, levels₃, reached₃, t₃, rfl, rfl⟩ := reached.exists_last
      obtain ⟨rfl, rfl⟩ := reached₃.unique before
      -- the state after the line is that of canonical text, and the line has opened one scope more
      have more := congrArg List.length canonical.levels_eq
      rw [CodeLine.levels_state, length_ladder, (t₃.eq_enter right).2, List.length_cons] at more
      have width_eq := canonical.width_eq
      rw [CodeLine.width_state, ← more] at width_eq
      rw [width_eq]
      congr 1
      omega
    · rw [List.concat_eq_append, ← List.cons_append, ← List.append_assoc] at split
      obtain ⟨split, -⟩ := List.append_singleton_inj.1 split
      exact ih (fun l hl => contents l (List.mem_append_left _ hl))
        (fun l hl => left l (List.mem_append_left _ hl)) split

/-- Canonical text has uniform levels, as long as something is left of every content. -/
theorem isUniform_run_render (h : 0 ≤ o.tabWidth) (h' : 0 ≤ o'.tabWidth) (newlines : o'.newlines = o.newlines)
    (left : ∀ line ∈ codeLines source, Text.dropReturn line.content ≠ []) :
    IsUniform step (run o' (render step (run o source).tokens)) := by
  intro k scope entry
  obtain ⟨out, s, reached, -⟩ := exists_run h source
  have hk := (List.getElem?_eq_some_iff.1 entry).1
  rw [length_scopes_run h'] at hk
  obtain ⟨first, line, rest, out₁, s₁, split, before, same, right, level_eq, -⟩ := exists_enter_run h' hk
  rw [List.getElem?_map, entry, Option.map_some, Option.some.injEq] at level_eq
  rw [reached.render_run] at split
  rw [level_eq, ← same, before.depth_eq, reached.width_eq_of_canonical newlines
    (fun _ hl => isContent_of_mem_codeLines hl) left split before right]
  congr 1
  omega

/-- **Where levels are uniform, the siblings of a scope are the scopes opened directly in the same scope**, or at the
top if there is none. The layout of canonical text is like this, unless there is a content that is nothing but a
carriage return: its line is written as a blank one, so the scope that it opened is not opened again. -/
theorem siblings_eq_children (h : 0 < o.tabWidth) (step : IndentWidth) (source : List Char) :
    (IsUniform step (run o source) → ∀ i < (run o source).scopes.length,
      Ledger.siblings ⟨(run o source).scopes⟩ i =
        .ok ((List.range (run o source).scopes.length).filter fun k =>
          parent? (run o source).tokens k = parent? (run o source).tokens i)) ∧
    ((∀ t ∈ (run o source).tokens, t.kind = .code → t.payload ≠ ['\r']) →
      ∀ o' : Options, 0 < o'.tabWidth → IsUniform step (run o' (render step (run o source).tokens))) := by
  have nonneg := Int.le_of_lt h
  constructor
  · intro uniform i hi
    exact uniform.siblings_eq nonneg hi
  · intro not_lone o' h'
    have left : ∀ line ∈ codeLines source, Text.dropReturn line.content ≠ [] := by
      intro line hl nothing
      have mem : line.token o ∈ codes (run o source).tokens := by
        rw [codes_run nonneg]
        exact List.mem_map_of_mem hl
      apply not_lone _ (List.mem_filter.1 mem).1 rfl
      exact Text.eq_singleton_of_dropReturn_eq_nil (isContent_of_mem_codeLines hl).ne_nil nothing
    -- the text does not show whether ends of lines were asked for
    have tab_eq : ({ o with newlines := o'.newlines } : Options).tabWidth = o.tabWidth := rfl
    rw [← render_run_of_tabWidth nonneg tab_eq]
    exact isUniform_run_render nonneg (Int.le_of_lt h') rfl left

/-- Two steps to the right at once and a line that stands in none of the columns still open, written out. -/
theorem siblings_eq_children_misaligned :
    (0 : Int) < 4 ∧
      (∀ t ∈ (run {} "a\n\tb\n\t\t\tc\n\t d\n  e\n\tf".toList).tokens, t.kind = .code → t.payload ≠ ['\r']) ∧
      IsUniform .standard (run {} (render .standard
        (run {} "a\n\tb\n\t\t\tc\n\t d\n  e\n\tf".toList).tokens)) ∧
      Ledger.siblings ⟨(run {} (render .standard
        (run {} "a\n\tb\n\t\t\tc\n\t d\n  e\n\tf".toList).tokens)).scopes⟩ (0 : Nat) = .ok [0, 2] := by
  have not_lone : ∀ t ∈ (run {} "a\n\tb\n\t\t\tc\n\t d\n  e\n\tf".toList).tokens, t.kind = .code →
      t.payload ≠ ['\r'] := by decide
  have uniform := (siblings_eq_children (o := {}) (by decide) .standard _).2 not_lone {} (by decide)
  have listed := (siblings_eq_children (o := {}) (by decide) .standard _).1 uniform 0 (by decide +kernel)
  exact ⟨by decide, not_lone, uniform, listed.trans (by decide +kernel)⟩

/-- The text that is written for a content which is nothing but a carriage return, and the text that is written
where tokens open two scopes at once, are not uniform. Two scopes at the top have different levels there, and are no
siblings. -/
theorem siblings_ne_children_render :
    render ⟨1, Nat.one_pos⟩ (run {} "a\n \r\r\n  b\nc\n d\n".toList).tokens = "a\n \r\n  b\nc\n d\n".toList ∧
      Ledger.siblings ⟨(run {} "a\n \r\n  b\nc\n d\n".toList).scopes⟩ (0 : Nat) = .ok [0] ∧
      ((List.range 2).filter fun k => parent? (run {} "a\n \r\n  b\nc\n d\n".toList).tokens k =
        parent? (run {} "a\n \r\n  b\nc\n d\n".toList).tokens 0) = [0, 1] ∧
      ¬ IsUniform ⟨1, Nat.one_pos⟩ (run {} "a\n \r\n  b\nc\n d\n".toList) ∧
    render ⟨1, Nat.one_pos⟩ [.code ['a'] 1 0, .indent 2, .indent 2, .code ['b'] 2 2, .dedent 3, .dedent 3,
        .code ['c'] 3 0, .indent 4, .code ['d'] 4 1, .dedent 5, .endOfFile 5] = "a\n  b\nc\n d\n".toList ∧
      ¬ IsUniform ⟨1, Nat.one_pos⟩ (run {} "a\n  b\nc\n d\n".toList) := by
  refine ⟨by decide +kernel, by decide +kernel, by decide +kernel, fun uniform => ?_, by decide +kernel,
    fun uniform => ?_⟩
  · have level_eq := uniform 0 ⟨2, 3, .block⟩ (by decide +kernel)
    exact absurd level_eq (by decide +kernel)
  · have level_eq := uniform 0 ⟨2, 2, .block⟩ (by decide +kernel)
    exact absurd level_eq (by decide +kernel)

end Offside.Layout
