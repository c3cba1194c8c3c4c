import Offside.Proofs.Layout.Normal

/-!
# Scopes within scopes

A ledger lists the scopes of a source in a row and does not say which of them lies in which. The tokens do: a
scope lies in those that are open where it is opened.

## The model

`openScopes` follows the tokens and keeps the numbers of the scopes that are open, outermost first; a scope has
the number that its opening has among all openings, which is its number in the ledger. `scopesAround` gives those
that are open right before a scope is opened, and `parent?` the innermost of them.

What is open at a moment was either open at any earlier one or has been opened since
(`exists_openScopesFrom_eq`). So if the scopes around one scope were all opened before another, they are around that
one too (`scopesAround_isPrefix`). In a run the levels kept are those of the open scopes (`Reached.levels_eq_map`),
so every scope stands to the right of those around it (`level_lt_of_mem_scopesAround`).
-/

namespace Offside.Layout

/-! ### Open scopes -/

/-- The scopes open after some tokens, outermost first. The next to be opened has the number `n`, and those in
`around` are open already. -/
def openScopesFrom (n : Nat) (around : List Nat) : List Token → List Nat
  | [] => around
  | t :: rest =>
    match t.kind with
    | .indent => openScopesFrom (n + 1) (around ++ [n]) rest
    | .dedent => openScopesFrom n around.dropLast rest
    | .newline | .code | .endOfFile => openScopesFrom n around rest

/-- The scopes that tokens leave open, outermost first, each by its number. -/
def openScopes (tokens : List Token) : List Nat := openScopesFrom 0 [] tokens

/-- The tokens before the one that opens the scope of a number. -/
def beforeScope : Nat → List Token → List Token
  | _, [] => []
  | k, t :: rest =>
    if t.kind = .indent then
      match k with
      | 0 => []
      | k + 1 => t :: beforeScope k rest
    else t :: beforeScope k rest

/-- The scopes that are open where a scope is opened, outermost first. -/
def scopesAround (tokens : List Token) (k : Nat) : List Nat := openScopes (beforeScope k tokens)

/-- The scope in which a scope is opened directly, unless that is at the top. -/
def parent? (tokens : List Token) (k : Nat) : Option Nat := (scopesAround tokens k).getLast?

variable {n : Nat} {around : List Nat} {tokens : List Token}

theorem openScopesFrom_append (n : Nat) (around : List Nat) (first second : List Token) :
    openScopesFrom n around (first ++ second) =
      openScopesFrom (n + countKind .indent first) (openScopesFrom n around first) second := by
  induction first generalizing n around with
  | nil => rfl
  | cons t rest ih =>
    obtain ⟨kind, payload, line, column⟩ := t
    cases kind <;> simp [openScopesFrom, countKind_cons, ih, Nat.add_assoc, Nat.add_comm 1]

theorem openScopes_append (first second : List Token) :
    openScopes (first ++ second) =
      openScopesFrom (countKind .indent first) (openScopes first) second := by
  rw [openScopes, openScopesFrom_append, Nat.zero_add]
  rfl

theorem CodeLine.openScopesFrom_tokens (n : Nat) (around : List Nat) (o : Options) (line : CodeLine) :
    openScopesFrom n around (line.tokens o) = around := by
  unfold CodeLine.tokens
  split <;> rfl

theorem openScopesFrom_dedents (n : Nat) (around : List Nat) (count : Nat) (number : Int) :
    openScopesFrom n around (List.replicate count (.dedent number)) = around.take (around.length - count) := by
  induction count generalizing around with
  | zero => simp [openScopesFrom]
  | succ count ih =>
    rw [List.replicate_succ]
    change openScopesFrom n around.dropLast (List.replicate count (.dedent number)) = _
    rw [ih, List.dropLast_eq_take, List.length_take, List.take_take]
    congr 1
    omega

/-- Scopes are numbered from the outermost to the innermost, and none has a number that is not given yet. -/
theorem pairwise_openScopesFrom (ascending : around.Pairwise (· < ·)) (given : ∀ k ∈ around, k < n) :
    (openScopesFrom n around tokens).Pairwise (· < ·) ∧
      ∀ k ∈ openScopesFrom n around tokens, k < n + countKind .indent tokens := by
  induction tokens generalizing n around with
  | nil => exact ⟨ascending, given⟩
  | cons t rest ih =>
    obtain ⟨kind, payload, line, column⟩ := t
    cases kind with
    | indent =>
      have ascending' : (around ++ [n]).Pairwise (· < ·) := by
        rw [List.pairwise_append]
        exact ⟨ascending, List.pairwise_singleton _ n, fun k hk m hm => List.mem_singleton.1 hm ▸ given k hk⟩
      have given' : ∀ k ∈ around ++ [n], k < n + 1 := by
        intro k hk
        rcases List.mem_append.1 hk with hk | hk
        · exact Nat.lt_succ_of_lt (given k hk)
        · exact List.mem_singleton.1 hk ▸ Nat.lt_succ_self n
      have all := ih ascending' given'
      rw [Nat.add_assoc, Nat.add_comm 1] at all
      rw [countKind_cons, if_pos rfl]
      exact all
    | dedent =>
      have kept := List.dropLast_sublist around
      exact ih (ascending.sublist kept) fun k hk => given k (kept.mem hk)
    | newline | code | endOfFile => exact ih ascending given

theorem pairwise_openScopes (tokens : List Token) : (openScopes tokens).Pairwise (· < ·) :=
  (pairwise_openScopesFrom .nil (by simp)).1

theorem lt_of_mem_openScopes {k : Nat} (h : k ∈ openScopes tokens) : k < countKind .indent tokens := by
  have given : ∀ k ∈ ([] : List Nat), k < 0 := by simp
  have all := (pairwise_openScopesFrom .nil given).2 k h
  rwa [Nat.zero_add] at all

theorem length_openScopesFrom (enough : ∀ p, p <+: tokens → 0 ≤ around.length + depth p) :
    ((openScopesFrom n around tokens).length : Int) = around.length + depth tokens := by
  induction tokens generalizing n around with
  | nil => simp [openScopesFrom]
  | cons t rest ih =>
    have here := enough [t] ⟨rest, rfl⟩
    have later (p : List Token) (hp : p <+: rest) := enough (t :: p) ((List.prefix_cons_inj t).2 hp)
    obtain ⟨kind, payload, line, column⟩ := t
    simp only [depth_cons, depth_nil] at here later ⊢
    cases kind with
    | indent =>
      simp only [Kind.change] at here later ⊢
      refine (ih fun p hp => ?_).trans ?_
      · have := later p hp
        rw [List.length_append, List.length_singleton]
        omega
      · rw [List.length_append, List.length_singleton]
        omega
    | dedent =>
      simp only [Kind.change] at here later ⊢
      -- otherwise more would have been closed here than was open
      have some_open : 0 < around.length := by omega
      refine (ih fun p hp => ?_).trans ?_
      · have := later p hp
        rw [List.length_dropLast]
        omega
      · rw [List.length_dropLast]
        omega
    | newline | code | endOfFile =>
      simp only [Kind.change, Int.zero_add] at later ⊢
      exact ih later

theorem length_openScopes (h : NeverNegative tokens) : ((openScopes tokens).length : Int) = depth tokens := by
  have enough : ∀ p, p <+: tokens → 0 ≤ (([] : List Nat).length : Int) + depth p := by
    intro p hp
    simpa using h p hp
  rw [openScopes, length_openScopesFrom enough]
  simp

/-- **What is open was open before, or has been opened since.** -/
theorem exists_openScopesFrom_eq (n : Nat) (around : List Nat) (tokens : List Token) :
    ∃ kept fresh, openScopesFrom n around tokens = kept ++ fresh ∧ kept <+: around ∧ ∀ k ∈ fresh, n ≤ k := by
  induction tokens generalizing n around with
  | nil => exact ⟨around, [], (List.append_nil _).symm, List.prefix_rfl, by simp⟩
  | cons t rest ih =>
    obtain ⟨kind, payload, line, column⟩ := t
    cases kind with
    | indent =>
      obtain ⟨kept, fresh, split, outer, later⟩ := ih (n + 1) (around ++ [n])
      have later' : ∀ k ∈ fresh, n ≤ k := fun k hk => Nat.le_of_succ_le (later k hk)
      rcases List.prefix_concat_iff.1 outer with rfl | outer
      · -- the scope opened here is still open
        refine ⟨around, n :: fresh, ?_, List.prefix_rfl, List.forall_mem_cons.2 ⟨Nat.le_refl n, later'⟩⟩
        rw [openScopesFrom, split, List.append_assoc]
        rfl
      · exact ⟨kept, fresh, split, outer, later'⟩
    | dedent =>
      obtain ⟨kept, fresh, split, outer, later⟩ := ih n around.dropLast
      exact ⟨kept, fresh, split, outer.trans (List.dropLast_prefix around), later⟩
    | newline | code | endOfFile => exact ih n around

/-! ### The scopes around a scope -/

/-- A scope has the number of openings before its own. -/
theorem beforeScope_append_cons {before after : List Token} {t : Token} (opens : t.kind = .indent) :
    beforeScope (countKind .indent before) (before ++ t :: after) = before := by
  induction before with
  | nil => simp [beforeScope, opens]
  | cons u rest ih =>
    by_cases h : u.kind = .indent <;> simp [beforeScope, countKind_cons, h, ih]

theorem exists_beforeScope {k : Nat} (h : k < countKind .indent tokens) :
    ∃ t after, tokens = beforeScope k tokens ++ t :: after ∧ t.kind = .indent ∧
      countKind .indent (beforeScope k tokens) = k := by
  obtain ⟨before, t, after, rfl, opens, rfl⟩ := exists_split_of_lt_countKind h
  rw [beforeScope_append_cons opens]
  exact ⟨t, after, rfl, opens, rfl⟩

theorem beforeScope_isPrefix {i k : Nat} (lt : i < k) (hk : k < countKind .indent tokens) :
    beforeScope i tokens <+: beforeScope k tokens := by
  obtain ⟨t, after, split, -, count⟩ := exists_beforeScope (Nat.lt_trans lt hk)
  obtain ⟨u, after', split', -, count'⟩ := exists_beforeScope hk
  rcases List.append_eq_append_iff.1 (split.symm.trans split') with ⟨r, longer, -⟩ | ⟨r, shorter, -⟩
  · exact ⟨r, longer.symm⟩
  · rw [shorter, countKind_append] at count
    omega

theorem pairwise_scopesAround (tokens : List Token) (k : Nat) : (scopesAround tokens k).Pairwise (· < ·) :=
  pairwise_openScopes _

theorem lt_of_mem_scopesAround {i k : Nat} (hk : k < countKind .indent tokens) (h : i ∈ scopesAround tokens k) :
    i < k := by
  obtain ⟨-, -, -, -, count⟩ := exists_beforeScope hk
  have lt := lt_of_mem_openScopes h
  rwa [count] at lt

theorem length_scopesAround (h : NeverNegative tokens) {k : Nat} (hk : k < countKind .indent tokens) :
    ((scopesAround tokens k).length : Int) = depth (beforeScope k tokens) := by
  obtain ⟨t, after, split, -, -⟩ := exists_beforeScope hk
  apply length_openScopes
  intro p hp
  exact h p (hp.trans ⟨t :: after, split.symm⟩)

/-- **Scopes that were opened before a scope are around it if they are around a later one.** -/
theorem scopesAround_isPrefix {i k : Nat} (lt : i < k) (hk : k < countKind .indent tokens)
    (earlier : ∀ p ∈ scopesAround tokens k, p < i) : scopesAround tokens k <+: scopesAround tokens i := by
  obtain ⟨-, -, -, -, count⟩ := exists_beforeScope (Nat.lt_trans lt hk)
  obtain ⟨between, longer⟩ := beforeScope_isPrefix lt hk
  have since : scopesAround tokens k = openScopesFrom i (scopesAround tokens i) between := by
    rw [scopesAround, ← longer, openScopes_append, count]
    rfl
  obtain ⟨kept, fresh, split, outer, later⟩ := exists_openScopesFrom_eq i (scopesAround tokens i) between
  have none_since : fresh = [] := by
    refine List.eq_nil_iff_forall_not_mem.2 fun p hp => ?_
    have old := earlier p (by rw [since, split]; exact List.mem_append_right _ hp)
    have new := later p hp
    omega
  rw [since, split, none_since, List.append_nil]
  exact outer

/-! ### Levels of open scopes -/

variable {o : Options} {s : State} {line : CodeLine} {turn : Emission} {levels : List Int}
  {lines : List CodeLine} {out : Emission}

/-- **The levels kept by a run are column 0 and those of the open scopes.** -/
theorem Reached.levels_eq_map (h : Reached o lines out s) :
    s.levels.reverse.map some =
      some 0 :: (openScopes out.tokens).map fun k => (out.scopes.map Scope.level)[k]? := by
  induction h with
  | start => rfl
  | @next _ out s line turn levels before t ih =>
    have numbered : (out.scopes.map Scope.level).length = countKind .indent out.tokens := by
      rw [List.length_map, before.accounts.length_eq]
    simp only [CodeLine.levels_state, Emission.tokens_append, CodeLine.tokens_emission, Emission.scopes_append,
      CodeLine.scopes_emission]
    rw [← List.append_assoc, openScopes_append, CodeLine.openScopesFrom_tokens, openScopes_append]
    cases t with
    | enter _ =>
      have opened : openScopesFrom (countKind .indent out.tokens) (openScopes out.tokens)
          [Token.indent line.number] = openScopes out.tokens ++ [countKind .indent out.tokens] := rfl
      have same : (openScopes out.tokens).map (fun k => (out.scopes.map Scope.level ++
            [line.width o.tabWidth])[k]?) =
          (openScopes out.tokens).map fun k => (out.scopes.map Scope.level)[k]? := by
        refine List.map_congr_left fun k hk => ?_
        exact List.getElem?_append_left (numbered ▸ lt_of_mem_openScopes hk)
      rw [opened, List.reverse_cons, List.map_append, ih, List.map_append, List.map_append, List.map_singleton,
        List.map_singleton, List.map_singleton, same, ← numbered, List.getElem?_concat_length, List.cons_append]
    | @leave closed outer level _ split _ _ =>
      rw [openScopesFrom_dedents, List.append_nil, List.map_take]
      rw [split, List.reverse_append, List.map_append] at ih
      -- column 0 is kept, so what is closed are the levels of the last of the open scopes
      rcases List.append_eq_cons_iff.1 ih with ⟨none_kept, -⟩ | ⟨kept, outer_eq, open_eq⟩
      · simp at none_kept
      · have count : (openScopes out.tokens).length - closed.length = kept.length := by
          have := congrArg List.length open_eq
          simp only [List.length_map, List.length_append, List.length_reverse] at this
          omega
        rw [outer_eq, open_eq, count, List.take_left]

/-- The token that opens a scope belongs to a line that stands further right than the one before it. -/
theorem Reached.exists_enter (h : Reached o lines out s) {before after : List Token} {t : Token}
    (split : out.tokens = before ++ t :: after) (opens : t.kind = .indent) :
    ∃ first line rest out₁ s₁ scope more, lines = first ++ line :: rest ∧ Reached o first out₁ s₁ ∧
      out₁.tokens = before ∧ s₁.width < line.width o.tabWidth ∧ scope.level = line.width o.tabWidth ∧
      out.scopes = out₁.scopes ++ scope :: more := by
  induction h generalizing after with
  | start => simp at split
  | @next lines out s line turn levels reached turns ih =>
    rw [Emission.tokens_append] at split
    rcases split_append split with ⟨r, tokens_eq, -⟩ | ⟨r, rfl, here⟩
    · obtain ⟨first, line', rest, out₁, s₁, scope, more, rfl, before, same, right, level_eq, scopes_eq⟩ :=
        ih tokens_eq
      refine ⟨first, line', rest ++ [line], out₁, s₁, scope, more ++ turn.scopes, by simp, before, same, right,
        level_eq, ?_⟩
      simp [scopes_eq]
    · obtain rfl := turns.eq_nil_of_opens here opens
      rw [CodeLine.tokens_emission] at here
      have mem : t ∈ turn.tokens := CodeLine.mem_of_opens (by rw [here]; simp) opens
      have right := turns.right_of_opens mem opens
      cases turns with
      | enter _ => exact ⟨lines, line, [], out, s, _, [], rfl, reached, (List.append_nil _).symm, right, rfl, rfl⟩
      | leave left _ _ _ => omega

theorem exists_enter_run (h : 0 ≤ o.tabWidth) {source : List Char} {k : Nat}
    (hk : k < countKind .indent (run o source).tokens) :
    ∃ first line rest out₁ s₁, codeLines source = first ++ line :: rest ∧ Reached o first out₁ s₁ ∧
      out₁.tokens = beforeScope k (run o source).tokens ∧ s₁.width < line.width o.tabWidth ∧
      ((run o source).scopes.map Scope.level)[k]? = some (line.width o.tabWidth) ∧
      out₁.scopes <+: (run o source).scopes := by
  obtain ⟨out, s, reached, whole⟩ := exists_run h source
  obtain ⟨t, after, split, opens, count⟩ := exists_beforeScope hk
  generalize before_eq : beforeScope k (run o source).tokens = before at split count
  have tokens_eq : out.tokens ++ closing ((Text.lines source).length + 1) s.levels = before ++ t :: after := by
    rw [← split, whole]
    rfl
  have scopes_eq : (run o source).scopes = out.scopes := by simp [whole]
  rcases split_append tokens_eq with ⟨r, out_eq, -⟩ | ⟨r, -, closing_eq⟩
  · obtain ⟨first, line, rest, out₁, s₁, scope, more, lines_eq, before', same, right, level_eq, all⟩ :=
      reached.exists_enter out_eq opens
    have number : (out₁.scopes.map Scope.level).length = k := by
      rw [List.length_map, before'.accounts.length_eq, same, count]
    refine ⟨first, line, rest, out₁, s₁, lines_eq, before', same, right, ?_, ?_⟩
    · rw [scopes_eq, all, List.map_append, List.map_cons, ← number, List.getElem?_append_right (Nat.le_refl _),
        Nat.sub_self, List.getElem?_cons_zero, level_eq]
    · exact ⟨scope :: more, by rw [scopes_eq, all]⟩
  · have closes : t ∈ closing ((Text.lines source).length + 1) s.levels := by
      rw [closing_eq]
      simp
    exact absurd opens (kind_ne_of_mem_closing (by decide) (by decide) closes)

/-- **Every scope stands to the right of those around it.** -/
theorem level_lt_of_mem_scopesAround (h : 0 ≤ o.tabWidth) {source : List Char} {i k : Nat}
    (hk : k < countKind .indent (run o source).tokens) (mem : i ∈ scopesAround (run o source).tokens k) :
    ∃ outer inner, ((run o source).scopes.map Scope.level)[i]? = some outer ∧
      ((run o source).scopes.map Scope.level)[k]? = some inner ∧ outer < inner := by
  obtain ⟨first, line, rest, out₁, s₁, -, before, same, right, level_eq, scopes_prefix⟩ := exists_enter_run h hk
  rw [scopesAround, ← same] at mem
  have kept : (out₁.scopes.map Scope.level)[i]? ∈ s₁.levels.reverse.map some := by
    rw [before.levels_eq_map]
    exact List.mem_cons_of_mem _ (List.mem_map.2 ⟨i, mem, rfl⟩)
  obtain ⟨outer, mem_levels, level_eq'⟩ := List.mem_map.1 kept
  have left := before.sound.le_width outer (List.mem_reverse.1 mem_levels)
  obtain ⟨more, all⟩ := scopes_prefix
  refine ⟨outer, _, ?_, level_eq, by omega⟩
  rw [← all, List.map_append, List.getElem?_append_left (List.getElem?_eq_some_iff.1 level_eq'.symm).1,
    ← level_eq']

end Offside.Layout
