import Offside.Item.Stretch

/-!
# Items of tokens

Tokens are turned into items one by one, so the first stretch of a list of tokens begins with the items of
all tokens before the first that stops it.
-/

namespace Offside

open Layout (Token)

/-- The items that a token is turned into. -/
def Layout.Token.items (t : Token) : List Item :=
  match t.kind with
  | .indent => [.ofToken .indent t]
  | .dedent => [.ofToken .dedent t]
  | .newline => [.ofToken .newline t]
  | .code => (Lexeme.lex t.payload).lexemes.map (Item.ofLexeme t)
  | .endOfFile => []

/-- The items of tokens in a row. -/
def Item.ofTokens (tokens : List Token) : List Item := tokens.flatMap Token.items

@[simp] theorem Item.ofTokens_nil : Item.ofTokens [] = [] := rfl

@[simp] theorem Item.ofTokens_cons (t : Token) (rest : List Token) :
    Item.ofTokens (t :: rest) = t.items ++ Item.ofTokens rest := List.flatMap_cons

@[simp] theorem Item.ofTokens_append (first second : List Token) :
    Item.ofTokens (first ++ second) = Item.ofTokens first ++ Item.ofTokens second :=
  List.flatMap_append

theorem Layout.Token.exists_lexeme_of_mem_items {t : Token} {item : Item} (code : t.kind = .code)
    (h : item ∈ t.items) : ∃ l, item.symbol = .lexeme l := by
  simp only [items, code, List.mem_map] at h
  obtain ⟨l, -, rfl⟩ := h
  exact ⟨l.terminal, rfl⟩

theorem Layout.Token.eq_ofToken_of_mem_items {t : Token} {item : Item} (h : item ∈ t.items)
    (opens : item.symbol = .indent) : t.kind = .indent ∧ item = .ofToken .indent t := by
  cases kind : t.kind with
  | indent => exact ⟨rfl, by simpa [items, kind] using h⟩
  | code =>
    obtain ⟨l, lexeme⟩ := exists_lexeme_of_mem_items kind h
    rw [lexeme] at opens
    cases opens
  | dedent | newline =>
    simp only [items, kind, List.mem_singleton] at h
    rw [h] at opens
    cases opens
  | endOfFile => simp [items, kind] at h

/-- The token does not stop a stretch. -/
structure Layout.Token.Passes (t : Token) : Prop where
  goes_on : t.kind ≠ .endOfFile
  lexes : t.kind = .code → (Lexeme.lex t.payload).stop? = none

theorem Stretch.ofTokens_cons {t : Token} (h : t.Passes) (rest : List Token) :
    ofTokens (t :: rest) = (ofTokens rest).after t.items := by
  have goes_on := h.goes_on
  have lexes := h.lexes
  cases kind : t.kind <;> simp_all [ofTokens, Token.items]

theorem Stretch.after_after (first second : List Item) (s : Stretch) :
    (s.after second).after first = s.after (first ++ second) := by
  simp [after]

/-- A stretch goes through tokens that do not stop it. -/
theorem Stretch.ofTokens_append {first : List Token} (h : ∀ t ∈ first, t.Passes) (second : List Token) :
    ofTokens (first ++ second) = (ofTokens second).after (Item.ofTokens first) := by
  induction first with
  | nil => rfl
  | cons t rest ih =>
    rw [List.cons_append, ofTokens_cons (h t List.mem_cons_self),
      ih fun u hu => h u (List.mem_cons_of_mem _ hu), after_after, Item.ofTokens_cons]

/-- A stretch ends where a code line cannot be cut into lexemes. -/
theorem Stretch.ofTokens_of_stop {t : Token} {stop : Lexeme.Stop} (code : t.kind = .code)
    (h : (Lexeme.lex t.payload).stop? = some stop) (rest : List Token) :
    ofTokens (t :: rest) = { items := t.items, failure? := some (.ofStop t stop), rest } := by
  simp [ofTokens, Token.items, code, h]

end Offside
