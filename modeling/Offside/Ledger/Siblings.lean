import Offside.Ledger.Basic

/-!
# Siblings

Two scopes are siblings when they have the same level and no scope between them has a smaller one. The
model: from a scope one can go to the next sibling (`next?`) and to the one before (`previous?`), each
found by looking through the levels on that side until one is smaller; `siblings` goes back as far as it
can and then forward, so it lists a whole run in order.
-/

namespace Offside.Ledger

/-- How many levels come before the first one equal to `level`, unless a smaller one comes before. -/
def nearest? (level : Int) : List Int → Option Nat
  | [] => none
  | l :: rest =>
    if l < level then none
    else if l = level then some 0
    else (nearest? level rest).map (· + 1)

/-- The next sibling of an entry. -/
def next? (l : Ledger) (i : Nat) : Option Nat := do
  let level ← l.levels[i]?
  let skipped ← nearest? level (l.levels.drop (i + 1))
  return i + 1 + skipped

/-- The sibling before an entry. -/
def previous? (l : Ledger) (i : Nat) : Option Nat := do
  let level ← l.levels[i]?
  let skipped ← nearest? level (l.levels.take i).reverse
  return i - 1 - skipped

/-! ### Laws of one step -/

/-- The level found is one of those looked at; it is equal, and those before it are greater. -/
theorem nearest?_eq_some_iff {level : Int} {ls : List Int} {k : Nat} :
    nearest? level ls = some k ↔ ls[k]? = some level ∧ ∀ m ∈ ls.take k, level < m := by
  induction ls generalizing k with
  | nil => simp [nearest?]
  | cons l rest ih =>
    unfold nearest?
    split
    · rename_i small
      cases k with
      | zero => simp; omega
      | succ k => simp; omega
    · split
      · rename_i same
        subst same
        cases k <;> simp
      · rename_i big differ
        cases k with
        | zero => simp; omega
        | succ k =>
          simp only [Option.map_eq_some_iff, Nat.add_right_cancel_iff, exists_eq_right,
            List.getElem?_cons_succ, List.take_succ_cons, List.mem_cons, forall_eq_or_imp, ih]
          constructor
          · rintro ⟨h, h'⟩; exact ⟨h, by omega, h'⟩
          · rintro ⟨h, _, h'⟩; exact ⟨h, h'⟩

theorem nearest?_lt_length {level : Int} {ls : List Int} {k : Nat} (h : nearest? level ls = some k) :
    k < ls.length := by
  have := (nearest?_eq_some_iff.1 h).1
  exact (List.getElem?_eq_some_iff.1 this).1

theorem next?_bounds {l : Ledger} {i j : Nat} (h : l.next? i = some j) :
    i < j ∧ j < l.levels.length := by
  simp only [next?, Option.bind_eq_bind, Option.bind_eq_some_iff, Option.pure_def,
    Option.some.injEq] at h
  obtain ⟨level, _, skipped, found, rfl⟩ := h
  have := nearest?_lt_length found
  rw [List.length_drop] at this
  omega

theorem previous?_lt {l : Ledger} {i j : Nat} (h : l.previous? i = some j) : j < i := by
  simp only [previous?, Option.bind_eq_bind, Option.bind_eq_some_iff, Option.pure_def,
    Option.some.injEq] at h
  obtain ⟨level, _, skipped, found, rfl⟩ := h
  have := nearest?_lt_length found
  rw [List.length_reverse, List.length_take] at this
  omega

/-! ### Runs -/

/-- The siblings before an entry, in order. -/
def earlier (l : Ledger) (i : Nat) : List Nat :=
  match _h : l.previous? i with
  | none => []
  | some j => l.earlier j ++ [j]
termination_by i
decreasing_by exact previous?_lt _h

/-- The siblings after an entry, in order. -/
def later (l : Ledger) (i : Nat) : List Nat :=
  match _h : l.next? i with
  | none => []
  | some j => j :: l.later j
termination_by l.levels.length - i
decreasing_by have := next?_bounds _h; omega

/-- The entry of a number, for navigation: negative numbers are no entries. -/
def locate (l : Ledger) (index : Int) : Except Fault Nat :=
  if 0 ≤ index ∧ index < l.size then .ok index.toNat else .error (.noScope index)

/-- The number of the next sibling, if there is one. -/
def nextSibling (l : Ledger) (index : Int) : Except Fault (Option Nat) :=
  l.next? <$> l.locate index

/-- The number of the sibling before, if there is one. -/
def previousSibling (l : Ledger) (index : Int) : Except Fault (Option Nat) :=
  l.previous? <$> l.locate index

/-- The numbers of an entry and all its siblings, in order. -/
def siblings (l : Ledger) (index : Int) : Except Fault (List Nat) :=
  (fun i => l.earlier i ++ i :: l.later i) <$> l.locate index

end Offside.Ledger
