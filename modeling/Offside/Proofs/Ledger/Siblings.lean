import Mathlib.Data.List.Sort
import Offside.Ledger.Siblings

/-!
# Runs of siblings

Going from a scope to its next sibling, or back, stays within a run of scopes which can be told without any
going: they have the same level, and no scope between two of them has a smaller one.

## The model

`Follows` says of two entries that one is reached from the other in one step, forward or back
(`next?_eq_some_iff`, `previous?_eq_some_iff`), so the two steps are inverse. `AreSiblings` is the declared
relation, which is an equivalence of entries; a step leads to a sibling, and the other siblings on that side lie
beyond it. So what steps lead to are the siblings, by induction on the going (`mem_later`, `mem_earlier`), and the
list of them is known from its members (`siblings_eq_ok`).
-/

namespace Offside.Ledger

variable {l : Ledger} {level : Int} {i j n : Nat}

/-! ### One step -/

/-- The level found is one of those looked at, and all before it are greater. -/
theorem nearest?_eq_some_iff_getElem? {ls : List Int} {k : Nat} :
    nearest? level ls = some k ↔ ls[k]? = some level ∧ ∀ p < k, ∀ m ∈ ls[p]?, level < m := by
  rw [nearest?_eq_some_iff]
  refine and_congr_right fun _ => ⟨fun greater p lt m hm => greater m ?_, fun greater m hm => ?_⟩
  · refine List.mem_iff_getElem?.2 ⟨p, ?_⟩
    rw [List.getElem?_take_of_lt lt]
    exact hm
  · obtain ⟨p, hp⟩ := List.mem_iff_getElem?.1 hm
    rw [List.getElem?_take] at hp
    split at hp
    · exact greater p ‹_› m hp
    · cases hp

theorem exists_nearest? {ls : List Int} {k : Nat} (there : ls[k]? = some level)
    (between : ∀ p < k, ∀ m ∈ ls[p]?, level ≤ m) : ∃ p, nearest? level ls = some p := by
  induction ls generalizing k with
  | nil => simp at there
  | cons m rest ih =>
    unfold nearest?
    cases k with
    | zero =>
      obtain rfl : m = level := by simpa using there
      exact ⟨0, by simp⟩
    | succ k =>
      have not_smaller : ¬ m < level := Int.not_lt.2 (between 0 (Nat.succ_pos k) m rfl)
      obtain ⟨p, found⟩ := ih (k := k) there fun p lt => between (p + 1) (Nat.succ_lt_succ lt)
      rw [if_neg not_smaller, found]
      split
      · exact ⟨0, rfl⟩
      · exact ⟨p + 1, rfl⟩

/-- The second of two entries comes after the first and has its level, and what is between them has greater
levels. -/
structure Follows (l : Ledger) (level : Int) (i j : Nat) : Prop where
  lt : i < j
  left : l.levels[i]? = some level
  right : l.levels[j]? = some level
  between : ∀ k, i < k → k < j → ∀ m ∈ l.levels[k]?, level < m

/-- The levels before an entry, from the last to the first. -/
theorem getElem?_reverse_take {p : Nat} (hi : i ≤ l.levels.length) (hp : p < i) :
    (l.levels.take i).reverse[p]? = l.levels[i - 1 - p]? := by
  rw [List.getElem?_reverse (by rw [List.length_take]; omega), List.length_take, Nat.min_eq_left hi,
    List.getElem?_take_of_lt (by omega)]

/-- The next sibling of an entry is the one that follows it. -/
theorem next?_eq_some_iff : l.next? i = some j ↔ ∃ level, l.Follows level i j := by
  simp only [next?, Option.bind_eq_bind, Option.bind_eq_some_iff, Option.pure_def, Option.some.injEq,
    nearest?_eq_some_iff_getElem?, List.getElem?_drop]
  constructor
  · rintro ⟨level, left, skipped, ⟨right, greater⟩, rfl⟩
    refine ⟨level, by omega, left, right, fun k after before m hm => greater (k - (i + 1)) (by omega) m ?_⟩
    rwa [Nat.add_sub_of_le after]
  · rintro ⟨level, lt, left, right, between⟩
    have there : i + 1 + (j - (i + 1)) = j := Nat.add_sub_of_le lt
    refine ⟨level, left, j - (i + 1), ⟨by rw [there, right], fun p lt_p => ?_⟩, there⟩
    exact between (i + 1 + p) (by omega) (by omega)

/-- The sibling before an entry is the one that it follows. -/
theorem previous?_eq_some_iff : l.previous? j = some i ↔ ∃ level, l.Follows level i j := by
  simp only [previous?, Option.bind_eq_bind, Option.bind_eq_some_iff, Option.pure_def, Option.some.injEq,
    nearest?_eq_some_iff_getElem?]
  constructor
  · rintro ⟨level, right, skipped, ⟨left, greater⟩, rfl⟩
    have inside := (List.getElem?_eq_some_iff.1 right).1
    have lt := (List.getElem?_eq_some_iff.1 left).1
    rw [List.length_reverse, List.length_take] at lt
    rw [getElem?_reverse_take (by omega) (by omega)] at left
    refine ⟨level, by omega, left, right, fun k after before m hm => greater (j - 1 - k) (by omega) m ?_⟩
    rwa [getElem?_reverse_take (by omega) (by omega), Nat.sub_sub_self (by omega)]
  · rintro ⟨level, lt, left, right, between⟩
    have inside := (List.getElem?_eq_some_iff.1 right).1
    have there : j - 1 - (j - 1 - i) = i := Nat.sub_sub_self (by omega)
    refine ⟨level, right, j - 1 - i, ⟨?_, fun p lt_p => ?_⟩, there⟩
    · rw [getElem?_reverse_take (by omega) (by omega), there, left]
    · rw [getElem?_reverse_take (by omega) (by omega)]
      exact between _ (by omega) (by omega)

theorem map_locate_eq_ok_iff {α : Type} (answer : Nat → α) {a : α} :
    answer <$> l.locate i = .ok a ↔ i < l.size ∧ answer i = a := by
  unfold locate
  by_cases inside : i < l.size
  · rw [if_pos ⟨Int.natCast_nonneg i, Int.ofNat_lt.2 inside⟩]
    simp [inside]
  · rw [if_neg fun both => inside (Int.ofNat_lt.1 both.2)]
    simp [inside]

/-- Navigation starts from an entry, and then steps to its next sibling. -/
theorem nextSibling_eq_ok_iff {next : Option Nat} : l.nextSibling i = .ok next ↔ i < l.size ∧ l.next? i = next :=
  map_locate_eq_ok_iff l.next?

/-- Navigation starts from an entry, and then steps to the sibling before. -/
theorem previousSibling_eq_ok_iff {previous : Option Nat} :
    l.previousSibling i = .ok previous ↔ i < l.size ∧ l.previous? i = previous :=
  map_locate_eq_ok_iff l.previous?

theorem Follows.lt_size (h : l.Follows level i j) : j < l.size := by
  have inside := (List.getElem?_eq_some_iff.1 h.right).1
  rwa [levels, List.length_map] at inside

/-- **A step forward and a step back are inverse.** The next sibling of an entry is the entry whose sibling before it
is; and these are just the entries of which the second comes later with the same level and all between have greater
levels. -/
theorem nextSibling_eq_iff_previousSibling_eq (l : Ledger) (i j : Nat) :
    (l.nextSibling i = .ok (some j) ↔ l.previousSibling j = .ok (some i)) ∧
      (l.nextSibling i = .ok (some j) ↔ ∃ level, l.Follows level i j) := by
  have forward : l.nextSibling i = .ok (some j) ↔ ∃ level, l.Follows level i j := by
    rw [nextSibling_eq_ok_iff, next?_eq_some_iff, and_iff_right_iff_imp]
    rintro ⟨level, follows⟩
    exact Nat.lt_trans follows.lt follows.lt_size
  have back : l.previousSibling j = .ok (some i) ↔ ∃ level, l.Follows level i j := by
    rw [previousSibling_eq_ok_iff, previous?_eq_some_iff, and_iff_right_iff_imp]
    rintro ⟨level, follows⟩
    exact follows.lt_size
  exact ⟨forward.trans back.symm, forward⟩

/-! ### The declared relation -/

/-- Two entries have the same level, and no entry between them has a smaller one. -/
structure AreSiblings (l : Ledger) (level : Int) (i j : Nat) : Prop where
  left : l.levels[i]? = some level
  right : l.levels[j]? = some level
  between : ∀ k, i < k ∧ k < j ∨ j < k ∧ k < i → ∀ m ∈ l.levels[k]?, level ≤ m

theorem AreSiblings.refl (h : l.levels[i]? = some level) : l.AreSiblings level i i :=
  ⟨h, h, fun k between => by omega⟩

theorem AreSiblings.symm (h : l.AreSiblings level i j) : l.AreSiblings level j i :=
  ⟨h.right, h.left, fun k between => h.between k between.symm⟩

theorem AreSiblings.trans (h : l.AreSiblings level i j) (h' : l.AreSiblings level j n) :
    l.AreSiblings level i n := by
  refine ⟨h.left, h'.right, fun k between m hm => ?_⟩
  rcases Nat.lt_trichotomy k j with before | rfl | after
  · rcases between with ⟨_, _⟩ | ⟨_, _⟩
    · exact h.between k (by omega) m hm
    · exact h'.between k (by omega) m hm
  · obtain rfl := Option.some.inj (hm.symm.trans h.right)
    exact Int.le_refl m
  · rcases between with ⟨_, _⟩ | ⟨_, _⟩
    · exact h'.between k (by omega) m hm
    · exact h.between k (by omega) m hm

theorem Follows.areSiblings (h : l.Follows level i j) : l.AreSiblings level i j := by
  refine ⟨h.left, h.right, fun k between m hm => ?_⟩
  rcases between with ⟨after, before⟩ | ⟨_, _⟩
  · exact Int.le_of_lt (h.between k after before m hm)
  · have := h.lt
    omega

/-- The siblings after an entry are the next one and those after that. -/
theorem Follows.siblings_iff_right (h : l.Follows level i n) :
    i < j ∧ l.AreSiblings level i j ↔ j = n ∨ n < j ∧ l.AreSiblings level n j := by
  constructor
  · rintro ⟨lt, siblings⟩
    rcases Nat.lt_trichotomy j n with before | rfl | after
    · exact absurd (h.between j lt before level siblings.right) (Int.lt_irrefl level)
    · exact .inl rfl
    · exact .inr ⟨after, h.areSiblings.symm.trans siblings⟩
  · rintro (rfl | ⟨after, siblings⟩)
    · exact ⟨h.lt, h.areSiblings⟩
    · exact ⟨Nat.lt_trans h.lt after, h.areSiblings.trans siblings⟩

/-- The siblings before an entry are the nearest one and those before that. -/
theorem Follows.siblings_iff_left (h : l.Follows level n i) :
    j < i ∧ l.AreSiblings level i j ↔ j < n ∧ l.AreSiblings level n j ∨ j = n := by
  constructor
  · rintro ⟨lt, siblings⟩
    rcases Nat.lt_trichotomy j n with before | rfl | after
    · exact .inl ⟨before, h.areSiblings.trans siblings⟩
    · exact .inr rfl
    · exact absurd (h.between j after lt level siblings.right) (Int.lt_irrefl level)
  · rintro (⟨before, siblings⟩ | rfl)
    · exact ⟨Nat.lt_trans before h.lt, h.areSiblings.symm.trans siblings⟩
    · exact ⟨h.lt, h.areSiblings.symm⟩

theorem AreSiblings.exists_next (h : l.AreSiblings level i j) (lt : i < j) : ∃ n, l.next? i = some n := by
  have there : (l.levels.drop (i + 1))[j - (i + 1)]? = some level := by
    rw [List.getElem?_drop, Nat.add_sub_of_le lt, h.right]
  obtain ⟨p, found⟩ := exists_nearest? there fun p lt_p m hm => by
    rw [List.getElem?_drop] at hm
    exact h.between _ (by omega) m hm
  exact ⟨i + 1 + p, by simp [next?, h.left, found]⟩

theorem AreSiblings.exists_previous (h : l.AreSiblings level i j) (lt : j < i) :
    ∃ n, l.previous? i = some n := by
  have inside := (List.getElem?_eq_some_iff.1 h.left).1
  have there : (l.levels.take i).reverse[i - 1 - j]? = some level := by
    rw [getElem?_reverse_take (by omega) (by omega), Nat.sub_sub_self (by omega), h.right]
  obtain ⟨p, found⟩ := exists_nearest? there fun p lt_p m hm => by
    rw [getElem?_reverse_take (by omega) (by omega)] at hm
    exact h.between _ (by omega) m hm
  exact ⟨i - 1 - p, by simp [previous?, h.left, found]⟩

/-! ### Runs -/

/-- Going forward leads to the siblings after an entry. -/
theorem mem_later (h : l.levels[i]? = some level) : j ∈ l.later i ↔ i < j ∧ l.AreSiblings level i j := by
  induction i using later.induct l with
  | case1 i none_follows =>
    rw [later, none_follows]
    refine ⟨fun mem => absurd mem List.not_mem_nil, fun ⟨lt, siblings⟩ => ?_⟩
    obtain ⟨n, found⟩ := siblings.exists_next lt
    rw [none_follows] at found
    cases found
  | case2 i n found ih =>
    obtain ⟨level', follows⟩ := next?_eq_some_iff.1 found
    obtain rfl := Option.some.inj (h.symm.trans follows.left)
    rw [later, found, follows.siblings_iff_right, ← ih follows.right]
    exact List.mem_cons

/-- Going back leads to the siblings before an entry. -/
theorem mem_earlier (h : l.levels[i]? = some level) : j ∈ l.earlier i ↔ j < i ∧ l.AreSiblings level i j := by
  induction i using earlier.induct l with
  | case1 i none_before =>
    rw [earlier, none_before]
    refine ⟨fun mem => absurd mem List.not_mem_nil, fun ⟨lt, siblings⟩ => ?_⟩
    obtain ⟨n, found⟩ := siblings.exists_previous lt
    rw [none_before] at found
    cases found
  | case2 i n found ih =>
    obtain ⟨level', follows⟩ := previous?_eq_some_iff.1 found
    obtain rfl := Option.some.inj (h.symm.trans follows.right)
    rw [earlier, found, follows.siblings_iff_left, ← ih follows.left]
    simp only [List.mem_append, List.mem_singleton]

theorem pairwise_later (i : Nat) : (l.later i).Pairwise (· < ·) := by
  induction i using later.induct l with
  | case1 i none_follows =>
    rw [later, none_follows]
    exact .nil
  | case2 i n found ih =>
    obtain ⟨level, follows⟩ := next?_eq_some_iff.1 found
    rw [later, found]
    exact List.pairwise_cons.2 ⟨fun j hj => ((mem_later follows.right).1 hj).1, ih⟩

theorem pairwise_earlier (i : Nat) : (l.earlier i).Pairwise (· < ·) := by
  induction i using earlier.induct l with
  | case1 i none_before =>
    rw [earlier, none_before]
    exact .nil
  | case2 i n found ih =>
    obtain ⟨level, follows⟩ := previous?_eq_some_iff.1 found
    rw [earlier, found]
    refine List.pairwise_append.2 ⟨ih, List.pairwise_singleton _ n, fun j hj m hm => ?_⟩
    rw [List.mem_singleton.1 hm]
    exact ((mem_earlier follows.left).1 hj).1

/-- **The siblings listed are the siblings declared**: going back and then forward visits just these. -/
theorem mem_run (h : l.levels[i]? = some level) :
    j ∈ l.earlier i ++ i :: l.later i ↔ l.AreSiblings level i j := by
  rw [List.mem_append, List.mem_cons, mem_earlier h, mem_later h]
  constructor
  · rintro (⟨-, siblings⟩ | rfl | ⟨-, siblings⟩)
    · exact siblings
    · exact .refl h
    · exact siblings
  · intro siblings
    rcases Nat.lt_trichotomy j i with before | rfl | after
    · exact .inl ⟨before, siblings⟩
    · exact .inr (.inl rfl)
    · exact .inr (.inr ⟨after, siblings⟩)

theorem pairwise_run (h : l.levels[i]? = some level) :
    (l.earlier i ++ i :: l.later i).Pairwise (· < ·) := by
  have after : ∀ j ∈ l.later i, i < j := fun j hj => ((mem_later h).1 hj).1
  refine List.pairwise_append.2 ⟨pairwise_earlier i, List.pairwise_cons.2 ⟨after, pairwise_later i⟩, ?_⟩
  intro j hj k hk
  have before := ((mem_earlier h).1 hj).1
  rcases List.mem_cons.1 hk with rfl | hk
  · exact before
  · exact Nat.lt_trans before (after k hk)

/-- A list of numbers in order is the list of an entry's siblings if its members are the siblings. -/
theorem siblings_eq_ok (h : l.levels[i]? = some level) {js : List Nat} (ascending : js.Pairwise (· < ·))
    (mem : ∀ j, j ∈ js ↔ l.AreSiblings level i j) : l.siblings i = .ok js := by
  have inside := (List.getElem?_eq_some_iff.1 h).1
  rw [levels, List.length_map] at inside
  have located : l.locate i = .ok i := by
    rw [locate, if_pos ⟨Int.natCast_nonneg i, Int.ofNat_lt.2 inside⟩]
    rfl
  have same : l.earlier i ++ i :: l.later i = js :=
    (pairwise_run h).eq_of_mem_iff ascending fun j => (mem_run h).trans (mem j).symm
  rw [siblings, located, ← same]
  rfl

end Offside.Ledger
