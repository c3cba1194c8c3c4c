import Mathlib.Data.List.Dedup
import Offside.Proofs.Ledger.Siblings

/-!
# The runs of a ledger

Each entry of a ledger lies in one run of siblings, and navigation from any entry of a run lists the whole of it. So
the runs of a ledger share out its entries.

## The model

`runOf` is the run of an entry as it is listed. Going back from an entry ends at the `first` of its run, and going
forward from there passes the entry again (`runOf_eq_cons`), for the step back and the step forward are inverse.
Siblings have the same run since being siblings is an equivalence (`runOf_eq_of_areSiblings`). `runs` has each run
once; that their entries are those of the ledger, each once, is said by a permutation (`flatten_runs_perm`).
-/

namespace Offside.Ledger

variable {l : Ledger} {level : Int} {i j : Nat} {run run' : List Nat}

/-! ### Entries -/

theorem exists_level_iff : (∃ level, l.levels[i]? = some level) ↔ i < l.size := by
  rw [← Option.isSome_iff_exists, isSome_getElem?, levels, List.length_map, size]

theorem locate_eq_error_iff {index : Int} {e : Fault} :
    l.locate index = .error e ↔ (index < 0 ∨ l.size ≤ index) ∧ e = .noScope index := by
  unfold locate
  split
  · rename_i inside
    simp only [reduceCtorEq, false_iff]
    rintro ⟨outside, -⟩
    omega
  · rename_i outside
    rw [Except.error.injEq, eq_comm, iff_and_self]
    intro _
    omega

/-- Whatever is asked of an entry, the refusal is that there is no such entry. -/
theorem map_locate_eq_error_iff {α : Type} (answer : Nat → α) {index : Int} {e : Fault} :
    answer <$> l.locate index = .error e ↔ (index < 0 ∨ l.size ≤ index) ∧ e = .noScope index := by
  rw [← locate_eq_error_iff]
  cases l.locate index with
  | ok i => exact iff_of_false nofun nofun
  | error e' =>
    constructor
    · intro h
      rw [Except.error.inj h]
    · intro h
      rw [Except.error.inj h]
      rfl

/-! ### One run -/

/-- An entry and all its siblings, as they are listed. -/
def runOf (l : Ledger) (i : Nat) : List Nat := l.earlier i ++ i :: l.later i

theorem siblings_eq_ok_iff : l.siblings i = .ok run ↔ i < l.size ∧ l.runOf i = run := map_locate_eq_ok_iff l.runOf

/-- The entry that going back from an entry comes to. -/
def first (l : Ledger) (i : Nat) : Nat :=
  match _h : l.previous? i with
  | none => i
  | some j => l.first j
termination_by i
decreasing_by exact previous?_lt _h

/-- **Going back as far as one can and then forward passes the whole run.** -/
theorem runOf_eq_cons (i : Nat) : l.runOf i = l.first i :: l.later (l.first i) := by
  induction i using first.induct l with
  | case1 i none_before => rw [runOf, earlier, first, none_before, List.nil_append]
  | case2 i j found ih =>
    -- the step forward from where the step back leads is inverse to it
    have back : l.next? j = some i := next?_eq_some_iff.2 (previous?_eq_some_iff.1 found)
    have again : l.later j = i :: l.later i := by rw [later, back]
    rw [first, found, ← ih, runOf, runOf, earlier, found, again, List.append_assoc, List.singleton_append]

theorem mem_runOf (h : l.levels[i]? = some level) : j ∈ l.runOf i ↔ l.AreSiblings level i j := mem_run h

theorem pairwise_runOf (inside : i < l.size) : (l.runOf i).Pairwise (· < ·) := by
  obtain ⟨level, h⟩ := exists_level_iff.2 inside
  exact pairwise_run h

/-- The members of a run are the siblings of its entry. -/
theorem mem_runOf_iff (inside : i < l.size) : j ∈ l.runOf i ↔ ∃ level, l.AreSiblings level i j := by
  obtain ⟨level, h⟩ := exists_level_iff.2 inside
  rw [mem_runOf h]
  constructor
  · intro siblings
    exact ⟨level, siblings⟩
  · rintro ⟨level', siblings⟩
    obtain rfl := Option.some.inj (h.symm.trans siblings.left)
    exact siblings

theorem self_mem_runOf (i : Nat) : i ∈ l.runOf i := by simp [runOf]

theorem AreSiblings.lt_size (h : l.AreSiblings level i j) : i < l.size ∧ j < l.size :=
  ⟨exists_level_iff.1 ⟨level, h.left⟩, exists_level_iff.1 ⟨level, h.right⟩⟩

/-- **Siblings have the same run.** -/
theorem runOf_eq_of_areSiblings (h : l.AreSiblings level i j) : l.runOf j = l.runOf i := by
  obtain ⟨inside, inside'⟩ := h.lt_size
  refine (pairwise_runOf inside').eq_of_mem_iff (pairwise_runOf inside) ?_
  intro n
  rw [mem_runOf h.left, mem_runOf h.right]
  constructor
  · intro siblings
    exact h.trans siblings
  · intro siblings
    exact h.symm.trans siblings

theorem runOf_eq_of_mem (inside : i < l.size) (mem : j ∈ l.runOf i) : j < l.size ∧ l.runOf j = l.runOf i := by
  obtain ⟨level, siblings⟩ := (mem_runOf_iff inside).1 mem
  exact ⟨siblings.lt_size.2, runOf_eq_of_areSiblings siblings⟩

/-! ### All runs -/

/-- The runs of all entries, each listed once. -/
def runs (l : Ledger) : List (List Nat) := ((List.range l.size).map l.runOf).dedup

theorem mem_runs_iff : run ∈ l.runs ↔ ∃ i < l.size, l.runOf i = run := by
  simp [runs]

theorem nodup_runs : l.runs.Nodup := List.nodup_dedup _

theorem eq_of_mem_runs (h : run ∈ l.runs) (h' : run' ∈ l.runs) (mem : j ∈ run) (mem' : j ∈ run') :
    run = run' := by
  obtain ⟨i, inside, rfl⟩ := mem_runs_iff.1 h
  obtain ⟨i', inside', rfl⟩ := mem_runs_iff.1 h'
  exact (runOf_eq_of_mem inside mem).2.symm.trans (runOf_eq_of_mem inside' mem').2

/-- Different runs have no entry in common. -/
theorem disjoint_runs : l.runs.Pairwise List.Disjoint := by
  refine nodup_runs.imp_of_mem ?_
  intro run run' h h' apart j mem mem'
  exact apart (eq_of_mem_runs h h' mem mem')

theorem nodup_of_mem_runs (h : run ∈ l.runs) : run.Nodup := by
  obtain ⟨i, inside, rfl⟩ := mem_runs_iff.1 h
  exact (pairwise_runOf inside).imp Nat.ne_of_lt

theorem mem_flatten_runs_iff : j ∈ l.runs.flatten ↔ j < l.size := by
  rw [List.mem_flatten]
  constructor
  · rintro ⟨run, h, mem⟩
    obtain ⟨i, inside, rfl⟩ := mem_runs_iff.1 h
    exact (runOf_eq_of_mem inside mem).1
  · intro inside
    exact ⟨l.runOf j, mem_runs_iff.2 ⟨j, inside, rfl⟩, self_mem_runOf j⟩

/-- **The runs share out the entries**: one after the other they have each entry just once. -/
theorem flatten_runs_perm : l.runs.flatten.Perm (List.range l.size) := by
  have nodup : l.runs.flatten.Nodup := List.nodup_flatten.2 ⟨fun _ h => nodup_of_mem_runs h, disjoint_runs⟩
  rw [List.perm_ext_iff_of_nodup nodup List.nodup_range]
  intro j
  rw [mem_flatten_runs_iff, List.mem_range]

/-- **Navigation lists just the declared siblings.** From every entry the whole run is listed in ascending order, first
going back and then forward; every member of the run gives the same list, and the different runs share out the entries
of the ledger. A number is refused exactly when it is negative or not less than the number of entries. -/
theorem siblings_eq_run_of_areSiblings (l : Ledger) :
    (∀ i < l.size, ∃ run, l.siblings i = .ok run ∧ run = l.first i :: l.later (l.first i) ∧
      run.Pairwise (· < ·) ∧ (∀ j, j ∈ run ↔ ∃ level, l.AreSiblings level i j) ∧
      i ∈ run ∧ ∀ j ∈ run, l.siblings j = .ok run) ∧
    ((∀ run, run ∈ l.runs ↔ ∃ i < l.size, l.siblings i = .ok run) ∧ l.runs.Nodup ∧
      l.runs.flatten.Perm (List.range l.size)) ∧
    ∀ (index : Int) (e : Fault),
      (l.nextSibling index = .error e ↔ (index < 0 ∨ l.size ≤ index) ∧ e = .noScope index) ∧
      (l.previousSibling index = .error e ↔ (index < 0 ∨ l.size ≤ index) ∧ e = .noScope index) ∧
      (l.siblings index = .error e ↔ (index < 0 ∨ l.size ≤ index) ∧ e = .noScope index) := by
  refine ⟨?_, ⟨?_, nodup_runs, flatten_runs_perm⟩, ?_⟩
  · intro i inside
    refine ⟨l.runOf i, siblings_eq_ok_iff.2 ⟨inside, rfl⟩, runOf_eq_cons i, pairwise_runOf inside, ?_,
      self_mem_runOf i, ?_⟩
    · intro j
      exact mem_runOf_iff inside
    · intro j mem
      exact siblings_eq_ok_iff.2 (runOf_eq_of_mem inside mem)
  · intro run
    rw [mem_runs_iff]
    constructor
    · rintro ⟨i, inside, same⟩
      exact ⟨i, inside, siblings_eq_ok_iff.2 ⟨inside, same⟩⟩
    · rintro ⟨i, inside, listed⟩
      exact ⟨i, inside, (siblings_eq_ok_iff.1 listed).2⟩
  · intro index e
    exact ⟨map_locate_eq_error_iff _, map_locate_eq_error_iff _, map_locate_eq_error_iff _⟩

end Offside.Ledger
