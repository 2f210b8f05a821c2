/-
Tables in which no two rows have one key: inserting a row replaces the row
with its key.
-/

import Mathlib.Data.List.Nodup

namespace Mneme.Library

/-- A table of rows with pairwise different keys. -/
structure Keyed {Row Key : Type} (key : Row → Key) where
  rows : List Row
  unique : (rows.map key).Nodup

namespace Keyed

variable {Row Key : Type} [DecidableEq Key] {key : Row → Key}

def empty : Keyed key :=
  { rows := [], unique := List.nodup_nil }

/-- Keep the rows that satisfy a test. -/
def keep (test : Row → Bool) (table : Keyed key) : Keyed key :=
  { rows := table.rows.filter test
    unique := table.unique.sublist (List.filter_sublist.map key) }

/-- `INSERT OR REPLACE`: the row with the same key is deleted first. -/
def put (row : Row) (table : Keyed key) : Keyed key :=
  { rows := table.rows.filter (fun old => key old ≠ key row) ++ [row]
    unique := by
      rw [List.map_append, List.nodup_append]
      refine ⟨table.unique.sublist (List.filter_sublist.map key), List.nodup_singleton _, ?_⟩
      intro kept held inserted last same
      obtain ⟨old, member, rfl⟩ := List.mem_map.mp held
      rw [List.mem_singleton.mp last] at same
      exact of_decide_eq_true (List.mem_filter.mp member).2 same }

def putAll (rows : List Row) (table : Keyed key) : Keyed key :=
  rows.foldl (fun table row => table.put row) table

theorem putAll_cons (row : Row) (rows : List Row) (table : Keyed key) :
    table.putAll (row :: rows) = (table.put row).putAll rows := rfl

/-- After a batch the table holds the old rows with other keys, then what the
batch makes of an empty table. -/
theorem putAll_rows (rows : List Row) (table : Keyed key) :
    (table.putAll rows).rows =
      table.rows.filter (fun old => key old ∉ rows.map key) ++ ((empty : Keyed key).putAll rows).rows := by
  induction rows generalizing table with
  | nil =>
      simp [putAll, empty]
  | cons row rows ih =>
      have inEmpty : ((empty : Keyed key).put row).rows = [row] := rfl
      rw [putAll_cons, ih, putAll_cons, ih ((empty : Keyed key).put row), inEmpty]
      change (table.rows.filter _ ++ [row]).filter _ ++ _ = _
      rw [List.filter_append, List.filter_filter, List.append_assoc]
      congr 1
      apply List.filter_congr
      intro old _
      simp only [List.map_cons, List.mem_cons, not_or, Bool.decide_and, ne_eq]
      rw [Bool.and_comm]

variable {rows : List Row} {row : Row}

theorem mem_of_mem_putAll (member : row ∈ ((empty : Keyed key).putAll rows).rows) : row ∈ rows := by
  induction rows with
  | nil => exact member
  | cons head rows ih =>
      rw [putAll_cons, putAll_rows] at member
      rcases List.mem_append.mp member with kept | later
      · have first : row ∈ [head] := (List.mem_filter.mp kept).1
        rw [List.mem_singleton.mp first]
        exact List.mem_cons_self
      · exact List.mem_cons_of_mem _ (ih later)

/-- Every key of a batch is in the table afterwards. -/
theorem exists_mem_putAll (member : row ∈ rows) :
    ∃ held ∈ ((empty : Keyed key).putAll rows).rows, key held = key row := by
  induction rows generalizing row with
  | nil => cases member
  | cons head rows ih =>
      have later : ∀ other ∈ rows, ∃ held ∈ ((empty : Keyed key).putAll (head :: rows)).rows,
          key held = key other := by
        intro other inside
        obtain ⟨held, there, same⟩ := ih inside
        rw [putAll_cons, putAll_rows]
        exact ⟨held, List.mem_append_right _ there, same⟩
      rcases List.mem_cons.mp member with first | inside
      · rw [first]
        by_cases replaced : key head ∈ rows.map key
        · obtain ⟨other, inside, same⟩ := List.mem_map.mp replaced
          rw [← same]
          exact later other inside
        · refine ⟨head, ?_, rfl⟩
          rw [putAll_cons, putAll_rows]
          exact List.mem_append_left _
            (List.mem_filter.mpr ⟨List.mem_singleton_self head, decide_eq_true replaced⟩)
      · exact later row inside

theorem putAll_append (left right : List Row) (table : Keyed key) :
    table.putAll (left ++ right) = (table.putAll left).putAll right :=
  List.foldl_append

omit [DecidableEq Key] in
theorem ext_rows {left right : Keyed key} (same : left.rows = right.rows) : left = right := by
  cases left
  cases right
  cases same
  rfl

theorem key_mem_of_mem_putAll
    (member : row ∈ ((empty : Keyed key).putAll rows).rows) : key row ∈ rows.map key :=
  List.mem_map_of_mem (mem_of_mem_putAll member)

/-- A batch that is put again replaces each of its rows by itself. -/
theorem putAll_putAll (rows : List Row) (table : Keyed key) :
    (table.putAll rows).putAll rows = table.putAll rows := by
  apply ext_rows
  have dropped : ((empty : Keyed key).putAll rows).rows.filter
      (fun old => key old ∉ rows.map key) = [] := by
    rw [List.filter_eq_nil_iff]
    intro row member kept
    exact of_decide_eq_true kept (key_mem_of_mem_putAll member)
  rw [putAll_rows rows (table.putAll rows), putAll_rows rows table, List.filter_append, dropped,
    List.append_nil, List.filter_filter]
  simp only [Bool.and_self]

/-! ### The row with a key -/

def find (wanted : Key) (table : Keyed key) : Option Row :=
  table.rows.find? (fun row => key row = wanted)

theorem find_eq_some_iff (table : Keyed key) (wanted : Key) (row : Row) :
    table.find wanted = some row ↔ row ∈ table.rows ∧ key row = wanted := by
  constructor
  · intro found
    have test := @List.find?_some _ (fun row => decide (key row = wanted)) _ _ found
    exact ⟨List.mem_of_find?_eq_some found, of_decide_eq_true test⟩
  · intro both
    obtain ⟨member, same⟩ := both
    cases found : table.find wanted with
    | none =>
        have absent := List.find?_eq_none.mp found row member
        rw [decide_eq_true_eq] at absent
        exact absurd same absent
    | some other =>
        have inside := List.mem_of_find?_eq_some found
        have test := @List.find?_some _ (fun row => decide (key row = wanted)) _ _ found
        have named : key other = wanted := of_decide_eq_true test
        have once := List.inj_on_of_nodup_map table.unique inside member (named.trans same.symm)
        rw [once]

theorem find_put (table : Keyed key) (row : Row) (wanted : Key) :
    (table.put row).find wanted = if key row = wanted then some row else table.find wanted := by
  by_cases same : key row = wanted
  · rw [if_pos same]
    apply (find_eq_some_iff _ _ _).mpr
    exact ⟨List.mem_append_right _ (List.mem_singleton_self row), same⟩
  · rw [if_neg same]
    apply Option.ext
    intro other
    rw [find_eq_some_iff, find_eq_some_iff]
    change other ∈ table.rows.filter _ ++ [row] ∧ _ ↔ _
    rw [List.mem_append, List.mem_filter, List.mem_singleton, decide_eq_true_eq]
    constructor
    · intro both
      obtain ⟨held | last, named⟩ := both
      · exact ⟨held.1, named⟩
      · rw [last] at named
        exact absurd named same
    · intro both
      obtain ⟨member, named⟩ := both
      refine ⟨Or.inl ⟨member, ?_⟩, named⟩
      intro clash
      exact same (clash.symm.trans named)

theorem find_keep (table : Keyed key) (test : Row → Bool) (wanted : Key) :
    (table.keep test).find wanted = (table.find wanted).filter test := by
  apply Option.ext
  intro row
  rw [Option.filter_eq_some_iff, find_eq_some_iff, find_eq_some_iff]
  change row ∈ table.rows.filter test ∧ _ ↔ _
  rw [List.mem_filter]
  exact and_right_comm

end Keyed

end Mneme.Library
