/-
Rows of one width, laid end to end in one buffer; and rows that are found by a key.
-/

import Mathlib.Data.List.Nodup

namespace Mneme.Library.Rows

section Buffer

variable {Cell : Type} (width : Nat)

def rowAt (buffer : List Cell) (index : Nat) : List Cell :=
  (buffer.drop (index * width)).take width

def setRow (buffer : List Cell) (index : Nat) (row : List Cell) : List Cell :=
  buffer.take (index * width) ++ (row ++ buffer.drop (index * width + width))

def removeRow (buffer : List Cell) (index : Nat) : List Cell :=
  buffer.take (index * width) ++ buffer.drop (index * width + width)

variable {width} {rows : List (List Cell)}

theorem flatten_length (even : ∀ row ∈ rows, row.length = width) :
    rows.flatten.length = rows.length * width := by
  induction rows with
  | nil => simp
  | cons row rest ih =>
      rw [List.flatten_cons, List.length_append, even row List.mem_cons_self,
        ih (fun other member => even other (List.mem_cons_of_mem _ member)), List.length_cons,
        Nat.add_one_mul, Nat.add_comm]

theorem flatten_take (even : ∀ row ∈ rows, row.length = width) (index : Nat) :
    rows.flatten.take (index * width) = (rows.take index).flatten := by
  induction rows generalizing index with
  | nil => simp
  | cons row rest ih =>
      have first := even row List.mem_cons_self
      cases index with
      | zero => simp
      | succ index =>
          rw [List.flatten_cons, List.take_succ_cons, List.flatten_cons, Nat.add_one_mul,
            Nat.add_comm, ← first, List.take_length_add_append, first,
            ih (fun other member => even other (List.mem_cons_of_mem _ member))]

theorem flatten_drop (even : ∀ row ∈ rows, row.length = width) (index : Nat) :
    rows.flatten.drop (index * width) = (rows.drop index).flatten := by
  induction rows generalizing index with
  | nil => simp
  | cons row rest ih =>
      have first := even row List.mem_cons_self
      cases index with
      | zero => simp
      | succ index =>
          rw [List.flatten_cons, List.drop_succ_cons, Nat.add_one_mul, Nat.add_comm, ← first,
            List.drop_length_add_append, first,
            ih (fun other member => even other (List.mem_cons_of_mem _ member))]

theorem flatten_drop_next (even : ∀ row ∈ rows, row.length = width) (index : Nat) :
    rows.flatten.drop (index * width + width) = (rows.drop (index + 1)).flatten := by
  rw [← Nat.add_one_mul]
  exact flatten_drop even (index + 1)

theorem rowAt_flatten (even : ∀ row ∈ rows, row.length = width) {index : Nat}
    (within : index < rows.length) : rowAt width rows.flatten index = rows[index] := by
  unfold rowAt
  rw [flatten_drop even, List.drop_eq_getElem_cons within, List.flatten_cons]
  exact List.take_left' (even _ (List.getElem_mem within))

theorem setRow_flatten (even : ∀ row ∈ rows, row.length = width) {index : Nat}
    (within : index < rows.length) (row : List Cell) :
    setRow width rows.flatten index row = (rows.set index row).flatten := by
  unfold setRow
  rw [flatten_take even, flatten_drop_next even, List.set_eq_take_append_cons_drop, if_pos within,
    List.flatten_append, List.flatten_cons]

theorem removeRow_flatten (even : ∀ row ∈ rows, row.length = width) (index : Nat) :
    removeRow width rows.flatten index = (rows.eraseIdx index).flatten := by
  unfold removeRow
  rw [flatten_take even, flatten_drop_next even, List.eraseIdx_eq_take_drop_succ,
    List.flatten_append]

end Buffer

/-! ### Keyed rows -/

section Keyed

variable {Key Value : Type} [DecidableEq Key]

/-- Where the key stands first. -/
def position (keys : List Key) (key : Key) : Option Nat :=
  keys.findIdx? (fun other => other = key)

/-- Replace the row of a key, or put it behind the others. -/
def putRow (rows : List (Key × Value)) (key : Key) (value : Value) : List (Key × Value) :=
  match rows with
  | [] => [(key, value)]
  | (other, held) :: rest =>
      if other = key then (key, value) :: rest else (other, held) :: putRow rest key value

def dropRow (rows : List (Key × Value)) (key : Key) : List (Key × Value) :=
  match rows with
  | [] => []
  | (other, held) :: rest => if other = key then rest else (other, held) :: dropRow rest key

variable {rows : List (Key × Value)} {key : Key}

theorem position_cons (other : Key) (keys : List Key) (key : Key) :
    position (other :: keys) key =
      if other = key then some 0 else (position keys key).map (fun index => index + 1) := by
  unfold position
  rw [List.findIdx?_cons]
  simp only [decide_eq_true_eq]

theorem lookup_cons_if (first : Key) (held : Value) (rest : List (Key × Value)) (key : Key) :
    ((first, held) :: rest).lookup key = if key = first then some held else rest.lookup key := by
  rw [List.lookup_cons]
  by_cases same : key = first
  · simp [same]
  · rw [if_neg same, show (key == first) = false by simpa using same]

variable {index : Nat}

theorem position_lt {keys : List Key} (found : position keys key = some index) :
    index < keys.length :=
  (List.findIdx?_eq_some_iff_getElem.mp found).1

/-- Where the keys are distinct, each is found in its own place. -/
theorem position_getElem {keys : List Key} (distinct : keys.Nodup)
    (within : index < keys.length) : position keys keys[index] = some index := by
  refine List.findIdx?_eq_some_iff_getElem.mpr ⟨within, decide_eq_true rfl, ?_⟩
  intro earlier before
  have apart : keys[earlier] ≠ keys[index] := fun same =>
    Nat.ne_of_lt before ((List.Nodup.getElem_inj_iff distinct).mp same)
  simpa using apart

/-- The value is read from the place of the key. -/
theorem lookup_eq_position (rows : List (Key × Value)) (key : Key) :
    rows.lookup key =
      (position (rows.map Prod.fst) key).bind (fun index => (rows.map Prod.snd)[index]?) := by
  induction rows with
  | nil => rfl
  | cons row rest ih =>
      obtain ⟨other, value⟩ := row
      rw [List.map_cons, position_cons, List.map_cons]
      by_cases same : other = key
      · subst same
        simp
      · rw [if_neg same, lookup_cons_if, if_neg (fun equal => same equal.symm), ih]
        cases position (rest.map Prod.fst) key with
        | none => rfl
        | some index => rfl

/-- A key that is found divides the rows at its first place. -/
theorem rows_of_position (found : position (rows.map Prod.fst) key = some index) :
    ∃ front value back, rows = front ++ (key, value) :: back ∧ front.length = index ∧
      ∀ row ∈ front, row.1 ≠ key := by
  induction rows generalizing index with
  | nil => cases found
  | cons row rest ih =>
      obtain ⟨other, held⟩ := row
      rw [List.map_cons, position_cons] at found
      by_cases same : other = key
      · rw [if_pos same] at found
        cases found
        subst same
        exact ⟨[], held, rest, rfl, rfl, fun _ impossible => nomatch impossible⟩
      · rw [if_neg same] at found
        obtain ⟨place, later, rfl⟩ := Option.map_eq_some_iff.mp found
        obtain ⟨front, value, back, rfl, rfl, apart⟩ := ih later
        exact ⟨(other, held) :: front, value, back, rfl, rfl,
          List.forall_mem_cons.mpr ⟨same, apart⟩⟩

theorem apart_of_position (missing : position (rows.map Prod.fst) key = none) :
    ∀ row ∈ rows, row.1 ≠ key := by
  intro row member same
  have never := List.findIdx?_eq_none_iff.mp missing row.1 (List.mem_map_of_mem member)
  exact of_decide_eq_false never same

variable {front : List (Key × Value)}

theorem putRow_past (apart : ∀ row ∈ front, row.1 ≠ key)
    (back : List (Key × Value)) (value : Value) :
    putRow (front ++ back) key value = front ++ putRow back key value := by
  induction front with
  | nil => rfl
  | cons row rest ih =>
      rw [List.cons_append, putRow, if_neg (apart row List.mem_cons_self),
        ih (fun other member => apart other (List.mem_cons_of_mem _ member))]
      rfl

theorem dropRow_past (apart : ∀ row ∈ front, row.1 ≠ key)
    (back : List (Key × Value)) : dropRow (front ++ back) key = front ++ dropRow back key := by
  induction front with
  | nil => rfl
  | cons row rest ih =>
      rw [List.cons_append, dropRow, if_neg (apart row List.mem_cons_self),
        ih (fun other member => apart other (List.mem_cons_of_mem _ member))]
      rfl

variable {value : Value}

theorem putRow_of_some (found : position (rows.map Prod.fst) key = some index) :
    putRow rows key value = rows.set index (key, value) := by
  obtain ⟨front, held, back, rfl, rfl, apart⟩ := rows_of_position found
  rw [putRow_past apart, putRow, if_pos rfl, List.set_append_right _ _ (Nat.le_refl _),
    Nat.sub_self, List.set_cons_zero]

theorem putRow_of_none (missing : position (rows.map Prod.fst) key = none) :
    putRow rows key value = rows ++ [(key, value)] := by
  have past := putRow_past (apart_of_position missing) [] value
  rw [List.append_nil] at past
  exact past

theorem dropRow_of_some (found : position (rows.map Prod.fst) key = some index) :
    dropRow rows key = rows.eraseIdx index := by
  obtain ⟨front, held, back, rfl, rfl, apart⟩ := rows_of_position found
  rw [dropRow_past apart, dropRow, if_pos rfl, List.eraseIdx_append_of_length_le (Nat.le_refl _),
    Nat.sub_self, List.eraseIdx_cons_zero]

theorem dropRow_of_none (missing : position (rows.map Prod.fst) key = none) :
    dropRow rows key = rows := by
  have past := dropRow_past (apart_of_position missing) []
  rw [dropRow, List.append_nil] at past
  exact past

theorem lookup_putRow (rows : List (Key × Value)) (key : Key) (value : Value) (other : Key) :
    (putRow rows key value).lookup other =
      if other = key then some value else rows.lookup other := by
  induction rows with
  | nil =>
      exact lookup_cons_if key value [] other
  | cons row rest ih =>
      obtain ⟨first, held⟩ := row
      rw [putRow]
      by_cases here : first = key
      · subst here
        rw [if_pos rfl, lookup_cons_if, lookup_cons_if]
        by_cases same : other = first
        · rw [if_pos same, if_pos same]
        · rw [if_neg same, if_neg same, if_neg same]
      · rw [if_neg here, lookup_cons_if, ih, lookup_cons_if]
        by_cases same : other = first
        · subst same
          rw [if_pos rfl, if_neg here, if_pos rfl]
        · rw [if_neg same, if_neg same]

theorem dropRow_sublist (rows : List (Key × Value)) (key : Key) :
    (dropRow rows key).Sublist rows := by
  induction rows with
  | nil => exact List.Sublist.refl _
  | cons row rest ih =>
      obtain ⟨other, held⟩ := row
      rw [dropRow]
      split
      · exact List.sublist_cons_self _ _
      · exact ih.cons_cons _

theorem lookup_dropRow (distinct : (rows.map Prod.fst).Nodup) (key other : Key) :
    (dropRow rows key).lookup other = if other = key then none else rows.lookup other := by
  induction rows with
  | nil => simp [dropRow]
  | cons row rest ih =>
      obtain ⟨first, held⟩ := row
      rw [List.map_cons, List.nodup_cons] at distinct
      rw [dropRow]
      by_cases here : first = key
      · subst here
        rw [if_pos rfl, lookup_cons_if]
        by_cases same : other = first
        · subst same
          rw [if_pos rfl, List.lookup_eq_none_iff]
          intro row member
          have apart : other ≠ row.1 := fun equal =>
            distinct.1 (List.mem_map.mpr ⟨row, member, equal.symm⟩)
          simpa using apart
        · rw [if_neg same, if_neg same]
      · rw [if_neg here, lookup_cons_if, ih distinct.2, lookup_cons_if]
        by_cases same : other = first
        · subst same
          rw [if_pos rfl, if_neg here, if_pos rfl]
        · rw [if_neg same, if_neg same]

theorem mem_putRow {row : Key × Value} (member : row ∈ putRow rows key value) :
    row = (key, value) ∨ row ∈ rows := by
  induction rows with
  | nil => exact Or.inl (List.mem_singleton.mp member)
  | cons first rest ih =>
      obtain ⟨other, held⟩ := first
      rw [putRow] at member
      split at member
      · rcases List.mem_cons.mp member with new | old
        · exact Or.inl new
        · exact Or.inr (List.mem_cons_of_mem _ old)
      · rcases List.mem_cons.mp member with here | later
        · exact Or.inr (here ▸ List.mem_cons_self)
        · rcases ih later with new | old
          · exact Or.inl new
          · exact Or.inr (List.mem_cons_of_mem _ old)

theorem putRow_nodup (distinct : (rows.map Prod.fst).Nodup) (key : Key) (value : Value) :
    ((putRow rows key value).map Prod.fst).Nodup := by
  induction rows with
  | nil => exact List.nodup_singleton key
  | cons row rest ih =>
      obtain ⟨other, held⟩ := row
      rw [List.map_cons, List.nodup_cons] at distinct
      rw [putRow]
      by_cases same : other = key
      · rw [if_pos same, List.map_cons, List.nodup_cons, ← same]
        exact distinct
      · rw [if_neg same, List.map_cons, List.nodup_cons]
        refine ⟨?_, ih distinct.2⟩
        intro member
        obtain ⟨found, inside, equal⟩ := List.mem_map.mp member
        rcases mem_putRow inside with rfl | old
        · exact same equal.symm
        · exact distinct.1 (List.mem_map.mpr ⟨found, old, equal⟩)

end Keyed

end Mneme.Library.Rows
