/-
A map of bounded size that forgets the entry used longest ago.
-/

import Mathlib.Data.List.Nodup

namespace Mneme.Library

/-- The entries, the one used last in front. -/
structure Lru (Key Value : Type) where
  capacity : Nat
  entries : List (Key × Value)
  distinct : (entries.map Prod.fst).Nodup
  bounded : entries.length ≤ capacity

namespace Lru

variable {Key Value : Type} [DecidableEq Key]

def empty (capacity : Nat) : Lru Key Value :=
  { capacity, entries := [], distinct := List.nodup_nil, bounded := Nat.zero_le _ }

def lookup (cache : Lru Key Value) (key : Key) : Option Value :=
  cache.entries.lookup key

def others (cache : Lru Key Value) (key : Key) : List (Key × Value) :=
  cache.entries.filter (fun entry => entry.1 ≠ key)

theorem others_sublist (cache : Lru Key Value) (key : Key) :
    (cache.others key).Sublist cache.entries :=
  List.filter_sublist

theorem others_distinct (cache : Lru Key Value) (key : Key) (value : Value) :
    (((key, value) :: cache.others key).map Prod.fst).Nodup := by
  rw [List.map_cons, List.nodup_cons]
  refine ⟨?_, cache.distinct.sublist ((cache.others_sublist key).map _)⟩
  intro member
  obtain ⟨entry, inside, same⟩ := List.mem_map.mp member
  exact of_decide_eq_true (List.mem_filter.mp inside).2 same

variable {cache : Lru Key Value}

variable {key : Key}

theorem mem_of_lookup {value : Value} (found : cache.lookup key = some value) :
    (key, value) ∈ cache.entries := by
  obtain ⟨before, after, split, _⟩ := List.lookup_eq_some_iff.mp found
  rw [split]
  exact List.mem_append_right _ List.mem_cons_self

/-- An entry that is put in front pushes the last one out of a full cache. -/
def put (cache : Lru Key Value) (key : Key) (value : Value) : Lru Key Value :=
  { capacity := cache.capacity
    entries := ((key, value) :: cache.others key).take cache.capacity
    distinct := (cache.others_distinct key value).sublist ((List.take_sublist _ _).map _)
    bounded := List.length_take_le _ _ }

/-- An entry that is found moves to the front. -/
def get (cache : Lru Key Value) (key : Key) : Option Value × Lru Key Value :=
  match cache.lookup key with
  | none => (none, cache)
  | some value => (some value, cache.put key value)

def pop (cache : Lru Key Value) (key : Key) : Lru Key Value :=
  { capacity := cache.capacity
    entries := cache.others key
    distinct := cache.distinct.sublist ((cache.others_sublist key).map _)
    bounded := Nat.le_trans (cache.others_sublist key).length_le cache.bounded }

theorem get_fst (cache : Lru Key Value) (key : Key) : (cache.get key).1 = cache.lookup key := by
  unfold get
  split
  · rename_i missing
    exact missing.symm
  · rename_i value found
    exact found.symm

variable {entry : Key × Value}

theorem mem_put {value : Value} (member : entry ∈ (cache.put key value).entries) :
    entry = (key, value) ∨ entry ∈ cache.entries := by
  rcases List.mem_cons.mp (List.mem_of_mem_take member) with first | other
  · exact Or.inl first
  · exact Or.inr ((cache.others_sublist key).subset other)

theorem mem_get (member : entry ∈ (cache.get key).2.entries) : entry ∈ cache.entries := by
  unfold get at member
  split at member
  · exact member
  · rename_i value found
    rcases mem_put member with rfl | old
    · exact mem_of_lookup found
    · exact old

theorem mem_pop (member : entry ∈ (cache.pop key).entries) : entry ∈ cache.entries :=
  (cache.others_sublist key).subset member

end Lru

end Mneme.Library
