/-
How often each key of a list is there: the counters of a map that keeps its keys in the
order of their first mention.
-/

import Mathlib.Data.List.Induction
import Mathlib.Data.List.Nodup

namespace Mneme.Library.Tally

variable {Key : Type} [DecidableEq Key]

/-- `map.set(key, (map.get(key) ?? 0) + 1)`. -/
def countUp (key : Key) : List (Key × Nat) → List (Key × Nat)
  | [] => [(key, 1)]
  | entry :: rest =>
      if entry.1 = key then (entry.1, entry.2 + 1) :: rest else entry :: countUp key rest

def tally (keys : List Key) : List (Key × Nat) :=
  keys.foldl (fun counts key => countUp key counts) []

theorem map_fst_countUp (key : Key) (counts : List (Key × Nat)) :
    (countUp key counts).map Prod.fst =
      if key ∈ counts.map Prod.fst then counts.map Prod.fst
      else counts.map Prod.fst ++ [key] := by
  induction counts with
  | nil => rfl
  | cons entry rest ih =>
      unfold countUp
      by_cases here : entry.1 = key
      · have present : key ∈ (entry :: rest).map Prod.fst := by
          rw [List.map_cons, here]
          exact List.mem_cons_self
        rw [if_pos here, if_pos present]
        rfl
      · rw [if_neg here, List.map_cons, ih, List.map_cons]
        by_cases later : key ∈ rest.map Prod.fst
        · rw [if_pos later, if_pos (List.mem_cons_of_mem _ later)]
        · have absent : key ∉ entry.1 :: rest.map Prod.fst := by
            rw [List.mem_cons]
            exact fun found => found.elim (fun same => here same.symm) later
          rw [if_neg later, if_neg absent]
          rfl

variable {key : Key}

variable {counts : List (Key × Nat)}

theorem countUp_nodup
    (unique : (counts.map Prod.fst).Nodup) : ((countUp key counts).map Prod.fst).Nodup := by
  rw [map_fst_countUp]
  split
  · exact unique
  · next absent =>
      rw [List.nodup_append]
      refine ⟨unique, List.nodup_singleton key, ?_⟩
      intro other found last single same
      rw [List.mem_singleton.mp single] at same
      exact absent (same ▸ found)

theorem mem_countUp {key other : Key} {count : Nat} (unique : (counts.map Prod.fst).Nodup) :
    (other, count) ∈ countUp key counts ↔
      if other = key then
        (∃ before, (key, before) ∈ counts ∧ count = before + 1) ∨
          (key ∉ counts.map Prod.fst ∧ count = 1)
      else (other, count) ∈ counts := by
  induction counts with
  | nil =>
      unfold countUp
      split
      · next same => simp [same]
      · next different => simp [different]
  | cons entry rest ih =>
      rw [List.map_cons, List.nodup_cons] at unique
      obtain ⟨name, amount⟩ := entry
      unfold countUp
      by_cases here : name = key
      · rw [if_pos here]
        by_cases same : other = key
        · rw [if_pos same, List.mem_cons]
          constructor
          · rintro (first | later)
            · injection first with _ counted
              refine Or.inl ⟨amount, ?_, counted⟩
              rw [here]
              exact List.mem_cons_self
            · refine absurd (List.mem_map_of_mem (f := Prod.fst) later) ?_
              rw [same, ← here]
              exact unique.1
          · rintro (⟨before, found, counted⟩ | ⟨absent, _⟩)
            · rcases List.mem_cons.mp found with first | later
              · injection first with _ amounts
                rw [same, here, counted, amounts]
                exact Or.inl rfl
              · refine absurd (List.mem_map_of_mem (f := Prod.fst) later) ?_
                rw [← here]
                exact unique.1
            · refine absurd ?_ absent
              rw [List.map_cons, here]
              exact List.mem_cons_self
        · rw [if_neg same, List.mem_cons, List.mem_cons]
          have apart : ∀ amount : Nat, (other, count) ≠ (name, amount) := by
            intro amount equal
            exact same ((congrArg Prod.fst equal).trans here)
          rw [or_iff_right (apart _), or_iff_right (apart _)]
      · rw [if_neg here, List.mem_cons, ih unique.2]
        by_cases same : other = key
        · have apart : (other, count) ≠ (name, amount) := fun equal =>
            here ((congrArg Prod.fst equal).symm.trans same)
          have before : ∀ amount', (key, amount') ∈ (name, amount) :: rest ↔
              (key, amount') ∈ rest := by
            intro amount'
            rw [List.mem_cons]
            exact or_iff_right (fun equal => here (congrArg Prod.fst equal).symm)
          have absent : key ∉ ((name, amount) :: rest).map Prod.fst ↔
              key ∉ rest.map Prod.fst := by
            rw [List.map_cons, List.mem_cons, not_or]
            exact and_iff_right (fun equal => here equal.symm)
          simp only [if_pos same, or_iff_right apart, before, absent]
        · rw [if_neg same, if_neg same, List.mem_cons]

theorem tally_append (keys : List Key) (key : Key) :
    tally (keys ++ [key]) = countUp key (tally keys) := by
  unfold tally
  rw [List.foldl_append]
  rfl

/-- How often a key is there. -/
def times (keys : List Key) (key : Key) : Nat :=
  keys.countP (fun other => other = key)

variable {keys : List Key}

theorem times_eq_zero (absent : key ∉ keys) : times keys key = 0 := by
  unfold times
  rw [List.countP_eq_zero]
  intro other member same
  exact absent (of_decide_eq_true same ▸ member)

theorem times_append (front back : List Key) (key : Key) :
    times (front ++ back) key = times front key + times back key :=
  List.countP_append

theorem times_pos : 0 < times keys key ↔ key ∈ keys := by
  unfold times
  rw [List.countP_pos_iff]
  constructor
  · rintro ⟨other, member, same⟩
    exact of_decide_eq_true same ▸ member
  · intro member
    exact ⟨key, member, decide_eq_true rfl⟩

/-- Every key is counted once, with the number of times it is there. -/
theorem tally_counts (keys : List Key) :
    ((tally keys).map Prod.fst).Nodup ∧
      ∀ key count, (key, count) ∈ tally keys ↔ key ∈ keys ∧ count = times keys key := by
  induction keys using List.reverseRecOn with
  | nil => exact ⟨List.nodup_nil, by simp [tally]⟩
  | append_singleton keys last ih =>
      obtain ⟨unique, counted⟩ := ih
      rw [tally_append]
      refine ⟨countUp_nodup unique, ?_⟩
      intro key count
      rw [mem_countUp unique, times_append]
      have known : last ∈ (tally keys).map Prod.fst ↔ last ∈ keys := by
        constructor
        · intro member
          obtain ⟨entry, found, same⟩ := List.mem_map.mp member
          exact same ▸ ((counted entry.1 entry.2).mp found).1
        · intro member
          exact List.mem_map.mpr ⟨_, (counted last _).mpr ⟨member, rfl⟩, rfl⟩
      by_cases same : key = last
      · have one : times [last] last = 1 := by simp [times]
        rw [if_pos same, same, known, one]
        have member : last ∈ keys ++ [last] := List.mem_append_right _ List.mem_cons_self
        rw [and_iff_right member]
        constructor
        · rintro (⟨before, found, after⟩ | ⟨absent, first⟩)
          · rw [after, ((counted last before).mp found).2]
          · rw [first, times_eq_zero absent]
        · intro amount
          by_cases earlier : last ∈ keys
          · exact Or.inl ⟨_, (counted last _).mpr ⟨earlier, rfl⟩, amount⟩
          · rw [times_eq_zero earlier] at amount
            exact Or.inr ⟨earlier, amount⟩
      · have elsewhere : key ∈ keys ++ [last] ↔ key ∈ keys := by
          rw [List.mem_append, List.mem_singleton]
          exact or_iff_left same
        have none : times [last] key = 0 :=
          times_eq_zero (fun member => same (List.mem_singleton.mp member))
        rw [if_neg same, counted, elsewhere, none, Nat.add_zero]

theorem tally_nodup (keys : List Key) : ((tally keys).map Prod.fst).Nodup :=
  (tally_counts keys).1

theorem mem_tally {count : Nat} : (key, count) ∈ tally keys ↔ key ∈ keys ∧ count = times keys key :=
  (tally_counts keys).2 key count

end Mneme.Library.Tally
