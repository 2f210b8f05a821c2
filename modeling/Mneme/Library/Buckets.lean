/-
Sorting a list into buckets by a key: each bucket keeps the order of its items,
and the buckets stand in the order in which their keys first occur.
-/

import Mathlib.Data.List.Induction
import Mathlib.Data.List.Nodup

namespace Mneme.Library.Buckets

variable {Key Item : Type} [DecidableEq Key]

/-- Append the item to its key's bucket, opened at the end when it is missing. -/
def push (key : Key) (item : Item) : List (Key × List Item) → List (Key × List Item)
  | [] => [(key, [item])]
  | (other, items) :: rest =>
      if other = key then (other, items ++ [item]) :: rest
      else (other, items) :: push key item rest

def collect (entries : List (Key × Item)) : List (Key × List Item) :=
  entries.foldl (fun buckets entry => push entry.1 entry.2 buckets) []

/-- The items filed under a key, in list order. -/
def under (key : Key) (entries : List (Key × Item)) : List Item :=
  (entries.filter (fun entry => entry.1 = key)).map Prod.snd

variable (key : Key)

theorem under_append (first second : List (Key × Item)) :
    under key (first ++ second) = under key first ++ under key second := by
  simp only [under, List.filter_append, List.map_append]

theorem under_cons_same (item : Item) (rest : List (Key × Item)) :
    under key ((key, item) :: rest) = item :: under key rest := by
  simp only [under, List.filter_cons_of_pos, decide_true, List.map_cons]

theorem under_cons_other {key other : Key} (different : other ≠ key) (item : Item)
    (rest : List (Key × Item)) : under key ((other, item) :: rest) = under key rest := by
  unfold under
  rw [List.filter_cons_of_neg (by simpa using different)]

theorem mem_keys_push (key wanted : Key) (item : Item) (buckets : List (Key × List Item)) :
    wanted ∈ (push key item buckets).map Prod.fst ↔
      wanted = key ∨ wanted ∈ buckets.map Prod.fst := by
  induction buckets with
  | nil => simp only [push, List.map_cons, List.map_nil, List.mem_singleton, List.not_mem_nil,
      or_false]
  | cons bucket rest ih =>
      obtain ⟨other, items⟩ := bucket
      unfold push
      by_cases same : other = key
      · subst same
        simp only [if_true, List.map_cons, List.mem_cons]
        tauto
      · simp only [if_neg same, List.map_cons, List.mem_cons, ih]
        tauto

variable {buckets : List (Key × List Item)}

theorem push_keys_nodup (item : Item)
    (distinct : (buckets.map Prod.fst).Nodup) : ((push key item buckets).map Prod.fst).Nodup := by
  induction buckets with
  | nil => exact List.nodup_singleton key
  | cons bucket rest ih =>
      obtain ⟨other, items⟩ := bucket
      rw [List.map_cons, List.nodup_cons] at distinct
      unfold push
      by_cases same : other = key
      · rw [if_pos same, List.map_cons, List.nodup_cons]
        exact distinct
      · rw [if_neg same, List.map_cons, List.nodup_cons]
        refine ⟨?_, ih distinct.2⟩
        intro member
        rcases (mem_keys_push key other item rest).mp member with equal | old
        · exact same equal
        · exact distinct.1 old

theorem mem_push_iff (key wanted : Key) (item : Item) (items : List Item)
    (distinct : (buckets.map Prod.fst).Nodup) :
    (wanted, items) ∈ push key item buckets ↔
      if wanted = key then
        (∃ before, (key, before) ∈ buckets ∧ items = before ++ [item]) ∨
          (key ∉ buckets.map Prod.fst ∧ items = [item])
      else (wanted, items) ∈ buckets := by
  induction buckets with
  | nil =>
      simp only [push, List.mem_singleton, Prod.mk.injEq, List.not_mem_nil, false_and,
        exists_false, List.map_nil, not_false_eq_true, true_and, false_or]
      split <;> simp_all
  | cons bucket rest ih =>
      obtain ⟨other, held⟩ := bucket
      rw [List.map_cons, List.nodup_cons] at distinct
      have later := ih distinct.2
      have bucketOf : ∀ {found : List Item}, (other, found) ∈ rest → False := fun member =>
        distinct.1 (List.mem_map.mpr ⟨_, member, rfl⟩)
      unfold push
      by_cases same : other = key
      · subst same
        rw [if_pos rfl]
        by_cases asked : wanted = other
        · subst asked
          simp only [List.mem_cons, Prod.mk.injEq, true_and, if_true, List.map_cons, true_or,
            not_true_eq_false, false_and, or_false]
          constructor
          · rintro (equal | member)
            · exact ⟨held, Or.inl rfl, equal⟩
            · exact (bucketOf member).elim
          · rintro ⟨before, equal | member, appended⟩
            · subst equal
              exact Or.inl appended
            · exact (bucketOf member).elim
        · simp only [List.mem_cons, Prod.mk.injEq, asked, false_and, false_or, if_false]
      · rw [if_neg same, List.mem_cons, later]
        by_cases asked : wanted = key
        · subst asked
          have apart : wanted ≠ other := fun equal => same equal.symm
          simp only [Prod.mk.injEq, apart, false_and, false_or, if_true, List.mem_cons,
            List.map_cons]
        · simp only [if_neg asked, List.mem_cons]

variable (entries : List (Key × Item))

theorem collect_append_singleton (entry : Key × Item) :
    collect (entries ++ [entry]) = push entry.1 entry.2 (collect entries) := by
  unfold collect
  rw [List.foldl_append]
  rfl

theorem collect_keys_nodup : ((collect entries).map Prod.fst).Nodup := by
  induction entries using List.reverseRecOn with
  | nil => exact List.nodup_nil
  | append_singleton entries entry ih =>
      rw [collect_append_singleton]
      exact push_keys_nodup _ _ ih

theorem mem_keys_collect (key : Key) :
    key ∈ (collect entries).map Prod.fst ↔ key ∈ entries.map Prod.fst := by
  induction entries using List.reverseRecOn with
  | nil => exact Iff.rfl
  | append_singleton entries entry ih =>
      rw [collect_append_singleton, mem_keys_push, ih, List.map_append, List.mem_append,
        List.map_singleton, List.mem_singleton]
      exact or_comm

/-- The bucket of a key that occurs holds the items filed under it. -/
theorem mem_collect_iff (key : Key) (items : List Item) :
    (key, items) ∈ collect entries ↔
      key ∈ entries.map Prod.fst ∧ items = under key entries := by
  induction entries using List.reverseRecOn generalizing items with
  | nil =>
      change (key, items) ∈ [] ↔ key ∈ [] ∧ _
      simp only [List.not_mem_nil, false_and]
  | append_singleton entries entry ih =>
      obtain ⟨last, item⟩ := entry
      rw [collect_append_singleton, mem_push_iff _ _ _ _ (collect_keys_nodup entries),
        List.map_append, List.mem_append, under_append]
      by_cases same : key = last
      · subst same
        rw [if_pos rfl, under_cons_same, mem_keys_collect]
        have single : key ∈ [(key, item)].map Prod.fst := List.mem_singleton_self key
        simp only [single, or_true, true_and]
        by_cases occurs : key ∈ entries.map Prod.fst
        · simp only [ih, occurs, true_and, exists_eq_left, not_true_eq_false, false_and, or_false]
          rfl
        · have empty : under key entries = [] := by
            unfold under
            rw [List.map_eq_nil_iff, List.filter_eq_nil_iff]
            intro entry member equal
            exact occurs (List.mem_map.mpr ⟨entry, member, of_decide_eq_true equal⟩)
          simp only [ih, occurs, false_and, exists_false, not_false_eq_true, true_and, false_or,
            empty]
          rfl
      · have other : last ≠ key := fun equal => same equal.symm
        rw [if_neg same, under_cons_other other, ih]
        have notLast : key ∉ [(last, item)].map Prod.fst :=
          fun member => same (List.mem_singleton.mp member)
        simp only [notLast, or_false]
        simp only [under, List.filter_nil, List.map_nil, List.append_nil]

/-- The classes of the items by a label, one class for each label, are all the items. -/
theorem classes_perm (label : Item → Key) {keys : List Key} (distinct : keys.Nodup)
    (items : List Item) (labelled : ∀ item ∈ items, label item ∈ keys) :
    (keys.flatMap (fun key => items.filter (fun item => label item = key))).Perm items := by
  induction keys generalizing items with
  | nil =>
      cases items with
      | nil => exact List.Perm.refl _
      | cons item rest => exact absurd (labelled item List.mem_cons_self) List.not_mem_nil
  | cons key keys ih =>
      rw [List.nodup_cons] at distinct
      have rest : ∀ item ∈ items.filter (fun item => !decide (label item = key)),
          label item ∈ keys := by
        intro item member
        rw [List.mem_filter] at member
        exact (List.mem_cons.mp (labelled item member.1)).resolve_left (by simpa using member.2)
      have later : keys.flatMap (fun other => items.filter (fun item => label item = other)) =
          keys.flatMap (fun other => (items.filter (fun item => !decide (label item = key))).filter
            (fun item => label item = other)) := by
        apply List.flatMap_congr
        intro other member
        rw [List.filter_filter]
        apply List.filter_congr
        intro item _
        by_cases same : label item = other
        · have apart : label item ≠ key := fun equal => distinct.1 (equal ▸ same ▸ member)
          simp [same, same ▸ apart]
        · simp [same]
      rw [List.flatMap_cons, later]
      exact ((ih distinct.2 _ rest).append_left _).trans
        (List.filter_append_perm (fun item => decide (label item = key)) items)

end Mneme.Library.Buckets
