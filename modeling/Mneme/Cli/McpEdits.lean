/-
An entry that is merged into a value and stripped from it.

The entry is the member of a table or an item of an array, and these may be the
member of a table themselves.
-/

import Mneme.Cli.Platforms
import Mneme.Library.Tables

namespace Mneme.Cli.Platforms

open Mneme.Common Mneme.Library

/-! ### Members of a table -/

section

variable {Value : Type}

variable (fields : List (String × Value))

variable (key other : String)

theorem lookup_replaced (value : Value) :
    (fields.map (fun field => if field.1 = key then (key, value) else field)).lookup other =
      if other = key then (fields.lookup key).map (fun _ => value) else fields.lookup other := by
  induction fields with
  | nil => simp
  | cons field fields ih =>
      obtain ⟨name, held⟩ := field
      rw [List.map_cons]
      by_cases replaced : name = key
      · rw [if_pos replaced, List.lookup_cons, List.lookup_cons, List.lookup_cons, ih, replaced,
          beq_self_eq_true]
        by_cases wanted : other = key
        · rw [if_pos wanted, if_pos wanted, wanted, beq_self_eq_true]
          rfl
        · rw [if_neg wanted, if_neg wanted, beq_false_of_ne wanted]
      · rw [if_neg replaced, List.lookup_cons, List.lookup_cons, List.lookup_cons, ih]
        by_cases wanted : other = key
        · rw [if_pos wanted, if_pos wanted, wanted, beq_false_of_ne (Ne.symm replaced)]
        · rw [if_neg wanted, if_neg wanted]

theorem lookup_setField (value : Value) :
    (setField fields key value).lookup other =
      if other = key then some value else fields.lookup other := by
  unfold setField
  by_cases present : (fields.any fun field => field.1 = key) = true
  · rw [if_pos present, lookup_replaced]
    obtain ⟨field, member, named⟩ := List.any_eq_true.mp present
    cases found : fields.lookup key with
    | none =>
        have absent := List.lookup_eq_none_iff.mp found field member
        rw [of_decide_eq_true named, bne_self_eq_false] at absent
        cases absent
    | some held => rfl
  · rw [if_neg present, List.lookup_append, List.lookup_cons, List.lookup_nil]
    by_cases wanted : other = key
    · have absent : fields.lookup other = none := by
        rw [List.lookup_eq_none_iff]
        intro field member
        apply bne_iff_ne.mpr
        intro same
        exact present (List.any_eq_true.mpr ⟨field, member, decide_eq_true (same.symm.trans wanted)⟩)
      rw [absent, if_pos wanted, wanted, beq_self_eq_true]
      rfl
    · rw [if_neg wanted, beq_false_of_ne wanted]
      cases fields.lookup other <;> rfl

theorem lookup_removeField :
    (removeField fields key).lookup other = if other = key then none else fields.lookup other := by
  unfold removeField
  induction fields with
  | nil => simp
  | cons field fields ih =>
      obtain ⟨name, held⟩ := field
      by_cases removed : name = key
      · have dropped : ¬ decide (name ≠ key) = true := by
          rw [decide_eq_true_eq]
          exact fun kept => kept removed
        rw [List.filter_cons, if_neg dropped, ih, List.lookup_cons, removed]
        by_cases wanted : other = key
        · rw [if_pos wanted, if_pos wanted]
        · rw [if_neg wanted, if_neg wanted, beq_false_of_ne wanted]
      · rw [List.filter_cons, if_pos (decide_eq_true removed), List.lookup_cons, List.lookup_cons, ih]
        by_cases wanted : other = key
        · rw [if_pos wanted, wanted, if_pos rfl, beq_false_of_ne (Ne.symm removed)]
        · rw [if_neg wanted, if_neg wanted]

end

/-! ### Edits of a value -/

/-- An entry that is merged into a value and stripped from it.  `Kept` compares a value
with what became of it: the entry is the given one, and all else is as it was. -/
structure EntryEdit {Value : Type} (shape : Shape Value) (entry : Value) where
  merge : Value → Option Value
  strip : Value → Option Value
  Kept : Option Value → Value → Value → Prop
  kept_merge : ∀ value merged again, merge value = some merged → Alike shape again merged →
    Kept (some entry) value again
  merge_again : ∀ value merged again, merge value = some merged → Alike shape again merged →
    ∃ twice, merge again = some twice ∧ Alike shape twice merged
  strip_kept : ∀ value again, Kept (some entry) value again →
    ∃ stripped, strip again = some stripped ∧
      ∀ final, Alike shape final stripped → Kept none value final

section

variable {Value : Type} (shape : Shape Value) (entry : Value)

/-- Two tables whose members are alike but for the one with a key. -/
def SameBut (key : String) (left right : List (String × Value)) : Prop :=
  ∀ other, other ≠ key → Matches (Alike shape) (left.lookup other) (right.lookup other)

variable {shape}

variable {key : String}

variable {right left : List (String × Value)}

theorem SameBut.of_set {value : Value} (matched : ∀ other, Matches (Alike shape) (left.lookup other)
      ((setField right key value).lookup other)) : SameBut shape key left right := by
  intro other different
  have here := matched other
  rw [lookup_setField, if_neg different] at here
  exact here

theorem alike_setField {one other : Value}
    (same : SameBut shape key left right) (alike : Alike shape one other) :
    Alike shape (shape.table (setField left key one)) (shape.table (setField right key other)) := by
  apply Alike.of_members
  intro wanted
  rw [lookup_setField, lookup_setField]
  by_cases here : wanted = key
  · rw [if_pos here, if_pos here]
    refine ⟨iff_of_false (Option.some_ne_none _) (Option.some_ne_none _), ?_⟩
    intro first second isFirst isSecond
    cases isFirst
    cases isSecond
    exact alike
  · rw [if_neg here, if_neg here]
    exact same wanted here

/-- What is alike to a table with a member that was set. -/
theorem alike_of_set {value member : Value}
    (alike : Alike shape value (shape.table (setField right key member))) :
    ∃ left held, value = shape.table left ∧ left.lookup key = some held ∧
      Alike shape held member ∧ SameBut shape key left right := by
  obtain ⟨left, same, matched⟩ := alike.of_table
  have here := matched key
  rw [lookup_setField, if_pos rfl] at here
  obtain ⟨held, present, close⟩ := here.some_left
  exact ⟨left, held, same, present, close, SameBut.of_set matched⟩

theorem SameBut.trans {first second third : List (String × Value)}
    (left : SameBut shape key first second) (right : SameBut shape key second third) :
    SameBut shape key first third := fun other different =>
  (left other different).trans (fun _ _ _ one two => one.trans two) (right other different)

variable (shape)

/-- The entry is the member of a table. -/
def memberEdit (key : String) : EntryEdit shape entry where
  merge value := (shape.table? value).map (fun members => shape.table (setField members key entry))
  strip value := (shape.table? value).map (fun members => shape.table (removeField members key))
  Kept held value after := ∃ members others, value = shape.table members ∧
    after = shape.table others ∧ SameBut shape key others members ∧
      Matches (Alike shape) (others.lookup key) held
  kept_merge value merged again done alike := by
    obtain ⟨members, read, rfl⟩ := Option.map_eq_some_iff.mp done
    obtain ⟨others, held, same, present, close, kept⟩ := alike_of_set alike
    refine ⟨members, others, (shape.table?_eq _ _).mp read, same, kept, ?_⟩
    rw [present]
    refine ⟨iff_of_false (Option.some_ne_none _) (Option.some_ne_none _), ?_⟩
    intro first second isFirst isSecond
    cases isFirst
    cases isSecond
    exact close
  merge_again value merged again done alike := by
    obtain ⟨members, _, rfl⟩ := Option.map_eq_some_iff.mp done
    obtain ⟨others, _, rfl, _, _, kept⟩ := alike_of_set alike
    rw [shape.table?_table]
    exact ⟨_, rfl, alike_setField kept (Alike.same entry)⟩
  strip_kept value again kept := by
    obtain ⟨members, others, read, rfl, same, _⟩ := kept
    rw [shape.table?_table]
    refine ⟨_, rfl, ?_⟩
    intro final alike
    obtain ⟨last, rfl, matched⟩ := alike.of_table
    have gone := matched key
    rw [lookup_removeField, if_pos rfl] at gone
    refine ⟨members, last, read, rfl, ?_, ?_⟩
    · intro other different
      have here := matched other
      rw [lookup_removeField, if_neg different] at here
      exact here.trans (fun _ _ _ one two => one.trans two) (same other different)
    · rw [gone.none_left]
      exact Matches.refl Alike.same none

section

variable {shape} {named : Value → Bool}

variable (items : List Value)

theorem filter_rest :
    (items.filter (fun item => !named item)).filter (fun item => !named item) =
      items.filter (fun item => !named item) := by
  rw [List.filter_filter]
  exact List.filter_congr (fun item _ => Bool.and_self _)

theorem filter_none_named : (items.filter (fun item => !named item)).filter named = [] := by
  rw [List.filter_eq_nil_iff]
  intro item member inside
  have outside := (List.mem_filter.mp member).2
  rw [inside] at outside
  cases outside

theorem filter_unnamed (found : named entry = true) :
    (items.filter (fun item => !named item) ++ [entry]).filter (fun item => !named item) =
      items.filter (fun item => !named item) := by
  have dropped : ¬ (!named entry) = true := by
    rw [found]
    exact Bool.false_ne_true
  rw [List.filter_append, filter_rest, List.filter_cons, if_neg dropped, List.filter_nil,
    List.append_nil]

theorem filter_named (found : named entry = true) :
    (items.filter (fun item => !named item) ++ [entry]).filter named = [entry] := by
  rw [List.filter_append, filter_none_named, List.filter_cons, if_pos found]
  rfl

variable {right left : List Value}

theorem filter_alike (respects : ∀ one other, Alike shape one other → named one = named other)
    (items : List.Forall₂ (Alike shape) left right) :
    List.Forall₂ (Alike shape) (left.filter named) (right.filter named) :=
  List.rel_filter (fun one other alike => Bool.eq_iff_iff.mp (respects one other alike)) items

/-- The items that a test does not find. -/
theorem filter_others_alike
    (respects : ∀ one other, Alike shape one other → named one = named other)
    (items : List.Forall₂ (Alike shape) left right) :
    List.Forall₂ (Alike shape) (left.filter (fun item => !named item))
      (right.filter (fun item => !named item)) :=
  filter_alike (fun one other close => congrArg not (respects one other close)) items

theorem alike_items_trans {first second third : List Value}
    (left : List.Forall₂ (Alike shape) first second)
    (right : List.Forall₂ (Alike shape) second third) : List.Forall₂ (Alike shape) first third := by
  induction left generalizing third with
  | nil => exact right
  | cons alike _ ih =>
      cases right with
      | cons next rest => exact List.Forall₂.cons (alike.trans next) (ih rest)

end

/-- The entry is an item of an array, the one that a test finds. -/
def itemEdit (named : Value → Bool) (found : named entry = true)
    (respects : ∀ one other, Alike shape one other → named one = named other) :
    EntryEdit shape entry where
  merge value := (shape.array? value).map (fun items =>
    shape.array (items.filter (fun item => !named item) ++ [entry]))
  strip value := (shape.array? value).map (fun items =>
    shape.array (items.filter (fun item => !named item)))
  Kept held value after := ∃ items others, value = shape.array items ∧
    after = shape.array others ∧
      List.Forall₂ (Alike shape) (others.filter (fun item => !named item))
        (items.filter (fun item => !named item)) ∧
      List.Forall₂ (Alike shape) (others.filter named) held.toList
  kept_merge value merged again done alike := by
    obtain ⟨items, read, rfl⟩ := Option.map_eq_some_iff.mp done
    obtain ⟨others, same, each⟩ := alike.of_array
    have unnamed := filter_others_alike respects each
    have entries := filter_alike respects each
    rw [filter_unnamed entry items found] at unnamed
    rw [filter_named entry items found] at entries
    exact ⟨items, others, (shape.array?_eq _ _).mp read, same, unnamed, entries⟩
  merge_again value merged again done alike := by
    obtain ⟨items, _, rfl⟩ := Option.map_eq_some_iff.mp done
    obtain ⟨others, rfl, each⟩ := alike.of_array
    have unnamed := filter_others_alike respects each
    rw [filter_unnamed entry items found] at unnamed
    rw [shape.array?_array]
    exact ⟨_, rfl, Alike.of_items (List.rel_append unnamed
      (List.Forall₂.cons (Alike.same entry) List.Forall₂.nil))⟩
  strip_kept value again kept := by
    obtain ⟨items, others, read, rfl, same, _⟩ := kept
    rw [shape.array?_array]
    refine ⟨_, rfl, ?_⟩
    intro final alike
    obtain ⟨last, rfl, each⟩ := alike.of_array
    have unnamed := filter_others_alike respects each
    have entries := filter_alike respects each
    rw [filter_rest] at unnamed
    rw [filter_none_named] at entries
    exact ⟨items, last, read, rfl, alike_items_trans unnamed same, entries⟩

/-- An edit of one member of a table; the member is put there where it is absent. -/
def EntryEdit.within {shape : Shape Value} {entry : Value} (inner : EntryEdit shape entry)
    (container : String) (empty : Value) : EntryEdit shape entry where
  merge value := (shape.table? value).bind (fun root =>
    (inner.merge ((root.lookup container).getD empty)).map (fun merged =>
      shape.table (setField root container merged)))
  strip value := (shape.table? value).bind (fun root =>
    ((root.lookup container).bind inner.strip).map (fun stripped =>
      shape.table (setField root container stripped)))
  Kept held value after := ∃ root others member, value = shape.table root ∧
    after = shape.table others ∧ others.lookup container = some member ∧
      SameBut shape container others root ∧
        inner.Kept held ((root.lookup container).getD empty) member
  kept_merge value merged again done alike := by
    obtain ⟨root, read, done⟩ := Option.bind_eq_some_iff.mp done
    obtain ⟨member, edited, rfl⟩ := Option.map_eq_some_iff.mp done
    obtain ⟨others, held, same, present, close, kept⟩ := alike_of_set alike
    exact ⟨root, others, held, (shape.table?_eq _ _).mp read, same, present, kept,
      inner.kept_merge _ _ _ edited close⟩
  merge_again value merged again done alike := by
    obtain ⟨root, _, done⟩ := Option.bind_eq_some_iff.mp done
    obtain ⟨member, edited, rfl⟩ := Option.map_eq_some_iff.mp done
    obtain ⟨others, held, rfl, present, close, kept⟩ := alike_of_set alike
    obtain ⟨twice, done, near⟩ := inner.merge_again _ _ _ edited close
    rw [shape.table?_table, Option.bind_some, present, Option.getD_some, done]
    exact ⟨_, rfl, alike_setField kept near⟩
  strip_kept value again kept := by
    obtain ⟨root, others, member, read, rfl, present, same, inside⟩ := kept
    obtain ⟨stripped, done, each⟩ := inner.strip_kept _ _ inside
    rw [shape.table?_table, Option.bind_some, present, Option.bind_some, done]
    refine ⟨_, rfl, ?_⟩
    intro final alike
    obtain ⟨last, held, rfl, found, close, kept⟩ := alike_of_set alike
    exact ⟨root, last, held, read, rfl, found, kept.trans same, each held close⟩

theorem EntryEdit.within_merge {shape : Shape Value} {entry : Value}
    {inner : EntryEdit shape entry} {container : String} {empty value merged : Value} :
    (inner.within container empty).merge value = some merged ↔
      ∃ root member, shape.table? value = some root ∧
        inner.merge ((root.lookup container).getD empty) = some member ∧
          shape.table (setField root container member) = merged := by
  constructor
  · intro done
    obtain ⟨root, read, rest⟩ := Option.bind_eq_some_iff.mp done
    obtain ⟨member, edited, same⟩ := Option.map_eq_some_iff.mp rest
    exact ⟨root, member, read, edited, same⟩
  · intro found
    obtain ⟨root, member, read, edited, same⟩ := found
    exact Option.bind_eq_some_iff.mpr ⟨root, read, Option.map_eq_some_iff.mpr ⟨member, edited, same⟩⟩

end

end Mneme.Cli.Platforms
