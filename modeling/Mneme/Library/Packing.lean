/-
Greedy packing of sized items that stops when the capacity is used up.

An item that does not fit is passed over, and the turns end with the item that
fills the capacity.  Of the items that get no turn, those of size 0 would have
fitted.  The items packed are those that fit first, one after another: several
orders of the same items pack alike exactly when, behind whatever has been
packed, they agree on the item that is next.
-/

import Mathlib.Algebra.BigOperators.Group.List.Basic
import Mathlib.Algebra.GroupWithZero.Nat
import Mathlib.Data.List.Induction
import Mathlib.Data.List.Nodup

namespace Mneme.Library.Packing

section Keeping

variable {Item : Type} (size : Item → Nat) (capacity : Nat)

/-- The items packed, from an amount used before. -/
def kept : Nat → List Item → List Item
  | _, [] => []
  | used, item :: rest =>
      if capacity < used + size item then kept used rest
      else if capacity ≤ used + size item then [item]
      else item :: kept (used + size item) rest

/-- The turns, each an item with the amount used before it. -/
def turns : Nat → List Item → List (Nat × Item)
  | _, [] => []
  | used, item :: rest =>
      if capacity < used + size item then (used, item) :: turns used rest
      else if capacity ≤ used + size item then [(used, item)]
      else (used, item) :: turns (used + size item) rest

/-- The items without a turn. -/
def unseen : Nat → List Item → List Item
  | _, [] => []
  | used, item :: rest =>
      if capacity < used + size item then unseen used rest
      else if capacity ≤ used + size item then rest
      else unseen (used + size item) rest

def total (items : List Item) : Nat :=
  (items.map size).sum

theorem total_cons (item : Item) (items : List Item) :
    total size (item :: items) = size item + total size items :=
  List.sum_cons

section Steps

variable {size capacity} {used : Nat} {item : Item} {rest : List Item}

theorem kept_of_beyond (beyond : capacity < used + size item) :
    kept size capacity used (item :: rest) = kept size capacity used rest := if_pos beyond

theorem kept_of_full (full : used + size item = capacity) :
    kept size capacity used (item :: rest) = [item] := by
  rw [kept, if_neg (by omega), if_pos (by omega)]

theorem kept_of_room (room : used + size item < capacity) :
    kept size capacity used (item :: rest) = item :: kept size capacity (used + size item) rest := by
  rw [kept, if_neg (by omega), if_neg (by omega)]

theorem unseen_of_beyond (beyond : capacity < used + size item) :
    unseen size capacity used (item :: rest) = unseen size capacity used rest := if_pos beyond

theorem unseen_of_full (full : used + size item = capacity) :
    unseen size capacity used (item :: rest) = rest := by
  rw [unseen, if_neg (by omega), if_pos (by omega)]

theorem unseen_of_room (room : used + size item < capacity) :
    unseen size capacity used (item :: rest) = unseen size capacity (used + size item) rest := by
  rw [unseen, if_neg (by omega), if_neg (by omega)]

variable {turn : Nat × Item}

theorem mem_turns_of_beyond (beyond : capacity < used + size item) :
    turn ∈ turns size capacity used (item :: rest) ↔
      turn = (used, item) ∨ turn ∈ turns size capacity used rest := by
  rw [turns, if_pos beyond, List.mem_cons]

theorem mem_turns_of_full (full : used + size item = capacity) :
    turn ∈ turns size capacity used (item :: rest) ↔ turn = (used, item) := by
  rw [turns, if_neg (by omega), if_pos (by omega), List.mem_singleton]

theorem mem_turns_of_room (room : used + size item < capacity) :
    turn ∈ turns size capacity used (item :: rest) ↔
      turn = (used, item) ∨ turn ∈ turns size capacity (used + size item) rest := by
  rw [turns, if_neg (by omega), if_neg (by omega), List.mem_cons]

theorem first_turn : (used, item) ∈ turns size capacity used (item :: rest) := by
  rcases Nat.lt_trichotomy (used + size item) capacity with room | full | beyond
  · exact (mem_turns_of_room room).mpr (Or.inl rfl)
  · exact (mem_turns_of_full full).mpr rfl
  · exact (mem_turns_of_beyond beyond).mpr (Or.inl rfl)

end Steps

theorem kept_sublist (used : Nat) (items : List Item) :
    (kept size capacity used items).Sublist items := by
  induction items generalizing used with
  | nil => exact List.nil_sublist []
  | cons item rest ih =>
      rcases Nat.lt_trichotomy (used + size item) capacity with room | full | beyond
      · rw [kept_of_room room]
        exact (ih _).cons_cons item
      · rw [kept_of_full full]
        exact (List.nil_sublist rest).cons_cons item
      · rw [kept_of_beyond beyond]
        exact (ih used).cons item

variable {used : Nat}

theorem kept_total_le (within : used ≤ capacity) (items : List Item) :
    used + total size (kept size capacity used items) ≤ capacity := by
  induction items generalizing used with
  | nil => exact within
  | cons item rest ih =>
      rcases Nat.lt_trichotomy (used + size item) capacity with room | full | beyond
      · rw [kept_of_room room, total_cons]
        have below := ih (Nat.le_of_lt room)
        omega
      · rw [kept_of_full full, total_cons]
        exact Nat.le_of_eq full
      · rw [kept_of_beyond beyond]
        exact ih within

/-- Sizes of keys pack the keys. -/
theorem map_kept {Key : Type} (keySize : Key → Nat) (keyOf : Item → Key) (used : Nat)
    (items : List Item) :
    (kept (fun item => keySize (keyOf item)) capacity used items).map keyOf =
      kept keySize capacity used (items.map keyOf) := by
  induction items generalizing used with
  | nil => rfl
  | cons item rest ih =>
      rw [List.map_cons]
      rcases Nat.lt_trichotomy (used + keySize (keyOf item)) capacity with room | full | beyond
      · rw [kept_of_room room,
          @kept_of_room _ (fun item => keySize (keyOf item)) capacity used item rest room,
          List.map_cons, ih]
      · rw [kept_of_full full,
          @kept_of_full _ (fun item => keySize (keyOf item)) capacity used item rest full]
        rfl
      · rw [kept_of_beyond beyond,
          @kept_of_beyond _ (fun item => keySize (keyOf item)) capacity used item rest beyond, ih]

variable {items rest packed : List Item}

/-- A turn is one of an item, and what was used before is within the capacity. -/
theorem turns_within (within : used ≤ capacity) {turn : Nat × Item}
    (member : turn ∈ turns size capacity used items) : turn.1 ≤ capacity ∧ turn.2 ∈ items := by
  induction items generalizing used with
  | nil => cases member
  | cons item rest ih =>
      have later : ∀ {used}, used ≤ capacity → turn ∈ turns size capacity used rest →
          turn.1 ≤ capacity ∧ turn.2 ∈ item :: rest := by
        intro used within inside
        obtain ⟨bounded, held⟩ := ih within inside
        exact ⟨bounded, List.mem_cons_of_mem _ held⟩
      have here : turn = (used, item) → turn.1 ≤ capacity ∧ turn.2 ∈ item :: rest := by
        intro first
        rw [first]
        exact ⟨within, List.mem_cons_self⟩
      rcases Nat.lt_trichotomy (used + size item) capacity with room | full | beyond
      · exact ((mem_turns_of_room room).mp member).elim here (later (Nat.le_of_lt room))
      · exact here ((mem_turns_of_full full).mp member)
      · exact ((mem_turns_of_beyond beyond).mp member).elim here (later within)

/-! ### What is left out -/

variable {Key : Type} [DecidableEq Key] (key : Item → Key)

/-- The items of some others, by their keys. -/
def among (packed items : List Item) : List Item :=
  items.filter (fun item => key item ∈ packed.map key)

/-- No item left out would have fitted behind the items packed before it. -/
def LeavesNoRoom (used : Nat) (items packed : List Item) : Prop :=
  ∀ front item back, items = front ++ item :: back → key item ∉ packed.map key →
    capacity < used + total size (among key packed front) + size item

variable {key}

theorem leavesNoRoom_nil (used : Nat) (packed : List Item) :
    LeavesNoRoom size capacity key used [] packed := by
  intro front item back split
  cases front with
  | nil => cases split
  | cons head rest => cases split

/-- An item left out must not fit, and the others leave no room either. -/
theorem leavesNoRoom_skip {item : Item} (out : key item ∉ packed.map key) :
    LeavesNoRoom size capacity key used (item :: rest) packed ↔
      capacity < used + size item ∧ LeavesNoRoom size capacity key used rest packed := by
  have skips : ∀ front, among key packed (item :: front) = among key packed front := by
    intro front
    exact List.filter_cons_of_neg (fun inside => out (of_decide_eq_true inside))
  constructor
  · intro leaves
    refine ⟨leaves [] item rest rfl out, ?_⟩
    intro front other back split left
    have behind := leaves (item :: front) other back (congrArg (List.cons item) split) left
    rw [skips] at behind
    exact behind
  · intro both front other back split left
    cases front with
    | nil =>
        cases split
        exact both.1
    | cons head front =>
        cases split
        rw [skips]
        exact both.2 front other back rfl left

/-- An item packed counts for the others. -/
theorem leavesNoRoom_take {item : Item} (inside : key item ∈ packed.map key) :
    LeavesNoRoom size capacity key used (item :: rest) packed ↔
      LeavesNoRoom size capacity key (used + size item) rest packed := by
  have takes : ∀ front, among key packed (item :: front) = item :: among key packed front := by
    intro front
    exact List.filter_cons_of_pos (decide_eq_true inside)
  constructor
  · intro leaves front other back split left
    have behind := leaves (item :: front) other back (congrArg (List.cons item) split) left
    rw [takes, total_cons, ← Nat.add_assoc] at behind
    exact behind
  · intro leaves front other back split left
    cases front with
    | nil =>
        cases split
        exact absurd inside left
    | cons head front =>
        cases split
        rw [takes, total_cons, ← Nat.add_assoc]
        exact leaves front other back rfl left

/-- Only the keys of the items packed matter that some item has. -/
theorem leavesNoRoom_congr {others : List Item}
    (same : ∀ item ∈ items, key item ∈ packed.map key ↔ key item ∈ others.map key) :
    LeavesNoRoom size capacity key used items packed ↔
      LeavesNoRoom size capacity key used items others := by
  induction items generalizing used with
  | nil => exact iff_of_true (leavesNoRoom_nil _ _ _ _) (leavesNoRoom_nil _ _ _ _)
  | cons item rest ih =>
      have later := fun used => @ih used (fun other member => same other (List.mem_cons_of_mem _ member))
      by_cases inside : key item ∈ packed.map key
      · rw [leavesNoRoom_take size capacity inside, later,
          leavesNoRoom_take size capacity ((same item List.mem_cons_self).mp inside)]
      · have alsoOut := fun held => inside ((same item List.mem_cons_self).mpr held)
        rw [leavesNoRoom_skip size capacity inside, later, leavesNoRoom_skip size capacity alsoOut]

/-- When nothing more fits, only items of size 0 would have. -/
theorem leavesNoRoom_full (out : ∀ item ∈ items, key item ∉ packed.map key) :
    LeavesNoRoom size capacity key capacity items packed ↔ ∀ item ∈ items, size item ≠ 0 := by
  induction items with
  | nil =>
      apply iff_of_true (leavesNoRoom_nil _ _ _ _)
      intro item member
      cases member
  | cons item rest ih =>
      rw [leavesNoRoom_skip size capacity (out item List.mem_cons_self),
        ih (fun other member => out other (List.mem_cons_of_mem _ member)), List.forall_mem_cons]
      apply and_congr_left
      intro _
      omega

/-- The packing leaves no room exactly when every item without a turn has a
size. -/
theorem kept_leavesNoRoom_iff (distinct : (items.map key).Nodup) :
    LeavesNoRoom size capacity key used items (kept size capacity used items) ↔
      ∀ item ∈ unseen size capacity used items, size item ≠ 0 := by
  induction items generalizing used with
  | nil =>
      apply iff_of_true (leavesNoRoom_nil _ _ _ _)
      intro item member
      cases member
  | cons item rest ih =>
      obtain ⟨own, others⟩ := List.nodup_cons.mp distinct
      have apart : ∀ other ∈ rest, key other ≠ key item := by
        intro other member same
        exact own (same ▸ List.mem_map_of_mem member)
      rcases Nat.lt_trichotomy (used + size item) capacity with room | full | beyond
      · have sameRest : ∀ other ∈ rest,
            (key other ∈ (item :: kept size capacity (used + size item) rest).map key ↔
              key other ∈ (kept size capacity (used + size item) rest).map key) := by
          intro other member
          rw [List.map_cons, List.mem_cons]
          exact or_iff_right (apart other member)
        rw [kept_of_room room, unseen_of_room room,
          leavesNoRoom_take size capacity (List.mem_cons_self), leavesNoRoom_congr _ _ sameRest,
          ih others]
      · have left : ∀ other ∈ rest, key other ∉ [item].map key := by
          intro other member inside
          exact apart other member (List.mem_singleton.mp inside)
        rw [kept_of_full full, unseen_of_full full,
          leavesNoRoom_take size capacity (List.mem_singleton_self _), full,
          leavesNoRoom_full size capacity left]
      · have out : key item ∉ (kept size capacity used rest).map key := by
          intro inside
          obtain ⟨other, packed, same⟩ := List.mem_map.mp inside
          exact apart other ((kept_sublist size capacity used rest).subset packed) same
        rw [kept_of_beyond beyond, unseen_of_beyond beyond, leavesNoRoom_skip size capacity out, ih others]
        exact and_iff_right beyond

end Keeping

/-! ### The first fit -/

section FirstFit

variable {Item : Type} [DecidableEq Item] (size : Item → Nat) (capacity : Nat)

/-- An item that is not packed yet and fits. -/
def Fits (held : List Item) (item : Item) : Prop :=
  item ∉ held ∧ total size held + size item ≤ capacity

instance (held : List Item) (item : Item) : Decidable (Fits size capacity held item) :=
  inferInstanceAs (Decidable (_ ∧ _))

def firstFit (items held : List Item) : Option Item :=
  items.find? (fun item => decide (Fits size capacity held item))

/-- Packing goes on: nothing is packed, or the capacity is not used up. -/
def Open (held : List Item) : Prop :=
  held = [] ∨ total size held < capacity

section

variable {size capacity}

omit [DecidableEq Item] in
theorem total_append (front back : List Item) :
    total size (front ++ back) = total size front + total size back := by
  unfold total
  rw [List.map_append, List.sum_append]

variable {item : Item} {held items : List Item}

theorem firstFit_skip (out : ¬ Fits size capacity held item) :
    firstFit size capacity (item :: items) held = firstFit size capacity items held :=
  List.find?_cons_of_neg (fun fits => out (of_decide_eq_true fits))

theorem firstFit_take (fits : Fits size capacity held item) :
    firstFit size capacity (item :: items) held = some item :=
  List.find?_cons_of_pos (decide_eq_true fits)

variable {held items : List Item}

theorem firstFit_fits (first : firstFit size capacity items held = some item) :
    item ∈ items ∧ Fits size capacity held item :=
  ⟨List.mem_of_find?_eq_some first,
    of_decide_eq_true (@List.find?_some _ (fun item => decide (Fits size capacity held item)) _ _ first)⟩

theorem exists_firstFit (member : item ∈ items)
    (fits : Fits size capacity held item) : ∃ first, firstFit size capacity items held = some first := by
  cases found : firstFit size capacity items held with
  | some first => exact ⟨first, rfl⟩
  | none => exact absurd (decide_eq_true fits) (List.find?_eq_none.mp found item member)

omit [DecidableEq Item] in
/-- After an item that fills the capacity nothing goes on. -/
theorem not_open_of_full (back : List Item) (full : total size held + size item = capacity) :
    ¬ Open size capacity (held ++ item :: back) := by
  intro goesOn
  rcases goesOn with nothing | below
  · exact absurd nothing (List.append_ne_nil_of_right_ne_nil _ (List.cons_ne_nil _ _))
  · rw [total_append, total_cons] at below
    omega

/-- What is packed behind some items is the first fit, again and again. -/
theorem prefix_kept_iff (goesOn : Open size capacity held)
    (within : total size held ≤ capacity) (distinct : items.Nodup)
    (apart : ∀ item ∈ items, item ∉ held) (packed : List Item) (next : Item) :
    packed ++ [next] <+: kept size capacity (total size held) items ↔
      packed <+: kept size capacity (total size held) items ∧
        Open size capacity (held ++ packed) ∧
          firstFit size capacity items (held ++ packed) = some next := by
  induction items generalizing held packed with
  | nil =>
      constructor
      · intro longer
        exact absurd (List.prefix_nil.mp longer)
          (List.append_ne_nil_of_right_ne_nil _ (List.cons_ne_nil _ _))
      · intro both
        cases both.2.2
  | cons item rest ih =>
      obtain ⟨fresh, distinctRest⟩ := List.nodup_cons.mp distinct
      have apartRest := fun other member => apart other (List.mem_cons_of_mem _ member)
      have apartItem := apart item List.mem_cons_self
      rcases Nat.lt_trichotomy (total size held + size item) capacity with room | full | beyond
      · rw [kept_of_room room]
        have fits : Fits size capacity held item := ⟨apartItem, Nat.le_of_lt room⟩
        have more : total size (held ++ [item]) = total size held + size item := by
          rw [total_append, total_cons]
          rfl
        cases packed with
        | nil =>
            rw [List.append_nil, List.nil_append, firstFit_take fits, Option.some.injEq,
              List.prefix_cons_iff]
            constructor
            · intro one
              obtain ⟨back, split, _⟩ := one.resolve_left (List.cons_ne_nil _ _)
              exact ⟨List.nil_prefix, goesOn, (List.cons.inj split).1.symm⟩
            · intro both
              rw [both.2.2]
              exact Or.inr ⟨[], rfl, List.nil_prefix⟩
        | cons first packed =>
            rw [List.cons_append, List.cons_prefix_cons, List.cons_prefix_cons, and_assoc]
            apply and_congr_right
            intro same
            subst same
            have inside : ¬ Fits size capacity (held ++ first :: packed) first := fun fits =>
              fits.1 (List.mem_append_right _ List.mem_cons_self)
            have later := @ih (held ++ [first]) (Or.inr (by rw [more]; exact room))
              (by rw [more]; exact Nat.le_of_lt room) distinctRest (by
                intro other member inside
                rcases List.mem_append.mp inside with old | new
                · exact apartRest other member old
                · rw [List.mem_singleton.mp new] at member
                  exact fresh member) packed
            rw [more, List.append_assoc, List.singleton_append] at later
            rw [firstFit_skip inside]
            exact later
      · rw [kept_of_full full]
        have fits : Fits size capacity held item := ⟨apartItem, Nat.le_of_eq full⟩
        cases packed with
        | nil =>
            rw [List.append_nil, List.nil_append, firstFit_take fits, Option.some.injEq,
              List.prefix_cons_iff]
            constructor
            · intro one
              obtain ⟨back, split, _⟩ := one.resolve_left (List.cons_ne_nil _ _)
              exact ⟨List.nil_prefix, goesOn, (List.cons.inj split).1.symm⟩
            · intro both
              rw [both.2.2]
              exact Or.inr ⟨[], rfl, List.nil_prefix⟩
        | cons first packed =>
            rw [List.cons_append, List.cons_prefix_cons, List.cons_prefix_cons, and_assoc]
            apply and_congr_right
            intro same
            subst same
            constructor
            · intro longer
              exact absurd (List.prefix_nil.mp longer)
                (List.append_ne_nil_of_right_ne_nil _ (List.cons_ne_nil _ _))
            · intro both
              exact absurd both.2.1 (not_open_of_full packed full)
      · rw [kept_of_beyond beyond]
        have out : ¬ Fits size capacity (held ++ packed) item := by
          intro fits
          have sum := fits.2
          rw [total_append] at sum
          omega
        rw [firstFit_skip out]
        exact ih goesOn within distinctRest apartRest packed

end

/-! ### Several orders -/

section Orders

variable {Order : Type} (lists : Order → List Item)

/-- What the orders can have packed at some point, each item the next one of
some order. -/
inductive Reached : List Item → Prop where
  | nothing : Reached []
  | next {held : List Item} {item : Item} (order : Order) (reached : Reached held)
      (goesOn : Open size capacity held)
      (first : firstFit size capacity (lists order) held = some item) : Reached (held ++ [item])

/-- Wherever packing goes on, the orders agree on the next item. -/
def Agree : Prop :=
  ∀ held, Reached size capacity lists held → Open size capacity held →
    ∀ left right item other, firstFit size capacity (lists left) held = some item →
      firstFit size capacity (lists right) held = some other → item = other

variable {size capacity lists}

theorem prefix_kept_of_nil {order : Order} (distinct : (lists order).Nodup) (packed : List Item)
    (next : Item) :
    packed ++ [next] <+: kept size capacity 0 (lists order) ↔
      packed <+: kept size capacity 0 (lists order) ∧ Open size capacity packed ∧
        firstFit size capacity (lists order) packed = some next :=
  @prefix_kept_iff _ _ size capacity [] _ (Or.inl rfl) (Nat.zero_le _) distinct
    (fun _ _ inside => List.not_mem_nil inside) packed next

/-- Orders that agree pack a prefix of what any other packs. -/
theorem Agree.prefix_of_prefix (agree : Agree size capacity lists)
    (distinct : ∀ order, (lists order).Nodup)
    (same : ∀ left right, (lists left).Perm (lists right)) (left right : Order)
    (packed : List Item) :
    packed <+: kept size capacity 0 (lists left) →
      Reached size capacity lists packed ∧ packed <+: kept size capacity 0 (lists right) := by
  induction packed using List.reverseRecOn with
  | nil => exact fun _ => ⟨Reached.nothing, List.nil_prefix⟩
  | append_singleton packed next ih =>
      intro longer
      obtain ⟨shorter, goesOn, first⟩ := (prefix_kept_of_nil (distinct left) packed next).mp longer
      obtain ⟨reached, alsoShorter⟩ := ih shorter
      obtain ⟨inside, fits⟩ := firstFit_fits first
      obtain ⟨other, otherFirst⟩ := exists_firstFit ((same left right).subset inside) fits
      have equal := agree packed reached goesOn left right next other first otherFirst
      rw [← equal] at otherFirst
      exact ⟨Reached.next left reached goesOn first,
        (prefix_kept_of_nil (distinct right) packed next).mpr ⟨alsoShorter, goesOn, otherFirst⟩⟩

/-- All orders pack the same items one after the other exactly when they agree
on each next item. -/
theorem kept_eq_iff_agree (distinct : ∀ order, (lists order).Nodup)
    (same : ∀ left right, (lists left).Perm (lists right)) :
    (∀ left right, kept size capacity 0 (lists left) = kept size capacity 0 (lists right)) ↔
      Agree size capacity lists := by
  constructor
  · intro equal held reached
    have inAll : ∀ order, held <+: kept size capacity 0 (lists order) := by
      induction reached with
      | nothing => exact fun _ => List.nil_prefix
      | next order _ goesOn first ih =>
          intro other
          rw [equal other order]
          exact (prefix_kept_of_nil (distinct order) _ _).mpr ⟨ih order, goesOn, first⟩
    intro goesOn left right item other first otherFirst
    have longer := (prefix_kept_of_nil (distinct left) held item).mpr ⟨inAll left, goesOn, first⟩
    have alsoLonger :=
      (prefix_kept_of_nil (distinct right) held other).mpr ⟨inAll right, goesOn, otherFirst⟩
    rw [equal right left] at alsoLonger
    have sameLength : (held ++ [item]).length = (held ++ [other]).length := by
      rw [List.length_append, List.length_append]
      rfl
    have both := List.prefix_of_prefix_length_le longer alsoLonger (Nat.le_of_eq sameLength)
    have ends := List.append_cancel_left (both.eq_of_length sameLength)
    exact (List.cons.inj ends).1
  · intro agree left right
    have there := (agree.prefix_of_prefix distinct same left right _ (List.prefix_refl _)).2
    have back := (agree.prefix_of_prefix distinct same right left _ (List.prefix_refl _)).2
    exact there.eq_of_length (Nat.le_antisymm there.length_le back.length_le)

end Orders

end FirstFit

end Mneme.Library.Packing
