/-
Queues that serve the least item first.  Some of the items that wait are live, the others
are leftovers; a queue is in turn when each item ahead of a live one is live and no greater.
-/

import Mathlib.Order.Basic
import Mathlib.Data.List.Basic

namespace Mneme.Library

variable {Item : Type} [PartialOrder Item]

/-- The first item may stand ahead of the second. -/
def InTurn (live : Item → Prop) (first second : Item) : Prop :=
  live second → live first ∧ first ≤ second

instance [DecidableLE Item] (live : Item → Prop) [DecidablePred live] (first second : Item) :
    Decidable (InTurn live first second) :=
  inferInstanceAs (Decidable (_ → _))

/-- When a live item waits, the item at the front is live, and the least of those. -/
def LeastFirst (live : Item → Prop) (queue : List Item) : Prop :=
  ∀ other, other ∈ queue → live other →
    ∃ first, queue.head? = some first ∧ live first ∧ first ≤ other

section Turns

variable {live : Item → Prop} {queue : List Item}

theorem leastFirst_cons_iff (head : Item) (tail : List Item) :
    LeastFirst live (head :: tail) ↔ ∀ other, other ∈ tail → InTurn live head other := by
  constructor
  · intro least other member alive
    obtain ⟨first, same, bound⟩ := least other (.tail _ member) alive
    cases same
    exact bound
  · intro turns other member alive
    refine ⟨head, rfl, ?_⟩
    rcases List.mem_cons.mp member with same | later
    · rw [same] at alive ⊢
      exact ⟨alive, le_refl _⟩
    · exact turns other later alive

/-- A queue is in turn exactly when it serves the least first however far it is drained. -/
theorem leastFirst_drop_iff :
    (∀ count, LeastFirst live (queue.drop count)) ↔ queue.Pairwise (InTurn live) := by
  induction queue with
  | nil =>
      constructor
      · intro _
        exact .nil
      · intro _ count other member
        rw [List.drop_nil] at member
        cases member
  | cons head tail ih =>
      rw [List.pairwise_cons, ← ih, ← leastFirst_cons_iff]
      constructor
      · intro all
        exact ⟨all 0, fun count => all (count + 1)⟩
      · intro both count
        cases count with
        | zero => exact both.1
        | succ count => exact both.2 count

theorem pairwise_inTurn_congr {other : Item → Prop} (same : ∀ item, live item ↔ other item) :
    queue.Pairwise (InTurn live) ↔ queue.Pairwise (InTurn other) := by
  apply List.Pairwise.iff
  intro first second
  unfold InTurn
  rw [same first, same second]

/-- One item comes to the front. -/
theorem pairwise_front_iff (ordered : queue.Pairwise (InTurn live)) {item : Item}
    (alive : live item) :
    (item :: queue).Pairwise (InTurn live) ↔
      ∀ other, other ∈ queue → live other → item ≤ other := by
  rw [List.pairwise_cons]
  constructor
  · intro both other member otherAlive
    exact (both.1 other member otherAlive).2
  · intro least
    exact ⟨fun other member otherAlive => ⟨alive, least other member otherAlive⟩, ordered⟩

/-- A live item becomes a leftover. -/
theorem pairwise_retire_iff (ordered : queue.Pairwise (InTurn live)) (gone : Item) :
    queue.Pairwise (InTurn (fun item => item ≠ gone ∧ live item)) ↔
      (live gone → gone ∈ queue → ∀ other, other ∈ queue → live other → other ≤ gone) := by
  constructor
  · intro turns alive member other otherIn otherAlive
    by_cases same : other = gone
    · rw [same]
    · obtain ⟨front, back, split⟩ := List.append_of_mem member
      rw [split, List.pairwise_append, List.pairwise_cons] at turns ordered
      rw [split] at otherIn
      rcases List.mem_append.mp otherIn with before | after
      · exact (ordered.2.2 other before gone (.head _) alive).2
      · rcases List.mem_cons.mp after with here | behind
        · exact absurd here same
        · exact absurd rfl (turns.2.1.1 other behind ⟨same, otherAlive⟩).1.1
  · intro last
    apply List.Pairwise.imp_of_mem _ ordered
    intro first second firstIn secondIn turn alive
    obtain ⟨firstAlive, below⟩ := turn alive.2
    refine ⟨⟨?_, firstAlive⟩, below⟩
    intro same
    rw [same] at firstAlive firstIn below
    exact alive.1 (le_antisymm (last firstAlive firstIn second secondIn alive.2) below)

/-- Items in ascending order come to the end, and are live from then on. -/
theorem pairwise_enter_iff (ordered : queue.Pairwise (InTurn live)) {new : List Item}
    (ascending : new.Pairwise (fun first second => first ≤ second)) :
    (queue ++ new).Pairwise (InTurn (fun item => item ∈ new ∨ live item)) ↔
      ∀ item, item ∈ new → ∀ other, other ∈ queue → (other ∈ new ∨ live other) ∧ other ≤ item := by
  rw [List.pairwise_append]
  constructor
  · intro parts item member other waiting
    exact parts.2.2 other waiting item member (Or.inl member)
  · intro enters
    refine ⟨?_, ?_, fun other waiting item member _ => enters item member other waiting⟩
    · apply List.Pairwise.imp_of_mem _ ordered
      intro first second firstIn secondIn turn alive
      by_cases here : second ∈ new
      · exact enters second here first firstIn
      · obtain ⟨firstAlive, below⟩ := turn (alive.resolve_left here)
        exact ⟨Or.inr firstAlive, below⟩
    · apply List.Pairwise.imp_of_mem _ ascending
      intro first second firstIn secondIn below _
      exact ⟨Or.inl firstIn, below⟩

end Turns

end Mneme.Library
