/-
Disjoint parts, and what becomes of them when each is replaced by parts of its own.
-/

import Mathlib.Data.List.Sort

namespace Mneme.Library

variable {Part Item : Type} {parts : List Part} {old new : Part → List Item}

/-- Each part is replaced by some of its items. -/
def RefinesEach (parts : List Part) (old new : Part → List Item) : Prop :=
  ∀ part ∈ parts, (new part).Nodup ∧ ∀ item ∈ new part, item ∈ old part

theorem RefinesEach.subset (refines : RefinesEach parts old new) {item : Item}
    (member : item ∈ parts.flatMap new) : item ∈ parts.flatMap old := by
  obtain ⟨part, inside, among⟩ := List.mem_flatMap.mp member
  exact List.mem_flatMap.mpr ⟨part, inside, (refines part inside).2 item among⟩

theorem RefinesEach.nodup (refines : RefinesEach parts old new)
    (distinct : (parts.flatMap old).Nodup) : (parts.flatMap new).Nodup := by
  rw [List.nodup_flatMap] at distinct ⊢
  refine ⟨fun part inside => (refines part inside).1, ?_⟩
  refine List.Pairwise.imp_of_mem ?_ distinct.2
  intro first second inFirst inSecond disjoint item left right
  exact disjoint ((refines first inFirst).2 item left) ((refines second inSecond).2 item right)

/-- Nothing is lost exactly when no part loses anything. -/
theorem RefinesEach.covers_iff (refines : RefinesEach parts old new)
    (distinct : (parts.flatMap old).Nodup) :
    (∀ item ∈ parts.flatMap old, item ∈ parts.flatMap new) ↔
      ∀ part ∈ parts, ∀ item ∈ old part, item ∈ new part := by
  constructor
  · induction parts with
    | nil =>
        intro _ part inside
        cases inside
    | cons first rest ih =>
        intro covers part inside item member
        rw [List.flatMap_cons, List.nodup_append] at distinct
        have later : RefinesEach rest old new :=
          fun other among => refines other (List.mem_cons_of_mem _ among)
        rcases List.mem_cons.mp inside with rfl | among
        · have kept := covers item (List.mem_flatMap.mpr ⟨part, List.mem_cons_self, member⟩)
          rw [List.flatMap_cons, List.mem_append] at kept
          refine kept.resolve_right ?_
          intro elsewhere
          exact distinct.2.2 item member item (later.subset elsewhere) rfl
        · refine ih later distinct.2.1 ?_ part among item member
          intro other inRest
          have kept := covers other (by
            rw [List.flatMap_cons]
            exact List.mem_append_right _ inRest)
          rw [List.flatMap_cons, List.mem_append] at kept
          refine kept.resolve_left ?_
          intro here
          exact distinct.2.2 other ((refines first List.mem_cons_self).2 other here) other inRest rfl
  · intro each item member
    obtain ⟨part, inside, among⟩ := List.mem_flatMap.mp member
    exact List.mem_flatMap.mpr ⟨part, inside, each part inside item among⟩

end Mneme.Library
