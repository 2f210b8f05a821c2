/-
Labellings of the vertices of a graph whose classes are connected, and what
moving one vertex does to them.
-/

import Mathlib.Combinatorics.SimpleGraph.Connectivity.Subgraph

namespace Mneme.Library

variable {Vertex Label : Type} {graph : SimpleGraph Vertex}

def classOf (labels : Vertex → Label) (label : Label) : Set Vertex :=
  {vertex | labels vertex = label}

/-- Every class of the labelling induces a connected subgraph; a class without
vertices counts as connected. -/
def ClassesConnected (graph : SimpleGraph Vertex) (labels : Vertex → Label) : Prop :=
  ∀ label, (graph.induce (classOf labels label)).Preconnected

theorem preconnected_of_subsingleton {vertices : Set Vertex} (single : vertices.Subsingleton) :
    (graph.induce vertices).Preconnected := by
  rintro ⟨first, inFirst⟩ ⟨second, inSecond⟩
  have same := single inFirst inSecond
  subst same
  exact SimpleGraph.Reachable.refl _

variable {labels : Vertex → Label}

theorem classesConnected_of_injective
    (injective : Function.Injective labels) : ClassesConnected graph labels := by
  intro label
  apply preconnected_of_subsingleton
  intro first inFirst second inSecond
  exact injective (inFirst.trans inSecond.symm)

/-- Only which vertices share a label matters. -/
theorem ClassesConnected.relabel {Other : Type} {others : Vertex → Other}
    (connected : ClassesConnected graph labels)
    (same : ∀ first second, labels first = labels second ↔ others first = others second) :
    ClassesConnected graph others := by
  intro label
  by_cases inhabited : ∃ vertex, others vertex = label
  · obtain ⟨vertex, rfl⟩ := inhabited
    have class_eq : classOf others (others vertex) = classOf labels (labels vertex) := by
      ext other
      exact (same other vertex).symm
    rw [class_eq]
    exact connected (labels vertex)
  · apply preconnected_of_subsingleton
    intro first inFirst
    exact absurd ⟨first, inFirst⟩ inhabited

/-! ### Moving one vertex -/

section Move

variable [DecidableEq Vertex] {labels : Vertex → Label} {vertex : Vertex} {target : Label}

theorem classOf_update_target (leaves : target ≠ labels vertex) :
    classOf (Function.update labels vertex target) target =
      {vertex} ∪ classOf labels target := by
  ext other
  by_cases moved : other = vertex
  · subst moved
    simp [classOf]
  · simp [classOf, moved]

theorem classOf_update_left (leaves : target ≠ labels vertex) :
    classOf (Function.update labels vertex target) (labels vertex) =
      classOf labels (labels vertex) \ {vertex} := by
  ext other
  by_cases moved : other = vertex
  · subst moved
    simp [classOf, leaves]
  · simp [classOf, moved]

theorem classOf_update_other {label : Label} (notTarget : label ≠ target)
    (notLeft : label ≠ labels vertex) :
    classOf (Function.update labels vertex target) label = classOf labels label := by
  ext other
  by_cases moved : other = vertex
  · subst moved
    simp [classOf, notTarget.symm, notLeft.symm]
  · simp [classOf, moved]

/-- A vertex joins the class of a neighbour and leaves a class that is
connected without it. -/
theorem ClassesConnected.move (connected : ClassesConnected graph labels)
    (leaves : target ≠ labels vertex) {neighbour : Vertex} (adjacent : graph.Adj vertex neighbour)
    (there : labels neighbour = target)
    (rest : (graph.induce (classOf labels (labels vertex) \ {vertex})).Preconnected) :
    ClassesConnected graph (Function.update labels vertex target) := by
  intro label
  by_cases isTarget : label = target
  · subst isTarget
    rw [classOf_update_target leaves]
    have alone : (graph.induce {vertex}).Preconnected :=
      preconnected_of_subsingleton Set.subsingleton_singleton
    exact (SimpleGraph.connected_induce_union alone (connected label)
      (Set.mem_singleton vertex) there adjacent).preconnected
  · by_cases isLeft : label = labels vertex
    · subst isLeft
      rw [classOf_update_left leaves]
      exact rest
    · rw [classOf_update_other isTarget isLeft]
      exact connected label

theorem ClassesConnected.rest_of_move (leaves : target ≠ labels vertex)
    (connected : ClassesConnected graph (Function.update labels vertex target)) :
    (graph.induce (classOf labels (labels vertex) \ {vertex})).Preconnected := by
  rw [← classOf_update_left leaves]
  exact connected (labels vertex)

end Move

/-! ### A finer labelling -/

/-- When one labelling tells apart whatever another one does, they have as many
labels in use exactly when they tell the same vertices apart. -/
theorem card_labels_eq_iff [Fintype Vertex] {Fine Coarse : Type} [DecidableEq Fine]
    [DecidableEq Coarse] {fine : Vertex → Fine} {coarse : Vertex → Coarse}
    (finer : ∀ first second, fine first = fine second → coarse first = coarse second) :
    (Finset.univ.image fine).card = (Finset.univ.image coarse).card ↔
      ∀ first second, coarse first = coarse second → fine first = fine second := by
  -- The pairs of labels are as many as the fine labels.
  let pairs := Finset.univ.image (fun vertex => (fine vertex, coarse vertex))
  have fineImage : pairs.image Prod.fst = Finset.univ.image fine := Finset.image_image
  have coarseImage : pairs.image Prod.snd = Finset.univ.image coarse := Finset.image_image
  have asMany : (pairs.image Prod.fst).card = pairs.card := by
    apply Finset.card_image_of_injOn
    intro left inLeft right inRight same
    obtain ⟨first, _, rfl⟩ := Finset.mem_image.mp inLeft
    obtain ⟨second, _, rfl⟩ := Finset.mem_image.mp inRight
    exact Prod.ext same (finer first second same)
  rw [← fineImage, asMany, ← coarseImage, eq_comm, Finset.card_image_iff]
  constructor
  · intro injective first second same
    have left : (fine first, coarse first) ∈ pairs :=
      Finset.mem_image_of_mem _ (Finset.mem_univ first)
    have right : (fine second, coarse second) ∈ pairs :=
      Finset.mem_image_of_mem _ (Finset.mem_univ second)
    exact congrArg Prod.fst (injective left right same)
  · intro determined left inLeft right inRight same
    obtain ⟨first, _, rfl⟩ := Finset.mem_image.mp inLeft
    obtain ⟨second, _, rfl⟩ := Finset.mem_image.mp inRight
    exact Prod.ext (determined first second same) same

end Mneme.Library
