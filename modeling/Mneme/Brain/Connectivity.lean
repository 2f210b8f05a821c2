/-
When the communities of a run are connected.

The communities returned are the sub-communities of the last refinement pass:
aggregation and renumbering only rename them.  In that pass a visited node
joins a neighbour, so a class can come apart only when a node leaves one that
others have joined.
-/

import Mathlib.Data.Vector.Mem
import Mneme.Brain.Leiden
import Mneme.Library.Grouping
import Mneme.Library.Run

namespace Mneme.Brain

open Library Transition

variable {n : Nat}

/-! ### Renaming labels -/

/-- The two partitions group the nodes the same way. -/
def SameGroups (left right : Partition n) : Prop :=
  ∀ u v, left.get u = left.get v ↔ right.get u = right.get v

theorem SameGroups.trans {left middle right : Partition n} (first : SameGroups left middle)
    (second : SameGroups middle right) : SameGroups left right :=
  fun u v => (first u v).trans (second u v)

variable {labels : Partition n}

/-- A renaming that tells the labels in use apart keeps the groups. -/
theorem sameGroups_map {rename : Nat → Nat}
    (apart : ∀ u v, rename (labels.get u) = rename (labels.get v) → labels.get u = labels.get v) :
    SameGroups labels (labels.map rename) := by
  intro u v
  rw [List.Vector.get_map, List.Vector.get_map]
  constructor
  · intro same
    rw [same]
  · exact apart u v

theorem sameGroups_compress (labels : Partition n) : SameGroups labels (compress labels) := by
  apply sameGroups_map
  intro u v same
  have listed : labels.get u ∈ labels.toList.eraseDups :=
    List.mem_eraseDups.mpr (List.Vector.get_mem u labels)
  exact (List.idxOf_inj listed).mp same

theorem get_lt_labelCount (refined : Partition n) (u : Fin n) :
    refined.get u < labelCount refined := by
  have bounded := @List.le_max?_getD_of_mem _ _ 0 (List.Vector.get_mem u refined)
  unfold labelCount
  cases largest : refined.toList.max? with
  | none =>
      rw [List.max?_eq_none_iff] at largest
      have member := List.Vector.get_mem u refined
      rw [largest] at member
      cases member
  | some most =>
      rw [largest] at bounded
      change refined.get u ≤ most at bounded
      change refined.get u < most + 1
      omega

variable (adj : Adjacency n)

/-- The first node of a group in use belongs to the group. -/
theorem parent_of_used (refined : Partition n) (u : Fin n) :
    ∃ first : Fin n, refined.get first = refined.get u ∧
      (aggregate adj refined).parent.get ⟨refined.get u, get_lt_labelCount refined u⟩ = first.val := by
  have inhabited : u ∈ (List.finRange n).filter (fun v => refined.get v = refined.get u) :=
    List.mem_filter.mpr ⟨List.mem_finRange u, decide_eq_true rfl⟩
  unfold aggregate
  rw [List.Vector.get_ofFn]
  dsimp only
  cases members : (List.finRange n).filter (fun v => refined.get v = refined.get u) with
  | nil =>
      rw [members] at inhabited
      cases inhabited
  | cons first rest =>
      refine ⟨first, ?_, rfl⟩
      have held : first ∈ (List.finRange n).filter (fun v => refined.get v = refined.get u) := by
        rw [members]
        exact List.mem_cons_self
      exact of_decide_eq_true (List.mem_filter.mp held).2

theorem sameGroups_lift (refined : Partition n) : SameGroups refined (lift adj refined) := by
  refine SameGroups.trans (sameGroups_map ?_) (sameGroups_compress _)
  intro u v same
  rw [dif_pos (get_lt_labelCount refined u), dif_pos (get_lt_labelCount refined v),
    ← sameGroups_compress (aggregate adj refined).parent] at same
  obtain ⟨first, inGroup, firstIs⟩ := parent_of_used adj refined u
  obtain ⟨other, alsoInGroup, otherIs⟩ := parent_of_used adj refined v
  rw [firstIs, otherIs] at same
  rw [← inGroup, ← alsoInGroup, Fin.ext same]

/-! ### One visit of the refinement -/

variable (twoM resolution : Rat)

theorem bestCommunity_cases (neighbours : List (Fin n × Rat)) (pass : Pass n) (u : Fin n) :
    (bestCommunity adj twoM resolution neighbours pass u).1 = pass.labels.get u ∨
      (bestCommunity adj twoM resolution neighbours pass u).1 ∈
          communitiesOf neighbours pass.labels ∧
        (bestCommunity adj twoM resolution neighbours pass u).2 =
          gain adj twoM resolution neighbours pass u
            (bestCommunity adj twoM resolution neighbours pass u).1 := by
  unfold bestCommunity
  -- The best so far is the own community or one of those already compared.
  refine List.foldlRecOn
    (motive := fun best : Nat × Rat => best.1 = pass.labels.get u ∨
      best.1 ∈ communitiesOf neighbours pass.labels ∧
        best.2 = gain adj twoM resolution neighbours pass u best.1) _ _ (Or.inl rfl) ?_
  intro best held community listed
  dsimp only
  split
  · exact Or.inr ⟨listed, rfl⟩
  · exact held

theorem mem_communitiesOf {neighbours : List (Fin n × Rat)}
    {community : Nat} (member : community ∈ communitiesOf neighbours labels) :
    ∃ v w, (v, w) ∈ neighbours ∧ labels.get v = community := by
  unfold communitiesOf at member
  rw [List.mem_insertionSort, List.mem_dedup, List.mem_map] at member
  obtain ⟨⟨v, w⟩, held, same⟩ := member
  exact ⟨v, w, held, same⟩

theorem refinedTarget_cases (outer : Partition n) (pass : Pass n) (u : Fin n) :
    refinedTarget adj twoM resolution outer pass u = pass.labels.get u ∨
      ∃ v w, (v, w) ∈ adj u ∧ v ≠ u ∧ outer.get v = outer.get u ∧
        pass.labels.get v = refinedTarget adj twoM resolution outer pass u := by
  unfold refinedTarget
  dsimp only
  split
  · rename_i moves
    rcases bestCommunity_cases adj twoM resolution (innerNeighbours adj outer u)
      (pullOut adj pass u) u with own | ⟨other, _⟩
    · exact absurd own moves.1
    · right
      obtain ⟨v, w, inside, same⟩ := mem_communitiesOf other
      obtain ⟨listed, kept⟩ := List.mem_filter.mp inside
      obtain ⟨apart, together⟩ := not_or.mp (of_decide_eq_true kept)
      exact ⟨v, w, listed, apart, not_not.mp together, same⟩
  · exact Or.inl rfl

theorem refineNode_labels (outer : Partition n) (pass : Pass n) (u : Fin n) :
    (refineNode adj twoM resolution outer pass u).labels.get =
      Function.update pass.labels.get u (refinedTarget adj twoM resolution outer pass u) :=
  get_set pass.labels u _

/-! ### The input graph -/

namespace UnGraph

variable {graph : UnGraph n}

/-- A link comes from an edge of positive weight, in either direction. -/
theorem mem_adjacency {u v : Fin n} {w : Rat} (listed : (v, w) ∈ graph.adjacency u) :
    0 < w ∧ ((u, v, w) ∈ graph.edges ∨ (v, u, w) ∈ graph.edges) := by
  unfold adjacency at listed
  obtain ⟨⟨a, b, weight⟩, inGraph, inEdge⟩ := List.mem_flatMap.mp listed
  dsimp only at inEdge
  split at inEdge
  · cases inEdge
  · rename_i positive
    rcases List.mem_append.mp inEdge with forward | backward
    · split at forward
      · rename_i start
        cases List.mem_singleton.mp forward
        rw [← start]
        exact ⟨not_le.mp positive, Or.inl inGraph⟩
      · cases forward
    · split at backward
      · rename_i start
        cases List.mem_singleton.mp backward
        rw [← start.2]
        exact ⟨not_le.mp positive, Or.inr inGraph⟩
      · cases backward

/-- Two nodes are adjacent when an edge of positive weight joins them. -/
def simple (graph : UnGraph n) : SimpleGraph (Fin n) where
  Adj u v := u ≠ v ∧ ∃ w, 0 < w ∧ ((u, v, w) ∈ graph.edges ∨ (v, u, w) ∈ graph.edges)
  symm := ⟨by
    rintro u v ⟨apart, w, positive, listed⟩
    exact ⟨apart.symm, w, positive, listed.symm⟩⟩
  loopless := ⟨fun _ loop => loop.1 rfl⟩

theorem adj_of_mem_adjacency {u v : Fin n} {w : Rat}
    (listed : (v, w) ∈ graph.adjacency u) (apart : v ≠ u) : graph.simple.Adj u v :=
  ⟨apart.symm, w, mem_adjacency listed⟩

/-- Each sub-community of the pass is connected in the input graph. -/
def GroupsConnected (graph : UnGraph n) (pass : Pass n) : Prop :=
  ClassesConnected graph.simple pass.labels.get

/-- The visited node stays, or the sub-community it leaves is connected without
it. -/
def Harmless (graph : UnGraph n) (config : LeidenConfig) (outer : Partition n) (pass : Pass n)
    (u : Fin n) : Prop :=
  refinedTarget graph.adjacency graph.twoM config.resolution outer pass u = pass.labels.get u ∨
    (graph.simple.induce (classOf pass.labels.get (pass.labels.get u) \ {u})).Preconnected

/-! ### A refinement pass -/

def visit (graph : UnGraph n) (config : LeidenConfig) (outer : Partition n) (pass : Pass n)
    (u : Fin n) : Pass n :=
  refineNode graph.adjacency graph.twoM config.resolution outer pass u

/-- The visits of a pass, each with the state it finds. -/
def visits (graph : UnGraph n) (config : LeidenConfig) (outer : Partition n) :
    Pass n → List (Fin n) → List (Pass n × Fin n)
  | _, [] => []
  | pass, u :: rest => (pass, u) :: visits graph config outer (graph.visit config outer pass u) rest

theorem run_visits (graph : UnGraph n) (config : LeidenConfig) (outer : Partition n)
    (pass : Pass n) (order : List (Fin n)) :
    Run (fun pass u => some (graph.visit config outer pass u)) pass
      (graph.visits config outer pass order) (order.foldl (graph.visit config outer) pass) := by
  induction order generalizing pass with
  | nil => exact Run.start
  | cons u rest ih => exact Run.prepend rfl (ih (graph.visit config outer pass u))

variable {config : LeidenConfig}

variable {outer : Partition n} {pass : Pass n} {u : Fin n}

theorem visit_connected (connected : graph.GroupsConnected pass)
    (harmless : graph.Harmless config outer pass u) :
    graph.GroupsConnected (graph.visit config outer pass u) := by
  unfold GroupsConnected visit
  rw [refineNode_labels]
  rcases refinedTarget_cases graph.adjacency graph.twoM config.resolution outer pass u with
    stays | ⟨v, w, listed, apart, _, joins⟩
  · rw [stays, Function.update_eq_self]
    exact connected
  · by_cases stays : refinedTarget graph.adjacency graph.twoM config.resolution outer pass u =
        pass.labels.get u
    · rw [stays, Function.update_eq_self]
      exact connected
    · rcases harmless with stayed | rest
      · exact absurd stayed stays
      · exact connected.move stays (adj_of_mem_adjacency listed apart) joins rest

theorem harmless_of_connected
    (connected : graph.GroupsConnected (graph.visit config outer pass u)) :
    graph.Harmless config outer pass u := by
  by_cases stays : refinedTarget graph.adjacency graph.twoM config.resolution outer pass u =
      pass.labels.get u
  · exact Or.inl stays
  · right
    unfold GroupsConnected visit at connected
    rw [refineNode_labels] at connected
    exact ClassesConnected.rest_of_move stays connected

theorem singletons_connected (graph : UnGraph n) :
    graph.GroupsConnected (singletons graph.adjacency) := by
  apply classesConnected_of_injective
  intro u v same
  change (List.Vector.ofFn Fin.val).get u = (List.Vector.ofFn Fin.val).get v at same
  rw [List.Vector.get_ofFn, List.Vector.get_ofFn] at same
  exact Fin.ext same

/-- The sub-communities stay connected through a whole pass exactly when every
visit of it is harmless. -/
theorem throughout_connected_iff (graph : UnGraph n) (config : LeidenConfig) (outer : Partition n)
    (order : List (Fin n)) :
    Throughout graph.GroupsConnected
        (graph.visits config outer (singletons graph.adjacency) order)
        (order.foldl (graph.visit config outer) (singletons graph.adjacency)) ↔
      Respects (graph.Harmless config outer)
        (graph.visits config outer (singletons graph.adjacency) order) := by
  apply (graph.run_visits config outer (singletons graph.adjacency) order).throughout_iff_respects
    graph.singletons_connected (fun _ connected => connected)
  · intro pass u after connected harmless taken
    cases taken
    exact visit_connected connected harmless
  · intro pass u after _ taken connected
    cases taken
    exact harmless_of_connected connected

/-! ### The last pass of a run -/

/-- A refinement pass: the communities it works within, and its order. -/
structure Refinement (n : Nat) where
  outer : Partition n
  order : List (Fin n)

/-- The refinement pass of the last outer iteration, when one iteration and
some remaining ones may be made. -/
def lastRefinementFrom (graph : UnGraph n) (config : LeidenConfig) (shuffles : Shuffles n) :
    Nat → Nat → Partition n → Rat → Refinement n
  | 0, iteration, partition, _ =>
      { outer := localMove graph.adjacency graph.twoM config.resolution (shuffles.move iteration)
          partition
        order := shuffles.refine iteration }
  | remaining + 1, iteration, partition, previous =>
      let moved := localMove graph.adjacency graph.twoM config.resolution (shuffles.move iteration)
        partition
      let refined := refine graph.adjacency graph.twoM config.resolution (shuffles.refine iteration)
        moved
      let next := lift graph.adjacency refined
      let reached := modularity graph.adjacency graph.twoM config.resolution next
      if |reached - previous| < config.minDelta then
        { outer := moved, order := shuffles.refine iteration }
      else graph.lastRefinementFrom config shuffles remaining (iteration + 1) next reached

theorem iterate_eq (graph : UnGraph n) (config : LeidenConfig) (shuffles : Shuffles n)
    (remaining iteration : Nat) (partition : Partition n) (previous : Rat) :
    iterate graph.adjacency graph.twoM config shuffles (remaining + 1) iteration partition previous =
      lift graph.adjacency (refine graph.adjacency graph.twoM config.resolution
        (graph.lastRefinementFrom config shuffles remaining iteration partition previous).order
        (graph.lastRefinementFrom config shuffles remaining iteration partition previous).outer) := by
  induction remaining generalizing iteration partition previous with
  | zero =>
      unfold iterate lastRefinementFrom
      dsimp only
      split
      · rfl
      · rfl
  | succ remaining ih =>
      rw [iterate, lastRefinementFrom]
      split
      · rfl
      · exact ih (iteration + 1) _ _

def lastRefinement (graph : UnGraph n) (config : LeidenConfig) (shuffles : Shuffles n) :
    Refinement n :=
  graph.lastRefinementFrom config shuffles (config.maxIterations - 1) 0 (.ofFn Fin.val)
    (modularity graph.adjacency graph.twoM config.resolution (.ofFn Fin.val))

/-- The visits of the last refinement pass. -/
def lastVisits (graph : UnGraph n) (config : LeidenConfig) (shuffles : Shuffles n) :
    List (Pass n × Fin n) :=
  graph.visits config (graph.lastRefinement config shuffles).outer (singletons graph.adjacency)
    (graph.lastRefinement config shuffles).order

/-- What the last refinement pass ends with. -/
def lastPass (graph : UnGraph n) (config : LeidenConfig) (shuffles : Shuffles n) : Pass n :=
  (graph.lastRefinement config shuffles).order.foldl
    (graph.visit config (graph.lastRefinement config shuffles).outer) (singletons graph.adjacency)

/-- The partition returned groups the nodes as the last refinement pass does. -/
theorem sameGroups_lastPass (graph : UnGraph n) (config : LeidenConfig) (shuffles : Shuffles n)
    (capped : 1 ≤ config.maxIterations) :
    SameGroups (graph.lastPass config shuffles).labels
      (leidenInner graph.adjacency graph.twoM config shuffles) := by
  have cap : config.maxIterations = (config.maxIterations - 1) + 1 := by omega
  unfold leidenInner
  rw [cap, iterate_eq]
  exact ((sameGroups_compress _).trans (sameGroups_lift _ _)).trans (sameGroups_compress _)

/-! ### The communities returned -/

/-- The members are nodes of the input graph that induce a connected
subgraph. -/
def ConnectedCommunity (graph : UnGraph n) (community : Community) : Prop :=
  ∃ nodes : List (Fin n), community.members = nodes.map graph.ids ∧
    (graph.simple.induce {u | u ∈ nodes}).Connected

theorem run_connected {shuffles : Shuffles n} (connected : ClassesConnected graph.simple
      (leidenInner graph.adjacency graph.twoM config shuffles).get) :
    ∀ community ∈ graph.run config shuffles, graph.ConnectedCommunity community := by
  intro community member
  obtain ⟨index, bound, rfl⟩ := List.mem_mapIdx.mp member
  let partition := leidenInner graph.adjacency graph.twoM config shuffles
  let keys := partition.toList.dedup.insertionSort (· ≤ ·)
  change index < keys.length at bound
  have listed : keys[index] ∈ keys := List.getElem_mem bound
  have used : keys[index] ∈ partition.toList := by
    rw [List.mem_insertionSort, List.mem_dedup] at listed
    exact listed
  refine ⟨(List.finRange n).filter (fun u => partition.get u = keys[index]), rfl, ?_⟩
  have whole : {u | u ∈ (List.finRange n).filter (fun u => partition.get u = keys[index])} =
      classOf partition.get keys[index] := by
    ext u
    simp [classOf]
  rw [whole]
  obtain ⟨u, inside⟩ := (List.Vector.mem_iff_get _ _).mp used
  exact { preconnected := connected keys[index], nonempty := ⟨⟨u, inside⟩⟩ }

/-- The communities returned are connected when every visit of the last
refinement pass is harmless, and that is exactly when all sub-communities the
pass goes through are connected. -/
theorem connected_of_harmless (graph : UnGraph n) (config : LeidenConfig) (shuffles : Shuffles n)
    (capped : 1 ≤ config.maxIterations) :
    (Throughout graph.GroupsConnected (graph.lastVisits config shuffles)
        (graph.lastPass config shuffles) ↔
      Respects (graph.Harmless config (graph.lastRefinement config shuffles).outer)
        (graph.lastVisits config shuffles)) ∧
    (Respects (graph.Harmless config (graph.lastRefinement config shuffles).outer)
        (graph.lastVisits config shuffles) →
      ∀ community ∈ graph.run config shuffles, graph.ConnectedCommunity community) := by
  have exact_pass := graph.throughout_connected_iff config
    (graph.lastRefinement config shuffles).outer (graph.lastRefinement config shuffles).order
  refine ⟨exact_pass, ?_⟩
  intro harmless
  have final := (exact_pass.mpr harmless).2
  exact run_connected (ClassesConnected.relabel final (graph.sameGroups_lastPass config shuffles capped))

theorem harmless_of_alone
    (alone : refinedTarget graph.adjacency graph.twoM config.resolution outer pass u =
        pass.labels.get u ∨ ∀ v, pass.labels.get v = pass.labels.get u → v = u) :
    graph.Harmless config outer pass u := by
  rcases alone with stays | alone
  · exact Or.inl stays
  · right
    apply preconnected_of_subsingleton
    intro first inFirst
    exact absurd (alone first inFirst.1) inFirst.2

/-- Two nodes and an edge. -/
def pair : UnGraph 2 :=
  { ids := Fin.val, edges := [(0, 1, 1)] }

def inOrder : Shuffles 2 :=
  { move := fun _ => [0, 1]
    refine := fun _ => [0, 1]
    move_perm := fun _ => by decide
    refine_perm := fun _ => by decide }

theorem connected_of_harmless_pair :
    1 ≤ ({} : LeidenConfig).maxIterations ∧ (pair.run {} inOrder).map Community.members = [[0, 1]] ∧
      ∀ community ∈ pair.run {} inOrder, pair.ConnectedCommunity community := by
  refine ⟨by decide, by decide +kernel, ?_⟩
  apply (connected_of_harmless pair {} inOrder (by decide)).2
  have alone : ∀ taken ∈ pair.lastVisits {} inOrder,
      refinedTarget pair.adjacency pair.twoM 1 (pair.lastRefinement {} inOrder).outer taken.1
          taken.2 = taken.1.labels.get taken.2 ∨
        ∀ v, taken.1.labels.get v = taken.1.labels.get taken.2 → v = taken.2 := by decide +kernel
  intro taken member
  exact harmless_of_alone (alone taken member)

/-- A star with a heavy edge. -/
def star : UnGraph 4 :=
  { ids := Fin.val, edges := [(0, 1, 1), (0, 2, 1), (0, 3, 3)] }

/-- The two light leaves are visited before the centre. -/
def leavesFirst : Shuffles 4 :=
  { move := fun _ => [1, 2, 0, 3]
    refine := fun _ => [1, 2, 0, 3]
    move_perm := fun _ => by decide
    refine_perm := fun _ => by decide }

/-- The leaves join the centre, and the centre moves on to its heavy
neighbour. -/
theorem deserted_leaves_disconnected :
    ¬ ∀ (n : Nat) (graph : UnGraph n) (config : LeidenConfig) (shuffles : Shuffles n),
      (∀ edge ∈ graph.edges, 0 < edge.2.2) → 1 ≤ config.maxIterations →
        ∀ community ∈ graph.run config shuffles, graph.ConnectedCommunity community := by
  intro always
  have leaves : ∃ community ∈ star.run {} leavesFirst, community.members = [1, 2] := by
    decide +kernel
  obtain ⟨community, returned, members⟩ := leaves
  obtain ⟨nodes, same, connected⟩ :=
    always 4 star {} leavesFirst (by decide) (by decide) community returned
  have isLeaves : nodes = [1, 2] := by
    apply (List.map_injective_iff.mpr Fin.val_injective)
    exact same.symm.trans members
  subst isLeaves
  obtain ⟨walk⟩ := connected.preconnected ⟨1, by decide⟩ ⟨2, by decide⟩
  cases walk with
  | @cons _ step _ adjacent _ =>
      obtain ⟨next, inside⟩ := step
      obtain ⟨apart, w, _, listed⟩ : star.simple.Adj 1 next := adjacent
      have isLeaf : next = 1 ∨ next = 2 := by simpa using inside
      rcases isLeaf with rfl | rfl
      · exact apart rfl
      · simp [star] at listed

end UnGraph

end Mneme.Brain
