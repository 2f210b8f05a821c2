/-
The communities of a graph are a partition of its nodes, and which communities the next
level starts from.

Refinement divides the communities of local moving, and the sub-communities
are the super-nodes of the next level.  Aggregation records for each of them
its first node instead of its community, so the next level starts from the
sub-communities, and the moved communities live on only when none of them was
divided.
-/

import Mathlib.Algebra.Order.BigOperators.Group.List
import Mneme.Brain.Connectivity
import Mneme.Library.Buckets

namespace Mneme.Brain.UnGraph

open Library

variable {n : Nat}

/-! ### Classes of labels -/

/-- The labels in use, in ascending order. -/
def labelsOf (partition : Partition n) : List Nat :=
  partition.toList.dedup.insertionSort (· ≤ ·)

/-- The nodes of a label. -/
def nodesOf (partition : Partition n) (label : Nat) : List (Fin n) :=
  (List.finRange n).filter (fun u => partition.get u = label)

variable (partition : Partition n)

theorem labelsOf_nodup : (labelsOf partition).Nodup :=
  (List.perm_insertionSort _ _).nodup_iff.mpr (List.nodup_dedup _)

theorem mem_labelsOf {partition : Partition n} {label : Nat} :
    label ∈ labelsOf partition ↔ ∃ u, partition.get u = label := by
  unfold labelsOf
  rw [List.mem_insertionSort, List.mem_dedup]
  exact List.Vector.mem_iff_get _ _

theorem nodesOf_perm :
    ((labelsOf partition).flatMap (nodesOf partition)).Perm (List.finRange n) :=
  Buckets.classes_perm partition.get (labelsOf_nodup partition) (List.finRange n)
    (fun u _ => mem_labelsOf.mpr ⟨u, rfl⟩)

/-! ### The communities returned -/

section Run

variable (graph : UnGraph n) (config : LeidenConfig) (shuffles : Shuffles n)

/-- The community of a label. -/
def communityOf (partition : Partition n) (id label : Nat) : Community :=
  { id
    members := (nodesOf partition label).map graph.ids
    cohesion := graph.cohesion partition (nodesOf partition label) label }

theorem run_eq : graph.run config shuffles =
    (labelsOf (leidenInner graph.adjacency graph.twoM config shuffles)).mapIdx
      (graph.communityOf (leidenInner graph.adjacency graph.twoM config shuffles)) := rfl

theorem run_members : (graph.run config shuffles).map Community.members =
    (labelsOf (leidenInner graph.adjacency graph.twoM config shuffles)).map (fun label =>
      (nodesOf (leidenInner graph.adjacency graph.twoM config shuffles) label).map graph.ids) := by
  rw [run_eq]
  apply List.ext_getElem
  · simp
  · intro index _ _
    simp [communityOf]

variable {community : Community}

theorem mem_run (member : community ∈ graph.run config shuffles) :
    ∃ partition id label, label ∈ labelsOf partition ∧
      community = graph.communityOf partition id label := by
  rw [run_eq] at member
  obtain ⟨id, bound, rfl⟩ := List.mem_mapIdx.mp member
  exact ⟨_, id, _, List.getElem_mem bound, rfl⟩

theorem run_ids : (graph.run config shuffles).map Community.id =
    List.range (graph.run config shuffles).length := by
  rw [run_eq]
  apply List.ext_getElem
  · simp
  · intro index _ _
    simp [communityOf]

theorem run_nonempty (member : community ∈ graph.run config shuffles) : community.members ≠ [] := by
  obtain ⟨partition, id, label, used, rfl⟩ := graph.mem_run config shuffles member
  obtain ⟨u, labelled⟩ := mem_labelsOf.mp used
  have inside : u ∈ nodesOf partition label :=
    List.mem_filter.mpr ⟨List.mem_finRange u, decide_eq_true labelled⟩
  exact List.ne_nil_of_mem (List.mem_map_of_mem inside)

/-- Each node is a member once, taken over all communities. -/
theorem run_members_perm : ((graph.run config shuffles).flatMap Community.members).Perm
    ((List.finRange n).map graph.ids) := by
  rw [List.flatMap_def, run_members, ← List.flatMap_def, ← List.map_flatMap]
  exact (nodesOf_perm _).map graph.ids

end Run

/-! ### Cohesion -/

variable (graph : UnGraph n)

theorem adjacency_positive {u v : Fin n} {w : Rat}
    (member : (v, w) ∈ graph.adjacency u) : 0 < w := by
  unfold adjacency at member
  obtain ⟨⟨a, b, weight⟩, _, member⟩ := List.mem_flatMap.mp member
  dsimp only at member
  split at member
  · cases member
  · rename_i positive
    rw [List.mem_append] at member
    rcases member with first | second
    · split at first
      · cases List.mem_singleton.mp first
        exact not_le.mp positive
      · cases first
    · split at second
      · cases List.mem_singleton.mp second
        exact not_le.mp positive
      · cases second

theorem weightInto_nonneg (u : Fin n) (labels : Partition n) (label : Nat) :
    0 ≤ weightInto (graph.adjacency u) labels label := by
  apply List.sum_nonneg
  intro w member
  obtain ⟨⟨v, weight⟩, kept, rfl⟩ := List.mem_map.mp member
  exact le_of_lt (graph.adjacency_positive (List.mem_filter.mp kept).1)

theorem weightInto_le_strength (u : Fin n) (labels : Partition n)
    (label : Nat) : weightInto (graph.adjacency u) labels label ≤ strength graph.adjacency u := by
  have positive : ∀ entry ∈ graph.adjacency u, 0 ≤ entry.2 :=
    fun entry member => le_of_lt (graph.adjacency_positive member)
  unfold weightInto strength
  generalize graph.adjacency u = row at positive ⊢
  induction row with
  | nil => exact le_refl _
  | cons entry rest ih =>
      have first := positive entry List.mem_cons_self
      have later := ih (fun other member => positive other (List.mem_cons_of_mem _ member))
      by_cases inside : labels.get entry.1 = label
      · rw [List.filter_cons_of_pos (by simpa using inside), List.map_cons, List.map_cons,
          List.sum_cons, List.sum_cons]
        exact add_le_add_right later _
      · rw [List.filter_cons_of_neg (by simpa using inside), List.map_cons, List.sum_cons]
        exact le_trans later (le_add_of_nonneg_left first)

theorem cohesion_bounds (members : List (Fin n))
    (label : Nat) : 0 ≤ graph.cohesion partition members label ∧
      graph.cohesion partition members label ≤ 1 := by
  have inside : 0 ≤ (members.map
      (fun u => weightInto (graph.adjacency u) partition label)).sum := by
    apply List.sum_nonneg
    intro w member
    obtain ⟨u, _, rfl⟩ := List.mem_map.mp member
    exact graph.weightInto_nonneg u partition label
  have below : (members.map (fun u => weightInto (graph.adjacency u) partition label)).sum ≤
      (members.map (strength graph.adjacency)).sum :=
    List.sum_le_sum (fun u _ => graph.weightInto_le_strength u partition label)
  unfold cohesion
  dsimp only
  split
  · rename_i positive
    exact ⟨div_nonneg inside (le_of_lt positive), (div_le_one positive).mpr below⟩
  · exact ⟨zero_le_one, le_refl 1⟩

/-! ### Partitions -/

/-- The communities are numbered from zero on, none is empty, every node of the graph is
a member of one of them and of no other, and the cohesions are shares. -/
structure Partitions (graph : UnGraph n) (communities : List Community) : Prop where
  ids : communities.map Community.id = List.range communities.length
  nonempty : ∀ community ∈ communities, community.members ≠ []
  members : (communities.flatMap Community.members).Perm ((List.finRange n).map graph.ids)
  disjoint : Function.Injective graph.ids →
    communities.Pairwise (fun left right => left.members.Disjoint right.members)
  cohesion : ∀ community ∈ communities, 0 ≤ community.cohesion ∧ community.cohesion ≤ 1

theorem members_nodup {graph : UnGraph n} {communities : List Community}
    (members : (communities.flatMap Community.members).Perm ((List.finRange n).map graph.ids))
    (injective : Function.Injective graph.ids) : (communities.flatMap Community.members).Nodup :=
  members.nodup_iff.mpr ((List.nodup_finRange n).map injective)

/-- Whatever the graph and the visiting orders, what the solver returns is a partition. -/
theorem run_partitions (graph : UnGraph n) (config : LeidenConfig) (shuffles : Shuffles n) :
    graph.Partitions (graph.run config shuffles) := by
  have members := graph.run_members_perm config shuffles
  refine ⟨graph.run_ids config shuffles, ?_, members, ?_, ?_⟩
  · intro community member
    exact graph.run_nonempty config shuffles member
  · intro injective
    have distinct := members_nodup members injective
    rw [List.nodup_flatMap] at distinct
    exact distinct.2
  · intro community member
    obtain ⟨partition, id, label, _, rfl⟩ := graph.mem_run config shuffles member
    exact graph.cohesion_bounds partition (nodesOf partition label) label

end Mneme.Brain.UnGraph

namespace Mneme.Brain

open Library

variable {n : Nat}

/-! ### Refinement divides -/

/-- Nodes with one label in the first partition have one in the second. -/
def Within (inner outer : Partition n) : Prop :=
  ∀ u v, inner.get u = inner.get v → outer.get u = outer.get v

section Refinement

variable (adj : Adjacency n) (twoM resolution : Rat)

theorem singletons_within (outer : Partition n) : Within (singletons adj).labels outer := by
  intro u v same
  change (List.Vector.ofFn Fin.val).get u = (List.Vector.ofFn Fin.val).get v at same
  rw [List.Vector.get_ofFn, List.Vector.get_ofFn] at same
  rw [Fin.ext same]

/-- A visited node joins a node of its own community. -/
theorem refineNode_within {outer : Partition n} {pass : Pass n}
    (within : Within pass.labels outer) (u : Fin n) :
    Within (refineNode adj twoM resolution outer pass u).labels outer := by
  have target : ∀ v, refinedTarget adj twoM resolution outer pass u = pass.labels.get v →
      outer.get u = outer.get v := by
    intro v joined
    rcases refinedTarget_cases adj twoM resolution outer pass u with
      stays | ⟨other, _, _, _, together, same⟩
    · exact within u v (stays.symm.trans joined)
    · exact together.symm.trans (within other v (same.trans joined))
  intro first second same
  rw [refineNode_labels] at same
  by_cases firstMoves : first = u
  · by_cases secondMoves : second = u
    · rw [firstMoves, secondMoves]
    · rw [firstMoves, Function.update_self, Function.update_of_ne secondMoves] at same
      rw [firstMoves]
      exact target second same
  · by_cases secondMoves : second = u
    · rw [secondMoves, Function.update_self, Function.update_of_ne firstMoves] at same
      rw [secondMoves]
      exact (target first same.symm).symm
    · rw [Function.update_of_ne firstMoves, Function.update_of_ne secondMoves] at same
      exact within first second same

theorem refine_within (order : List (Fin n)) (outer : Partition n) :
    Within (refine adj twoM resolution order outer) outer := by
  have visited : ∀ pass : Pass n, Within pass.labels outer →
      Within (order.foldl (refineNode adj twoM resolution outer) pass).labels outer := by
    induction order with
    | nil =>
        intro pass within
        exact within
    | cons u rest ih =>
        intro pass within
        exact ih _ (refineNode_within adj twoM resolution within u)
  intro u v same
  exact visited _ (singletons_within adj outer) u v ((sameGroups_compress _ u v).mpr same)

end Refinement

/-! ### The rounds of a run -/

/-- The three partitions of one outer iteration. -/
structure Round (n : Nat) where
  /-- What local moving leaves. -/
  moved : Partition n
  /-- The super-nodes of the next level. -/
  refined : Partition n
  /-- The initial communities of the next level, by original node. -/
  next : Partition n

section Rounds

variable (adj : Adjacency n) (twoM : Rat) (config : LeidenConfig) (shuffles : Shuffles n)

/-- The iteration with a number, from the partition it starts with. -/
def roundFrom (iteration : Nat) (partition : Partition n) : Round n :=
  let moved := localMove adj twoM config.resolution (shuffles.move iteration) partition
  let refined := refine adj twoM config.resolution (shuffles.refine iteration) moved
  { moved, refined, next := lift adj refined }

/-- The iterations that `iterate` makes. -/
def roundsFrom : Nat → Nat → Partition n → Rat → List (Round n)
  | 0, _, _, _ => []
  | remaining + 1, iteration, partition, previous =>
      let round := roundFrom adj twoM config shuffles iteration partition
      let reached := modularity adj twoM config.resolution round.next
      if |reached - previous| < config.minDelta then [round]
      else round :: roundsFrom remaining (iteration + 1) round.next reached

def leidenRounds : List (Round n) :=
  roundsFrom adj twoM config shuffles config.maxIterations 0 (.ofFn Fin.val)
    (modularity adj twoM config.resolution (.ofFn Fin.val))

/-- Each round goes through the three phases, from some partition. -/
theorem roundsFrom_phases (remaining iteration : Nat) (partition : Partition n) (previous : Rat) :
    ∀ round ∈ roundsFrom adj twoM config shuffles remaining iteration partition previous,
      ∃ number start, round = roundFrom adj twoM config shuffles number start := by
  induction remaining generalizing iteration partition previous with
  | zero =>
      intro round member
      cases member
  | succ remaining ih =>
      intro round member
      rw [roundsFrom] at member
      split at member
      · rw [List.mem_singleton] at member
        exact ⟨iteration, partition, member⟩
      · rcases List.mem_cons.mp member with this | later
        · exact ⟨iteration, partition, this⟩
        · exact ih _ _ _ round later

end Rounds

/-! ### What the next level starts from -/

theorem sameGroups_next (adj : Adjacency n) (twoM : Rat) (config : LeidenConfig)
    (shuffles : Shuffles n) (iteration : Nat) (partition : Partition n) :
    SameGroups (roundFrom adj twoM config shuffles iteration partition).refined
      (roundFrom adj twoM config shuffles iteration partition).next :=
  sameGroups_lift adj _

theorem roundFrom_within (adj : Adjacency n) (twoM : Rat) (config : LeidenConfig)
    (shuffles : Shuffles n) (iteration : Nat) (partition : Partition n) :
    Within (roundFrom adj twoM config shuffles iteration partition).refined
      (roundFrom adj twoM config shuffles iteration partition).moved :=
  refine_within adj twoM config.resolution _ _

/-- How many communities a partition has. -/
def communityCount (partition : Partition n) : Nat :=
  (UnGraph.labelsOf partition).length

theorem communityCount_eq_card (partition : Partition n) :
    communityCount partition = (Finset.univ.image partition.get).card := by
  unfold communityCount
  rw [← List.toFinset_card_of_nodup (UnGraph.labelsOf_nodup partition)]
  congr 1
  ext label
  rw [List.mem_toFinset, UnGraph.mem_labelsOf, Finset.mem_image]
  constructor
  · intro used
    obtain ⟨u, labelled⟩ := used
    exact ⟨u, Finset.mem_univ u, labelled⟩
  · intro used
    obtain ⟨u, _, labelled⟩ := used
    exact ⟨u, labelled⟩

theorem Within.count_eq_iff {inner outer : Partition n} (within : Within inner outer) :
    communityCount inner = communityCount outer ↔ SameGroups outer inner := by
  rw [communityCount_eq_card, communityCount_eq_card, card_labels_eq_iff within]
  constructor
  · intro kept u v
    exact ⟨kept u v, within u v⟩
  · intro same u v
    exact (same u v).mp

/-- Aggregation carries the moved communities of a round to the next level
exactly when refinement made no more sub-communities than there are moved
communities. -/
theorem aggregation_carries_iff (adj : Adjacency n) (twoM : Rat) (config : LeidenConfig)
    (shuffles : Shuffles n) :
    ∀ round ∈ leidenRounds adj twoM config shuffles,
      SameGroups round.moved round.next ↔
        communityCount round.refined = communityCount round.moved := by
  intro round member
  obtain ⟨number, start, rfl⟩ := roundsFrom_phases adj twoM config shuffles _ _ _ _ round member
  have handedOn := sameGroups_next adj twoM config shuffles number start
  rw [(roundFrom_within adj twoM config shuffles number start).count_eq_iff]
  constructor
  · intro carried
    exact carried.trans (fun u v => (handedOn u v).symm)
  · intro undivided
    exact undivided.trans handedOn

namespace UnGraph

theorem aggregation_carries_pair :
    ∃ round ∈ leidenRounds pair.adjacency pair.twoM {} inOrder,
      round.moved.get 0 = round.moved.get 1 ∧ SameGroups round.moved round.next := by
  have undivided : ∃ round ∈ leidenRounds pair.adjacency pair.twoM {} inOrder,
      round.moved.get 0 = round.moved.get 1 ∧
        communityCount round.refined = communityCount round.moved := by decide +kernel
  obtain ⟨round, member, together, asMany⟩ := undivided
  exact ⟨round, member, together,
    (aggregation_carries_iff pair.adjacency pair.twoM {} inOrder round member).mpr asMany⟩

/-- Local moving puts the whole star into one community, and the next level
starts with the centre and a light leaf apart. -/
theorem star_community_divided :
    ¬ ∀ (n : Nat) (graph : UnGraph n) (config : LeidenConfig) (shuffles : Shuffles n),
      ∀ round ∈ leidenRounds graph.adjacency graph.twoM config shuffles,
        SameGroups round.moved round.next := by
  intro carries
  have divided : ∃ round ∈ leidenRounds star.adjacency star.twoM {} leavesFirst,
      round.moved.get 0 = round.moved.get 1 ∧ round.next.get 0 ≠ round.next.get 1 := by
    decide +kernel
  obtain ⟨round, member, together, apart⟩ := divided
  exact apart ((carries 4 star {} leavesFirst round member 0 1).mp together)

end UnGraph

end Mneme.Brain
