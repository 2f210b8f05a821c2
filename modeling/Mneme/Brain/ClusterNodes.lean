/-
Which nodes the cluster runner loses.

A split replaces a community by the nodes of the edges between its members, so it loses
the members that have no such edge; nothing else loses a node.
-/

import Mneme.Brain.Communities
import Mneme.Library.Parts

namespace Mneme.Brain

open Library

def allMembers (communities : List Community) : List NodeId :=
  communities.flatMap Community.members

/-! ### The nodes of the graph -/

theorem mem_foldl_addNode (nodes seen : List NodeId) (node : NodeId) :
    node ∈ nodes.foldl addNode seen ↔ node ∈ seen ∨ node ∈ nodes := by
  induction nodes generalizing seen with
  | nil => simp
  | cons first rest ih =>
      rw [List.foldl_cons, ih, List.mem_cons]
      unfold addNode
      split
      · rename_i known
        constructor
        · rintro (old | later)
          · exact Or.inl old
          · exact Or.inr (Or.inr later)
        · rintro (old | rfl | later)
          · exact Or.inl old
          · exact Or.inl known
          · exact Or.inr later
      · rw [List.mem_append, List.mem_singleton, or_assoc]

theorem foldl_addNode_nodup (nodes : List NodeId) {seen : List NodeId} (distinct : seen.Nodup) :
    (nodes.foldl addNode seen).Nodup := by
  induction nodes generalizing seen with
  | nil => exact distinct
  | cons first rest ih =>
      rw [List.foldl_cons]
      apply ih
      unfold addNode
      split
      · exact distinct
      · rename_i unknown
        rw [List.nodup_append]
        refine ⟨distinct, List.nodup_singleton first, ?_⟩
        intro node old other last same
        rw [List.mem_singleton.mp last] at same
        exact unknown (same ▸ old)

theorem mem_graphNodes (edges : List WeightedEdge) (node : NodeId) :
    node ∈ graphNodes edges ↔ node ∈ endpoints edges := by
  unfold graphNodes
  rw [mem_foldl_addNode]
  simp

variable {edges : List WeightedEdge}

theorem mem_endpoints {node : NodeId} :
    node ∈ endpoints edges ↔
      ∃ edge ∈ edges, positiveFinite edge.2.2 = true ∧ (node = edge.1 ∨ node = edge.2.1) := by
  unfold endpoints
  simp only [List.mem_flatMap, List.mem_filter, List.mem_cons, List.not_mem_nil, or_false,
    and_assoc]

section Solve

variable (generator : Generator) (config : ClusterRunnerConfig) (edges : List WeightedEdge)

theorem solve_members_perm :
    (allMembers (solve generator config edges)).Perm (graphNodes edges) := by
  have members := (buildGraph edges).run_members_perm config.leiden (generator config.seed _)
  have ids : (List.finRange (graphNodes edges).length).map (buildGraph edges).ids =
      graphNodes edges := List.map_get_finRange _
  rw [ids] at members
  exact members

theorem solve_nodup : (allMembers (solve generator config edges)).Nodup :=
  (solve_members_perm generator config edges).nodup_iff.mpr
    (foldl_addNode_nodup _ List.nodup_nil)

theorem mem_solve (node : NodeId) :
    node ∈ allMembers (solve generator config edges) ↔ node ∈ endpoints edges := by
  rw [(solve_members_perm generator config edges).mem_iff]
  exact mem_graphNodes edges node

end Solve

/-! ### Renumbering -/

theorem reindex_members_perm (communities : List Community) :
    (allMembers (reindex communities)).Perm (allMembers communities) := by
  have sorted := List.perm_insertionSort
    (fun left right => standsBefore left right = true) communities
  have members : (reindex communities).map Community.members =
      (communities.insertionSort (fun left right => standsBefore left right = true)).map
        Community.members := by
    apply List.ext_getElem
    · simp [reindex]
    · intro index _ _
      simp [reindex]
  unfold allMembers
  rw [List.flatMap_def, members, ← List.flatMap_def]
  exact sorted.flatMap_right _

theorem reindex_ids (communities : List Community) :
    (reindex communities).map Community.id = List.range (reindex communities).length := by
  unfold reindex
  apply List.ext_getElem
  · simp
  · intro index _ _
    simp

/-! ### Splits -/

/-- A community that is split, and the edges between its members. -/
structure Split where
  edges : List WeightedEdge
  community : Community

/-- Each member has an edge of positive finite weight to a member, itself included. -/
def Split.Keeps (split : Split) : Prop :=
  ∀ node ∈ split.community.members, node ∈ endpoints split.edges

section Splitting

variable (generator : Generator)

/-- The pieces that take the place of a community. -/
def pieces (remaining depth : Nat) (config : ClusterRunnerConfig) (edges : List WeightedEdge)
    (totalNodes : Nat) (community : Community) : List Community :=
  match recluster generator config edges totalNodes depth community with
  | none => [community]
  | some subInitial =>
      splitOversized generator remaining (depth + 1) (config.deeper depth)
        (inducedEdges edges community.members) community.members.length subInitial

/-- The splits that a run makes, at all levels. -/
def splits : Nat → Nat → ClusterRunnerConfig → List WeightedEdge → Nat → List Community →
    List Split
  | 0, _, _, _, _, _ => []
  | remaining + 1, depth, config, edges, totalNodes, communities =>
      if totalNodes = 0 ∨ threshold config totalNodes < 4 then []
      else communities.flatMap (fun community =>
        match recluster generator config edges totalNodes depth community with
        | none => []
        | some subInitial =>
            { edges := inducedEdges edges community.members, community } ::
              splits remaining (depth + 1) (config.deeper depth)
                (inducedEdges edges community.members) community.members.length subInitial)

variable {subInitial : List Community}

variable {edges : List WeightedEdge}

variable {community : Community}

theorem recluster_eq_some {config : ClusterRunnerConfig} {totalNodes depth : Nat}
    (split : recluster generator config edges totalNodes depth community = some subInitial) :
    subInitial =
      solve generator (config.deeper depth) (inducedEdges edges community.members) := by
  unfold recluster at split
  split at split
  · cases split
  · split at split
    · cases split
    · dsimp only at split
      split at split
      · cases split
      · exact (Option.some.inj split).symm

theorem mem_of_mem_induced {members : List NodeId} {node : NodeId}
    (member : node ∈ endpoints (inducedEdges edges members)) : node ∈ members := by
  obtain ⟨edge, inside, _, which⟩ := mem_endpoints.mp member
  have both := (List.mem_filter.mp inside).2
  rw [Bool.and_eq_true, List.contains_iff_mem, List.contains_iff_mem] at both
  rcases which with rfl | rfl
  · exact both.1
  · exact both.2

/-- What the levels below make of communities: members stay apart and none are added. -/
def Refines (remaining : Nat) : Prop :=
  ∀ (depth : Nat) (config : ClusterRunnerConfig) (edges : List WeightedEdge) (totalNodes : Nat)
    (communities : List Community), (allMembers communities).Nodup →
      (allMembers (splitOversized generator remaining depth config edges totalNodes
          communities)).Nodup ∧
        ∀ node ∈ allMembers (splitOversized generator remaining depth config edges totalNodes
          communities), node ∈ allMembers communities

section Level

variable {remaining : Nat} (depth : Nat) (config : ClusterRunnerConfig)
  (edges : List WeightedEdge) (totalNodes : Nat) {communities : List Community}

theorem pieces_refine (below : Refines generator remaining) {community : Community}
    (distinct : community.members.Nodup) :
    (allMembers (pieces generator remaining depth config edges totalNodes community)).Nodup ∧
      ∀ node ∈ allMembers (pieces generator remaining depth config edges totalNodes community),
        node ∈ community.members := by
  unfold pieces
  split
  · have alone : allMembers [community] = community.members := List.append_nil _
    rw [alone]
    exact ⟨distinct, fun node member => member⟩
  · rename_i subInitial split
    have solved := recluster_eq_some generator split
    have inner := below (depth + 1) (config.deeper depth) (inducedEdges edges community.members)
      community.members.length subInitial (by rw [solved]; exact solve_nodup _ _ _)
    refine ⟨inner.1, ?_⟩
    intro node member
    have among := inner.2 node member
    rw [solved, mem_solve] at among
    exact mem_of_mem_induced among

theorem splitOversized_members (splitting : ¬ (totalNodes = 0 ∨ threshold config totalNodes < 4)) :
    (allMembers (splitOversized generator (remaining + 1) depth config edges totalNodes
        communities)).Perm
      (communities.flatMap (fun community =>
        allMembers (pieces generator remaining depth config edges totalNodes community))) := by
  rw [splitOversized, if_neg splitting]
  refine (reindex_members_perm _).trans (List.Perm.of_eq ?_)
  unfold allMembers
  rw [List.flatMap_assoc]
  rfl

theorem pieces_refineEach (below : Refines generator remaining)
    (distinct : (allMembers communities).Nodup) :
    RefinesEach communities Community.members (fun community =>
      allMembers (pieces generator remaining depth config edges totalNodes community)) := by
  intro community inside
  exact pieces_refine generator depth config edges totalNodes below
    ((List.nodup_flatMap.mp distinct).1 community inside)

end Level

theorem splitOversized_refines (remaining : Nat) : Refines generator remaining := by
  induction remaining with
  | zero =>
      intro depth config edges totalNodes communities distinct
      have same := reindex_members_perm communities
      exact ⟨same.nodup_iff.mpr distinct, fun node member => same.mem_iff.mp member⟩
  | succ remaining ih =>
      intro depth config edges totalNodes communities distinct
      by_cases splitting : totalNodes = 0 ∨ threshold config totalNodes < 4
      · rw [splitOversized, if_pos splitting]
        have same := reindex_members_perm communities
        exact ⟨same.nodup_iff.mpr distinct, fun node member => same.mem_iff.mp member⟩
      · have same := @splitOversized_members generator remaining depth config edges totalNodes
          communities splitting
        have each := pieces_refineEach generator depth config edges totalNodes ih distinct
        exact ⟨same.nodup_iff.mpr (each.nodup distinct),
          fun node member => each.subset (same.mem_iff.mp member)⟩

/-! ### What is lost -/

/-- All members of the communities are among those of the others. -/
def Covers (communities others : List Community) : Prop :=
  ∀ node ∈ allMembers communities, node ∈ allMembers others

theorem pieces_cover_iff {remaining : Nat} (depth : Nat) (config : ClusterRunnerConfig)
    (edges : List WeightedEdge) (totalNodes : Nat)
    (split : recluster generator config edges totalNodes depth community = some subInitial) :
    (∀ node ∈ community.members, node ∈
        allMembers (pieces generator remaining depth config edges totalNodes community)) ↔
      Split.Keeps { edges := inducedEdges edges community.members, community } ∧
        Covers subInitial (splitOversized generator remaining (depth + 1) (config.deeper depth)
          (inducedEdges edges community.members) community.members.length subInitial) := by
  have solved := recluster_eq_some generator split
  have distinct : (allMembers subInitial).Nodup := by
    rw [solved]
    exact solve_nodup _ _ _
  have inner := splitOversized_refines generator remaining (depth + 1) (config.deeper depth)
    (inducedEdges edges community.members) community.members.length subInitial distinct
  have nodes : ∀ node, node ∈ allMembers subInitial ↔
      node ∈ endpoints (inducedEdges edges community.members) := by
    intro node
    rw [solved]
    exact mem_solve _ _ _ _
  unfold pieces
  rw [split]
  constructor
  · intro kept
    refine ⟨fun node member => (nodes node).mp (inner.2 node (kept node member)), ?_⟩
    intro node member
    exact kept node (mem_of_mem_induced ((nodes node).mp member))
  · intro both node member
    exact both.2 node ((nodes node).mpr (both.1 node member))

theorem splitOversized_covers_iff (remaining depth : Nat) (config : ClusterRunnerConfig)
    (edges : List WeightedEdge) (totalNodes : Nat) {communities : List Community}
    (distinct : (allMembers communities).Nodup) :
    Covers communities (splitOversized generator remaining depth config edges totalNodes
        communities) ↔
      ∀ split ∈ splits generator remaining depth config edges totalNodes communities,
        split.Keeps := by
  induction remaining generalizing depth config edges totalNodes communities with
  | zero =>
      have same := reindex_members_perm communities
      constructor
      · intro _ split member
        cases member
      · intro _ node member
        exact same.mem_iff.mpr member
  | succ remaining ih =>
      by_cases splitting : totalNodes = 0 ∨ threshold config totalNodes < 4
      · rw [splitOversized, if_pos splitting, splits, if_pos splitting]
        have same := reindex_members_perm communities
        constructor
        · intro _ split member
          cases member
        · intro _ node member
          exact same.mem_iff.mpr member
      · have same := @splitOversized_members generator remaining depth config edges totalNodes
          communities splitting
        have each := pieces_refineEach generator depth config edges totalNodes
          (splitOversized_refines generator remaining) distinct
        have exact_parts := each.covers_iff distinct
        unfold Covers
        simp only [same.mem_iff]
        rw [splits, if_neg splitting]
        refine exact_parts.trans ?_
        rw [List.forall_mem_flatMap]
        refine forall_congr' fun community => forall_congr' fun inside => ?_
        cases split : recluster generator config edges totalNodes depth community with
        | none =>
            have alone : allMembers (pieces generator remaining depth config edges totalNodes
                community) = community.members := by
              unfold pieces
              rw [split]
              exact List.append_nil _
            rw [alone]
            simp
        | some subInitial =>
            have solved := recluster_eq_some generator split
            rw [pieces_cover_iff generator depth config edges totalNodes split,
              ih (depth + 1) (config.deeper depth) (inducedEdges edges community.members)
                community.members.length (by rw [solved]; exact solve_nodup _ _ _),
              List.forall_mem_cons]

end Splitting

/-! ### Whole runs -/

/-- The splits of a run over an edge list. -/
def runSplits (generator : Generator) (config : ClusterRunnerConfig) (edges : List WeightedEdge) :
    List Split :=
  splits generator config.maxSplitDepth 0 config edges (graphNodes edges).length
    (solve generator config edges)

/-- The communities are disjoint, have ids of their own, and their members are the ends of
the edges of positive finite weight. -/
structure LosesNoNode (edges : List WeightedEdge) (communities : List Community) : Prop where
  disjoint : communities.Pairwise (fun left right => left.members.Disjoint right.members)
  ids : (communities.map Community.id).Nodup
  members : ∀ node, node ∈ allMembers communities ↔ node ∈ endpoints edges

variable (generator : Generator)

theorem splitOversized_ids (remaining depth : Nat)
    (config : ClusterRunnerConfig) (edges : List WeightedEdge) (totalNodes : Nat)
    (communities : List Community) :
    ((splitOversized generator remaining depth config edges totalNodes communities).map
      Community.id).Nodup := by
  have renumbered : ∀ others, ((reindex others).map Community.id).Nodup := by
    intro others
    rw [reindex_ids]
    exact List.nodup_range
  cases remaining with
  | zero => exact renumbered communities
  | succ remaining =>
      rw [splitOversized]
      split
      · exact renumbered communities
      · exact renumbered _

theorem clusterRun_eq (config : ClusterRunnerConfig) (some_ : edges ≠ []) :
    clusterRun generator config edges =
      splitOversized generator config.maxSplitDepth 0 config edges (graphNodes edges).length
        (solve generator config edges) := by
  unfold clusterRun
  rw [if_neg (by simpa using some_)]

theorem runSplits_nil (config : ClusterRunnerConfig) : runSplits generator config [] = [] := by
  unfold runSplits
  cases config.maxSplitDepth with
  | zero => rfl
  | succ depth =>
      rw [splits]
      exact if_pos (Or.inl rfl)

/-- Node 0 is bound to four nodes, to a leaf, and most to node 1; so the five are left a
community of their own, in which the leaf has no edge. -/
def hubEdges : List WeightedEdge :=
  [(9, 10, some 20), (7, 8, some 20), (5, 6, some 1), (0, 6, some 2), (3, 4, some 1),
    (0, 1, some 20), (0, 2, some 2), (0, 4, some 4), (0, 3, some 3), (0, 5, some 4),
    (11, 12, some 20)]

def inAscendingOrder (n : Nat) : Shuffles n :=
  { move := fun _ => List.finRange n
    refine := fun _ => List.finRange n
    move_perm := fun _ => List.Perm.refl _
    refine_perm := fun _ => List.Perm.refl _ }

/-- The visiting orders of two iterations over thirteen nodes. -/
def seeded : Shuffles 13 :=
  { move := fun iteration =>
      if iteration = 0 then [0, 3, 11, 7, 5, 4, 10, 2, 1, 6, 8, 9, 12]
      else [6, 9, 12, 10, 8, 5, 1, 2, 11, 0, 7, 3, 4]
    refine := fun iteration =>
      if iteration = 0 then [8, 4, 3, 0, 10, 2, 11, 1, 5, 7, 6, 9, 12]
      else [5, 12, 1, 7, 10, 4, 8, 6, 0, 11, 9, 2, 3]
    move_perm := by
      intro iteration
      split <;> decide +kernel
    refine_perm := by
      intro iteration
      split <;> decide +kernel }

def seededGenerator : Generator := fun _ n =>
  if thirteen : n = 13 then thirteen ▸ seeded else inAscendingOrder n

end Mneme.Brain
