/-
The bridges of a graph: how many of the shortest paths between other nodes go through each
of its nodes, and the nodes that most go through.

A graph is known by the neighbours of its nodes, one for each edge at the node and in the
order in which they are read.  Numbers are exact rationals.  The breadth-first part is
described by what the nodes on its stack have added so far; the other part goes back over
the layers, and a node is settled when all nodes of the next layer have passed on their
shares.
-/

import Mathlib.Algebra.BigOperators.Fin
import Mneme.Library.ShortestPaths
import Mneme.Scanners.Architecture

namespace Mneme.Scanners.Architecture

open Library

structure BridgeNode where
  qualifiedName : String
  communityId : UInt32
  betweenness : ℚ

/-! ### The graph -/

/-- The last node of a name counts. -/
def idxOf (nodes : List ArchNode) (name : String) : Option (Fin nodes.length) :=
  (List.finRange nodes.length).reverse.find? (fun i => nodes[i].qualifiedName = name)

/-- The ends of the edges between two known nodes; an edge of a node with itself is left out. -/
def graphEdges (nodes : List ArchNode) (edges : List ArchEdge) :
    List (Fin nodes.length × Fin nodes.length) :=
  edges.filterMap (fun edge =>
    match idxOf nodes edge.source, idxOf nodes edge.target with
    | some si, some ti => if si = ti then none else some (si, ti)
    | _, _ => none)

section Source

variable {n : Nat}

/-! ### Breadth first -/

/-- The last of the stack was pushed last. -/
structure Visit (n : Nat) where
  stack : List (Fin n)
  preds : Fin n → List (Fin n)
  sigma : Fin n → ℚ
  dist : Fin n → ℤ
  queue : List (Fin n)

def Visit.start (s : Fin n) : Visit n where
  stack := []
  preds := fun _ => []
  sigma := Function.update (fun _ => 0) s 1
  dist := Function.update (fun _ => -1) s 0
  queue := [s]

def Visit.discover (visit : Visit n) (v w : Fin n) : Visit n :=
  if visit.dist w < 0 then
    { visit with
      dist := Function.update visit.dist w (visit.dist v + 1)
      queue := visit.queue ++ [w] }
  else visit

def Visit.count (visit : Visit n) (v w : Fin n) : Visit n :=
  if visit.dist w = visit.dist v + 1 then
    { visit with
      sigma := Function.update visit.sigma w (visit.sigma w + visit.sigma v)
      preds := Function.update visit.preds w (visit.preds w ++ [v]) }
  else visit

def Visit.edge (v : Fin n) (visit : Visit n) (w : Fin n) : Visit n :=
  (visit.discover v w).count v w

def Visit.pop (neighbors : Fin n → List (Fin n)) (visit : Visit n) (v : Fin n)
    (rest : List (Fin n)) : Visit n :=
  (neighbors v).foldl (Visit.edge v) { visit with queue := rest, stack := visit.stack ++ [v] }

def Visit.run (neighbors : Fin n → List (Fin n)) : Nat → Visit n → Option (Visit n)
  | 0, visit => if visit.queue.isEmpty then some visit else none
  | fuel + 1, visit =>
      match visit.queue with
      | [] => some visit
      | v :: rest => Visit.run neighbors fuel (visit.pop neighbors v rest)

/-! ### Dependencies -/

/-- What a node passes on to one of its predecessors. -/
def Visit.share (visit : Visit n) (w : Fin n) (delta : Fin n → ℚ) (v : Fin n) : Fin n → ℚ :=
  if 0 < visit.sigma w then
    Function.update delta v (delta v + visit.sigma v / visit.sigma w * (1 + delta w))
  else delta

/-- The dependencies, and the scores. -/
def Visit.settle (visit : Visit n) (s : Fin n) (sums : (Fin n → ℚ) × (Fin n → ℚ)) (w : Fin n) :
    (Fin n → ℚ) × (Fin n → ℚ) :=
  let delta := (visit.preds w).foldl (visit.share w) sums.1
  (delta, if w ≠ s then Function.update sums.2 w (sums.2 w + delta w) else sums.2)

def accumulate (fuel : Nat) (neighbors : Fin n → List (Fin n)) (cb : Fin n → ℚ) (s : Fin n) :
    Option (Fin n → ℚ) :=
  (Visit.run neighbors fuel (Visit.start s)).map (fun visit =>
    (visit.stack.reverse.foldl (visit.settle s) (fun _ => 0, cb)).2)

def maxSources : Nat :=
  2000

def rawScores (fuel : Nat) (neighbors : Fin n → List (Fin n)) : Option (Fin n → ℚ) :=
  ((List.finRange n).take maxSources).foldlM (accumulate fuel neighbors) (fun _ => 0)

def maxScore (cb : Fin n → ℚ) : ℚ :=
  ((List.finRange n).map cb).foldl max 0

def norm (cb : Fin n → ℚ) : ℚ :=
  if 0 < maxScore cb then maxScore cb else 1

end Source

def bridgeNode (nodes : List ArchNode) (cb : Fin nodes.length → ℚ) (i : Fin nodes.length) :
    BridgeNode where
  qualifiedName := nodes[i].qualifiedName
  communityId := nodes[i].communityId
  betweenness := cb i / norm cb

def betweennessTopK (fuel : Nat) (nodes : List ArchNode)
    (neighbors : Fin nodes.length → List (Fin nodes.length)) (k : Nat) :
    Option (List BridgeNode) :=
  if nodes.length = 0 then some []
  else
    (rawScores fuel neighbors).map (fun cb =>
      (((List.finRange nodes.length).map (bridgeNode nodes cb)).insertionSort
        (fun left right => right.betweenness ≤ left.betweenness)).take k)

open ShortestPaths

section Source

variable {n : Nat}

/-! ### The edges of one node -/

/-- What reading these neighbours of a node changes. -/
structure Relaxed (v : Fin n) (ws : List (Fin n)) (before after : Visit n) : Prop where
  stack : after.stack = before.stack
  queue : ∃ new, after.queue = before.queue ++ new ∧ new.Nodup ∧
    ∀ x, x ∈ new ↔ x ∈ ws ∧ before.dist x < 0
  dist : ∀ x, after.dist x =
    if x ∈ ws ∧ before.dist x < 0 then before.dist v + 1 else before.dist x
  sigma : ∀ x, after.sigma x = before.sigma x +
    if after.dist x = before.dist v + 1 then (ws.count x : ℚ) * before.sigma v else 0
  preds : ∀ x, after.preds x = before.preds x ++
    if after.dist x = before.dist v + 1 then List.replicate (ws.count x) v else []

theorem count_snoc_ne {x w : Fin n} (different : x ≠ w) (ws : List (Fin n)) :
    (ws ++ [w]).count x = ws.count x := by
  have absent : [w].count x = 0 :=
    List.count_eq_zero_of_not_mem (fun member => different (List.mem_singleton.mp member))
  rw [List.count_append, absent, Nat.add_zero]

theorem relaxed_edge {v w : Fin n} {ws : List (Fin n)} {before between : Visit n}
    (known : 0 ≤ before.dist v) (relaxed : Relaxed v ws before between) :
    Relaxed v (ws ++ [w]) before (between.edge v w) := by
  have dist_v : between.dist v = before.dist v := by
    rw [relaxed.dist, if_neg]
    rintro ⟨_, unknown⟩
    omega
  have sigma_v : between.sigma v = before.sigma v := by
    rw [relaxed.sigma, dist_v, if_neg (by omega), add_zero]
  obtain ⟨new, queue, distinct, members⟩ := relaxed.queue
  by_cases unknown : between.dist w < 0
  · have absent : w ∉ ws ∧ before.dist w < 0 := by
      have dist_w := relaxed.dist w
      split at dist_w
      · omega
      · rename_i not_both
        rw [dist_w] at unknown
        exact ⟨fun inside => not_both ⟨inside, unknown⟩, unknown⟩
    have different : v ≠ w := by
      intro same
      rw [← same] at absent
      omega
    have discovered : between.discover v w =
        { between with
          dist := Function.update between.dist w (between.dist v + 1)
          queue := between.queue ++ [w] } := if_pos unknown
    have counted : between.edge v w =
        { between with
          dist := Function.update between.dist w (between.dist v + 1)
          queue := between.queue ++ [w]
          sigma := Function.update between.sigma w (between.sigma w + between.sigma v)
          preds := Function.update between.preds w (between.preds w ++ [v]) } := by
      unfold Visit.edge
      rw [discovered]
      apply if_pos
      dsimp only
      rw [Function.update_self, Function.update_of_ne different]
    have dist : ∀ x, (between.edge v w).dist x =
        if x = w then before.dist v + 1 else between.dist x := by
      intro x
      rw [counted]
      dsimp only
      rw [Function.update_apply, dist_v]
    refine ⟨?_, ?_, ?_, ?_, ?_⟩
    · rw [counted]
      exact relaxed.stack
    · refine ⟨new ++ [w], ?_, ?_, ?_⟩
      · rw [counted, ← List.append_assoc, ← queue]
      · apply List.nodup_append'.mpr
        refine ⟨distinct, List.nodup_singleton w, ?_⟩
        intro x inside same
        rw [List.mem_singleton.mp same] at inside
        exact absent.1 ((members w).mp inside).1
      · intro x
        rw [List.mem_append, List.mem_append, List.mem_singleton, members]
        constructor
        · rintro (⟨inside, new⟩ | rfl)
          · exact ⟨Or.inl inside, new⟩
          · exact ⟨Or.inr rfl, absent.2⟩
        · rintro ⟨inside | same, new⟩
          · exact Or.inl ⟨inside, new⟩
          · exact Or.inr same
    · intro x
      rw [dist, relaxed.dist]
      by_cases same : x = w
      · rw [if_pos same, same, if_pos ⟨List.mem_append_right _ (List.mem_singleton_self w), absent.2⟩]
      · simp [same]
    · intro x
      rw [dist]
      by_cases same : x = w
      · rw [if_pos same, if_pos rfl, same, counted]
        dsimp only
        rw [Function.update_self, relaxed.sigma, if_neg (by omega), add_zero, sigma_v,
          List.count_append, List.count_eq_zero_of_not_mem absent.1, List.count_singleton_self]
        simp
      · rw [if_neg same, counted]
        dsimp only
        rw [Function.update_of_ne same, relaxed.sigma, count_snoc_ne same]
    · intro x
      rw [dist]
      by_cases same : x = w
      · rw [if_pos same, if_pos rfl, same, counted]
        dsimp only
        rw [Function.update_self, relaxed.preds, if_neg (by omega), List.append_nil,
          List.count_append, List.count_eq_zero_of_not_mem absent.1, List.count_singleton_self]
        rfl
      · rw [if_neg same, counted]
        dsimp only
        rw [Function.update_of_ne same, relaxed.preds, count_snoc_ne same]
  · have discovered : between.discover v w = between := if_neg unknown
    have edge : between.edge v w = between.count v w := by
      unfold Visit.edge
      rw [discovered]
    have old : ∀ x, (x ∈ ws ++ [w] ∧ before.dist x < 0) ↔ (x ∈ ws ∧ before.dist x < 0) := by
      intro x
      rw [List.mem_append, List.mem_singleton]
      constructor
      · rintro ⟨inside | same, new⟩
        · exact ⟨inside, new⟩
        · rw [same] at new ⊢
          have dist_w := relaxed.dist w
          split at dist_w
          · rename_i both
            exact both
          · omega
      · rintro ⟨inside, new⟩
        exact ⟨Or.inl inside, new⟩
    have fields : (between.edge v w).stack = between.stack ∧
        (between.edge v w).queue = between.queue ∧ (between.edge v w).dist = between.dist := by
      rw [edge]
      unfold Visit.count
      split <;> exact ⟨rfl, rfl, rfl⟩
    refine ⟨fields.1.trans relaxed.stack, ⟨new, fields.2.1.trans queue, distinct, ?_⟩, ?_, ?_, ?_⟩
    · intro x
      rw [old]
      exact members x
    · intro x
      rw [fields.2.2, relaxed.dist]
      simp only [old]
    · intro x
      rw [fields.2.2, edge]
      unfold Visit.count
      by_cases layer : between.dist w = between.dist v + 1
      · rw [if_pos layer]
        by_cases same : x = w
        · dsimp only
          rw [same, Function.update_self, relaxed.sigma, ← dist_v, if_pos layer, if_pos layer,
            sigma_v, List.count_append, List.count_singleton_self]
          push_cast
          ring
        · dsimp only
          rw [Function.update_of_ne same, relaxed.sigma, count_snoc_ne same]
      · rw [if_neg layer, relaxed.sigma]
        by_cases same : x = w
        · rw [same, ← dist_v, if_neg layer, if_neg layer]
        · rw [count_snoc_ne same]
    · intro x
      rw [fields.2.2, edge]
      unfold Visit.count
      by_cases layer : between.dist w = between.dist v + 1
      · rw [if_pos layer]
        by_cases same : x = w
        · dsimp only
          rw [same, Function.update_self, relaxed.preds, ← dist_v, if_pos layer, if_pos layer,
            List.count_append, List.count_singleton_self, List.replicate_succ', List.append_assoc]
        · dsimp only
          rw [Function.update_of_ne same, relaxed.preds, count_snoc_ne same]
      · rw [if_neg layer, relaxed.preds]
        by_cases same : x = w
        · rw [same, ← dist_v, if_neg layer, if_neg layer]
        · rw [count_snoc_ne same]

theorem relaxed_edges {v : Fin n} {before : Visit n} (known : 0 ≤ before.dist v)
    (ws : List (Fin n)) : Relaxed v ws before (ws.foldl (Visit.edge v) before) := by
  induction ws using List.reverseRecOn with
  | nil =>
      refine ⟨rfl, ⟨[], by simp, by simp, by simp⟩, by simp, by simp, ?_⟩
      intro x
      rw [List.count_nil, List.replicate_zero, ite_self, List.append_nil]
      rfl
  | append_singleton ws w ih =>
      rw [List.foldl_append]
      exact relaxed_edge known ih

/-! ### The whole search -/

/-- What the nodes on the stack have found. -/
structure Explored (neighbors : Fin n → List (Fin n)) (s : Fin n) (visit : Visit n) : Prop where
  distinct : (visit.stack ++ visit.queue).Nodup
  seen : ∀ x, 0 ≤ visit.dist x ↔ x ∈ visit.stack ++ visit.queue
  source : visit.dist s = 0
  sorted : (visit.stack ++ visit.queue).Pairwise (fun x y => visit.dist x ≤ visit.dist y)
  close : ∀ x ∈ visit.queue, ∀ y ∈ visit.queue, visit.dist y ≤ visit.dist x + 1
  read : ∀ v ∈ visit.stack, ∀ w ∈ neighbors v, 0 ≤ visit.dist w ∧ visit.dist w ≤ visit.dist v + 1
  before : ∀ x, 0 ≤ visit.dist x → x ≠ s →
    ∃ v ∈ visit.stack, x ∈ neighbors v ∧ visit.dist x = visit.dist v + 1
  sigma : ∀ w, visit.sigma w = (if w = s then 1 else 0) + (visit.stack.map (fun v =>
    if visit.dist w = visit.dist v + 1 then ((neighbors v).count w : ℚ) * visit.sigma v else 0)).sum
  preds : ∀ w, visit.preds w = visit.stack.flatMap (fun v =>
    if visit.dist w = visit.dist v + 1 then List.replicate ((neighbors v).count w) v else [])

variable {neighbors : Fin n → List (Fin n)} {s : Fin n} {visit : Visit n}

theorem explored_start (s : Fin n) : Explored neighbors s (Visit.start s) := by
  have dist : ∀ x, (Visit.start s).dist x = if x = s then 0 else -1 := by
    intro x
    unfold Visit.start
    dsimp only
    rw [Function.update_apply]
  have seen : ∀ x, 0 ≤ (Visit.start s).dist x ↔ x = s := by
    intro x
    rw [dist]
    split
    · rename_i same
      exact iff_of_true (le_refl _) same
    · rename_i different
      exact iff_of_false (by decide) different
  refine ⟨List.nodup_singleton s, ?_, ?_, List.pairwise_singleton _ s, ?_, ?_, ?_, ?_, ?_⟩
  · intro x
    rw [seen]
    exact List.mem_singleton.symm
  · rw [dist, if_pos rfl]
  · intro x member y member'
    rw [List.mem_singleton.mp member, List.mem_singleton.mp member']
    omega
  · intro v member
    cases member
  · intro x known different
    exact absurd ((seen x).mp known) different
  · intro w
    change Function.update (fun _ => (0 : ℚ)) s 1 w = _ + (0 : ℚ)
    rw [Function.update_apply, add_zero]
  · intro w
    rfl

theorem relaxed_pop {v : Fin n} {rest : List (Fin n)} (known : 0 ≤ visit.dist v) :
    Relaxed v (neighbors v) { visit with queue := rest, stack := visit.stack ++ [v] }
      (visit.pop neighbors v rest) :=
  @relaxed_edges _ v { visit with queue := rest, stack := visit.stack ++ [v] } known (neighbors v)

theorem explored_pop (explored : Explored neighbors s visit) {v : Fin n} {rest : List (Fin n)}
    (queue : visit.queue = v :: rest) : Explored neighbors s (visit.pop neighbors v rest) := by
  have distinct := explored.distinct
  have sorted := explored.sorted
  rw [queue] at distinct sorted
  have inQueue : ∀ x ∈ v :: rest, x ∈ visit.queue := fun x member => queue.symm ▸ member
  have known : 0 ≤ visit.dist v :=
    (explored.seen v).mpr (List.mem_append_right _ (inQueue v List.mem_cons_self))
  have relaxed := @relaxed_pop _ neighbors visit v rest known
  obtain ⟨new, queue', newDistinct, members⟩ := relaxed.queue
  have stack' := relaxed.stack
  dsimp only at queue' stack' members
  have behind : ∀ x ∈ visit.stack, visit.dist x ≤ visit.dist v :=
    fun x member => (List.pairwise_append.mp sorted).2.2 x member v List.mem_cons_self
  have ahead : ∀ x ∈ rest, visit.dist v ≤ visit.dist x :=
    fun x member => List.rel_of_pairwise_cons (List.pairwise_append.mp sorted).2.1 member
  have bound : ∀ x, 0 ≤ visit.dist x → visit.dist x ≤ visit.dist v + 1 := by
    intro x seen
    rcases List.mem_append.mp ((explored.seen x).mp seen) with member | member
    · have low := behind x member
      omega
    · exact explored.close v (inQueue v List.mem_cons_self) x member
  have old : ∀ x, 0 ≤ visit.dist x → (visit.pop neighbors v rest).dist x = visit.dist x := by
    intro x seen
    rw [relaxed.dist, if_neg]
    rintro ⟨_, unseen⟩
    exact absurd seen (Int.not_le.mpr unseen)
  have fresh : ∀ x ∈ new, (visit.pop neighbors v rest).dist x = visit.dist v + 1 := by
    intro x member
    rw [relaxed.dist, if_pos ((members x).mp member)]
  have onStack : ∀ x ∈ visit.stack ++ [v], 0 ≤ visit.dist x ∧ visit.dist x ≤ visit.dist v := by
    intro x member
    rcases List.mem_append.mp member with member | same
    · exact ⟨(explored.seen x).mpr (List.mem_append_left _ member), behind x member⟩
    · rw [List.mem_singleton.mp same]
      exact ⟨known, le_refl _⟩
  have inRest : ∀ x ∈ rest, 0 ≤ visit.dist x := fun x member =>
    (explored.seen x).mpr (List.mem_append_right _ (inQueue x (List.mem_cons_of_mem v member)))
  have seen' : ∀ x, 0 ≤ (visit.pop neighbors v rest).dist x ↔ 0 ≤ visit.dist x ∨ x ∈ new := by
    intro x
    rw [relaxed.dist]
    split
    · rename_i both
      exact iff_of_true (by dsimp only; omega) (Or.inr ((members x).mpr both))
    · rename_i not_both
      rw [or_iff_left (fun member => not_both ((members x).mp member))]
  have all : (visit.stack ++ [v]) ++ (rest ++ new) = (visit.stack ++ v :: rest) ++ new := by simp
  have listed : ∀ x, x ∈ visit.stack ++ v :: rest ↔ 0 ≤ visit.dist x := by
    intro x
    rw [explored.seen, queue]
  have sigma_old : ∀ x ∈ visit.stack ++ [v],
      (visit.pop neighbors v rest).sigma x = visit.sigma x := by
    intro x member
    obtain ⟨seen, low⟩ := onStack x member
    have dist : (visit.pop neighbors v rest).dist x ≠ visit.dist v + 1 := by
      rw [old x seen]
      omega
    rw [relaxed.sigma, if_neg dist, add_zero]
  -- a node that was not there before has no edge from the nodes on the stack
  have unread : ∀ u ∈ visit.stack, ∀ w, ¬ 0 ≤ visit.dist w → (neighbors u).count w = 0 := by
    intro u member w unseen
    apply List.count_eq_zero_of_not_mem
    intro edge
    exact unseen (explored.read u member w edge).1
  refine ⟨?_, ?_, ?_, ?_, ?_, ?_, ?_, ?_, ?_⟩
  · rw [stack', queue', all]
    apply List.nodup_append'.mpr
    refine ⟨distinct, newDistinct, ?_⟩
    intro x member member'
    have seen := (listed x).mp member
    have unseen := ((members x).mp member').2
    omega
  · intro x
    rw [seen', stack', queue', all, List.mem_append (s := visit.stack ++ v :: rest), listed]
  · rw [old s (le_of_eq explored.source.symm)]
    exact explored.source
  · rw [stack', queue', all]
    apply List.pairwise_append.mpr
    refine ⟨?_, ?_, ?_⟩
    · apply sorted.imp_of_mem
      intro x y member member' order
      rwa [old x ((listed x).mp member), old y ((listed y).mp member')]
    · apply newDistinct.imp_of_mem
      intro x y member member' _
      rw [fresh x member, fresh y member']
    · intro x member y member'
      rw [old x ((listed x).mp member), fresh y member']
      exact bound x ((listed x).mp member)
  · have range : ∀ x ∈ rest ++ new, visit.dist v ≤ (visit.pop neighbors v rest).dist x ∧
        (visit.pop neighbors v rest).dist x ≤ visit.dist v + 1 := by
      intro x member
      rcases List.mem_append.mp member with member | member
      · rw [old x (inRest x member)]
        exact ⟨ahead x member, bound x (inRest x member)⟩
      · rw [fresh x member]
        omega
    rw [queue']
    intro x member y member'
    have low := (range x member).1
    have high := (range y member').2
    omega
  · rw [stack']
    intro u member w edge
    rw [old u (onStack u member).1]
    rcases List.mem_append.mp member with member | same
    · obtain ⟨seen, near⟩ := explored.read u member w edge
      rw [old w seen]
      exact ⟨seen, near⟩
    · rw [List.mem_singleton.mp same] at edge ⊢
      by_cases seen : 0 ≤ visit.dist w
      · rw [old w seen]
        exact ⟨seen, bound w seen⟩
      · rw [fresh w ((members w).mpr ⟨edge, by omega⟩)]
        omega
  · intro x seen different
    rw [stack']
    rcases (seen' x).mp seen with seen | member
    · obtain ⟨u, member, edge, dist⟩ := explored.before x seen different
      refine ⟨u, List.mem_append_left _ member, edge, ?_⟩
      rw [old x seen, old u (onStack u (List.mem_append_left _ member)).1]
      exact dist
    · refine ⟨v, List.mem_append_right _ (List.mem_singleton_self v), ((members x).mp member).1, ?_⟩
      rw [fresh x member, old v known]
  · intro w
    have terms : visit.stack.map (fun u =>
        if (visit.pop neighbors v rest).dist w = (visit.pop neighbors v rest).dist u + 1 then
          ((neighbors u).count w : ℚ) * (visit.pop neighbors v rest).sigma u else 0) =
        visit.stack.map (fun u => if visit.dist w = visit.dist u + 1 then
          ((neighbors u).count w : ℚ) * visit.sigma u else 0) := by
      apply List.map_congr_left
      intro u member
      have onStack' := List.mem_append_left [v] member
      rw [sigma_old u onStack', old u (onStack u onStack').1]
      by_cases seen : 0 ≤ visit.dist w
      · rw [old w seen]
      · rw [unread u member w seen, Nat.cast_zero, zero_mul, ite_self, ite_self]
    rw [stack', List.map_append, List.sum_append, terms, ← add_assoc, ← explored.sigma,
      relaxed.sigma, List.map_singleton, List.sum_singleton, old v known,
      sigma_old v (List.mem_append_right _ (List.mem_singleton_self v))]
  · intro w
    have terms : visit.stack.flatMap (fun u =>
        if (visit.pop neighbors v rest).dist w = (visit.pop neighbors v rest).dist u + 1 then
          List.replicate ((neighbors u).count w) u else []) =
        visit.stack.flatMap (fun u => if visit.dist w = visit.dist u + 1 then
          List.replicate ((neighbors u).count w) u else []) := by
      apply List.flatMap_congr
      intro u member
      rw [old u (onStack u (List.mem_append_left [v] member)).1]
      by_cases seen : 0 ≤ visit.dist w
      · rw [old w seen]
      · rw [unread u member w seen, List.replicate_zero, ite_self, ite_self]
    rw [stack', List.flatMap_append, terms, ← explored.preds, relaxed.preds, List.flatMap_singleton,
      old v known]

variable {fuel : Nat}

theorem run_explored (explored : Explored neighbors s visit)
    (enough : n ≤ fuel + visit.stack.length) :
    ∃ after, Visit.run neighbors fuel visit = some after ∧ Explored neighbors s after ∧
      after.queue = [] := by
  induction fuel generalizing visit with
  | zero =>
      have size := explored.distinct.length_le_card
      rw [Fintype.card_fin, List.length_append] at size
      have empty : visit.queue = [] := List.length_eq_zero_iff.mp (by omega)
      exact ⟨visit, if_pos (List.isEmpty_iff.mpr empty), explored, empty⟩
  | succ fuel ih =>
      unfold Visit.run
      split
      · rename_i empty
        exact ⟨visit, rfl, explored, empty⟩
      · rename_i v rest queue
        have popped := explored_pop explored queue
        apply ih popped
        have known : 0 ≤ visit.dist v :=
          (explored.seen v).mpr (List.mem_append_right _ (queue ▸ List.mem_cons_self))
        rw [(@relaxed_pop _ neighbors visit v rest known).stack]
        simp only [List.length_append, List.length_singleton]
        omega

/-! ### Lists of predecessors -/

theorem count_replicates {nodes : List (Fin n)} (distinct : nodes.Nodup) {test : Fin n → Prop}
    [DecidablePred test] (times : Fin n → Nat) (v : Fin n) :
    (nodes.flatMap (fun u => if test u then List.replicate (times u) u else [])).count v =
      if v ∈ nodes ∧ test v then times v else 0 := by
  induction nodes with
  | nil => simp
  | cons u nodes ih =>
      obtain ⟨absent, distinct⟩ := List.nodup_cons.mp distinct
      rw [List.flatMap_cons, List.count_append, ih distinct]
      by_cases same : v = u
      · have own : (if test u then List.replicate (times u) u else []).count u =
            if test u then times u else 0 := by
          split
          · exact List.count_replicate_self
          · rfl
        have later : (if u ∈ nodes ∧ test u then times u else 0) = 0 :=
          if_neg (fun both => absent both.1)
        rw [same, own, later, Nat.add_zero]
        apply if_congr _ rfl rfl
        rw [and_iff_right List.mem_cons_self]
      · have none : (if test u then List.replicate (times u) u else []).count v = 0 := by
          apply List.count_eq_zero_of_not_mem
          intro member
          split at member
          · exact same (List.eq_of_mem_replicate member)
          · cases member
        rw [none, Nat.zero_add]
        apply if_congr _ rfl rfl
        rw [List.mem_cons, or_iff_right same]

theorem share_fold {w : Fin n} {nodes : List (Fin n)} (positive : 0 < visit.sigma w)
    (absent : w ∉ nodes) (delta : Fin n → ℚ) (v : Fin n) :
    nodes.foldl (visit.share w) delta v =
      delta v + nodes.count v * (visit.sigma v / visit.sigma w * (1 + delta w)) := by
  induction nodes using List.reverseRecOn generalizing v with
  | nil => simp
  | append_singleton nodes u ih =>
      have absent' : w ∉ nodes := fun member => absent (List.mem_append_left _ member)
      have here : nodes.foldl (visit.share w) delta w = delta w := by
        rw [ih absent', List.count_eq_zero_of_not_mem absent', Nat.cast_zero, zero_mul, add_zero]
      have last : (nodes ++ [u]).foldl (visit.share w) delta =
          Function.update (nodes.foldl (visit.share w) delta) u
            (nodes.foldl (visit.share w) delta u +
              visit.sigma u / visit.sigma w * (1 + delta w)) := by
        rw [List.foldl_append, ← here]
        exact if_pos positive
      rw [last]
      by_cases same : v = u
      · rw [same, Function.update_self, ih absent', List.count_append, List.count_singleton_self]
        push_cast
        ring
      · rw [Function.update_of_ne same, ih absent', count_snoc_ne same]

theorem settle_snd (sums : (Fin n → ℚ) × (Fin n → ℚ)) (w : Fin n) :
    (visit.settle s sums w).2 =
      if w ≠ s then Function.update sums.2 w (sums.2 w + (visit.settle s sums w).1 w)
      else sums.2 := rfl

/-! ### The layers of a search that has ended -/

/-- The neighbours of a node are the other ends of its edges, in some order. -/
def Incident (edges : List (Fin n × Fin n)) (neighbors : Fin n → List (Fin n)) : Prop :=
  ∀ v, (neighbors v).Perm ((incident edges v).map Prod.snd)

variable {edges : List (Fin n × Fin n)}

theorem count_neighbors (incidentEach : Incident edges neighbors) (v w : Fin n) :
    (neighbors v).count w = ends edges v w := by
  rw [(incidentEach v).count_eq, List.count_eq_countP, List.countP_map]
  apply List.countP_congr
  intro step _
  simp

theorem mem_neighbors (incidentEach : Incident edges neighbors) {v w : Fin n} :
    w ∈ neighbors v ↔ ends edges v w ≠ 0 := by
  rw [← count_neighbors incidentEach, ← List.count_pos_iff, Nat.pos_iff_ne_zero]

/-- The distance of a node that was found. -/
def Visit.depth (visit : Visit n) (v : Fin n) : Nat :=
  (visit.dist v).toNat

section Ended

variable (incidentEach : Incident edges neighbors) (explored : Explored neighbors s visit)
  (ended : visit.queue = [])
include explored ended

variable {x : Fin n}

theorem mem_stack : x ∈ visit.stack ↔ 0 ≤ visit.dist x := by
  rw [explored.seen, ended, List.append_nil]

theorem dist_depth (member : x ∈ visit.stack) : visit.dist x = visit.depth x := by
  have known := (mem_stack explored ended).mp member
  unfold Visit.depth
  omega

variable {v w : Fin n}

theorem depth_eq (member : v ∈ visit.stack) :
    visit.dist w = visit.dist v + 1 ↔ w ∈ visit.stack ∧ visit.depth w = visit.depth v + 1 := by
  have known := (mem_stack explored ended).mp member
  rw [mem_stack explored ended]
  unfold Visit.depth
  omega

theorem sum_stack (value : Fin n → ℚ) :
    (visit.stack.map value).sum = ∑ v ∈ visit.stack.toFinset, value v := by
  have distinct := explored.distinct
  rw [ended, List.append_nil] at distinct
  exact (List.sum_toFinset value distinct).symm

/-- The nodes of the next layer are behind a node on the stack. -/
theorem sum_behind {left right : List (Fin n)}
    (split : visit.stack = left ++ w :: right) (value : Fin n → ℚ) :
    (right.map (fun u => if visit.depth u = visit.depth w + 1 then value u else 0)).sum =
      ∑ u ∈ visit.stack.toFinset with visit.depth u = visit.depth w + 1, value u := by
  have sorted := explored.sorted
  rw [ended, List.append_nil, split] at sorted
  have inside : ∀ u ∈ left ++ [w], u ∈ visit.stack := by
    intro u member
    rw [split]
    rcases List.mem_append.mp member with member | same
    · exact List.mem_append_left _ member
    · rw [List.mem_singleton.mp same]
      exact List.mem_append_right _ List.mem_cons_self
  have early : ∀ u ∈ left ++ [w], visit.depth u ≠ visit.depth w + 1 := by
    intro u member
    have low : visit.dist u ≤ visit.dist w := by
      rcases List.mem_append.mp member with member | same
      · exact (List.pairwise_append.mp sorted).2.2 u member w List.mem_cons_self
      · rw [List.mem_singleton.mp same]
    rw [dist_depth explored ended (inside u member),
      dist_depth explored ended (inside w (List.mem_append_right _ (List.mem_singleton_self w)))] at low
    omega
  have none : ((left ++ [w]).map (fun u =>
      if visit.depth u = visit.depth w + 1 then value u else 0)).sum = 0 := by
    apply List.sum_eq_zero
    intro term member
    obtain ⟨u, member', rfl⟩ := List.mem_map.mp member
    exact if_neg (early u member')
  have whole : left ++ w :: right = (left ++ [w]) ++ right := by simp
  rw [Finset.sum_filter, ← sum_stack explored ended, split, whole, List.map_append, List.sum_append,
    none, zero_add]

include incidentEach

theorem layered_visit : Layered edges s visit.stack.toFinset visit.depth := by
  have reaches : ∀ depth x, x ∈ visit.stack → visit.depth x = depth →
      (ends edges ^ depth) s x ≠ 0 := by
    intro depth
    induction depth with
    | zero =>
        intro x member zero
        have same : x = s := by
          by_contra different
          obtain ⟨v, inside, _, further⟩ :=
            explored.before x ((mem_stack explored ended).mp member) different
          have next := ((depth_eq explored ended inside).mp further).2
          omega
        rw [same, pow_zero, Matrix.one_apply_eq]
        exact one_ne_zero
    | succ depth ih =>
        intro x member more
        have different : x ≠ s := by
          intro same
          have zero := explored.source
          rw [same] at member more
          rw [dist_depth explored ended member] at zero
          omega
        obtain ⟨v, inside, edge, further⟩ :=
          explored.before x ((mem_stack explored ended).mp member) different
        have next := ((depth_eq explored ended inside).mp further).2
        apply counted_join (ih v inside (by omega))
        rw [pow_one]
        exact (mem_neighbors incidentEach).mp edge
  have reached : ∀ length x, (ends edges ^ length) s x ≠ 0 →
      x ∈ visit.stack ∧ visit.depth x ≤ length := by
    intro length
    induction length with
    | zero =>
        intro x counted
        rw [pow_zero, Matrix.one_apply] at counted
        split at counted
        · rename_i same
          rw [← same]
          refine ⟨(mem_stack explored ended).mpr (le_of_eq explored.source.symm), ?_⟩
          unfold Visit.depth
          rw [explored.source]
          rfl
        · exact absurd rfl counted
    | succ length ih =>
        intro x counted
        rw [pow_succ, Matrix.mul_apply] at counted
        obtain ⟨v, _, product⟩ := Finset.exists_ne_zero_of_sum_ne_zero counted
        obtain ⟨member, near⟩ := ih v (left_ne_zero_of_mul product)
        have edge := (mem_neighbors incidentEach).mpr (right_ne_zero_of_mul product)
        obtain ⟨known, further⟩ := explored.read v member x edge
        have member' := (mem_stack explored ended).mpr known
        rw [dist_depth explored ended member, dist_depth explored ended member'] at further
        exact ⟨member', by omega⟩
  refine ⟨?_, ?_⟩
  · intro x member
    have inside := List.mem_toFinset.mp member
    refine ⟨reaches _ x inside rfl, ?_⟩
    intro shorter less
    by_contra counted
    have far := (reached shorter x counted).2
    omega
  · intro x outside length
    by_contra counted
    exact outside (List.mem_toFinset.mpr (reached length x counted).1)

theorem sigma_visit (member : x ∈ visit.stack) : visit.sigma x = sigma edges s visit.depth x := by
  have layered := layered_visit incidentEach explored ended
  generalize size : visit.depth x = depth
  induction depth using Nat.strong_induction_on generalizing x with
  | _ depth ih =>
      rw [explored.sigma, sum_stack explored ended, sigma, size]
      by_cases same : x = s
      · have zero : depth = 0 := by
          have source := explored.source
          rw [← same, dist_depth explored ended member] at source
          omega
        rw [if_pos same, same, zero, pow_zero, Matrix.one_apply_eq]
        have none : ∑ v ∈ visit.stack.toFinset, (if visit.dist s = visit.dist v + 1 then
            ((neighbors v).count s : ℚ) * visit.sigma v else 0) = 0 := by
          apply Finset.sum_eq_zero
          intro v inside
          rw [if_neg]
          rw [depth_eq explored ended (List.mem_toFinset.mp inside)]
          rintro ⟨_, next⟩
          rw [same] at size
          omega
        rw [none, Nat.cast_one, add_zero]
      · obtain ⟨v, inside, _, further⟩ :=
          explored.before x ((mem_stack explored ended).mp member) same
        have next := ((depth_eq explored ended inside).mp further).2
        obtain ⟨before, rfl⟩ : ∃ before, depth = before + 1 := ⟨visit.depth v, by omega⟩
        rw [if_neg same, zero_add, pow_succ, Matrix.mul_apply, Nat.cast_sum,
          ← Finset.sum_subset (Finset.subset_univ visit.stack.toFinset)]
        · apply Finset.sum_congr rfl
          intro u inside
          have onStack := List.mem_toFinset.mp inside
          rw [count_neighbors incidentEach]
          by_cases layer : visit.depth u = before
          · rw [if_pos ((depth_eq explored ended onStack).mpr ⟨member, by omega⟩),
              ih before (Nat.lt_succ_self _) onStack layer, sigma, layer]
            push_cast
            ring
          · rw [if_neg (fun further =>
              layer (by have next := ((depth_eq explored ended onStack).mp further).2; omega))]
            symm
            -- no path of the length before reaches a node of another layer that leads here
            rw [Nat.cast_eq_zero, Nat.mul_eq_zero]
            by_contra product
            rw [not_or] at product
            have far := (dist_le layered product.1).2
            have near := (dist_edge layered inside product.2).2
            omega
        · intro u _ outside
          rw [layered.outside u outside, Nat.zero_mul, Nat.cast_zero]

theorem count_preds :
    (visit.preds w).count v =
      if v ∈ visit.stack ∧ visit.dist w = visit.dist v + 1 then ends edges v w else 0 := by
  have distinct := explored.distinct
  rw [ended, List.append_nil] at distinct
  rw [explored.preds, count_replicates distinct, count_neighbors incidentEach]

/-- What is summed up when the nodes behind have been settled. -/
theorem settle_behind (cb : Fin n → ℚ) {right : List (Fin n)} (behind : right <:+ visit.stack) :
    (∀ v ∈ visit.stack,
      (right.foldr (fun w sums => visit.settle s sums w) (fun _ => 0, cb)).1 v =
        (right.map (fun w => if visit.depth w = visit.depth v + 1 then
          ends edges v w * (sigma edges s visit.depth v / sigma edges s visit.depth w) *
            dependency edges s visit.stack.toFinset visit.depth w else 0)).sum) ∧
    ∀ x, (right.foldr (fun w sums => visit.settle s sums w) (fun _ => 0, cb)).2 x =
      cb x + if x ∈ right ∧ x ≠ s then
        dependency edges s visit.stack.toFinset visit.depth x - 1 else 0 := by
  have layered := layered_visit incidentEach explored ended
  have distinct := explored.distinct
  rw [ended, List.append_nil] at distinct
  induction right with
  | nil =>
      refine ⟨fun v _ => rfl, fun x => ?_⟩
      rw [if_neg (fun both => List.not_mem_nil both.1), add_zero]
      rfl
  | cons w right ih =>
      obtain ⟨left, split⟩ := behind
      obtain ⟨deltas, scores⟩ := ih ⟨left ++ [w], by rw [← split]; simp⟩
      have inside : w ∈ visit.stack := by
        rw [← split]
        exact List.mem_append_right _ List.mem_cons_self
      have absent : w ∉ right := by
        rw [← split] at distinct
        exact (List.nodup_cons.mp (List.nodup_append'.mp distinct).2.1).1
      have sigma_w := sigma_visit incidentEach explored ended inside
      have positive : 0 < visit.sigma w := by
        rw [sigma_w, sigma]
        exact Nat.cast_pos.mpr (Nat.pos_of_ne_zero (layered.inside w (List.mem_toFinset.mpr inside)).1)
      have delta_w : (right.foldr (fun w sums => visit.settle s sums w) (fun _ => 0, cb)).1 w =
          dependency edges s visit.stack.toFinset visit.depth w - 1 := by
        rw [deltas w inside, sum_behind explored ended split.symm,
          dependency_step layered (List.mem_toFinset.mpr inside), add_sub_cancel_left]
      have self_free : w ∉ visit.preds w := by
        intro member
        have count := List.count_pos_iff.mpr member
        rw [count_preds incidentEach explored ended, if_neg (by omega)] at count
        exact Nat.lt_irrefl _ count
      have shared : ∀ v, (visit.settle s
          (right.foldr (fun w sums => visit.settle s sums w) (fun _ => 0, cb)) w).1 v = _ :=
        share_fold positive self_free
          (right.foldr (fun w sums => visit.settle s sums w) (fun _ => 0, cb)).1
      rw [delta_w] at shared
      constructor
      · intro v member
        rw [List.foldr_cons, List.map_cons, List.sum_cons, ← deltas v member, shared,
          count_preds incidentEach explored ended, sigma_visit incidentEach explored ended member,
          sigma_w]
        by_cases layer : visit.depth w = visit.depth v + 1
        · rw [if_pos ⟨member, (depth_eq explored ended member).mpr ⟨inside, layer⟩⟩, if_pos layer]
          ring
        · rw [if_neg (fun both => layer ((depth_eq explored ended member).mp both.2).2),
            if_neg layer]
          ring
      · intro x
        rw [List.foldr_cons, settle_snd]
        by_cases source : w = s
        · rw [if_neg (not_not.mpr source), scores]
          congr 1
          apply if_congr _ rfl rfl
          rw [List.mem_cons, source]
          tauto
        · rw [if_pos source, Function.update_apply]
          by_cases same : x = w
          · rw [if_pos same, shared, List.count_eq_zero_of_not_mem self_free, scores, same,
              if_neg (fun both => absent both.1), if_pos ⟨List.mem_cons_self, source⟩, delta_w]
            push_cast
            ring
          · rw [if_neg same, scores]
            congr 1
            apply if_congr _ rfl rfl
            rw [List.mem_cons, or_iff_right same]

/-- One source adds the fractions of its own shortest paths. -/
theorem accumulate_exact (cb : Fin n → ℚ) (x : Fin n) :
    (visit.stack.reverse.foldl (visit.settle s) (fun _ => 0, cb)).2 x =
      cb x + ∑ t, if s ≠ x ∧ t ≠ x then fraction edges s t x else 0 := by
  have layered := layered_visit incidentEach explored ended
  rw [List.foldl_reverse, (settle_behind incidentEach explored ended cb (List.suffix_refl _)).2 x]
  congr 1
  by_cases source : s = x
  · rw [if_neg (fun both => both.2 source.symm), Finset.sum_eq_zero]
    intro t _
    exact if_neg (fun both => both.1 source)
  · have terms : ∀ t, (if s ≠ x ∧ t ≠ x then fraction edges s t x else 0) =
        if t ≠ x then fraction edges s t x else 0 :=
      fun t => if_congr (and_iff_right source) rfl rfl
    rw [Finset.sum_congr rfl (fun t _ => terms t), sum_fractions layered x]
    apply if_congr _ rfl rfl
    rw [List.mem_toFinset, and_iff_left (Ne.symm source)]

end Ended

/-! ### All sources -/

theorem accumulate_source (incidentEach : Incident edges neighbors) (enough : n ≤ fuel)
    (cb : Fin n → ℚ) (s : Fin n) :
    ∃ scores, accumulate fuel neighbors cb s = some scores ∧ ∀ x, scores x =
      cb x + ∑ t, if s ≠ x ∧ t ≠ x then fraction edges s t x else 0 := by
  obtain ⟨visit, ran, explored, ended⟩ := run_explored (explored_start s) enough
  refine ⟨_, ?_, accumulate_exact incidentEach explored ended cb⟩
  unfold accumulate
  rw [ran, Option.map_some]

theorem accumulate_sources (incidentEach : Incident edges neighbors) (enough : n ≤ fuel)
    (sources : List (Fin n)) (cb : Fin n → ℚ) :
    ∃ scores, sources.foldlM (accumulate fuel neighbors) cb = some scores ∧ ∀ x, scores x =
      cb x + (sources.map (fun s => ∑ t, if s ≠ x ∧ t ≠ x then fraction edges s t x else 0)).sum := by
  induction sources generalizing cb with
  | nil =>
      refine ⟨cb, rfl, fun x => ?_⟩
      rw [List.map_nil, List.sum_nil, add_zero]
  | cons s sources ih =>
      obtain ⟨between, first, added⟩ := accumulate_source incidentEach enough cb s
      obtain ⟨scores, rest, added'⟩ := ih between
      refine ⟨scores, ?_, fun x => ?_⟩
      · rw [List.foldlM_cons, first]
        exact rest
      · rw [added', added, List.map_cons, List.sum_cons, add_assoc]

theorem rawScores_exact (incidentEach : Incident edges neighbors) (enough : n ≤ fuel)
    (capped : n ≤ maxSources) : rawScores fuel neighbors = some (betweenness edges) := by
  have all : (List.finRange n).take maxSources = List.finRange n :=
    List.take_of_length_le (by rwa [List.length_finRange])
  obtain ⟨scores, found, added⟩ :=
    accumulate_sources incidentEach enough (List.finRange n) (fun _ => 0)
  unfold rawScores
  rw [all, found]
  congr 1
  funext x
  rw [added, zero_add, betweenness, Fin.sum_univ_def]

/-! ### The highest scores -/

theorem maxScore_spec (cb : Fin n → ℚ) :
    0 ≤ maxScore cb ∧ (∀ v, cb v ≤ maxScore cb) ∧
      (maxScore cb = 0 ∨ ∃ v, cb v = maxScore cb) := by
  have folded : ∀ (scores : List ℚ) (first : ℚ),
      (first ≤ scores.foldl max first ∧ ∀ score ∈ scores, score ≤ scores.foldl max first) ∧
        (scores.foldl max first = first ∨ scores.foldl max first ∈ scores) := by
    intro scores
    induction scores with
    | nil => exact fun first => ⟨⟨le_refl first, fun _ member => by cases member⟩, Or.inl rfl⟩
    | cons score scores ih =>
        intro first
        obtain ⟨⟨above, each⟩, attained⟩ := ih (max first score)
        rw [List.foldl_cons]
        refine ⟨⟨le_trans (le_max_left ..) above, ?_⟩, ?_⟩
        · intro other member
          rcases List.mem_cons.mp member with rfl | member
          · exact le_trans (le_max_right ..) above
          · exact each other member
        · rcases attained with same | member
          · rw [same]
            rcases max_choice first score with left | right
            · exact Or.inl left
            · rw [right]
              exact Or.inr List.mem_cons_self
          · exact Or.inr (List.mem_cons_of_mem _ member)
  obtain ⟨⟨above, each⟩, attained⟩ := folded ((List.finRange n).map cb) 0
  refine ⟨above, fun v => each _ (List.mem_map_of_mem (List.mem_finRange v)), ?_⟩
  apply attained.imp_right
  intro member
  obtain ⟨v, _, same⟩ := List.mem_map.mp member
  exact ⟨v, same⟩

theorem norm_pos (cb : Fin n → ℚ) : 0 < norm cb := by
  unfold norm
  split
  · assumption
  · exact one_pos

theorem betweenness_nonneg (v : Fin n) : 0 ≤ betweenness edges v := by
  apply Finset.sum_nonneg
  intro s _
  apply Finset.sum_nonneg
  intro t _
  split
  · exact div_nonneg (Nat.cast_nonneg _) (Nat.cast_nonneg _)
  · exact le_refl 0

/-- The greatest of the scores. -/
theorem maxScore_betweenness (edges : List (Fin n × Fin n)) (some_ : n ≠ 0) :
    IsGreatest (Set.range (betweenness edges)) (maxScore (betweenness edges)) := by
  obtain ⟨_, each, attained⟩ := maxScore_spec (betweenness edges)
  refine ⟨?_, ?_⟩
  · rcases attained with zero | found
    · -- no score is positive, so that of any node will do
      let v : Fin n := ⟨0, Nat.pos_of_ne_zero some_⟩
      have low := each v
      rw [zero] at low ⊢
      exact ⟨v, le_antisymm low (betweenness_nonneg v)⟩
    · exact found
  · rintro _ ⟨v, rfl⟩
    exact each v

end Source

theorem topK_sorted (nodes : List ArchNode) (cb : Fin nodes.length → ℚ) :
    ((List.finRange nodes.length).map (bridgeNode nodes cb)).insertionSort
        (fun left right => right.betweenness ≤ left.betweenness) =
      ((List.finRange nodes.length).insertionSort (fun v w => cb w ≤ cb v)).map
        (bridgeNode nodes cb) := by
  symm
  apply List.map_insertionSort
  intro v _ w _
  exact (div_le_div_iff_of_pos_right (norm_pos cb)).symm

theorem descending (cb : Fin n → ℚ) :
    ((List.finRange n).insertionSort (fun v w => cb w ≤ cb v)).Pairwise (fun v w => cb w ≤ cb v) := by
  have : Std.Total (fun v w : Fin n => cb w ≤ cb v) := ⟨fun v w => le_total (cb w) (cb v)⟩
  have : IsTrans (Fin n) (fun v w => cb w ≤ cb v) :=
    ⟨fun _ _ _ first second => le_trans second first⟩
  exact List.pairwise_insertionSort _ _

theorem normalised (edges : List (Fin n × Fin n)) (v : Fin n) :
    betweenness edges v / norm (betweenness edges) =
      if maxScore (betweenness edges) = 0 then 0
      else betweenness edges v / maxScore (betweenness edges) := by
  obtain ⟨above, each, _⟩ := maxScore_spec (betweenness edges)
  unfold norm
  by_cases zero : maxScore (betweenness edges) = 0
  · have none : betweenness edges v = 0 :=
      le_antisymm (zero ▸ each v) (betweenness_nonneg v)
    rw [if_pos zero, none, zero_div]
  · rw [if_neg zero, if_pos (lt_of_le_of_ne above (Ne.symm zero))]

/-- The raw scores are the sums of the fractions, and the bridges are the nodes of the highest
scores in descending order, with their parts of the greatest score. -/
theorem betweennessTopK_exact {nodes : List ArchNode} (capped : nodes.length ≤ maxSources)
    {edges : List (Fin nodes.length × Fin nodes.length)}
    {neighbors : Fin nodes.length → List (Fin nodes.length)}
    (incidentEach : Incident edges neighbors) {fuel : Nat} (enough : nodes.length ≤ fuel)
    (k : Nat) :
    rawScores fuel neighbors = some (betweenness edges) ∧
      ∃ (top : ℚ) (order : List (Fin nodes.length)),
        (nodes ≠ [] → IsGreatest (Set.range (betweenness edges)) top) ∧
        order.Perm (List.finRange nodes.length) ∧
        order.Pairwise (fun v w => betweenness edges w ≤ betweenness edges v) ∧
        betweennessTopK fuel nodes neighbors k = some ((order.take k).map (fun v =>
          { qualifiedName := nodes[v].qualifiedName
            communityId := nodes[v].communityId
            betweenness := if top = 0 then 0 else betweenness edges v / top })) := by
  have exact_ := rawScores_exact incidentEach enough capped
  refine ⟨exact_, maxScore (betweenness edges), (List.finRange nodes.length).insertionSort
    (fun v w => betweenness edges w ≤ betweenness edges v), ?_, List.perm_insertionSort _ _,
    descending (betweenness edges), ?_⟩
  · intro some_
    exact maxScore_betweenness edges (fun none => some_ (List.length_eq_zero_iff.mp none))
  · unfold betweennessTopK
    split
    · rename_i empty
      have nothing : List.finRange nodes.length = [] := by
        rw [← List.length_eq_zero_iff, List.length_finRange]
        exact empty
      rw [nothing, List.insertionSort_nil, List.take_nil, List.map_nil]
    · rw [exact_, Option.map_some, topK_sorted, List.map_take]
      congr 2
      apply List.map_congr_left
      intro v _
      unfold bridgeNode
      rw [normalised]

/-- Two ends of a path that meet in its middle. -/
theorem middle_bridge :
    let nodes : List ArchNode := [⟨"a", 0⟩, ⟨"hub", 0⟩, ⟨"b", 1⟩]
    let edges := graphEdges nodes [⟨"a", "hub"⟩, ⟨"hub", "b"⟩, ⟨"hub", "hub"⟩]
    let neighbors := fun v => (incident edges v).map Prod.snd
    rawScores 3 neighbors = some (betweenness edges) ∧
      ∃ (top : ℚ) (order : List (Fin nodes.length)),
        (nodes ≠ [] → IsGreatest (Set.range (betweenness edges)) top) ∧
        order.Perm (List.finRange nodes.length) ∧
        order.Pairwise (fun v w => betweenness edges w ≤ betweenness edges v) ∧
        betweennessTopK 3 nodes neighbors 1 = some ((order.take 1).map (fun v =>
          { qualifiedName := nodes[v].qualifiedName
            communityId := nodes[v].communityId
            betweenness := if top = 0 then 0 else betweenness edges v / top })) := by
  intro nodes edges neighbors
  exact @betweennessTopK_exact nodes (by decide) edges neighbors (fun v => List.Perm.refl _) 3
    (by decide) 1

end Mneme.Scanners.Architecture
