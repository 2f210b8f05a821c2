/-
Shortest paths of an undirected multigraph, counted.

A path is a list of edges, each with the node that it leads to, so that parallel edges make
different paths.  The paths of one length between two nodes are counted by a power of the
matrix of edges.  A shortest path goes through a node at the distance of that node, so the
shortest paths through it are counted by a product.
-/

import Mathlib.Algebra.BigOperators.Field
import Mathlib.Data.Matrix.Mul
import Mathlib.Data.Rat.Cast.Order
import Mathlib.Data.Set.Card
import Mathlib.Tactic.FieldSimp

namespace Mneme.Library.ShortestPaths

variable {Node : Type}

/-- The numbers of the edges, each with the node that it leads to. -/
abbrev Path (Node : Type) := List (Nat × Node)

/-- The edge with this number joins the two nodes, in either direction. -/
def Joins (edges : List (Node × Node)) (edge : Nat) (v w : Node) : Prop :=
  edges[edge]? = some (v, w) ∨ edges[edge]? = some (w, v)

def IsPath (edges : List (Node × Node)) : Node → Path Node → Node → Prop
  | s, [], t => s = t
  | s, (edge, w) :: path, t => Joins edges edge s w ∧ IsPath edges w path t

def IsShortest (edges : List (Node × Node)) (s t : Node) (path : Path Node) : Prop :=
  IsPath edges s path t ∧ ∀ other, IsPath edges s other t → path.length ≤ other.length

def nodesOf (s : Node) (path : Path Node) : List Node :=
  s :: path.map Prod.snd

/-- The part of the shortest paths between two nodes that goes through a third; nothing where
there is no path. -/
noncomputable def fraction (edges : List (Node × Node)) (s t v : Node) : ℚ :=
  ({path | IsShortest edges s t path ∧ v ∈ nodesOf s path}.ncard : ℚ) /
    ({path | IsShortest edges s t path}.ncard : ℚ)

section Walks

variable [DecidableEq Node]

/-- The edges at a node; an edge of a node with itself is there once. -/
def incident (edges : List (Node × Node)) (v : Node) : List (Nat × Node) :=
  edges.zipIdx.filterMap (fun entry =>
    if entry.1.1 = v then some (entry.2, entry.1.2)
    else if entry.1.2 = v then some (entry.2, entry.1.1) else none)

/-- All paths of a length. -/
def walks (edges : List (Node × Node)) : Nat → Node → List (Path Node)
  | 0, _ => [[]]
  | length + 1, v =>
      (incident edges v).flatMap (fun step => (walks edges length step.2).map (step :: ·))

def endOf : Node → Path Node → Node
  | s, [] => s
  | _, (_, w) :: path => endOf w path

variable {edges : List (Node × Node)}

theorem mem_incident {v w : Node} {edge : Nat} :
    (edge, w) ∈ incident edges v ↔ Joins edges edge v w := by
  unfold incident Joins
  rw [List.mem_filterMap]
  constructor
  · rintro ⟨⟨⟨first, second⟩, place⟩, member, found⟩
    have here : edges[place]? = some (first, second) := List.mem_zipIdx_iff_getElem?.mp member
    dsimp only at found
    split at found
    · rename_i same
      cases found
      rw [← same]
      exact Or.inl here
    · split at found
      · rename_i same
        cases found
        rw [← same]
        exact Or.inr here
      · cases found
  · rintro (here | here)
    · exact ⟨((v, w), edge), List.mem_zipIdx_iff_getElem?.mpr here, if_pos rfl⟩
    · refine ⟨((w, v), edge), List.mem_zipIdx_iff_getElem?.mpr here, ?_⟩
      dsimp only
      split
      · rename_i same
        rw [same]
      · exact if_pos rfl

theorem incident_nodup (v : Node) : (incident edges v).Nodup := by
  have places : (edges.zipIdx.map Prod.snd).Nodup := by
    rw [List.zipIdx_map_snd]
    exact List.nodup_range'
  apply List.pairwise_filterMap.mpr
  apply (List.pairwise_map.mp places).imp
  intro entry other different step found step' found' same
  apply different
  have place : ∀ (entry : (Node × Node) × Nat) (step : Nat × Node),
      (if entry.1.1 = v then some (entry.2, entry.1.2)
        else if entry.1.2 = v then some (entry.2, entry.1.1) else none) = some step →
          step.1 = entry.2 := by
    intro entry step found
    split at found
    · cases found
      rfl
    · split at found
      · cases found
        rfl
      · cases found
  rw [← place entry step found, ← place other step' found', same]

variable {path : Path Node}

variable {s t : Node}

theorem isPath_iff :
    IsPath edges s path t ↔ path ∈ walks edges path.length s ∧ endOf s path = t := by
  induction path generalizing s with
  | nil => exact ⟨fun same => ⟨List.mem_singleton_self _, same⟩, fun both => both.2⟩
  | cons step path ih =>
      obtain ⟨edge, w⟩ := step
      have first : (edge, w) :: path ∈ walks edges (path.length + 1) s ↔
          Joins edges edge s w ∧ path ∈ walks edges path.length w := by
        rw [walks, List.mem_flatMap]
        constructor
        · rintro ⟨step, member, mapped⟩
          obtain ⟨rest, inside, same⟩ := List.mem_map.mp mapped
          injection same with same same'
          rw [same] at member inside
          rw [same'] at inside
          exact ⟨mem_incident.mp member, inside⟩
        · rintro ⟨joins, inside⟩
          exact ⟨(edge, w), mem_incident.mpr joins, List.mem_map_of_mem inside⟩
      rw [List.length_cons, first, and_assoc]
      exact and_congr Iff.rfl ih

theorem walks_length {length : Nat} {s : Node} (member : path ∈ walks edges length s) :
    path.length = length := by
  induction length generalizing s path with
  | zero => rw [List.mem_singleton.mp member]; rfl
  | succ length ih =>
      obtain ⟨step, _, mapped⟩ := List.mem_flatMap.mp member
      obtain ⟨rest, inside, rfl⟩ := List.mem_map.mp mapped
      rw [List.length_cons, ih inside]

variable (length : Nat)

theorem walks_nodup (s : Node) : (walks edges length s).Nodup := by
  induction length generalizing s with
  | zero => exact List.nodup_singleton _
  | succ length ih =>
      apply List.nodup_flatMap.mpr
      constructor
      · intro step _
        exact (ih step.2).map (List.cons_injective)
      · apply (incident_nodup s).imp
        intro step other different path mapped mapped'
        obtain ⟨rest, _, same⟩ := List.mem_map.mp mapped
        obtain ⟨rest', _, same'⟩ := List.mem_map.mp mapped'
        rw [← same'] at same
        injection same with same _
        exact different same

theorem ncard_listed {paths : List (Path Node)} (distinct : paths.Nodup)
    (test : Path Node → Prop) [DecidablePred test] :
    {path | path ∈ paths ∧ test path}.ncard = paths.countP (fun path => test path) := by
  have listed : {path | path ∈ paths ∧ test path} =
      ((paths.filter (fun path => test path)).toFinset : Set (Path Node)) := by
    ext path
    simp
  rw [listed, Set.ncard_coe_finset, List.toFinset_card_of_nodup (distinct.filter _),
    List.countP_eq_length_filter]

/-! ### Counting -/

variable [Fintype Node]

/-- How many edges join two nodes. -/
def ends (edges : List (Node × Node)) : Matrix Node Node ℕ :=
  fun v w => (incident edges v).countP (fun step => step.2 = w)

theorem sum_steps (steps : List (Nat × Node)) (value : Node → ℕ) :
    (steps.map (fun step => value step.2)).sum =
      ∑ w, steps.countP (fun step => step.2 = w) * value w := by
  induction steps with
  | nil => simp
  | cons step steps ih =>
      simp only [List.map_cons, List.sum_cons, ih, List.countP_cons, add_mul,
        Finset.sum_add_distrib, decide_eq_true_eq, ite_mul, one_mul, zero_mul,
        Finset.sum_ite_eq, Finset.mem_univ, if_true]
      exact Nat.add_comm ..

/-- A test of what follows the first step. -/
def afterStep (test : Node → Path Node → Bool) : Path Node → Bool
  | [] => false
  | step :: rest => test step.2 rest

theorem countP_walks_succ (s : Node) (test : Node → Path Node → Bool) :
    (walks edges (length + 1) s).countP (afterStep test) =
      ∑ w, ends edges s w * (walks edges length w).countP (test w) := by
  rw [walks, List.countP_flatMap]
  have each : (incident edges s).map (List.countP (afterStep test) ∘
        fun step => (walks edges length step.2).map (step :: ·)) =
      (incident edges s).map (fun step => (walks edges length step.2).countP (test step.2)) := by
    apply List.map_congr_left
    intro step _
    rw [Function.comp_apply, List.countP_map]
    rfl
  rw [each]
  exact sum_steps _ (fun w => (walks edges length w).countP (test w))

theorem count_walks (s t : Node) :
    (walks edges length s).countP (fun path => endOf s path = t) = (ends edges ^ length) s t := by
  induction length generalizing s with
  | zero =>
      rw [pow_zero, Matrix.one_apply]
      by_cases same : s = t
      · rw [if_pos same]
        exact List.countP_cons_of_pos (decide_eq_true same)
      · rw [if_neg same]
        exact List.countP_cons_of_neg (fun yes => same (of_decide_eq_true yes))
  | succ length ih =>
      have shifted : (walks edges (length + 1) s).countP (fun path => endOf s path = t) =
          (walks edges (length + 1) s).countP (afterStep (fun w rest => endOf w rest = t)) := by
        apply List.countP_congr
        intro path member
        cases path with
        | nil => cases walks_length member
        | cons step rest => exact Iff.rfl
      rw [shifted, countP_walks_succ length s (fun w rest => decide (endOf w rest = t)), pow_succ',
        Matrix.mul_apply]
      exact Finset.sum_congr rfl (fun w _ => by rw [ih])

/-- The paths of a length between two nodes that are at a third at some place. -/
theorem count_through {place length : Nat} (s v t : Node) (early : place ≤ length) :
    (walks edges length s).countP (fun path =>
        (nodesOf s path)[place]? = some v ∧ endOf s path = t) =
      (ends edges ^ place) s v * (ends edges ^ (length - place)) v t := by
  induction place generalizing s length with
  | zero =>
      rw [pow_zero, Matrix.one_apply, Nat.sub_zero]
      by_cases same : s = v
      · rw [if_pos same, one_mul, ← count_walks, ← same]
        apply List.countP_congr
        intro path _
        simp [nodesOf]
      · rw [if_neg same, zero_mul, List.countP_eq_zero]
        intro path _
        simp [nodesOf, same]
  | succ place ih =>
      obtain ⟨length, rfl⟩ := Nat.exists_eq_add_of_le' (Nat.lt_of_lt_of_le (Nat.succ_pos place) early)
      have early' : place ≤ length := Nat.le_of_succ_le_succ early
      have shifted : (walks edges (length + 1) s).countP (fun path =>
            (nodesOf s path)[place + 1]? = some v ∧ endOf s path = t) =
          (walks edges (length + 1) s).countP (afterStep (fun w rest =>
            (nodesOf w rest)[place]? = some v ∧ endOf w rest = t)) := by
        apply List.countP_congr
        intro path member
        cases path with
        | nil => cases walks_length member
        | cons step rest => exact Iff.rfl
      rw [shifted, countP_walks_succ length s (fun w rest =>
        decide ((nodesOf w rest)[place]? = some v ∧ endOf w rest = t)), pow_succ', Matrix.mul_apply,
        Finset.sum_mul, Nat.add_sub_add_right]
      exact Finset.sum_congr rfl (fun w _ => by rw [ih w early', Nat.mul_assoc])

/-! ### Distances -/

/-- The least number of edges between two nodes. -/
def IsDistance (edges : List (Node × Node)) (s t : Node) (distance : Nat) : Prop :=
  (ends edges ^ distance) s t ≠ 0 ∧ ∀ shorter < distance, (ends edges ^ shorter) s t = 0

theorem exists_path {length : Nat} (some_ : (ends edges ^ length) s t ≠ 0) :
    ∃ path, path.length = length ∧ IsPath edges s path t := by
  rw [← count_walks] at some_
  obtain ⟨path, member, ends_⟩ := List.countP_pos_iff.mp (Nat.pos_of_ne_zero some_)
  have long := walks_length member
  refine ⟨path, long, isPath_iff.mpr ⟨?_, of_decide_eq_true ends_⟩⟩
  rw [long]
  exact member

theorem path_counted (isPath : IsPath edges s path t) : (ends edges ^ path.length) s t ≠ 0 := by
  obtain ⟨member, ends_⟩ := isPath_iff.mp isPath
  rw [← count_walks]
  exact Nat.ne_of_gt (List.countP_pos_iff.mpr ⟨path, member, decide_eq_true ends_⟩)

theorem isShortest_iff {distance : Nat} (isDistance : IsDistance edges s t distance)
    : IsShortest edges s t path ↔ path ∈ walks edges distance s ∧ endOf s path = t := by
  have atLeast : ∀ other, IsPath edges s other t → distance ≤ other.length := by
    intro other isPath
    by_contra short
    exact path_counted isPath (isDistance.2 other.length (Nat.lt_of_not_le short))
  constructor
  · rintro ⟨isPath, shortest⟩
    obtain ⟨other, long, isPath'⟩ := exists_path isDistance.1
    have same : path.length = distance :=
      le_antisymm (long ▸ shortest other isPath') (atLeast path isPath)
    have both := isPath_iff.mp isPath
    rw [same] at both
    exact both
  · rintro ⟨member, ends_⟩
    have long := walks_length member
    refine ⟨isPath_iff.mpr ⟨long.symm ▸ member, ends_⟩, ?_⟩
    rw [long]
    exact atLeast

theorem count_shortest {distance : Nat} (isDistance : IsDistance edges s t distance) :
    {path | IsShortest edges s t path}.ncard = (ends edges ^ distance) s t := by
  rw [← count_walks, ← ncard_listed (walks_nodup distance s)]
  congr 1
  ext path
  exact isShortest_iff isDistance

variable {s t v : Node}

/-- A path that is at a node at a place is a path to it and a path from it. -/
theorem counted_split {length place : Nat}
    (member : path ∈ walks edges length s) (ends_ : endOf s path = t)
    (here : (nodesOf s path)[place]? = some v) :
    place ≤ length ∧ (ends edges ^ place) s v ≠ 0 ∧ (ends edges ^ (length - place)) v t ≠ 0 := by
  have early : place ≤ length := by
    obtain ⟨inside, _⟩ := List.getElem?_eq_some_iff.mp here
    unfold nodesOf at inside
    rw [List.length_cons, List.length_map, walks_length member] at inside
    omega
  have product : (ends edges ^ place) s v * (ends edges ^ (length - place)) v t ≠ 0 := by
    rw [← count_through s v t early]
    exact Nat.ne_of_gt (List.countP_pos_iff.mpr ⟨path, member, decide_eq_true ⟨here, ends_⟩⟩)
  exact ⟨early, left_ne_zero_of_mul product, right_ne_zero_of_mul product⟩

theorem counted_join {first second : Nat} {s v t : Node}
    (before : (ends edges ^ first) s v ≠ 0) (after : (ends edges ^ second) v t ≠ 0) :
    (ends edges ^ (first + second)) s t ≠ 0 := by
  rw [pow_add, Matrix.mul_apply]
  intro none
  have zero := (Finset.sum_eq_zero_iff.mp none) v (Finset.mem_univ v)
  exact (Nat.mul_ne_zero before after) zero

/-- A shortest path is at a node at the distance of the node. -/
theorem mem_nodesOf_iff {distance place : Nat}
    (isDistance : IsDistance edges s t distance) (isDistance' : IsDistance edges s v place)
    (member : path ∈ walks edges distance s) (ends_ : endOf s path = t) :
    v ∈ nodesOf s path ↔ (nodesOf s path)[place]? = some v := by
  constructor
  · intro inside
    obtain ⟨other, here⟩ := List.mem_iff_getElem?.mp inside
    obtain ⟨early, before, after⟩ := counted_split member ends_ here
    have atLeast : place ≤ other := by
      by_contra short
      exact before (isDistance'.2 other (Nat.lt_of_not_le short))
    have joined := counted_join isDistance'.1 after
    have atMost : other ≤ place := by
      by_contra long
      exact joined (isDistance.2 _ (by omega))
    rw [le_antisymm atLeast atMost]
    exact here
  · intro here
    exact List.mem_of_getElem? here

theorem count_shortest_through {distance place : Nat}
    (isDistance : IsDistance edges s t distance) (isDistance' : IsDistance edges s v place) :
    {path | IsShortest edges s t path ∧ v ∈ nodesOf s path}.ncard =
      if place ≤ distance then
        (ends edges ^ place) s v * (ends edges ^ (distance - place)) v t
      else 0 := by
  have listed : {path | IsShortest edges s t path ∧ v ∈ nodesOf s path} =
      {path | path ∈ walks edges distance s ∧
        ((nodesOf s path)[place]? = some v ∧ endOf s path = t)} := by
    ext path
    constructor
    · rintro ⟨shortest, inside⟩
      obtain ⟨member, ends_⟩ := (isShortest_iff isDistance).mp shortest
      exact ⟨member, (mem_nodesOf_iff isDistance isDistance' member ends_).mp inside, ends_⟩
    · rintro ⟨member, here, ends_⟩
      exact ⟨(isShortest_iff isDistance).mpr ⟨member, ends_⟩,
        (mem_nodesOf_iff isDistance isDistance' member ends_).mpr here⟩
  rw [listed, ncard_listed (walks_nodup distance s)]
  split
  · rename_i early
    exact count_through s v t early
  · rename_i late
    rw [List.countP_eq_zero]
    intro path member both
    exact late (counted_split member (of_decide_eq_true both).2 (of_decide_eq_true both).1).1

/-! ### What depends on a node -/

/-- What the walks from one node reach, and how far it is. -/
structure Layered (edges : List (Node × Node)) (s : Node) (reached : Finset Node)
    (dist : Node → Nat) : Prop where
  inside : ∀ v ∈ reached, IsDistance edges s v (dist v)
  outside : ∀ v, v ∉ reached → ∀ length, (ends edges ^ length) s v = 0

variable (edges) in
/-- The number of shortest paths to a node. -/
def sigma (s : Node) (dist : Node → Nat) (v : Node) : ℚ :=
  ((ends edges ^ dist v) s v : ℕ)

variable (edges) in
/-- The number of shortest paths on from a node to one that is no nearer. -/
def through (dist : Node → Nat) (v t : Node) : ℕ :=
  if dist v ≤ dist t then (ends edges ^ (dist t - dist v)) v t else 0

variable (edges) in
/-- The parts of the shortest paths through a node, its own paths with them. -/
def dependency (s : Node) (reached : Finset Node) (dist : Node → Nat) (v : Node) : ℚ :=
  ∑ t ∈ reached, sigma edges s dist v * through edges dist v t / sigma edges s dist t

section Layers

variable {s : Node} {reached : Finset Node} {dist : Node → Nat}
  (layered : Layered edges s reached dist)
include layered

variable {v : Node}

theorem sigma_ne_zero (member : v ∈ reached) : sigma edges s dist v ≠ 0 :=
  Nat.cast_ne_zero.mpr (layered.inside v member).1

theorem dist_le {length : Nat} (counted : (ends edges ^ length) s v ≠ 0) :
    v ∈ reached ∧ dist v ≤ length := by
  have member : v ∈ reached := by
    by_contra outside
    exact counted (layered.outside v outside length)
  refine ⟨member, ?_⟩
  by_contra short
  exact counted ((layered.inside v member).2 length (Nat.lt_of_not_le short))

variable {v t : Node}

theorem dist_edge {w : Node} (member : v ∈ reached) (edge : ends edges v w ≠ 0) :
    w ∈ reached ∧ dist w ≤ dist v + 1 := by
  apply dist_le layered
  apply counted_join (layered.inside v member).1
  rw [pow_one]
  exact edge

/-- The shortest paths on from a node go on from a node of the next layer. -/
theorem through_step (member : v ∈ reached) (t : Node) :
    through edges dist v t = (if t = v then 1 else 0) +
      ∑ w ∈ reached with dist w = dist v + 1, ends edges v w * through edges dist w t := by
  rcases Nat.lt_trichotomy (dist v) (dist t) with before | level | behind
  · have different : t ≠ v := by
      intro same
      rw [same] at before
      exact Nat.lt_irrefl _ before
    obtain ⟨rest, more⟩ := Nat.exists_eq_add_of_lt before
    have length : dist t - dist v = rest + 1 := by omega
    rw [if_neg different, Nat.zero_add, through, if_pos (le_of_lt before), length, pow_succ',
      Matrix.mul_apply, Finset.sum_filter]
    rw [← Finset.sum_subset (Finset.subset_univ reached)]
    · apply Finset.sum_congr rfl
      intro w _
      by_cases edge : ends edges v w = 0
      · rw [edge, Nat.zero_mul, Nat.zero_mul, ite_self]
      · obtain ⟨inside, near⟩ := dist_edge layered member edge
        by_cases layer : dist w = dist v + 1
        · have length' : dist t - dist w = rest := by omega
          rw [if_pos layer, through, if_pos (by omega), length']
        · rw [if_neg layer]
          -- a path on from here would be a shorter path to the end
          have none : (ends edges ^ rest) w t = 0 := by
            by_contra counted
            have joined := counted_join (layered.inside w inside).1 counted
            have far := (dist_le layered joined).2
            omega
          rw [none, Nat.mul_zero]
    · intro w _ outside
      have edge : ends edges v w = 0 := by
        by_contra edge
        exact outside (dist_edge layered member edge).1
      rw [edge, Nat.zero_mul]
  · have none : ∑ w ∈ reached with dist w = dist v + 1,
        ends edges v w * through edges dist w t = 0 := by
      apply Finset.sum_eq_zero
      intro w inside
      have layer := (Finset.mem_filter.mp inside).2
      rw [through, if_neg (by omega), Nat.mul_zero]
    rw [none, Nat.add_zero, through, if_pos (le_of_eq level), level, Nat.sub_self, pow_zero,
      Matrix.one_apply]
    simp only [eq_comm]
  · have different : t ≠ v := by
      intro same
      rw [same] at behind
      exact Nat.lt_irrefl _ behind
    have none : ∑ w ∈ reached with dist w = dist v + 1,
        ends edges v w * through edges dist w t = 0 := by
      apply Finset.sum_eq_zero
      intro w inside
      have layer := (Finset.mem_filter.mp inside).2
      rw [through, if_neg (by omega), Nat.mul_zero]
    rw [none, if_neg different, through, if_neg (by omega)]

/-- A node depends on the nodes of the next layer, each in the part of its paths. -/
theorem dependency_step (member : v ∈ reached) :
    dependency edges s reached dist v = 1 + ∑ w ∈ reached with dist w = dist v + 1,
      ends edges v w * (sigma edges s dist v / sigma edges s dist w) *
        dependency edges s reached dist w := by
  have own : ∑ t ∈ reached, sigma edges s dist v * (if t = v then 1 else 0) /
      sigma edges s dist t = 1 := by
    rw [Finset.sum_eq_single v]
    · rw [if_pos rfl, mul_one, div_self (sigma_ne_zero layered member)]
    · intro t _ different
      rw [if_neg different, mul_zero, zero_div]
    · intro outside
      exact absurd member outside
  have next : ∑ t ∈ reached, sigma edges s dist v * (∑ w ∈ reached with dist w = dist v + 1,
      (ends edges v w : ℚ) * through edges dist w t) / sigma edges s dist t =
        ∑ w ∈ reached with dist w = dist v + 1,
          ends edges v w * (sigma edges s dist v / sigma edges s dist w) *
            dependency edges s reached dist w := by
    simp only [dependency, Finset.mul_sum, Finset.sum_div]
    rw [Finset.sum_comm]
    apply Finset.sum_congr rfl
    intro w inside
    have known := sigma_ne_zero layered (Finset.mem_filter.mp inside).1
    apply Finset.sum_congr rfl
    intro t _
    field_simp
  have split : ∀ t ∈ reached, sigma edges s dist v * through edges dist v t /
      sigma edges s dist t =
        sigma edges s dist v * (if t = v then 1 else 0) / sigma edges s dist t +
          sigma edges s dist v * (∑ w ∈ reached with dist w = dist v + 1,
            (ends edges v w : ℚ) * through edges dist w t) / sigma edges s dist t := by
    intro t _
    rw [through_step layered member t]
    push_cast
    rw [mul_add, add_div]
  rw [dependency, Finset.sum_congr rfl split, Finset.sum_add_distrib, own, next]

theorem fraction_reached (member : t ∈ reached) (member' : v ∈ reached) :
    fraction edges s t v = sigma edges s dist v * through edges dist v t / sigma edges s dist t := by
  have far := layered.inside t member
  have near := layered.inside v member'
  rw [fraction, count_shortest far, count_shortest_through far near, sigma, sigma, through]
  split
  · push_cast
    rfl
  · rw [Nat.cast_zero, mul_zero]

theorem fraction_unreached_end (outside : t ∉ reached) (v : Node) : fraction edges s t v = 0 := by
  have none : {path | IsShortest edges s t path} = ∅ := by
    apply Set.eq_empty_of_forall_notMem
    rintro path ⟨isPath, _⟩
    exact path_counted isPath (layered.outside t outside path.length)
  rw [fraction, none, Set.ncard_empty, Nat.cast_zero, div_zero]

theorem fraction_unreached (outside : v ∉ reached) : fraction edges s t v = 0 := by
  have none : {path | IsShortest edges s t path ∧ v ∈ nodesOf s path} = ∅ := by
    apply Set.eq_empty_of_forall_notMem
    rintro path ⟨⟨isPath, _⟩, inside⟩
    obtain ⟨place, here⟩ := List.mem_iff_getElem?.mp inside
    obtain ⟨member, ends_⟩ := isPath_iff.mp isPath
    exact (counted_split member ends_ here).2.1 (layered.outside v outside place)
  rw [fraction, none, Set.ncard_empty, Nat.cast_zero, zero_div]

/-- The fractions of all ends but the node itself. -/
theorem sum_fractions (v : Node) :
    (∑ t, if t ≠ v then fraction edges s t v else 0) =
      if v ∈ reached then dependency edges s reached dist v - 1 else 0 := by
  split
  · rename_i member
    rw [← Finset.sum_subset (Finset.subset_univ reached), dependency,
      ← Finset.add_sum_erase _ _ member, ← Finset.add_sum_erase _ _ member]
    · have own : sigma edges s dist v * through edges dist v v / sigma edges s dist v = 1 := by
        rw [through, if_pos (le_refl _), Nat.sub_self, pow_zero, Matrix.one_apply_eq, Nat.cast_one,
          mul_one, div_self (sigma_ne_zero layered member)]
      rw [own, if_neg (not_not.mpr rfl), zero_add, add_sub_cancel_left]
      apply Finset.sum_congr rfl
      intro t inside
      obtain ⟨different, inside⟩ := Finset.mem_erase.mp inside
      rw [if_pos different, fraction_reached layered inside member]
    · intro t _ outside
      rw [fraction_unreached_end layered outside, ite_self]
  · rename_i outside
    apply Finset.sum_eq_zero
    intro t _
    rw [fraction_unreached layered outside, ite_self]

end Layers

end Walks

/-- The sum over the ordered pairs of other nodes. -/
noncomputable def betweenness [Fintype Node] [DecidableEq Node] (edges : List (Node × Node))
    (v : Node) : ℚ :=
  ∑ s, ∑ t, if s ≠ v ∧ t ≠ v then fraction edges s t v else 0

end Mneme.Library.ShortestPaths
