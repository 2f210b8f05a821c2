/-
Breadth-first walks that go from one frontier to the next and record what they read.

A walk reads the items of each node of its frontier in turn, and the nodes that they lead
to and that it has not seen make up the next one.  It stops after so many rounds, or where
nothing is new.
-/

import Mneme.Library.Breadth

namespace Mneme.Library.Frontier

open Search

variable {Node Item Acc : Type} [DecidableEq Node]

/-- `visited` is a set in the order of insertion. -/
structure Walk (Node Acc : Type) where
  visited : List Node
  next : List Node
  acc : Acc

section Rounds

variable (items : Node → List Item) (leads : Item → Node) (record : Acc → Item → Acc)

def meet (walk : Walk Node Acc) (item : Item) : Walk Node Acc :=
  if leads item ∈ walk.visited then { walk with acc := record walk.acc item }
  else
    { visited := walk.visited ++ [leads item]
      next := walk.next ++ [leads item]
      acc := record walk.acc item }

def take (walk : Walk Node Acc) (node : Node) : Walk Node Acc :=
  (items node).foldl (meet leads record) walk

def rounds : Nat → Walk Node Acc → Walk Node Acc
  | 0, walk => walk
  | depth + 1, walk =>
      if walk.next = [] then walk
      else rounds depth (walk.next.foldl (take items leads record) { walk with next := [] })

def begin (root : Node) (acc : Acc) : Walk Node Acc :=
  { visited := [root], next := [root], acc }

/-! ### One round -/

theorem foldl_meet (read : List Item) (walk : Walk Node Acc) :
    read.foldl (meet leads record) walk =
      { visited := walk.visited ++ fresh walk.visited.toFinset (read.map leads)
        next := walk.next ++ fresh walk.visited.toFinset (read.map leads)
        acc := read.foldl record walk.acc } := by
  induction read generalizing walk with
  | nil => simp [fresh]
  | cons item read ih =>
      rw [List.foldl_cons, ih, List.map_cons, List.foldl_cons]
      unfold meet
      by_cases known : leads item ∈ walk.visited
      · rw [if_pos known, fresh_cons_old (List.mem_toFinset.mpr known)]
      · have new : leads item ∉ walk.visited.toFinset := mt List.mem_toFinset.mp known
        have grown : (walk.visited ++ [leads item]).toFinset =
            insert (leads item) walk.visited.toFinset := by
          rw [List.toFinset_append, List.toFinset_cons, List.toFinset_nil, Finset.union_insert,
            Finset.union_empty]
        rw [if_neg known, fresh_cons_new new, grown]
        simp only [List.append_assoc, List.singleton_append]

theorem foldl_take (nodes : List Node) (walk : Walk Node Acc) :
    nodes.foldl (take items leads record) walk =
      (nodes.flatMap items).foldl (meet leads record) walk := by
  rw [List.foldl_flatMap]
  rfl

/-! ### All rounds -/

def leadsTo (node : Node) : List Node :=
  (items node).map leads

/-- The nodes at most so far from the root, in the order they are found. -/
def seen (root : Node) (depth : Nat) : List Node :=
  root :: (levels (leadsTo items leads) [root] depth).map Prod.fst

/-- The nodes whose items are read in so many rounds. -/
def taken (root : Node) : Nat → List Node
  | 0 => []
  | depth + 1 => taken root depth ++ (level (leadsTo items leads) [root] depth).2

variable (root : Node)

variable (depth : Nat)

theorem seen_succ :
    seen items leads root (depth + 1) =
      seen items leads root depth ++ (level (leadsTo items leads) [root] (depth + 1)).2 := by
  unfold seen
  rw [levels, List.map_append, List.cons_append]
  have unstamped : (stamped (depth + 1) (level (leadsTo items leads) [root] (depth + 1)).2).map
      Prod.fst = (level (leadsTo items leads) [root] (depth + 1)).2 := by
    unfold stamped
    rw [List.map_map]
    exact List.map_id _
  rw [unstamped]

theorem taken_succ :
    taken items leads root (depth + 1) = seen items leads root depth := by
  induction depth with
  | zero => rfl
  | succ depth ih =>
      rw [taken, ih]
      exact (seen_succ items leads root depth).symm

theorem toFinset_seen :
    (seen items leads root depth).toFinset = (level (leadsTo items leads) [root] depth).1 := by
  induction depth with
  | zero => rfl
  | succ depth ih =>
      rw [seen_succ, List.toFinset_append, ih]
      ext node
      change _ ↔ node ∈ _ ∪ _
      rw [Finset.mem_union, Finset.mem_union, List.mem_toFinset, List.mem_toFinset]
      change node ∈ _ ∨ node ∈ fresh _ _ ↔ _
      rw [mem_fresh]
      tauto

theorem mem_seen (node : Node) :
    node ∈ seen items leads root depth ↔ Near (leadsTo items leads) [root] depth node := by
  rw [← List.mem_toFinset, toFinset_seen, mem_level]

theorem seen_nodup : (seen items leads root depth).Nodup := by
  induction depth with
  | zero => exact List.nodup_singleton root
  | succ depth ih =>
      rw [seen_succ, List.nodup_append]
      refine ⟨ih, fresh_nodup _ _, ?_⟩
      intro old known new found same
      have unknown := (Iff.mp mem_fresh found).2
      rw [← toFinset_seen, List.mem_toFinset, ← same] at unknown
      exact unknown known

theorem taken_nodup : (taken items leads root depth).Nodup := by
  cases depth with
  | zero => exact List.nodup_nil
  | succ depth =>
      rw [taken_succ]
      exact seen_nodup items leads root depth

omit [DecidableEq Node] in
theorem near_mono {next : Node → List Node} {starts : List Node} {near far : Nat} (le : near ≤ far)
    {node : Node} (reached : Near next starts near node) : Near next starts far node := by
  induction le with
  | refl => exact reached
  | step _ ih => exact Or.inl ih

theorem mem_taken (node : Node) :
    node ∈ taken items leads root depth ↔
      ∃ before < depth, Near (leadsTo items leads) [root] before node := by
  cases depth with
  | zero =>
      constructor
      · intro none
        cases none
      · rintro ⟨before, inner, _⟩
        exact absurd inner (Nat.not_lt_zero before)
  | succ depth =>
      rw [taken_succ, mem_seen]
      constructor
      · intro near
        exact ⟨depth, Nat.lt_succ_self depth, near⟩
      · rintro ⟨before, inner, near⟩
        exact near_mono (Nat.le_of_lt_succ inner) near

/-- The walk after so many rounds. -/
def after (root : Node) (acc : Acc) (depth : Nat) : Walk Node Acc :=
  { visited := seen items leads root depth
    next := (level (leadsTo items leads) [root] depth).2
    acc := ((taken items leads root depth).flatMap items).foldl record acc }

variable (acc : Acc)

theorem after_succ (depth : Nat) :
    (after items leads record root acc depth).next.foldl (take items leads record)
        { after items leads record root acc depth with next := [] } =
      after items leads record root acc (depth + 1) := by
  have read : ((level (leadsTo items leads) [root] depth).2.flatMap items).map leads =
      (level (leadsTo items leads) [root] depth).2.flatMap (leadsTo items leads) :=
    List.map_flatMap
  rw [foldl_take, foldl_meet]
  unfold after
  rw [seen_succ, taken, List.flatMap_append, List.foldl_append, toFinset_seen]
  simp only [read, List.nil_append]
  rfl

/-- Nothing new in one round is nothing new in all later ones. -/
theorem after_stays {depth : Nat}
    (none : (level (leadsTo items leads) [root] depth).2 = []) (more : Nat) :
    after items leads record root acc (depth + more) = after items leads record root acc depth := by
  induction more with
  | zero => rfl
  | succ more ih =>
      have empty : (after items leads record root acc (depth + more)).next = [] := by
        rw [ih]
        exact none
      have step := after_succ items leads record root acc (depth + more)
      rw [empty, List.foldl_nil] at step
      rw [← Nat.add_assoc, ← step, ← ih, ← empty]

theorem rounds_after (more depth : Nat) :
    rounds items leads record more (after items leads record root acc depth) =
      after items leads record root acc (depth + more) := by
  induction more generalizing depth with
  | zero => rfl
  | succ more ih =>
      unfold rounds
      by_cases empty : (after items leads record root acc depth).next = []
      · rw [if_pos empty]
        exact (after_stays items leads record root acc empty (more + 1)).symm
      · rw [if_neg empty, after_succ, ih, Nat.add_right_comm, Nat.add_assoc]

theorem rounds_begin (depth : Nat) :
    rounds items leads record depth (begin root acc) =
      after items leads record root acc depth := by
  have all := rounds_after items leads record root acc depth 0
  rw [Nat.zero_add] at all
  exact all

end Rounds

end Mneme.Library.Frontier
