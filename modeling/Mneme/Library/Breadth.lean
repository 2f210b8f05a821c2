/-
Breadth-first search with a queue, up to a depth.

The queue search takes one node at a time and stamps what it finds with a
depth.  It goes through the same levels as a search level by level, and the
levels are the nodes at each distance from the starts, whatever the order in
which the neighbours of a node come.
-/

import Mathlib.Data.Finset.Card
import Mathlib.Order.Bounds.Basic

namespace Mneme.Library

variable {Node : Type} [DecidableEq Node]

/-- `noted` lists what was found, in the order it was found. -/
structure Search (Node : Type) where
  visited : Finset Node
  frontier : List (Node × Nat)
  noted : List (Node × Nat)

namespace Search

def start (starts : List Node) : Search Node :=
  { visited := starts.toFinset, frontier := starts.map (fun node => (node, 0)), noted := [] }

def note (depth : Nat) (search : Search Node) (node : Node) : Search Node :=
  if node ∈ search.visited then search
  else
    { visited := insert node search.visited
      frontier := search.frontier ++ [(node, depth)]
      noted := search.noted ++ [(node, depth)] }

/-- Take the front of the queue and note its neighbours, unless it lies at the
last depth. -/
def step (next : Node → List Node) (depth : Nat) (search : Search Node) : Search Node :=
  match search.frontier with
  | [] => search
  | (node, reached) :: rest =>
      if depth ≤ reached then { search with frontier := rest }
      else (next node).foldl (note (reached + 1)) { search with frontier := rest }

def run (next : Node → List Node) (depth : Nat) : Nat → Search Node → Search Node
  | 0, search => search
  | fuel + 1, search => run next depth fuel (search.step next depth)

/-! ### What one node adds -/

/-- The nodes of a list that are new when the list is read from the left. -/
def fresh (visited : Finset Node) : List Node → List Node
  | [] => []
  | node :: rest =>
      if node ∈ visited then fresh visited rest else node :: fresh (insert node visited) rest

variable {visited : Finset Node}

variable {node : Node}

theorem mem_fresh {nodes : List Node} :
    node ∈ fresh visited nodes ↔ node ∈ nodes ∧ node ∉ visited := by
  induction nodes generalizing visited with
  | nil => simp [fresh]
  | cons head nodes ih =>
      unfold fresh
      by_cases known : head ∈ visited
      · rw [if_pos known, ih, List.mem_cons]
        constructor
        · rintro ⟨member, new⟩
          exact ⟨Or.inr member, new⟩
        · rintro ⟨same | member, new⟩
          · rw [same] at new
            exact absurd known new
          · exact ⟨member, new⟩
      · rw [if_neg known, List.mem_cons, List.mem_cons, ih, Finset.mem_insert, not_or]
        constructor
        · rintro (same | ⟨member, _, new⟩)
          · rw [same]
            exact ⟨Or.inl rfl, known⟩
          · exact ⟨Or.inr member, new⟩
        · rintro ⟨same | member, new⟩
          · exact Or.inl same
          · by_cases same : node = head
            · exact Or.inl same
            · exact Or.inr ⟨member, same, new⟩

theorem fresh_nodup (visited : Finset Node) (nodes : List Node) : (fresh visited nodes).Nodup := by
  induction nodes generalizing visited with
  | nil => exact List.nodup_nil
  | cons head nodes ih =>
      unfold fresh
      by_cases known : head ∈ visited
      · rw [if_pos known]
        exact ih visited
      · rw [if_neg known, List.nodup_cons]
        refine ⟨?_, ih _⟩
        intro member
        exact (Iff.mp mem_fresh member).2 (Finset.mem_insert_self _ _)

theorem fresh_cons_old (known : node ∈ visited) (rest : List Node) :
    fresh visited (node :: rest) = fresh visited rest :=
  if_pos known

theorem fresh_cons_new (new : node ∉ visited) (rest : List Node) :
    fresh visited (node :: rest) = node :: fresh (insert node visited) rest :=
  if_neg new

theorem union_cons_old (known : node ∈ visited) (rest : List Node) :
    visited ∪ (node :: rest).toFinset = visited ∪ rest.toFinset := by
  rw [List.toFinset_cons, Finset.union_insert, ← Finset.insert_union,
    Finset.insert_eq_of_mem known]

theorem union_cons (visited : Finset Node) (node : Node) (rest : List Node) :
    visited ∪ (node :: rest).toFinset = insert node visited ∪ rest.toFinset := by
  rw [List.toFinset_cons, Finset.union_insert, Finset.insert_union]

theorem fresh_append (visited : Finset Node) (left right : List Node) :
    fresh visited (left ++ right) =
      fresh visited left ++ fresh (visited ∪ left.toFinset) right := by
  induction left generalizing visited with
  | nil => rw [List.toFinset_nil, Finset.union_empty]; rfl
  | cons head left ih =>
      rw [List.cons_append]
      by_cases known : head ∈ visited
      · rw [fresh_cons_old known, fresh_cons_old known, union_cons_old known, ih]
      · rw [fresh_cons_new known, fresh_cons_new known, union_cons, ih, List.cons_append]

theorem card_union_fresh (visited : Finset Node) (nodes : List Node) :
    (visited ∪ nodes.toFinset).card = visited.card + (fresh visited nodes).length := by
  have same : visited ∪ nodes.toFinset = visited ∪ (fresh visited nodes).toFinset := by
    ext node
    rw [Finset.mem_union, Finset.mem_union, List.mem_toFinset, List.mem_toFinset, mem_fresh]
    tauto
  have apart : Disjoint visited (fresh visited nodes).toFinset := by
    rw [Finset.disjoint_left]
    intro node known new
    exact (Iff.mp mem_fresh (List.mem_toFinset.mp new)).2 known
  rw [same, Finset.card_union_of_disjoint apart,
    List.toFinset_card_of_nodup (fresh_nodup visited nodes)]

theorem foldl_note (depth : Nat) (nodes : List Node) (search : Search Node) :
    nodes.foldl (note depth) search =
      { visited := search.visited ∪ nodes.toFinset
        frontier := search.frontier ++ (fresh search.visited nodes).map (fun node => (node, depth))
        noted := search.noted ++ (fresh search.visited nodes).map (fun node => (node, depth)) } := by
  induction nodes generalizing search with
  | nil => simp [fresh]
  | cons head nodes ih =>
      rw [List.foldl_cons, ih]
      unfold note
      by_cases known : head ∈ search.visited
      · rw [if_pos known, fresh_cons_old known, union_cons_old known]
      · rw [if_neg known, fresh_cons_new known, union_cons]
        simp only [List.append_assoc, List.map_cons, List.singleton_append]

/-! ### Level by level -/

/-- The nodes seen up to a level, and those of the level in the order found. -/
def level (next : Node → List Node) (starts : List Node) : Nat → Finset Node × List Node
  | 0 => (starts.toFinset, starts)
  | depth + 1 =>
      let before := level next starts depth
      (before.1 ∪ (before.2.flatMap next).toFinset, fresh before.1 (before.2.flatMap next))

def stamped (depth : Nat) (nodes : List Node) : List (Node × Nat) :=
  nodes.map (fun node => (node, depth))

variable {depth reached : Nat}

/-- The queue search takes the nodes of a level in turn and collects the next
level behind them. -/
theorem run_level (next : Node → List Node) (inner : reached < depth)
    (fuel : Nat) (nodes later : List Node) (visited : Finset Node) (noted : List (Node × Nat)) :
    run next depth (fuel + nodes.length)
        { visited := visited
          frontier := stamped reached nodes ++ stamped (reached + 1) later
          noted := noted } =
      run next depth fuel
        { visited := visited ∪ (nodes.flatMap next).toFinset
          frontier := stamped (reached + 1) (later ++ fresh visited (nodes.flatMap next))
          noted := noted ++ stamped (reached + 1) (fresh visited (nodes.flatMap next)) } := by
  induction nodes generalizing later visited noted with
  | nil => simp [stamped, fresh]
  | cons node nodes ih =>
      have taken : step next depth
          { visited := visited
            frontier := stamped reached (node :: nodes) ++ stamped (reached + 1) later
            noted := noted } =
          { visited := visited ∪ (next node).toFinset
            frontier := stamped reached nodes ++
              stamped (reached + 1) (later ++ fresh visited (next node))
            noted := noted ++ stamped (reached + 1) (fresh visited (next node)) } := by
        change (if depth ≤ reached then _ else _) = _
        rw [if_neg (Nat.not_le.mpr inner), foldl_note]
        simp only [stamped, List.append_eq, List.map_append, List.append_assoc]
      rw [List.length_cons, ← Nat.add_assoc, run, taken, ih, List.flatMap_cons, fresh_append,
        List.toFinset_append, Finset.union_assoc]
      simp only [stamped, List.map_append, List.append_assoc]

/-- Nodes at the last depth leave the queue without effect. -/
theorem run_last (next : Node → List Node) (last : depth ≤ reached)
    (fuel : Nat) (nodes : List Node) (visited : Finset Node) (noted : List (Node × Nat)) :
    (run next depth fuel
        { visited := visited, frontier := stamped reached nodes, noted := noted }).noted = noted ∧
      (nodes.length ≤ fuel →
        (run next depth fuel
          { visited := visited, frontier := stamped reached nodes, noted := noted }).frontier =
            []) := by
  induction fuel generalizing nodes with
  | zero =>
      refine ⟨rfl, fun enough => ?_⟩
      rw [List.length_eq_zero_iff.mp (Nat.le_zero.mp enough)]
      rfl
  | succ fuel ih =>
      cases nodes with
      | nil => exact ⟨(ih []).1, fun _ => (ih []).2 (Nat.zero_le _)⟩
      | cons node nodes =>
          have taken : step next depth
              { visited := visited, frontier := stamped reached (node :: nodes), noted := noted } =
              { visited := visited, frontier := stamped reached nodes, noted := noted } :=
            if_pos last
          rw [run, taken]
          refine ⟨(ih nodes).1, fun enough => (ih nodes).2 ?_⟩
          rw [List.length_cons] at enough
          omega

/-- What is noted in the levels up to a depth. -/
def levels (next : Node → List Node) (starts : List Node) : Nat → List (Node × Nat)
  | 0 => []
  | depth + 1 => levels next starts depth ++ stamped (depth + 1) (level next starts (depth + 1)).2

/-- The nodes that the queue search takes before it reaches a level. -/
def spent (next : Node → List Node) (starts : List Node) : Nat → Nat
  | 0 => 0
  | depth + 1 => spent next starts depth + (level next starts depth).2.length

theorem run_levels (next : Node → List Node) (starts : List Node)
    (inner : reached ≤ depth) (fuel : Nat) :
    run next depth (fuel + spent next starts reached) (start starts) =
      run next depth fuel
        { visited := (level next starts reached).1
          frontier := stamped reached (level next starts reached).2
          noted := levels next starts reached } := by
  induction reached generalizing fuel with
  | zero => rfl
  | succ reached ih =>
      have same : fuel + spent next starts (reached + 1) =
          fuel + (level next starts reached).2.length + spent next starts reached := by
        rw [spent]
        omega
      have taken := run_level next inner fuel (level next starts reached).2 []
        (level next starts reached).1 (levels next starts reached)
      rw [List.nil_append] at taken
      rw [same, ih (Nat.le_of_succ_le inner)]
      change run next depth _
        { visited := _, frontier := stamped reached _ ++ [], noted := _ } = _ at taken
      rw [List.append_nil] at taken
      exact taken

theorem card_level (next : Node → List Node) (starts : List Node) (depth : Nat) :
    (level next starts depth).1.card + starts.length =
      starts.toFinset.card + spent next starts (depth + 1) := by
  induction depth with
  | zero =>
      change starts.toFinset.card + starts.length = starts.toFinset.card + (0 + starts.length)
      rw [Nat.zero_add]
  | succ depth ih =>
      have more : (level next starts (depth + 1)).1.card =
          (level next starts depth).1.card + (level next starts (depth + 1)).2.length :=
        card_union_fresh _ _
      rw [spent]
      omega

variable {next : Node → List Node}

theorem level_subset {all : Finset Node}
    (inside : ∀ node, ∀ neighbour ∈ next node, neighbour ∈ all) (starts : List Node)
    (depth : Nat) : (level next starts depth).1 ⊆ starts.toFinset ∪ all := by
  induction depth with
  | zero => exact Finset.subset_union_left
  | succ depth ih =>
      refine Finset.union_subset ih ?_
      intro node member
      obtain ⟨before, _, edge⟩ := List.mem_flatMap.mp (List.mem_toFinset.mp member)
      exact Finset.mem_union_right _ (inside before node edge)

/-- With fuel for the starts and for every node that is a neighbour of one, the
search ends with an empty queue and has noted level after level. -/
theorem run_complete {all : Finset Node}
    (inside : ∀ node, ∀ neighbour ∈ next node, neighbour ∈ all) (starts : List Node)
    (depth : Nat) {fuel : Nat} (enough : starts.length + all.card ≤ fuel) :
    (run next depth fuel (start starts)).noted = levels next starts depth ∧
      (run next depth fuel (start starts)).frontier = [] := by
  have seen := card_level next starts depth
  have most : (level next starts depth).1.card ≤ starts.toFinset.card + all.card :=
    Nat.le_trans (Finset.card_le_card (level_subset inside starts depth))
      (Finset.card_union_le _ _)
  have last : spent next starts (depth + 1) =
    spent next starts depth + (level next starts depth).2.length := rfl
  have split : fuel = (fuel - spent next starts depth) + spent next starts depth := by
    omega
  have emptied := run_last next (Nat.le_refl depth) (fuel - spent next starts depth)
    (level next starts depth).2 (level next starts depth).1 (levels next starts depth)
  rw [split, run_levels next starts (Nat.le_refl depth)]
  exact ⟨emptied.1, emptied.2 (by omega)⟩

/-! ### The levels are the distances -/

/-- Some start is at most so many edges away. -/
def Near (next : Node → List Node) (starts : List Node) : Nat → Node → Prop
  | 0, node => node ∈ starts
  | depth + 1, node =>
      Near next starts depth node ∨ ∃ before, Near next starts depth before ∧ node ∈ next before

variable {other next : Node → List Node}

omit [DecidableEq Node] in
theorem near_congr (same : ∀ node neighbour, neighbour ∈ next node ↔ neighbour ∈ other node)
    (starts : List Node) (depth : Nat) (node : Node) :
    Near next starts depth node ↔ Near other starts depth node := by
  induction depth generalizing node with
  | zero => exact Iff.rfl
  | succ depth ih =>
      unfold Near
      simp only [ih, same]

theorem level_new (next : Node → List Node) (starts : List Node) (depth : Nat) :
    ∀ node ∈ (level next starts depth).2, node ∈ (level next starts depth).1 := by
  intro node member
  cases depth with
  | zero => exact List.mem_toFinset.mpr member
  | succ depth =>
      exact Finset.mem_union_right _ (List.mem_toFinset.mpr (Iff.mp mem_fresh member).1)

theorem mem_level (next : Node → List Node) (starts : List Node) (depth : Nat) (node : Node) :
    node ∈ (level next starts depth).1 ↔ Near next starts depth node := by
  -- A node near enough is in the last level, or its neighbours are near too.
  have both : (∀ node, node ∈ (level next starts depth).1 ↔ Near next starts depth node) ∧
      ∀ node, Near next starts depth node →
        node ∈ (level next starts depth).2 ∨
          ∀ neighbour ∈ next node, Near next starts depth neighbour := by
    induction depth with
    | zero => exact ⟨fun _ => List.mem_toFinset, fun _ near => Or.inl near⟩
    | succ depth ih =>
        obtain ⟨seen, closed⟩ := ih
        have grown : ∀ node, node ∈ (level next starts (depth + 1)).1 ↔
            Near next starts (depth + 1) node := by
          intro node
          change node ∈ _ ∪ _ ↔ _ ∨ _
          rw [Finset.mem_union, seen, List.mem_toFinset, List.mem_flatMap]
          constructor
          · rintro (near | ⟨before, member, edge⟩)
            · exact Or.inl near
            · exact Or.inr ⟨before, (seen before).mp (level_new next starts depth before member), edge⟩
          · rintro (near | ⟨before, near, edge⟩)
            · exact Or.inl near
            · rcases closed before near with last | inside
              · exact Or.inr ⟨before, last, edge⟩
              · exact Or.inl (inside node edge)
        refine ⟨grown, ?_⟩
        intro node near
        by_cases old : Near next starts depth node
        · exact Or.inr (fun neighbour edge => Or.inr ⟨node, old, edge⟩)
        · left
          refine Iff.mpr mem_fresh ⟨?_, fun member => old ((seen node).mp member)⟩
          rcases Finset.mem_union.mp ((grown node).mpr near) with member | member
          · exact absurd ((seen node).mp member) old
          · exact List.mem_toFinset.mp member
  exact both.1 node

/-- A level holds the nodes at its distance. -/
theorem mem_level_succ (next : Node → List Node) (starts : List Node) (depth : Nat) (node : Node) :
    node ∈ (level next starts (depth + 1)).2 ↔
      Near next starts (depth + 1) node ∧ ¬ Near next starts depth node := by
  constructor
  · intro member
    exact ⟨(mem_level next starts (depth + 1) node).mp (level_new _ _ _ node member),
      fun near => (Iff.mp mem_fresh member).2 ((mem_level next starts depth node).mpr near)⟩
  · rintro ⟨near, far⟩
    have unseen : node ∉ (level next starts depth).1 :=
      fun member => far ((mem_level next starts depth node).mp member)
    refine Iff.mpr mem_fresh ⟨?_, unseen⟩
    rcases Finset.mem_union.mp ((mem_level next starts (depth + 1) node).mpr near) with
      member | member
    · exact absurd member unseen
    · exact List.mem_toFinset.mp member

/-- The order of the neighbours orders the levels and changes nothing else. -/
theorem level_perm (same : ∀ node neighbour, neighbour ∈ next node ↔ neighbour ∈ other node)
    (starts : List Node) (depth : Nat) :
    (level next starts depth).2.Perm (level other starts depth).2 := by
  cases depth with
  | zero => exact List.Perm.refl _
  | succ depth =>
      have left : (level next starts (depth + 1)).2.Nodup := fresh_nodup _ _
      have right : (level other starts (depth + 1)).2.Nodup := fresh_nodup _ _
      rw [List.perm_ext_iff_of_nodup left right]
      intro node
      rw [mem_level_succ, mem_level_succ, near_congr same, near_congr same]

/-- A node is noted at its distance from the starts, up to the depth. -/
theorem mem_levels (next : Node → List Node) (starts : List Node) (depth : Nat)
    (node : Node) (reached : Nat) :
    (node, reached) ∈ levels next starts depth ↔
      ∃ before, reached = before + 1 ∧ before < depth ∧
        Near next starts (before + 1) node ∧ ¬ Near next starts before node := by
  induction depth with
  | zero =>
      constructor
      · intro impossible
        cases impossible
      · rintro ⟨_, _, impossible, _⟩
        exact absurd impossible (Nat.not_lt_zero _)
  | succ depth ih =>
      unfold levels stamped
      rw [List.mem_append, ih, List.mem_map]
      constructor
      · rintro (⟨before, same, below, near⟩ | ⟨found, member, same⟩)
        · exact ⟨before, same, Nat.lt_succ_of_lt below, near⟩
        · cases same
          exact ⟨depth, rfl, Nat.lt_succ_self _, (mem_level_succ next starts depth node).mp member⟩
      · rintro ⟨before, same, below, near⟩
        rcases Nat.lt_or_eq_of_le (Nat.le_of_lt_succ below) with earlier | now
        · exact Or.inl ⟨before, same, earlier, near⟩
        · subst now
          subst same
          exact Or.inr ⟨node, (mem_level_succ next starts before node).mpr near, rfl⟩

/-- The nodes first met at a distance of one more than so many edges. -/
def Newly (next : Node → List Node) (starts : List Node) (before : Nat) (node : Node) : Prop :=
  Near next starts (before + 1) node ∧ ¬ Near next starts before node

theorem levels_nodup (next : Node → List Node) (starts : List Node) (depth : Nat) :
    (levels next starts depth).Nodup := by
  induction depth with
  | zero => exact List.nodup_nil
  | succ depth ih =>
      unfold levels
      rw [List.nodup_append]
      refine ⟨ih, ?_, ?_⟩
      · unfold stamped
        exact (fresh_nodup _ _).map (fun left right same => congrArg Prod.fst same)
      · intro early before late last same
        obtain ⟨node, reached⟩ := early
        obtain ⟨below, equal, bounded, _⟩ := (mem_levels next starts depth node reached).mp before
        obtain ⟨other, _, stamp⟩ := List.mem_map.mp last
        rw [← same] at stamp
        have stamps := congrArg Prod.snd stamp
        change depth + 1 = reached at stamps
        omega

theorem levels_no_start (next : Node → List Node) (depth : Nat) : levels next [] depth = [] := by
  have none : ∀ depth, (level next [] depth).2 = [] := by
    intro depth
    induction depth with
    | zero => rfl
    | succ depth ih =>
        change fresh _ ((level next [] depth).2.flatMap next) = []
        rw [ih]
        rfl
  induction depth with
  | zero => rfl
  | succ depth ih =>
      rw [levels, ih, none]
      rfl

/-- The levels come one after the other. -/
theorem levels_ordered (next : Node → List Node) (starts : List Node) (depth : Nat) :
    (levels next starts depth).Pairwise (fun earlier later => earlier.2 ≤ later.2) := by
  induction depth with
  | zero => exact List.Pairwise.nil
  | succ depth ih =>
      rw [levels, List.pairwise_append]
      refine ⟨ih, ?_, ?_⟩
      · unfold stamped
        rw [List.pairwise_map]
        exact List.pairwise_of_forall (fun _ _ => Nat.le_refl _)
      · intro early before late last
        obtain ⟨length, stamp, below, _⟩ := (mem_levels next starts depth early.1 early.2).mp before
        obtain ⟨node, _, same⟩ := List.mem_map.mp last
        have lateStamp := congrArg Prod.snd same
        change depth + 1 = late.2 at lateStamp
        omega

/-! ### The distance from the starts -/

/-- A walk of this length leads from a start to the node, where the edges may
depend on how many were taken before. -/
def Walked (edge : Nat → Node → Node → Prop) (starts : List Node) : Nat → Node → Prop
  | 0, node => node ∈ starts
  | length + 1, node => ∃ before, Walked edge starts length before ∧ edge length before node

/-- The lengths of the walks to a node; the least of them is its distance. -/
def lengths (edge : Nat → Node → Node → Prop) (starts : List Node) (node : Node) : Set Nat :=
  { length | Walked edge starts length node }

variable {edge : Node → Node → Prop}

omit [DecidableEq Node] in
theorem near_iff_walked
    (leads : ∀ before node, node ∈ next before ↔ edge before node) (starts : List Node)
    (depth : Nat) (node : Node) :
    Near next starts depth node ↔
      ∃ length ≤ depth, Walked (fun _ => edge) starts length node := by
  induction depth generalizing node with
  | zero =>
      constructor
      · intro member
        exact ⟨0, Nat.le_refl 0, member⟩
      · intro walked
        obtain ⟨length, short, walked⟩ := walked
        cases Nat.le_zero.mp short
        exact walked
  | succ depth ih =>
      unfold Near
      simp only [ih, leads]
      constructor
      · intro near
        rcases near with ⟨length, short, walked⟩ | ⟨before, ⟨length, short, walked⟩, last⟩
        · exact ⟨length, Nat.le_succ_of_le short, walked⟩
        · exact ⟨length + 1, Nat.succ_le_succ short, before, walked, last⟩
      · intro walked
        obtain ⟨length, short, walked⟩ := walked
        cases length with
        | zero => exact Or.inl ⟨0, Nat.zero_le _, walked⟩
        | succ length =>
            obtain ⟨before, walked, last⟩ := walked
            exact Or.inr ⟨before, ⟨length, Nat.le_of_succ_le_succ short, walked⟩, last⟩

/-- A node is noted once, with its distance, where that is neither zero nor more
than the depth. -/
theorem mem_levels_iff_distance
    (leads : ∀ before node, node ∈ next before ↔ edge before node) (starts : List Node)
    (depth : Nat) (node : Node) (reached : Nat) :
    (node, reached) ∈ levels next starts depth ↔
      1 ≤ reached ∧ reached ≤ depth ∧ IsLeast (lengths (fun _ => edge) starts node) reached := by
  rw [mem_levels]
  simp only [near_iff_walked leads]
  constructor
  · intro noted
    obtain ⟨before, stamp, below, ⟨length, short, walked⟩, far⟩ := noted
    have least : ∀ other, Walked (fun _ => edge) starts other node → before < other := by
      intro other walked
      by_contra shorter
      exact far ⟨other, Nat.le_of_not_lt shorter, walked⟩
    have same : length = reached := by
      have longer := least length walked
      omega
    subst same
    exact ⟨by omega, by omega, walked, fun other walked => by
      have longer := least other walked
      omega⟩
  · intro distance
    obtain ⟨positive, within, walked, least⟩ := distance
    refine ⟨reached - 1, by omega, by omega, ⟨reached, by omega, walked⟩, ?_⟩
    intro near
    obtain ⟨length, short, walked⟩ := near
    have longer : reached ≤ length := least walked
    omega

theorem levels_nodes_nodup (next : Node → List Node) (starts : List Node) (depth : Nat) :
    ((levels next starts depth).map Prod.fst).Nodup := by
  refine List.Nodup.map_on ?_ (levels_nodup next starts depth)
  intro left leftNoted right rightNoted same
  obtain ⟨node, reached⟩ := left
  obtain ⟨other, stamp⟩ := right
  have equal : node = other := same
  subst equal
  have distance := ((mem_levels_iff_distance (fun _ _ => Iff.rfl) starts depth _ _).mp leftNoted).2.2
  have again := ((mem_levels_iff_distance (fun _ _ => Iff.rfl) starts depth _ _).mp rightNoted).2.2
  rw [distance.unique again]

/-! ### Walks by their length -/

/-- The nodes at the ends of the walks of one length, each once. -/
def walkEnds (next : Node → List Node) (origins : List Node) : Nat → List Node
  | 0 => origins.dedup
  | length + 1 => ((walkEnds next origins length).flatMap next).dedup

theorem walkEnds_nodup (next : Node → List Node) (origins : List Node) (length : Nat) :
    (walkEnds next origins length).Nodup := by
  cases length with
  | zero => exact List.nodup_dedup _
  | succ length => exact List.nodup_dedup _

theorem mem_walkEnds_succ (next : Node → List Node) (origins : List Node) (length : Nat)
    (node : Node) :
    node ∈ walkEnds next origins (length + 1) ↔
      ∃ last ∈ walkEnds next origins length, node ∈ next last := by
  change node ∈ ((walkEnds next origins length).flatMap next).dedup ↔ _
  rw [List.mem_dedup, List.mem_flatMap]

theorem mem_walkEnds_one (next : Node → List Node) (origins : List Node) (node : Node) :
    node ∈ walkEnds next origins 1 ↔ ∃ origin ∈ origins, node ∈ next origin := by
  rw [mem_walkEnds_succ]
  simp only [walkEnds, List.mem_dedup]

/-- From the nodes at each distance, one step of the walks leads to the nodes at
the next distance and to no others. -/
structure StepsAgree (forward next : Node → List Node) (origins starts : List Node)
    (depth : Nat) : Prop where
  first : 0 < depth → ∀ node,
    (∃ origin ∈ origins, node ∈ forward origin) ↔ Newly next starts 0 node
  later : ∀ before, before + 1 < depth → ∀ node,
    (∃ last, Newly next starts before last ∧ node ∈ forward last) ↔ Newly next starts (before + 1) node

/-- The walks of each length end at the nodes of that distance, exactly where
their single steps do. -/
theorem walkEnds_agree_iff (forward next : Node → List Node) (origins starts : List Node)
    (depth : Nat) :
    (∀ before < depth, ∀ node,
        node ∈ walkEnds forward origins (before + 1) ↔ Newly next starts before node) ↔
      StepsAgree forward next origins starts depth := by
  constructor
  · intro agree
    refine ⟨fun some node => ?_, fun before inner node => ?_⟩
    · rw [← mem_walkEnds_one]
      exact agree 0 some node
    · rw [← agree (before + 1) inner node, mem_walkEnds_succ]
      simp only [agree before (Nat.lt_of_succ_lt inner)]
  · intro steps before
    induction before with
    | zero =>
        intro some node
        rw [mem_walkEnds_one]
        exact steps.first some node
    | succ before ih =>
        intro inner node
        rw [mem_walkEnds_succ, ← steps.later before inner node]
        simp only [ih (Nat.lt_of_succ_lt inner)]

end Search

end Mneme.Library
