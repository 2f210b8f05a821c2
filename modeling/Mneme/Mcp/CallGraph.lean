/-
The call graph of a function: the tables of the graph shard as the tools read them, and the
walk from frontier to frontier that counts the edges it meets.

Pairs of names are counted under one text with an arrow between the two, and the text is
split at its arrows when the walk is over.  A walk in both directions meets a row at either
end.
-/

import Mathlib.Algebra.BigOperators.Group.List.Basic
import Mathlib.Algebra.GroupWithZero.Nat
import Mneme.Library.Frontier
import Mneme.Library.Tally

namespace Mneme.Mcp.Graph

open Library Frontier Search

abbrev Name := List Char

/-- The columns of `edges` that the tools read. -/
structure EdgeRow where
  kind : String
  sourceQualified : Name
  targetQualified : Name
  filePath : Option Name
deriving DecidableEq

/-- The columns of `nodes` that the tools read. -/
structure NodeRow where
  qualifiedName : Name
  name : Name
  filePath : Option Name
  lineStart : Option Int
deriving DecidableEq

/-- `qualified_name` is unique in `nodes`. -/
structure Shard where
  nodes : List NodeRow
  edges : List EdgeRow
  unique : (nodes.map NodeRow.qualifiedName).Nodup

/-! ### Keys -/

def arrow : Name :=
  ['-', '>']

/-- `split("->")`. -/
def splitArrow : Name → List Name
  | [] => [[]]
  | '-' :: '>' :: rest => [] :: splitArrow rest
  | char :: rest =>
      match splitArrow rest with
      | [] => [[char]]
      | piece :: pieces => (char :: piece) :: pieces

/-! ### The walk -/

inductive Direction where
  | callers
  | callees
  | both
deriving DecidableEq

def Direction.pickCallees (direction : Direction) : Bool :=
  direction = .callees || direction = .both

def Direction.pickCallers (direction : Direction) : Bool :=
  direction = .callers || direction = .both

/-- A row that was read: its ends, and the one that the walk goes on to. -/
structure Met where
  source : Name
  target : Name
  other : Name
deriving DecidableEq

def Met.key (met : Met) : Name :=
  met.source ++ arrow ++ met.target

def Shard.calls (shard : Shard) : List EdgeRow :=
  shard.edges.filter (fun row => row.kind = "calls")

/-- `SELECT target_qualified FROM edges WHERE kind = 'calls' AND source_qualified = ?` -/
def Shard.calleesOf (shard : Shard) (node : Name) : List Met :=
  (shard.calls.filter (fun row => row.sourceQualified = node)).map
    (fun row => ⟨node, row.targetQualified, row.targetQualified⟩)

/-- `SELECT source_qualified FROM edges WHERE kind = 'calls' AND target_qualified = ?` -/
def Shard.callersOf (shard : Shard) (node : Name) : List Met :=
  (shard.calls.filter (fun row => row.targetQualified = node)).map
    (fun row => ⟨row.sourceQualified, node, row.sourceQualified⟩)

/-- The rows read for one node, those of its callees first. -/
def Shard.metAt (shard : Shard) (direction : Direction) (node : Name) : List Met :=
  (if direction.pickCallees then shard.calleesOf node else []) ++
    if direction.pickCallers then shard.callersOf node else []

structure CallGraphNode where
  id : Name
  label : Name
  file : Name
  line : Int

structure CallGraphEdge where
  source : Name
  target : Name
  callCount : Nat
deriving DecidableEq

structure CallGraph where
  nodes : List CallGraphNode
  edges : List CallGraphEdge

def Shard.nodeOf (shard : Shard) (id : Name) : CallGraphNode :=
  let row := shard.nodes.find? (fun row => row.qualifiedName = id)
  { id
    label := (row.map NodeRow.name).getD id
    file := (row.bind NodeRow.filePath).getD []
    line := (row.bind NodeRow.lineStart).getD 0 }

def edgeOf (counted : Name × Nat) : CallGraphEdge :=
  let pieces := splitArrow counted.1
  { source := pieces[0]?.getD []
    target := pieces[1]?.getD []
    callCount := counted.2 }

def countMet (counts : List (Name × Nat)) (met : Met) : List (Name × Nat) :=
  Tally.countUp met.key counts

def callGraphBfs (shard : Shard) (fn : Name) (direction : Direction) (depth : Nat) : CallGraph :=
  let walk := rounds (shard.metAt direction) Met.other countMet depth (begin fn [])
  { nodes := walk.visited.map shard.nodeOf
    edges := walk.acc.map edgeOf }

/-! ### What a call graph should be -/

section Specification

variable (shard : Shard) (direction : Direction)

/-- A row leads from one name to the other in the direction of the walk. -/
def Linked (first second : Name) : Prop :=
  (direction.pickCallees ∧ ∃ row ∈ shard.calls,
      row.sourceQualified = first ∧ row.targetQualified = second) ∨
    (direction.pickCallers ∧ ∃ row ∈ shard.calls,
      row.sourceQualified = second ∧ row.targetQualified = first)

/-- The name is at most so many rows away from the root. -/
def Within (fn : Name) (depth : Nat) (name : Name) : Prop :=
  ∃ length ≤ depth, Walked (fun _ => Linked shard direction) [fn] length name

/-- The walk reads the rows of the name. -/
def Expanded (fn : Name) (depth : Nat) (name : Name) : Prop :=
  ∃ before < depth, Within shard direction fn before name

/-- The number of rows from one name to the other. -/
def Shard.callCount (source target : Name) : Nat :=
  shard.calls.countP (fun row => row.sourceQualified = source ∧ row.targetQualified = target)

/-- There are rows from one name to the other, and the walk reads them. -/
def MetPair (fn : Name) (depth : Nat) (source target : Name) : Prop :=
  0 < shard.callCount source target ∧
    ((direction.pickCallees ∧ Expanded shard direction fn depth source) ∨
      (direction.pickCallers ∧ Expanded shard direction fn depth target))

/-- The nodes within the depth, and the pairs that are met with the number of their rows, each
once. -/
structure Exact (fn : Name) (depth : Nat) (graph : CallGraph) : Prop where
  nodesOnce : (graph.nodes.map CallGraphNode.id).Nodup
  nodes : ∀ name, name ∈ graph.nodes.map CallGraphNode.id ↔ Within shard direction fn depth name
  edgesOnce : (graph.edges.map (fun edge => (edge.source, edge.target))).Nodup
  edges : ∀ source target count, ⟨source, target, count⟩ ∈ graph.edges ↔
    MetPair shard direction fn depth source target ∧ count = shard.callCount source target

/-- The name has no arrow in it. -/
def Plain (name : Name) : Prop :=
  ¬ arrow <:+: name

/-- No arrow is in a name of a row that is met, and none is met at both its ends. -/
def MetOnce (fn : Name) (depth : Nat) : Prop :=
  ∀ source target, MetPair shard direction fn depth source target →
    Plain source ∧ Plain target ∧
      ¬ (direction = .both ∧ Expanded shard direction fn depth source ∧
        Expanded shard direction fn depth target)

end Specification

/-! ### Splitting -/

theorem splitArrow_arrow (rest : Name) : splitArrow ('-' :: '>' :: rest) = [] :: splitArrow rest := by
  rw [splitArrow]

theorem splitArrow_ne_nil (name : Name) : splitArrow name ≠ [] := by
  fun_induction splitArrow name <;> simp

variable {rest name : Name}

theorem splitArrow_cons {char : Char} (different : ∀ more, char :: rest ≠ '-' :: '>' :: more) :
    ∃ piece pieces, splitArrow rest = piece :: pieces ∧
      splitArrow (char :: rest) = (char :: piece) :: pieces := by
  obtain ⟨piece, pieces, split⟩ := List.exists_cons_of_ne_nil (splitArrow_ne_nil rest)
  refine ⟨piece, pieces, split, ?_⟩
  rw [splitArrow, split]
  intro more atDash same
  exact different more (by rw [atDash, same])

theorem Plain.tail {char : Char} (plain : Plain (char :: rest)) : Plain rest :=
  fun inside => plain (inside.trans (List.suffix_cons char rest).isInfix)

/-- A plain name is one piece, and the piece before the first arrow. -/
theorem splitArrow_plain (plain : Plain name) (rest : Name) :
    splitArrow (name ++ arrow ++ rest) = name :: splitArrow rest := by
  induction name with
  | nil => exact splitArrow_arrow rest
  | cons char name ih =>
      have apart : ∀ more, char :: (name ++ arrow ++ rest) ≠ '-' :: '>' :: more := by
        intro more same
        injection same with atDash behind
        cases name with
        | nil => cases behind
        | cons second name =>
            injection behind with atHead _
            apply plain
            rw [atDash, atHead]
            exact ⟨[], name, rfl⟩
      obtain ⟨piece, pieces, split, whole⟩ := splitArrow_cons apart
      rw [ih plain.tail] at split
      injection split with same others
      rw [List.cons_append, List.cons_append, whole, ← same, ← others]

theorem splitArrow_single (plain : Plain name) : splitArrow name = [name] := by
  induction name with
  | nil => rfl
  | cons char name ih =>
      have apart : ∀ more, char :: name ≠ '-' :: '>' :: more := by
        intro more same
        rw [same] at plain
        exact plain ⟨[], more, rfl⟩
      obtain ⟨piece, pieces, split, whole⟩ := splitArrow_cons apart
      rw [ih plain.tail] at split
      injection split with same others
      rw [whole, ← same, ← others]

/-- The first piece begins as the text does. -/
theorem splitArrow_head {piece : Name} {pieces : List Name}
    (split : splitArrow name = piece :: pieces) : piece <+: name := by
  induction name generalizing piece pieces with
  | nil =>
      injection split with same _
      rw [← same]
  | cons char name ih =>
      by_cases dash : ∃ more, char :: name = '-' :: '>' :: more
      · obtain ⟨more, same⟩ := dash
        rw [same, splitArrow_arrow] at split
        injection split with empty _
        rw [← empty]
        exact List.nil_prefix
      · obtain ⟨first, others, rest, whole⟩ := splitArrow_cons (not_exists.mp dash)
        rw [whole] at split
        injection split with same _
        rw [← same, List.prefix_cons_inj]
        exact ih rest

/-- No piece has an arrow in it. -/
theorem splitArrow_pieces (name : Name) : ∀ piece ∈ splitArrow name, Plain piece := by
  have empty : Plain [] := by
    intro inside
    exact absurd (List.infix_nil.mp inside) (by decide)
  fun_induction splitArrow name with
  | case1 =>
      intro piece member
      rw [List.mem_singleton.mp member]
      exact empty
  | case2 rest ih =>
      intro piece member
      rcases List.mem_cons.mp member with first | later
      · rw [first]
        exact empty
      · exact ih piece later
  | case3 char rest _ none => exact absurd none (splitArrow_ne_nil rest)
  | case4 char rest different piece pieces split ih =>
      rw [split] at ih
      intro other member
      rcases List.mem_cons.mp member with first | later
      · rw [first]
        rintro ⟨front, back, inside⟩
        cases front with
        | nil =>
            injection inside with atDash behind
            -- The second half of the arrow would begin the rest.
            have begins : '>' :: back <+: rest := by
              have head := splitArrow_head split
              rwa [← behind] at head
            obtain ⟨more, rest_eq⟩ := begins
            exact different (back ++ more) atDash.symm rest_eq.symm
        | cons head front =>
            injection inside with _ behind
            exact ih piece List.mem_cons_self ⟨front, back, behind⟩
      · exact ih other (List.mem_cons_of_mem _ later)

/-! ### The rows that are met -/

section Walking

variable (shard : Shard) (direction : Direction)

variable {met : Met}

theorem mem_metAt {node : Name} :
    met ∈ shard.metAt direction node ↔
      (direction.pickCallees ∧ (∃ row ∈ shard.calls, row.sourceQualified = node ∧
        met = ⟨node, row.targetQualified, row.targetQualified⟩)) ∨
      (direction.pickCallers ∧ (∃ row ∈ shard.calls, row.targetQualified = node ∧
        met = ⟨row.sourceQualified, node, row.sourceQualified⟩)) := by
  have callees : met ∈ shard.calleesOf node ↔ ∃ row ∈ shard.calls, row.sourceQualified = node ∧
      met = ⟨node, row.targetQualified, row.targetQualified⟩ := by
    unfold Shard.calleesOf
    simp only [List.mem_map, List.mem_filter, decide_eq_true_eq, and_assoc, @eq_comm _ met]
  have callers : met ∈ shard.callersOf node ↔ ∃ row ∈ shard.calls, row.targetQualified = node ∧
      met = ⟨row.sourceQualified, node, row.sourceQualified⟩ := by
    unfold Shard.callersOf
    simp only [List.mem_map, List.mem_filter, decide_eq_true_eq, and_assoc, @eq_comm _ met]
  unfold Shard.metAt
  rw [List.mem_append, List.mem_ite_nil_right, List.mem_ite_nil_right, callees, callers]

theorem leadsTo_iff_linked (node name : Name) :
    name ∈ leadsTo (shard.metAt direction) Met.other node ↔ Linked shard direction node name := by
  unfold leadsTo Linked
  rw [List.mem_map]
  constructor
  · rintro ⟨met, read, rfl⟩
    rcases (mem_metAt shard direction).mp read with ⟨pick, row, member, source, rfl⟩ |
      ⟨pick, row, member, target, rfl⟩
    · exact Or.inl ⟨pick, row, member, source, rfl⟩
    · exact Or.inr ⟨pick, row, member, rfl, target⟩
  · rintro (⟨pick, row, member, source, rfl⟩ | ⟨pick, row, member, rfl, target⟩)
    · exact ⟨_, (mem_metAt shard direction).mpr (Or.inl ⟨pick, row, member, source, rfl⟩), rfl⟩
    · exact ⟨_, (mem_metAt shard direction).mpr (Or.inr ⟨pick, row, member, target, rfl⟩), rfl⟩

variable (fn : Name)

theorem near_iff_within (depth : Nat) (name : Name) :
    Near (leadsTo (shard.metAt direction) Met.other) [fn] depth name ↔
      Within shard direction fn depth name :=
  near_iff_walked (leadsTo_iff_linked shard direction) [fn] depth name

/-- The names whose rows are read. -/
def expandedNames (fn : Name) (depth : Nat) : List Name :=
  taken (shard.metAt direction) Met.other fn depth

theorem mem_expandedNames (depth : Nat) (name : Name) :
    name ∈ expandedNames shard direction fn depth ↔ Expanded shard direction fn depth name := by
  unfold expandedNames Expanded
  simp only [mem_taken, near_iff_within]

/-- All rows that are read, in their order. -/
def allMet (fn : Name) (depth : Nat) : List Met :=
  (expandedNames shard direction fn depth).flatMap (shard.metAt direction)

theorem callGraphBfs_eq (depth : Nat) :
    callGraphBfs shard fn direction depth =
      { nodes := (seen (shard.metAt direction) Met.other fn depth).map shard.nodeOf
        edges := (Tally.tally ((allMet shard direction fn depth).map Met.key)).map edgeOf } := by
  unfold callGraphBfs Tally.tally
  rw [rounds_begin, List.foldl_map]
  rfl

variable {depth : Nat} {fn : Name}

theorem mem_allMet (read : met ∈ allMet shard direction fn depth) :
    MetPair shard direction fn depth met.source met.target := by
  obtain ⟨node, expanded, here⟩ := List.mem_flatMap.mp read
  rw [mem_expandedNames] at expanded
  unfold MetPair Shard.callCount
  rw [List.countP_pos_iff]
  rcases (mem_metAt shard direction).mp here with ⟨pick, row, member, source, rfl⟩ |
    ⟨pick, row, member, target, rfl⟩
  · exact ⟨⟨row, member, decide_eq_true ⟨source, rfl⟩⟩, Or.inl ⟨pick, expanded⟩⟩
  · exact ⟨⟨row, member, decide_eq_true ⟨rfl, target⟩⟩, Or.inr ⟨pick, expanded⟩⟩

/-- A pair of names is read at one end and at the other. -/
theorem countP_metAt (node source target : Name) :
    (shard.metAt direction node).countP (fun met => met.source = source ∧ met.target = target) =
      (if direction.pickCallees ∧ node = source then shard.callCount source target else 0) +
        if direction.pickCallers ∧ node = target then shard.callCount source target else 0 := by
  have callees : (shard.calleesOf node).countP
      (fun met => met.source = source ∧ met.target = target) =
      if node = source then shard.callCount source target else 0 := by
    unfold Shard.calleesOf Shard.callCount
    rw [List.countP_map, List.countP_filter]
    split
    · next here =>
        apply List.countP_congr
        intro row _
        simp [here, and_comm]
    · next elsewhere =>
        rw [List.countP_eq_zero]
        intro row _
        simp [elsewhere]
  have callers : (shard.callersOf node).countP
      (fun met => met.source = source ∧ met.target = target) =
      if node = target then shard.callCount source target else 0 := by
    unfold Shard.callersOf Shard.callCount
    rw [List.countP_map, List.countP_filter]
    split
    · next here =>
        apply List.countP_congr
        intro row _
        simp [here]
    · next elsewhere =>
        rw [List.countP_eq_zero]
        intro row _
        simp [elsewhere]
  unfold Shard.metAt
  rw [List.countP_append, apply_ite (List.countP _), apply_ite (List.countP _), callees, callers,
    List.countP_nil]
  cases direction.pickCallees <;> cases direction.pickCallers <;> simp

theorem sum_of_one {names : List Name} (once : names.Nodup) (name : Name) (pick : Bool)
    (amount : Nat) :
    (names.map (fun node => if pick ∧ node = name then amount else 0)).sum =
      if pick ∧ name ∈ names then amount else 0 := by
  induction names with
  | nil => simp
  | cons node names ih =>
      obtain ⟨new, once⟩ := List.nodup_cons.mp once
      rw [List.map_cons, List.sum_cons, ih once]
      by_cases here : node = name
      · rw [here] at new ⊢
        simp [new]
      · have there : name ≠ node := fun same => here same.symm
        simp [here, there]

theorem countP_allMet (fn : Name) (depth : Nat) (source target : Name) :
    (allMet shard direction fn depth).countP (fun met => met.source = source ∧ met.target = target) =
      (if direction.pickCallees ∧ source ∈ expandedNames shard direction fn depth then
          shard.callCount source target else 0) +
        if direction.pickCallers ∧ target ∈ expandedNames shard direction fn depth then
          shard.callCount source target else 0 := by
  have once : (expandedNames shard direction fn depth).Nodup := taken_nodup _ _ fn depth
  unfold allMet
  rw [List.countP_flatMap]
  have each : (List.countP (fun met : Met => decide (met.source = source ∧ met.target = target))) ∘
      shard.metAt direction = fun node =>
        (if direction.pickCallees ∧ node = source then shard.callCount source target else 0) +
          if direction.pickCallers ∧ node = target then shard.callCount source target else 0 :=
    funext fun node => countP_metAt shard direction node source target
  rw [each, List.sum_map_add, sum_of_one once, sum_of_one once]

/-! ### Exact call graphs -/

/-- A key of plain names is split into the two. -/
theorem edgeOf_key (source : Plain met.source) (target : Plain met.target)
    (count : Nat) : edgeOf (met.key, count) = ⟨met.source, met.target, count⟩ := by
  unfold edgeOf Met.key
  simp only [splitArrow_plain source, splitArrow_single target]
  rfl

theorem plain_edgeOf (counted : Name × Nat) :
    Plain (edgeOf counted).source ∧ Plain (edgeOf counted).target := by
  have pieces := splitArrow_pieces counted.1
  have empty : Plain [] := fun inside => absurd (List.infix_nil.mp inside) (by decide)
  have each : ∀ place : Nat, Plain ((splitArrow counted.1)[place]?.getD []) := by
    intro place
    cases found : (splitArrow counted.1)[place]? with
    | none => exact empty
    | some piece => exact pieces piece (List.mem_of_getElem? found)
  exact ⟨each 0, each 1⟩

variable {source target : Name}

variable {shard direction} in
/-- Where all names that are met are plain, a key stands for one pair. -/
theorem times_key (plain : ∀ source target, MetPair shard direction fn depth source target →
      Plain source ∧ Plain target)
    (pair : MetPair shard direction fn depth source target) (other : Name) :
    Tally.times ((allMet shard direction fn depth).map Met.key) (Met.mk source target other).key =
      (allMet shard direction fn depth).countP
        (fun met => met.source = source ∧ met.target = target) := by
  unfold Tally.times
  rw [List.countP_map]
  apply List.countP_congr
  intro met read
  rw [Function.comp_apply, decide_eq_true_iff, decide_eq_true_iff]
  constructor
  · intro same
    have plainMet := plain _ _ (mem_allMet shard direction read)
    have plainPair := plain _ _ pair
    have split := congrArg (fun key => edgeOf (key, 0)) same
    simp only [edgeOf_key plainMet.1 plainMet.2] at split
    rw [@edgeOf_key ⟨source, target, other⟩ plainPair.1 plainPair.2] at split
    injection split with sources targets
    exact ⟨sources, targets⟩
  · rintro ⟨rfl, rfl⟩
    rfl

variable {shard direction} in
theorem exists_mem_allMet (pair : MetPair shard direction fn depth source target) :
    ∃ met ∈ allMet shard direction fn depth, met.source = source ∧ met.target = target := by
  have some : 0 < (allMet shard direction fn depth).countP
      (fun met => met.source = source ∧ met.target = target) := by
    rw [countP_allMet]
    obtain ⟨rows, ⟨pick, expanded⟩ | ⟨pick, expanded⟩⟩ := pair
    · rw [if_pos ⟨pick, (mem_expandedNames shard direction fn depth source).mpr expanded⟩]
      omega
    · rw [if_pos (⟨pick, (mem_expandedNames shard direction fn depth target).mpr expanded⟩ :
        direction.pickCallers = true ∧ target ∈ expandedNames shard direction fn depth)]
      omega
  obtain ⟨met, read, same⟩ := List.countP_pos_iff.mp some
  exact ⟨met, read, of_decide_eq_true same⟩

variable {shard direction} in
/-- A pair that is met is counted once exactly if it is not met at both its ends. -/
theorem countP_eq_callCount_iff (pair : MetPair shard direction fn depth source target) :
    (allMet shard direction fn depth).countP
        (fun met => met.source = source ∧ met.target = target) = shard.callCount source target ↔
      ¬ (direction = .both ∧ Expanded shard direction fn depth source ∧
        Expanded shard direction fn depth target) := by
  obtain ⟨rows, met⟩ := pair
  rw [countP_allMet]
  simp only [← mem_expandedNames] at met ⊢
  cases direction with
  | callers =>
      have target : target ∈ expandedNames shard .callers fn depth := by
        simpa [Direction.pickCallees, Direction.pickCallers] using met
      simp [Direction.pickCallees, Direction.pickCallers, target]
  | callees =>
      have source : source ∈ expandedNames shard .callees fn depth := by
        simpa [Direction.pickCallees, Direction.pickCallers] using met
      simp [Direction.pickCallees, Direction.pickCallers, source]
  | both =>
      by_cases first : source ∈ expandedNames shard .both fn depth
      · by_cases second : target ∈ expandedNames shard .both fn depth
        · simp [Direction.pickCallees, Direction.pickCallers, first, second]
          omega
        · simp [Direction.pickCallees, Direction.pickCallers, first, second]
      · have second : target ∈ expandedNames shard .both fn depth := by
          simpa [Direction.pickCallees, Direction.pickCallers, first] using met
        simp [Direction.pickCallees, Direction.pickCallers, first, second]

theorem mem_edges {edge : CallGraphEdge} :
    edge ∈ (callGraphBfs shard fn direction depth).edges ↔
      ∃ met ∈ allMet shard direction fn depth, edge = edgeOf (met.key,
        Tally.times ((allMet shard direction fn depth).map Met.key) met.key) := by
  rw [callGraphBfs_eq]
  constructor
  · intro member
    obtain ⟨⟨key, count⟩, counted, rfl⟩ := List.mem_map.mp member
    obtain ⟨present, rfl⟩ := Tally.mem_tally.mp counted
    obtain ⟨met, read, rfl⟩ := List.mem_map.mp present
    exact ⟨met, read, rfl⟩
  · rintro ⟨met, read, rfl⟩
    exact List.mem_map.mpr ⟨_, Tally.mem_tally.mpr ⟨List.mem_map_of_mem read, rfl⟩, rfl⟩

theorem map_id_nodes (fn : Name) (depth : Nat) :
    (callGraphBfs shard fn direction depth).nodes.map CallGraphNode.id =
      seen (shard.metAt direction) Met.other fn depth := by
  rw [callGraphBfs_eq, List.map_map]
  exact List.map_id _

/-- The call graph is exact for the tables and the walk exactly if no name that is met has an
arrow in it and no row is met at both its ends. -/
theorem callGraphBfs_exact_iff (fn : Name) (depth : Nat) :
    Exact shard direction fn depth (callGraphBfs shard fn direction depth) ↔
      MetOnce shard direction fn depth := by
  constructor
  · intro exactly
    have plain : ∀ source target, MetPair shard direction fn depth source target →
        Plain source ∧ Plain target := by
      intro source target pair
      have edge := (exactly.edges source target _).mpr ⟨pair, rfl⟩
      obtain ⟨met, _, same⟩ := (mem_edges shard direction).mp edge
      have pieces := plain_edgeOf (met.key,
        Tally.times ((allMet shard direction fn depth).map Met.key) met.key)
      rwa [← same] at pieces
    intro source target pair
    have names := plain source target pair
    refine ⟨names.1, names.2, (countP_eq_callCount_iff pair).mp ?_⟩
    obtain ⟨met, read, rfl, rfl⟩ := exists_mem_allMet pair
    have edge := (mem_edges shard direction).mpr ⟨met, read, rfl⟩
    rw [edgeOf_key names.1 names.2] at edge
    have counted := ((exactly.edges _ _ _).mp edge).2
    rw [← counted]
    exact (times_key plain pair met.other).symm
  · intro once
    have plain : ∀ source target, MetPair shard direction fn depth source target →
        Plain source ∧ Plain target := fun source target pair =>
      ⟨(once source target pair).1, (once source target pair).2.1⟩
    refine ⟨?_, ?_, ?_, ?_⟩
    · rw [map_id_nodes]
      exact seen_nodup _ _ fn depth
    · intro name
      rw [map_id_nodes, mem_seen, near_iff_within]
    · rw [callGraphBfs_eq, List.map_map]
      refine List.Nodup.map_on ?_ (List.Nodup.of_map _ (Tally.tally_nodup _))
      intro first firstIn second secondIn same
      obtain ⟨firstKey, firstCount⟩ := first
      obtain ⟨secondKey, secondCount⟩ := second
      obtain ⟨firstPresent, rfl⟩ := Tally.mem_tally.mp firstIn
      obtain ⟨secondPresent, rfl⟩ := Tally.mem_tally.mp secondIn
      obtain ⟨met, read, rfl⟩ := List.mem_map.mp firstPresent
      obtain ⟨other, otherRead, rfl⟩ := List.mem_map.mp secondPresent
      have metPlain := plain _ _ (mem_allMet shard direction read)
      have otherPlain := plain _ _ (mem_allMet shard direction otherRead)
      simp only [Function.comp_apply, edgeOf_key metPlain.1 metPlain.2,
        edgeOf_key otherPlain.1 otherPlain.2] at same
      have keys : met.key = other.key := by
        unfold Met.key
        rw [(Prod.mk.inj same).1, (Prod.mk.inj same).2]
      rw [keys]
    · intro source target count
      rw [mem_edges]
      constructor
      · rintro ⟨met, read, same⟩
        have pair := mem_allMet shard direction read
        have names := plain _ _ pair
        rw [edgeOf_key names.1 names.2] at same
        injection same with sources targets counts
        rw [sources, targets, counts]
        refine ⟨pair, ?_⟩
        have met_times := times_key plain pair met.other
        rw [(countP_eq_callCount_iff pair).mpr (once _ _ pair).2.2] at met_times
        exact met_times
      · rintro ⟨pair, rfl⟩
        obtain ⟨met, read, rfl, rfl⟩ := exists_mem_allMet pair
        refine ⟨met, read, ?_⟩
        have names := plain _ _ pair
        have met_times := times_key plain pair met.other
        rw [(countP_eq_callCount_iff pair).mpr (once _ _ pair).2.2] at met_times
        rw [edgeOf_key names.1 names.2]
        exact congrArg (CallGraphEdge.mk met.source met.target) met_times.symm

end Walking

/-- One call from `a` to the name. -/
def oneCall (name : Name) : Shard :=
  { nodes := []
    edges := [⟨"calls", ['a'], name, none⟩]
    unique := List.nodup_nil }

/-- A walk in both directions meets the call at `a` and again at `b`; a name with an arrow is
cut at it. -/
theorem oneCall_inexact :
    ¬ Exact (oneCall ['b']) .both ['a'] 2 (callGraphBfs (oneCall ['b']) ['a'] .both 2) ∧
      ¬ Exact (oneCall "b->c".toList) .callees ['a'] 1
        (callGraphBfs (oneCall "b->c".toList) ['a'] .callees 1) := by
  constructor
  · intro exactly
    have twice : ⟨['a'], ['b'], 2⟩ ∈ (callGraphBfs (oneCall ['b']) ['a'] .both 2).edges := by
      decide +kernel
    exact absurd ((exactly.edges _ _ _).mp twice).2 (by decide)
  · intro exactly
    have cut : ⟨['a'], ['b'], 1⟩ ∈
        (callGraphBfs (oneCall "b->c".toList) ['a'] .callees 1).edges := by
      decide +kernel
    exact absurd ((exactly.edges _ _ _).mp cut).1.1 (by decide)

end Mneme.Mcp.Graph
