/-
The blast radius of the tools: one recursive statement over the graph shard, beside
the walk that the supervisor makes for the same question.
-/

import Mneme.Supervisor.Blast

namespace Mneme.Store.GraphShard

open Common Parsers

/-- `SELECT qualified_name FROM nodes WHERE qualified_name = ?` -/
def qualified (hash : StableHash) (target : String) (shard : GraphShard) : List String :=
  (shard.nodes.rows.filter (fun row => row.qualifiedName.column hash = target)).map
    (fun row => row.qualifiedName.column hash)

/-- `e.target_qualified` of the edges with `e.source_qualified = b.node` -/
def targetsFrom (hash : StableHash) (shard : GraphShard) (node : String) : List String :=
  (shard.edges.filter (fun row => row.sourceQualified.column hash = node)).map
    (fun row => row.targetQualified.column hash)

/-- `COALESCE(n.kind, '?')` over the left join, in which a name is in one row. -/
def kindOf (hash : StableHash) (shard : GraphShard) (node : String) : String :=
  match shard.nodes.rows.find? (fun row => row.qualifiedName.column hash = node) with
  | some row => row.kind
  | none => "?"

end Mneme.Store.GraphShard

namespace Mneme.Mcp

open Common Library Parsers Store Supervisor

structure BlastRow where
  node : String
  depth : Nat
  kind : String
deriving DecidableEq

/-- The rows of one depth.  A row of the table `blast` comes from a row of the depth
before, and the `UNION` keeps a pair of node and depth once. -/
def blastAt (hash : StableHash) (shard : GraphShard) (target : String) (depth : Nat) :
    List BlastRow :=
  ((Search.walkEnds (shard.targetsFrom hash) (shard.qualified hash target) depth).insertionSort
    (· ≤ ·)).map (fun node => { node, depth, kind := shard.kindOf hash node })

/-- The statement without its `LIMIT`. -/
def blastRows (hash : StableHash) (shard : GraphShard) (target : String) (maxDepth : Nat) :
    List BlastRow :=
  (List.range (maxDepth + 1)).flatMap (blastAt hash shard target)

def blastLimit : Nat :=
  500

def blastRadius (hash : StableHash) (shard : GraphShard) (target : String) (maxDepth : Nat) :
    List BlastRow :=
  (blastRows hash shard target maxDepth).take blastLimit

/-- What the handler lists: the target itself is at depth zero and skipped. -/
def consumers (rows : List BlastRow) : List BlastRow :=
  rows.filter (fun row => row.depth ≠ 0)

/-- The consumers are the supervisor's rows, each once, if the limit cuts none off. -/
def BlastAgrees (hash : StableHash) (ties : RowOrder NodeRow) (orders : String → RowOrder String)
    (shard : GraphShard) (target : String) (depth : Nat) : Prop :=
  (blastRows hash shard target depth).length ≤ blastLimit →
    ((consumers (blastRadius hash shard target depth)).map (fun row => (row.node, row.depth))).Perm
      ((runBlast hash ties orders shard target depth).map
        (fun item => (item.qualifiedName, item.depth)))

variable (hash : StableHash)

variable (shard : GraphShard)

theorem mem_consumers (target : String) (maxDepth : Nat) (node : String) (reached : Nat) :
    (node, reached) ∈ (consumers (blastRows hash shard target maxDepth)).map
        (fun row => (row.node, row.depth)) ↔
      ∃ before, reached = before + 1 ∧ before < maxDepth ∧
        node ∈ Search.walkEnds (shard.targetsFrom hash) (shard.qualified hash target)
          (before + 1) := by
  unfold consumers blastRows blastAt
  simp only [List.mem_map, List.mem_filter, List.mem_flatMap, List.mem_range,
    List.mem_insertionSort, decide_eq_true_eq]
  constructor
  · rintro ⟨_, ⟨⟨depth, below, other, walked, rfl⟩, some⟩, same⟩
    cases same
    cases depth with
    | zero => exact absurd rfl some
    | succ before => exact ⟨before, rfl, by omega, walked⟩
  · rintro ⟨before, rfl, below, walked⟩
    exact ⟨_, ⟨⟨before + 1, by omega, node, walked, rfl⟩, Nat.succ_ne_zero _⟩, rfl⟩

theorem exists_before {before depth : Nat} (inner : before < depth) {test : Nat → Prop} :
    (∃ other, before + 1 = other + 1 ∧ other < depth ∧ test other) ↔ test before := by
  constructor
  · rintro ⟨other, same, _, holds⟩
    rw [Nat.succ.inj same]
    exact holds
  · intro holds
    exact ⟨before, rfl, inner, holds⟩

theorem blastAt_nodup (target : String) (depth : Nat) :
    ((blastAt hash shard target depth).map (fun row => (row.node, row.depth))).Nodup := by
  unfold blastAt
  rw [List.map_map]
  refine List.Nodup.map (fun left right same => congrArg Prod.fst same) ?_
  rw [(List.perm_insertionSort _ _).nodup_iff]
  exact Search.walkEnds_nodup _ _ _

theorem consumers_nodup (target : String) (maxDepth : Nat) :
    ((consumers (blastRows hash shard target maxDepth)).map
      (fun row => (row.node, row.depth))).Nodup := by
  have all : ((blastRows hash shard target maxDepth).map
      (fun row => (row.node, row.depth))).Nodup := by
    unfold blastRows
    rw [List.map_flatMap, List.nodup_flatMap]
    refine ⟨fun depth _ => blastAt_nodup hash shard target depth, ?_⟩
    -- The rows of two depths differ in the depth.
    refine List.Pairwise.imp ?_ List.nodup_range
    intro first second different pair inFirst inSecond
    obtain ⟨row, member, rfl⟩ := List.mem_map.mp inFirst
    obtain ⟨other, alsoMember, same⟩ := List.mem_map.mp inSecond
    obtain ⟨_, _, rfl⟩ := List.mem_map.mp member
    obtain ⟨_, _, rfl⟩ := List.mem_map.mp alsoMember
    exact different (congrArg Prod.snd same).symm
  exact all.sublist (List.filter_sublist.map _)

theorem runBlast_nodup (ties : RowOrder NodeRow) (orders : String → RowOrder String)
    (shard : GraphShard) (target : String) (depth : Nat) :
    ((runBlast hash ties orders shard target depth).map
      (fun item => (item.qualifiedName, item.depth))).Nodup := by
  unfold runBlast
  dsimp only
  split
  · exact List.nodup_nil
  · rw [(walk_complete hash orders shard _ depth).1, List.map_map]
    exact (Search.levels_nodup _ _ _).map (fun left right same => same)

/-- The two answers, where the limit cuts nothing off: one step of the statement
must lead as far from each distance as one step of the walk. -/
theorem blastAgrees_iff (ties : RowOrder NodeRow) (orders : String → RowOrder String)
    (shard : GraphShard) (target : String) (depth : Nat) :
    BlastAgrees hash ties orders shard target depth ↔
      ((blastRows hash shard target depth).length ≤ blastLimit →
        Search.StepsAgree (shard.targetsFrom hash) (shard.dependents hash orders)
          (shard.qualified hash target) (shard.resolveTarget hash ties target) depth) := by
  unfold BlastAgrees
  refine imp_congr_right ?_
  intro below
  have whole : blastRadius hash shard target depth = blastRows hash shard target depth :=
    List.take_of_length_le below
  rw [whole, List.perm_ext_iff_of_nodup (consumers_nodup hash shard target depth)
    (runBlast_nodup hash ties orders shard target depth), ← Search.walkEnds_agree_iff]
  have listed : ∀ node reached, (node, reached) ∈
      (runBlast hash ties orders shard target depth).map
        (fun item => (item.qualifiedName, item.depth)) ↔
      ∃ before, reached = before + 1 ∧ before < depth ∧
        Search.Newly (shard.dependents hash orders) (shard.resolveTarget hash ties target) before
          node := by
    intro node reached
    refine Iff.trans ?_ (mem_runBlast hash ties orders shard target depth node reached)
    rw [List.mem_map]
    constructor
    · rintro ⟨item, member, same⟩
      cases same
      exact member
    · intro member
      exact ⟨_, member, rfl⟩
  constructor
  · intro same before inner node
    have pair := same (node, before + 1)
    rw [mem_consumers, listed, exists_before inner, exists_before inner] at pair
    exact pair
  · intro same pair
    obtain ⟨node, reached⟩ := pair
    rw [mem_consumers, listed]
    constructor
    · rintro ⟨before, rfl, inner, walked⟩
      exact ⟨before, rfl, inner, (same before inner node).mp walked⟩
    · rintro ⟨before, rfl, inner, near⟩
      exact ⟨before, rfl, inner, (same before inner node).mpr near⟩

def functionRow (name : String) : NodeRow :=
  { kind := "function"
    name := name
    qualifiedName := .text name
    filePath := none
    lineStart := none
    lineEnd := none
    language := none
    extra := .null }

/-- A function that calls another one. -/
def caller : GraphShard :=
  ((GraphShard.empty.insertNode (functionRow "a")).insertNode (functionRow "b")).insertEdge
    { kind := "calls"
      sourceQualified := .text "a"
      targetQualified := .text "b"
      confidence := "extracted"
      confidenceScore := 1
      sourceExtractor := ""
      extra := .null }

def storedOrder (Row : Type) : RowOrder Row :=
  { arrange := id, perm := List.Perm.refl }

/-- The statement lists what the target calls, the walk what calls the target. -/
theorem blast_radius_differs :
    ¬ ∀ (hash : StableHash) (ties : RowOrder NodeRow) (orders : String → RowOrder String)
      (shard : GraphShard) (target : String) (depth : Nat),
        BlastAgrees hash ties orders shard target depth := by
  intro always
  have agrees := always (fun _ _ _ => "") (storedOrder _) (fun _ => storedOrder _) caller "a" 1
    (by decide)
  have lengths := agrees.length_eq
  revert lengths
  decide

end Mneme.Mcp
