/-
Call edges and the blast radius.

A call edge points at a text made of the file and the name of the callee.  No
node is stored under such a text and no pass replaces it, so the walk, which
follows edges into the nodes it has, never takes a call edge: over a built
shard it only finds files.
-/

import Mneme.Cli.RunInline
import Mneme.Supervisor.Blast

namespace Mneme.Cli

open Common Library Parsers Store Supervisor

/-! ### Columns by their first character -/

/-- The text begins like the target of a call (`call::`) or of an inheritance
edge (`ext::`). -/
def Dangling (column : String) : Prop :=
  column.toList.head? = some 'c' ∨ column.toList.head? = some 'e'

theorem head_append {first : String} {char : Char} (head : first.toList.head? = some char)
    (rest : String) : (first ++ rest).toList.head? = some char := by
  rw [String.toList_append, List.head?_append, head]
  rfl

variable (hash : StableHash)

theorem head_stable (path : Path) (startByte : Nat) (kind : NodeKind) :
    ((GraphId.stable path startByte kind).column hash).toList.head? = some 'n' :=
  head_append rfl _

theorem stable_not_dangling (path : Path) (startByte : Nat) (kind : NodeKind) :
    ¬ Dangling ((GraphId.stable path startByte kind).column hash) := by
  unfold Dangling
  rw [head_stable]
  decide

theorem callEdge_dangling (source : Extraction) (call : TsNode)
    (captures : List Capture) : Dangling ((source.callEdge call captures).target.column hash) := by
  left
  unfold Extraction.callEdge GraphId.column
  dsimp only
  rw [String.append_assoc, String.append_assoc]
  exact head_append rfl _

theorem inheritsEdge_dangling (source : Extraction) (node : TsNode)
    (target : String) : Dangling ((source.inheritsEdge node target).target.column hash) := by
  right
  unfold Extraction.inheritsEdge GraphId.column
  dsimp only
  rw [String.append_assoc, String.append_assoc]
  exact head_append rfl _

theorem pageRow_not_dangling (doc : ExtractedDoc) (page : PageText) :
    ¬ Dangling ((pageRow doc page).qualifiedName.column hash) := by
  have head : ∃ char, (scheme doc.kind).toList.head? = some char ∧ char ≠ 'c' ∧ char ≠ 'e' := by
    unfold scheme
    split <;> exact ⟨_, rfl, by decide, by decide⟩
  obtain ⟨char, first, notCall, notExt⟩ := head
  unfold pageRow GraphId.column Dangling
  dsimp only
  rw [String.append_assoc, String.append_assoc, String.append_assoc]
  change ¬ ((scheme doc.kind ++ _).toList.head? = _ ∨ (scheme doc.kind ++ _).toList.head? = _)
  rw [head_append first]
  simp [notCall, notExt]

/-! ### What a build stores -/

/-- An edge that does not start at a file has a target that is no node's. -/
structure Detached (hash : StableHash) (shard : GraphShard) : Prop where
  nodes : ∀ row ∈ shard.nodes.rows, ¬ Dangling (row.qualifiedName.column hash)
  edges : ∀ row ∈ shard.edges, ∃ path startByte kind,
    row.sourceQualified = .stable path startByte kind ∧
      (kind = .file ∨ Dangling (row.targetQualified.column hash))

variable {graph : ExtractedGraph}

theorem extracted_edge {source : Extraction}
    (extracted : source.extract = .ok graph) {edge : Edge} (member : edge ∈ graph.edges) :
    ∃ startByte kind, edge.source = .stable source.filePath startByte kind ∧
      (kind = .file ∨ Dangling (edge.target.column hash)) := by
  obtain ⟨found, made⟩ := Extraction.extract_madeFrom extracted
  rw [made.edges] at member
  rcases List.mem_append.mp member with member | member
  · obtain ⟨pass, _, member⟩ := List.mem_flatMap.mp member
    obtain ⟨⟨outer, captures⟩, _, rfl⟩ := List.mem_map.mp member
    refine ⟨0, .file, ?_, Or.inl rfl⟩
    change (source.memberEdge pass.2 outer captures).source = source.fileId
    unfold Extraction.memberEdge
    split
    · rfl
    · rfl
  · rcases List.mem_append.mp member with member | member
    · obtain ⟨⟨call, captures⟩, _, rfl⟩ := List.mem_map.mp member
      have dangling := callEdge_dangling hash source call captures
      change ∃ startByte kind, source.callSource call = _ ∧ _
      unfold Extraction.callSource
      split
      · exact ⟨_, _, rfl, Or.inr dangling⟩
      · exact ⟨_, _, rfl, Or.inr dangling⟩
    · obtain ⟨node, _, inherits⟩ := List.mem_filterMap.mp member
      obtain ⟨target, _, rfl⟩ := Option.map_eq_some_iff.mp inherits
      exact ⟨_, _, rfl, Or.inr (inheritsEdge_dangling hash source node target)⟩

/-- The id of a node is made of its file and its kind. -/
theorem extracted_node {source : Extraction}
    (extracted : source.extract = .ok graph) {node : Node} (member : node ∈ graph.nodes) :
    ∃ startByte, node.id = .stable source.filePath startByte node.kind := by
  obtain ⟨found, made⟩ := Extraction.extract_madeFrom extracted
  rw [made.nodes] at member
  rcases List.mem_cons.mp member with rfl | member
  · exact ⟨0, rfl⟩
  · obtain ⟨pass, _, member⟩ := List.mem_flatMap.mp member
    obtain ⟨_, _, rfl⟩ := List.mem_map.mp member
    exact ⟨_, rfl⟩

theorem extracted_of_indexed {machine : Machine} {limit : Nat} {paths : List Path}
    (indexed : graph ∈ indexedGraphs machine limit paths) :
    ∃ source : Extraction, source.extract = .ok graph := by
  have listed : graph ∈ graphsOf machine paths := by
    unfold indexedGraphs at indexed
    split at indexed
    · exact indexed
    · exact List.mem_of_mem_take indexed
  obtain ⟨path, _, extracted⟩ := List.mem_filterMap.mp listed
  obtain ⟨source, _, done⟩ := extract_of_extractedGraph extracted
  exact ⟨source, done⟩

theorem built_detached (machine : Machine) (limit : Nat) (paths : List Path) :
    Detached hash (runInline machine limit paths .empty).2 := by
  rw [runInline_shard]
  constructor
  · intro row stored
    have put : row ∈ putRows machine limit paths := Keyed.mem_of_mem_putAll stored
    rcases List.mem_append.mp put with code | page
    · obtain ⟨graph, indexed, member⟩ := List.mem_flatMap.mp code
      obtain ⟨node, held, rfl⟩ := List.mem_map.mp member
      obtain ⟨source, extracted⟩ := extracted_of_indexed indexed
      obtain ⟨startByte, id⟩ := extracted_node extracted held
      change ¬ Dangling (node.id.column hash)
      rw [id]
      exact stable_not_dangling hash _ _ _
    · obtain ⟨path, _, member⟩ := List.mem_flatMap.mp page
      unfold documentRows at member
      split at member
      · cases member
      · split at member
        · obtain ⟨record, _, rfl⟩ := List.mem_map.mp member
          exact pageRow_not_dangling hash _ record
        · cases member
  · intro row stored
    have added : row ∈ addedEdges machine limit paths := stored
    obtain ⟨graph, indexed, member⟩ := List.mem_flatMap.mp added
    obtain ⟨edge, held, rfl⟩ := List.mem_map.mp member
    obtain ⟨source, extracted⟩ := extracted_of_indexed indexed
    obtain ⟨startByte, kind, from_, reach⟩ := extracted_edge hash extracted held
    exact ⟨source.filePath, startByte, kind, from_, reach⟩

/-! ### What a walk finds -/

variable {shard : GraphShard} {hash : StableHash}

/-- The walk never comes to a text that no node is stored under. -/
theorem near_not_dangling (detached : Detached hash shard)
    (ties : RowOrder NodeRow) (orders : String → RowOrder String) (target : String) (depth : Nat) :
    ∀ node, Search.Near (shard.dependents hash orders) (shard.resolveTarget hash ties target)
      depth node → ¬ Dangling node := by
  induction depth with
  | zero =>
      intro node start
      obtain ⟨row, stored, same⟩ := GraphShard.mem_resolveTarget hash start
      rw [← same]
      exact detached.nodes row stored
  | succ depth ih =>
      rintro node (near | ⟨before, _, edge⟩)
      · exact ih node near
      · obtain ⟨row, stored, same, _⟩ := (GraphShard.mem_dependents hash _ _ _ _).mp edge
        obtain ⟨path, startByte, kind, source, _⟩ := detached.edges row stored
        rw [← same, source]
        exact stable_not_dangling hash path startByte kind

/-- Everything that is listed is a file. -/
theorem listed_file (detached : Detached hash shard)
    (ties : RowOrder NodeRow) (orders : String → RowOrder String) (target : String) (depth : Nat)
    {item : BlastItem} (listed : item ∈ runBlast hash ties orders shard target depth) :
    ∃ path startByte, item.qualifiedName = (GraphId.stable path startByte .file).column hash := by
  obtain ⟨name, reached⟩ := item
  obtain ⟨before, _, _, near, far⟩ :=
    (mem_runBlast hash ties orders shard target depth name reached).mp listed
  rcases near with old | ⟨node, there, edge⟩
  · exact absurd old far
  · obtain ⟨row, stored, same, into⟩ := (GraphShard.mem_dependents hash _ _ _ _).mp edge
    obtain ⟨path, startByte, kind, source, reach⟩ := detached.edges row stored
    rcases reach with file | dangling
    · subst file
      exact ⟨path, startByte, by rw [← same, source]⟩
    · rcases into with reached | named
      · rw [reached] at dangling
        exact absurd dangling (near_not_dangling detached ties orders target before node there)
      · obtain ⟨other, held, column⟩ := List.mem_map.mp named
        rw [← column] at dangling
        exact absurd dangling (detached.nodes other (List.mem_filter.mp held).1)

/-- The hash of different paths, bytes or kinds differs. -/
def Distinct (hash : StableHash) : Prop :=
  ∀ path startByte kind path' startByte' kind',
    hash path startByte kind = hash path' startByte' kind' →
      path = path' ∧ startByte = startByte' ∧ kind = kind'

theorem function_not_listed (distinct : Distinct hash)
    (detached : Detached hash shard) (ties : RowOrder NodeRow) (orders : String → RowOrder String)
    (target : String) (depth : Nat) (path : Path) (startByte : Nat) :
    ¬ ∃ item ∈ runBlast hash ties orders shard target depth,
      item.qualifiedName = (GraphId.stable path startByte .function).column hash := by
  rintro ⟨item, listed, named⟩
  obtain ⟨other, start, file⟩ := listed_file detached ties orders target depth listed
  rw [file] at named
  have digits := (String.append_right_inj _).mp named
  exact absurd (distinct _ _ _ _ _ _ digits).2.2 (by decide)

/-! ### Callers -/

/-- The caller is a function of some indexed file, with a call that names the
callee, a function of the same project. -/
structure NamesCallee (graphs : List ExtractedGraph) (caller callee : Node) : Prop where
  calls : ∃ graph ∈ graphs, caller ∈ graph.nodes ∧ ∃ edge ∈ graph.edges,
    edge.kind = .calls ∧ edge.source = caller.id ∧ edge.unresolvedTarget = some callee.name
  defined : ∃ graph ∈ graphs, callee ∈ graph.nodes
  functions : caller.kind = .function ∧ callee.kind = .function

/-- The blast of the callee lists the caller. -/
def Lists (hash : StableHash) (ties : RowOrder NodeRow) (orders : String → RowOrder String)
    (shard : GraphShard) (callee caller : Node) (depth : Nat) : Prop :=
  ∃ target, (target = callee.name ∨ target = callee.id.column hash) ∧
    ∃ item ∈ runBlast hash ties orders shard target depth,
      item.qualifiedName = caller.id.column hash

theorem function_id {machine : Machine} {limit : Nat} {paths : List Path} {caller callee : Node}
    (names : NamesCallee (indexedGraphs machine limit paths) caller callee) :
    ∃ path startByte, caller.id = .stable path startByte .function := by
  obtain ⟨graph, indexed, member, _⟩ := names.calls
  obtain ⟨source, extracted⟩ := extracted_of_indexed indexed
  obtain ⟨startByte, id⟩ := extracted_node extracted member
  rw [names.functions.1] at id
  exact ⟨source.filePath, startByte, id⟩

theorem not_lists (distinct : Distinct hash)
    (detached : Detached hash shard) (ties : RowOrder NodeRow) (orders : String → RowOrder String)
    {caller : Node} {path : Path} {startByte : Nat}
    (id : caller.id = .stable path startByte .function) (callee : Node) (depth : Nat) :
    ¬ Lists hash ties orders shard callee caller depth := by
  rintro ⟨target, _, listed⟩
  rw [id] at listed
  exact function_not_listed distinct detached ties orders target depth path startByte listed

theorem caller_never_listed {hash : StableHash} (distinct : Distinct hash)
    (ties : RowOrder NodeRow) (orders : String → RowOrder String) (machine : Machine)
    (limit : Nat) (paths : List Path) {caller callee : Node}
    (names : NamesCallee (indexedGraphs machine limit paths) caller callee) (depth : Nat) :
    ¬ Lists hash ties orders (runInline machine limit paths .empty).2 callee caller depth := by
  obtain ⟨path, startByte, id⟩ := function_id names
  exact not_lists distinct (built_detached hash machine limit paths) ties orders id callee depth

/-! ### A file with a caller and its callee -/

/-- `function f() {}` and `() => f()` in one file. -/
def callingFile : Machine :=
  { treeSitter := .documented (fun _ _ =>
      some (Extraction.spanning "program" none 0 25
        [Extraction.spanning "function_declaration" none 0 15
          [Extraction.spanning "identifier" (some "name") 9 10 [],
            Extraction.spanning "formal_parameters" (some "parameters") 10 12 [],
            Extraction.spanning "statement_block" (some "body") 13 15 []],
        Extraction.spanning "expression_statement" none 16 25
          [Extraction.spanning "arrow_function" none 16 25
            [Extraction.spanning "formal_parameters" (some "parameters") 16 18 [],
              Extraction.spanning "call_expression" (some "body") 22 25
                [Extraction.spanning "identifier" (some "function") 22 23 [],
                  Extraction.spanning "arguments" (some "arguments") 23 25 []]]]]))
    registry := []
    read := fun _ => some "function f() {} () => f()".toUTF8 }

theorem callingFile_names :
    ∃ caller callee, NamesCallee (indexedGraphs callingFile 0 ["a.js"]) caller callee := by
  have evaluated : ∃ graph ∈ indexedGraphs callingFile 0 ["a.js"], ∃ caller ∈ graph.nodes,
      ∃ callee ∈ graph.nodes, caller.kind = .function ∧ callee.kind = .function ∧
        ∃ edge ∈ graph.edges, edge.kind = .calls ∧ edge.source = caller.id ∧
          edge.unresolvedTarget = some callee.name := by
    decide
  obtain ⟨graph, indexed, caller, calling, callee, called, isFunction, alsoFunction, edge⟩ :=
    evaluated
  exact ⟨caller, callee, ⟨graph, indexed, calling, edge⟩, ⟨graph, indexed, called⟩,
    isFunction, alsoFunction⟩

/-- Digits that spell out what is hashed. -/
def spelled : StableHash := fun path startByte kind =>
  String.ofList (List.replicate kind.ctorIdx 'k' ++ '.' :: List.replicate startByte 'b' ++
    '.' :: path.toList)

/-- A run of one character ends where another begins. -/
theorem replicate_inj {char stop : Char} (different : char ≠ stop) {left right : Nat}
    {rest other : List Char}
    (same : List.replicate left char ++ stop :: rest = List.replicate right char ++ stop :: other) :
    left = right ∧ rest = other := by
  induction left generalizing right with
  | zero =>
      cases right with
      | zero => exact ⟨rfl, (List.cons.inj same).2⟩
      | succ right => exact absurd (List.cons.inj same).1.symm different
  | succ left ih =>
      cases right with
      | zero => exact absurd (List.cons.inj same).1 different
      | succ right =>
          obtain ⟨count, tail⟩ := ih (List.cons.inj same).2
          exact ⟨congrArg Nat.succ count, tail⟩

theorem spelled_distinct : Distinct spelled := by
  intro path startByte kind path' startByte' kind' same
  have chars := String.ofList_injective same
  rw [List.append_assoc, List.append_assoc] at chars
  obtain ⟨index, rest⟩ := replicate_inj (by decide) chars
  obtain ⟨byte, tail⟩ := replicate_inj (by decide) rest
  refine ⟨String.toList_injective tail, byte, ?_⟩
  revert index
  cases kind <;> cases kind' <;> decide

def anyOrder (Row : Type) : RowOrder Row :=
  { arrange := id, perm := fun _ => List.Perm.refl _ }

theorem caller_never_listed_js :
    ∃ caller callee, NamesCallee (indexedGraphs callingFile 0 ["a.js"]) caller callee ∧
      ∀ depth, ¬ Lists spelled (anyOrder _) (fun _ => anyOrder _)
        (runInline callingFile 0 ["a.js"] .empty).2 callee caller depth := by
  obtain ⟨caller, callee, names⟩ := callingFile_names
  exact ⟨caller, callee, names,
    caller_never_listed spelled_distinct (anyOrder _) (fun _ => anyOrder _) callingFile 0 ["a.js"]
      names⟩

theorem caller_missing_from_blast :
    ¬ ∀ (hash : StableHash) (ties : RowOrder NodeRow) (orders : String → RowOrder String)
      (machine : Machine) (limit : Nat) (paths : List Path) (caller callee : Node), Distinct hash →
        NamesCallee (indexedGraphs machine limit paths) caller callee → ∀ depth, 1 ≤ depth →
          Lists hash ties orders (runInline machine limit paths .empty).2 callee caller depth := by
  intro always
  obtain ⟨caller, callee, names⟩ := callingFile_names
  obtain ⟨path, startByte, id⟩ := function_id names
  exact not_lists spelled_distinct (built_detached spelled callingFile 0 ["a.js"]) (anyOrder _)
    (fun _ => anyOrder _) id callee 1
    (always spelled (anyOrder _) (fun _ => anyOrder _) callingFile 0 ["a.js"] caller callee
      spelled_distinct names 1 (Nat.le_refl _))

end Mneme.Cli
