/-
The import chains of a file: what it imports and what imports it, each by a walk of at most
ten rounds.

A target without a node, or whose node is of no file, stands for itself in the forward walk;
the reverse walk sees only targets in files.  Where all targets are in files, the two walks
are each other's converse.
-/

import Mneme.Mcp.CallGraph

namespace Mneme.Mcp.Graph

open Library Frontier Search

inductive ChainDirection where
  | forward
  | reverse
  | both
deriving DecidableEq

structure DependencyChain where
  forward : List Name
  reverse : List Name
deriving DecidableEq

namespace Shard

variable (shard : Shard)

/-- `kind IN ('imports', 'import')` -/
def imports : List EdgeRow :=
  shard.edges.filter (fun row => row.kind = "imports" || row.kind = "import")

/-- `n.file_path` of the node that the left join finds. -/
def fileOf (qualified : Name) : Option Name :=
  (shard.nodes.find? (fun node => node.qualifiedName = qualified)).bind NodeRow.filePath

/-- The file of the target, or the target itself. -/
def targetOf (row : EdgeRow) : Name :=
  (shard.fileOf row.targetQualified).getD row.targetQualified

/-- What the imports of a file lead to. -/
def importedBy (file : Name) : List Name :=
  (((shard.imports.filter (fun row => row.filePath = some file)).map shard.targetOf).dedup).filter
    (fun name => name ≠ [])

/-- The files with an import that leads to a file. -/
def importersOf (file : Name) : List Name :=
  (((shard.imports.filter (fun row => shard.fileOf row.targetQualified = some file)).filterMap
    EdgeRow.filePath).dedup).filter (fun name => name ≠ [])

end Shard

def hops : Nat :=
  10

/-- The set of a walk holds what it visits but for the file it starts from. -/
def chainFrom (next : Name → List Name) (file : Name) : List Name :=
  (rounds next id (fun (_ : Unit) _ => ()) hops (begin file ())).visited.tail

def dependencyChain (shard : Shard) (file : Name) (direction : ChainDirection) :
    DependencyChain :=
  { forward := if direction = .reverse then [] else chainFrom shard.importedBy file
    reverse := if direction = .forward then [] else chainFrom shard.importersOf file }

/-! ### Import edges -/

section Specification

variable (shard : Shard)

/-- An import of the file leads to the name. -/
def Imports (file name : Name) : Prop :=
  name ≠ [] ∧ ∃ row ∈ shard.imports, row.filePath = some file ∧ shard.targetOf row = name

/-- An import of the one file leads to a node of the other. -/
def ImportsFile (file other : Name) : Prop :=
  file ≠ [] ∧ ∃ row ∈ shard.imports, row.filePath = some file ∧
    shard.fileOf row.targetQualified = some other

/-- At most so many edges lead from one name to the other. -/
def LeadsWithin (edge : Name → Name → Prop) (depth : Nat) (first last : Name) : Prop :=
  ∃ length ≤ depth, Walked (fun _ => edge) [first] length last

/-- The target of every import is in a file. -/
def Resolved : Prop :=
  ∀ row ∈ shard.imports, ∃ file, file ≠ [] ∧ shard.fileOf row.targetQualified = some file

end Specification

/-! ### Walks in the other direction -/

theorem walked_head {edge : Name → Name → Prop} {first second last : Name}
    (step : edge first second) {length : Nat}
    (walked : Walked (fun _ => edge) [second] length last) :
    Walked (fun _ => edge) [first] (length + 1) last := by
  induction length generalizing last with
  | zero =>
      rw [List.mem_singleton.mp walked]
      exact ⟨first, List.mem_singleton_self first, step⟩
  | succ length ih =>
      obtain ⟨before, walked, final⟩ := walked
      exact ⟨before, ih walked, final⟩

variable {first last : Name}

theorem walked_flip {edge : Name → Name → Prop} {length : Nat}
    (walked : Walked (fun _ => edge) [first] length last) :
    Walked (fun _ => flip edge) [last] length first := by
  induction length generalizing last with
  | zero =>
      rw [List.mem_singleton.mp walked]
      exact List.mem_singleton_self first
  | succ length ih =>
      obtain ⟨before, walked, final⟩ := walked
      exact @walked_head (flip edge) last before first final length (ih walked)

theorem leadsWithin_flip {edge : Name → Name → Prop} {depth : Nat} :
    LeadsWithin (flip edge) depth last first ↔ LeadsWithin edge depth first last := by
  constructor
  · rintro ⟨length, short, walked⟩
    exact ⟨length, short, walked_flip walked⟩
  · rintro ⟨length, short, walked⟩
    exact ⟨length, short, walked_flip walked⟩

theorem transGen_of_walked {edge : Name → Name → Prop} {length : Nat}
    (walked : Walked (fun _ => edge) [first] length last) :
    last = first ∨ Relation.TransGen edge first last := by
  induction length generalizing last with
  | zero => exact Or.inl (List.mem_singleton.mp walked)
  | succ length ih =>
      obtain ⟨before, walked, final⟩ := walked
      rcases ih walked with same | reached
      · rw [same] at final
        exact Or.inr (.single final)
      · exact Or.inr (.tail reached final)

/-! ### Chains -/

/-- A chain holds the other names at most ten edges away. -/
theorem mem_chainFrom {next : Name → List Name} {edge : Name → Name → Prop}
    (leads : ∀ name other, other ∈ next name ↔ edge name other) (file name : Name) :
    name ∈ chainFrom next file ↔ name ≠ file ∧ LeadsWithin edge hops file name := by
  have visited : (rounds next id (fun (_ : Unit) _ => ()) hops (begin file ())).visited =
      seen next id file hops := by
    rw [rounds_begin]
    rfl
  have once := seen_nodup next id file hops
  have near := mem_seen next id file hops name
  have same : ∀ name other, other ∈ leadsTo next id name ↔ edge name other := by
    intro name other
    unfold leadsTo
    rw [List.map_id, leads]
  rw [near_iff_walked same] at near
  unfold chainFrom LeadsWithin
  rw [visited, ← near]
  unfold seen at once ⊢
  rw [List.tail_cons, List.mem_cons]
  have new := (List.nodup_cons.mp once).1
  constructor
  · intro member
    refine ⟨?_, Or.inr member⟩
    intro atFile
    rw [atFile] at member
    exact new member
  · rintro ⟨other, member⟩
    exact member.resolve_left other

section Results

variable (shard : Shard)

variable (file name : Name)

theorem mem_importedBy : name ∈ shard.importedBy file ↔ Imports shard file name := by
  unfold Shard.importedBy Imports
  simp only [List.mem_filter, List.mem_dedup, List.mem_map, decide_eq_true_eq]
  constructor
  · rintro ⟨⟨row, ⟨member, inFile⟩, target⟩, some⟩
    exact ⟨some, row, member, inFile, target⟩
  · rintro ⟨some, row, member, inFile, target⟩
    exact ⟨⟨row, ⟨member, inFile⟩, target⟩, some⟩

theorem mem_importersOf : name ∈ shard.importersOf file ↔ ImportsFile shard name file := by
  unfold Shard.importersOf ImportsFile
  simp only [List.mem_filter, List.mem_dedup, List.mem_filterMap, decide_eq_true_eq]
  constructor
  · rintro ⟨⟨row, ⟨member, target⟩, inFile⟩, some⟩
    exact ⟨some, row, member, inFile, target⟩
  · rintro ⟨some, row, member, inFile, target⟩
    exact ⟨⟨row, ⟨member, target⟩, inFile⟩, some⟩

theorem mem_forward :
    name ∈ chainFrom shard.importedBy file ↔
      name ≠ file ∧ LeadsWithin (Imports shard) hops file name :=
  mem_chainFrom (mem_importedBy shard) file name

theorem mem_reverse :
    name ∈ chainFrom shard.importersOf file ↔
      name ≠ file ∧ LeadsWithin (ImportsFile shard) hops name file := by
  rw [@mem_chainFrom _ (flip (ImportsFile shard)) (mem_importersOf shard) file name,
    leadsWithin_flip]

variable {shard} in
/-- An edge between files is an import edge, if it leads to a name. -/
theorem ImportsFile.imports {file name : Name} (edge : ImportsFile shard file name)
    (some : name ≠ []) : Imports shard file name := by
  obtain ⟨_, row, member, inFile, target⟩ := edge
  refine ⟨some, row, member, inFile, ?_⟩
  unfold Shard.targetOf
  rw [target]
  rfl

variable {shard} in
theorem Imports.importsFile (resolved : Resolved shard) {file name : Name}
    (edge : Imports shard file name) (some : file ≠ []) : ImportsFile shard file name := by
  obtain ⟨_, row, member, inFile, target⟩ := edge
  obtain ⟨other, _, found⟩ := resolved row member
  refine ⟨some, row, member, inFile, ?_⟩
  unfold Shard.targetOf at target
  rw [found, Option.getD_some] at target
  rw [found, target]

variable {shard} in
theorem walked_imports {first last : Name} {length : Nat}
    (walked : Walked (fun _ => ImportsFile shard) [first] length last) (some : last ≠ []) :
    Walked (fun _ => Imports shard) [first] length last := by
  induction length generalizing last with
  | zero => exact walked
  | succ length ih =>
      obtain ⟨before, walked, final⟩ := walked
      exact ⟨before, ih walked final.1, final.imports some⟩

variable {shard} in
theorem walked_importsFile (resolved : Resolved shard) {first last : Name} {length : Nat}
    (walked : Walked (fun _ => Imports shard) [first] length last) (some : first ≠ []) :
    last ≠ [] ∧ Walked (fun _ => ImportsFile shard) [first] length last := by
  induction length generalizing last with
  | zero =>
      rw [List.mem_singleton.mp walked]
      exact ⟨some, List.mem_singleton_self first⟩
  | succ length ih =>
      obtain ⟨before, walked, final⟩ := walked
      obtain ⟨inside, walked⟩ := ih walked
      exact ⟨final.1, before, walked, final.importsFile resolved inside⟩

theorem dependencyChain_both (file : Name) : dependencyChain shard file .both =
    ⟨chainFrom shard.importedBy file, chainFrom shard.importersOf file⟩ :=
  rfl

/-- The chains hold nothing but what imports lead to, everything at most ten of them away but
the file itself, and they are each other's converse over imports of files. -/
theorem dependencyChain_chains (shard : Shard) :
    (∀ file direction, direction ≠ .reverse →
      (∀ name ∈ (dependencyChain shard file direction).forward,
        name ≠ file ∧ Relation.TransGen (Imports shard) file name) ∧
      ∀ name, name ≠ file → LeadsWithin (Imports shard) hops file name →
        name ∈ (dependencyChain shard file direction).forward) ∧
    (∀ file direction, direction ≠ .forward →
      (∀ name ∈ (dependencyChain shard file direction).reverse,
        name ≠ file ∧ Relation.TransGen (ImportsFile shard) name file) ∧
      ∀ name, name ≠ file → LeadsWithin (ImportsFile shard) hops name file →
        name ∈ (dependencyChain shard file direction).reverse) ∧
    ∀ first second, first ≠ [] → second ≠ [] →
      (second ∈ (dependencyChain shard first .both).reverse →
        first ∈ (dependencyChain shard second .both).forward) ∧
      (Resolved shard → (first ∈ (dependencyChain shard second .both).forward ↔
        second ∈ (dependencyChain shard first .both).reverse)) := by
  refine ⟨?_, ?_, ?_⟩
  · intro file direction forward
    have chain : (dependencyChain shard file direction).forward =
        chainFrom shard.importedBy file := if_neg forward
    rw [chain]
    refine ⟨fun name member => ?_, fun name other near => ?_⟩
    · obtain ⟨other, length, _, walked⟩ := (mem_forward shard file name).mp member
      exact ⟨other, (transGen_of_walked walked).resolve_left other⟩
    · exact (mem_forward shard file name).mpr ⟨other, near⟩
  · intro file direction reverse
    have chain : (dependencyChain shard file direction).reverse =
        chainFrom shard.importersOf file := if_neg reverse
    rw [chain]
    refine ⟨fun name member => ?_, fun name other near => ?_⟩
    · obtain ⟨other, length, _, walked⟩ := (mem_reverse shard file name).mp member
      exact ⟨other, (transGen_of_walked walked).resolve_left (Ne.symm other)⟩
    · exact (mem_reverse shard file name).mpr ⟨other, near⟩
  · intro first second firstSome secondSome
    change (second ∈ chainFrom shard.importersOf first →
        first ∈ chainFrom shard.importedBy second) ∧
      (Resolved shard → (first ∈ chainFrom shard.importedBy second ↔
        second ∈ chainFrom shard.importersOf first))
    rw [mem_forward, mem_reverse]
    have back : second ≠ first ∧ LeadsWithin (ImportsFile shard) hops second first →
        first ≠ second ∧ LeadsWithin (Imports shard) hops second first := by
      rintro ⟨apart, length, short, walked⟩
      exact ⟨apart.symm, length, short, walked_imports walked firstSome⟩
    refine ⟨back, fun resolved => ⟨?_, back⟩⟩
    rintro ⟨apart, length, short, walked⟩
    exact ⟨apart.symm, length, short, (walked_importsFile resolved walked secondSome).2⟩

end Results

def importRow (file target : Name) : EdgeRow :=
  { kind := "imports", sourceQualified := file, targetQualified := target, filePath := some file }

/-- Two files that import each other, and an import of a package that is no node. -/
def importCycle : Shard :=
  { nodes := [⟨['a'], ['a'], some ['a'], none⟩, ⟨['b'], ['b'], some ['b'], none⟩]
    edges := [importRow ['a'] ['b'], importRow ['b'] ['a'], importRow ['a'] ['p']]
    unique := by decide }

/-- A file on a cycle is not in its own chain, and no reverse chain leads back from a name that
is no file. -/
theorem importCycle_chains :
    (Relation.TransGen (Imports importCycle) ['a'] ['a'] ∧
      ['a'] ∉ (dependencyChain importCycle ['a'] .both).forward) ∧
    ['p'] ∈ (dependencyChain importCycle ['a'] .both).forward ∧
      ['a'] ∉ (dependencyChain importCycle ['p'] .both).reverse := by
  have there : Imports importCycle ['a'] ['b'] :=
    ⟨by decide, importRow ['a'] ['b'], by decide, rfl, by decide⟩
  have back : Imports importCycle ['b'] ['a'] :=
    ⟨by decide, importRow ['b'] ['a'], by decide, rfl, by decide⟩
  have package : Imports importCycle ['a'] ['p'] :=
    ⟨by decide, importRow ['a'] ['p'], by decide, rfl, by decide⟩
  have nowhere : ∀ name, ¬ ImportsFile importCycle name ['p'] := by
    rintro name ⟨_, row, member, _, target⟩
    have targets : ∀ row ∈ importCycle.edges,
        importCycle.fileOf row.targetQualified ≠ some ['p'] := by decide
    exact targets row (List.mem_of_mem_filter member) target
  rw [dependencyChain_both, dependencyChain_both]
  dsimp only
  refine ⟨⟨.tail (.single there) back, ?_⟩, ?_, ?_⟩
  · intro member
    exact ((mem_forward _ _ _).mp member).1 rfl
  · have near : LeadsWithin (Imports importCycle) hops ['a'] ['p'] :=
      ⟨1, by decide, ['a'], List.mem_singleton_self _, package⟩
    exact (mem_forward _ _ _).mpr ⟨by decide, near⟩
  · intro member
    obtain ⟨apart, length, _, walked⟩ := (mem_reverse _ _ _).mp member
    cases length with
    | zero => exact apart (List.mem_singleton.mp walked).symm
    | succ length =>
        obtain ⟨before, _, final⟩ := walked
        exact nowhere before final

end Mneme.Mcp.Graph
