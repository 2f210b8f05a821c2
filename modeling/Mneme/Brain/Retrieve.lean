/-
Retrieval: three ranked channels are fused, and the candidates are packed into a token
budget.  The graph channel is one of them: labelled nodes, directed edges, and the two-hop
neighbourhood of some anchors.

A hash map is a table with unique keys; the order in which it is gone through
is an input.  A graph has fewer than 2 ^ 32 nodes.  What the channels find is an input,
ids in ranked order.  Scores are of any
ordered type with the operations that the fusion uses, f32 among them: no score
is NaN.  The reranker returns what it is given.  A text counts with its bytes in
UTF-8, and the latency is left out.
-/

import Mathlib.Algebra.Order.Ring.Rat
import Mathlib.Data.List.Sort
import Mneme.Library.Keyed
import Mneme.Library.Packing

namespace Mneme.Brain

open Library

/-- A hash map from strings. -/
abbrev StringMap (Value : Type) := Keyed (Prod.fst : String × Value → String)

/-- The order in which a hash map is gone through. -/
structure HashOrder (Value : Type) where
  arrange : List (String × Value) → List (String × Value)
  perm : ∀ entries, (arrange entries).Perm entries

structure GraphIndex where
  /-- The labels of the nodes, by index. -/
  nodes : List String
  /-- The ends of the edges, in the order they were added. -/
  edges : List (Nat × Nat)
  byLabel : StringMap Nat
  /-- Display text for each node. -/
  text : StringMap String

namespace GraphIndex

def new : GraphIndex :=
  { nodes := [], edges := [], byLabel := .empty, text := .empty }

/-- A label that is known keeps its node and its text. -/
def addNode (graph : GraphIndex) (label text : String) : GraphIndex × Nat :=
  match graph.byLabel.find label with
  | some entry => (graph, entry.2)
  | none =>
      let index := graph.nodes.length
      ({ nodes := graph.nodes ++ [label]
         edges := graph.edges
         byLabel := graph.byLabel.put (label, index)
         text := graph.text.put (label, text) }, index)

def addEdge (graph : GraphIndex) (source target : String) : GraphIndex :=
  let first := graph.addNode source source
  let second := first.1.addNode target target
  { second.1 with edges := second.1.edges ++ [(first.2, second.2)] }

/-- The ends of the edges out of a node, the latest edge first. -/
def neighbors (graph : GraphIndex) (index : Nat) : List Nat :=
  ((graph.edges.filter (fun edge => edge.1 = index)).map Prod.snd).reverse

def labelAt (graph : GraphIndex) (index : Nat) : String :=
  graph.nodes[index]?.getD ""

/-- `entry(label).or_insert(0)` -/
def seed (label : String) (out : StringMap Nat) : StringMap Nat :=
  match out.find label with
  | some _ => out
  | none => out.put (label, 0)

/-- `entry(label).and_modify(|d| *d = (*d).min(depth)).or_insert(depth)` -/
def touch (label : String) (depth : Nat) (out : StringMap Nat) : StringMap Nat :=
  match out.find label with
  | some entry => out.put (label, min entry.2 depth)
  | none => out.put (label, depth)

/-- What one anchor adds. -/
def expand (graph : GraphIndex) (out : StringMap Nat) (anchor : String) : StringMap Nat :=
  match graph.byLabel.find anchor with
  | none => out
  | some entry =>
      (graph.neighbors entry.2).foldl
        (fun out near =>
          (graph.neighbors near).foldl (fun out far => touch (graph.labelAt far) 2 out)
            (touch (graph.labelAt near) 1 out))
        (seed anchor out)

/-- The labels around the anchors with their depths, by ascending depth. -/
def twoHop (graph : GraphIndex) (order : HashOrder Nat) (anchors : List String) :
    List (String × Nat) :=
  (order.arrange (anchors.foldl graph.expand .empty).rows).insertionSort
    (fun left right => left.2 ≤ right.2)

def textFor (graph : GraphIndex) (label : String) : Option String :=
  (graph.text.find label).map Prod.snd

/-! ### The graphs that are built -/

inductive BuildCall where
  | addNode (label text : String)
  | addEdge (source target : String)

def perform (graph : GraphIndex) : BuildCall → GraphIndex
  | .addNode label text => (graph.addNode label text).1
  | .addEdge source target => graph.addEdge source target

def build (calls : List BuildCall) : GraphIndex :=
  calls.foldl perform new

/-- The labels are found at their nodes, and the edges lie between nodes. -/
structure Indexed (graph : GraphIndex) : Prop where
  named : ∀ label index,
    graph.byLabel.find label = some (label, index) ↔ graph.nodes[index]? = some label
  inside : ∀ edge ∈ graph.edges, edge.1 < graph.nodes.length ∧ edge.2 < graph.nodes.length

variable {graph : GraphIndex}

theorem find_label {label : String} {entry : String × Nat}
    (found : graph.byLabel.find label = some entry) : entry = (label, entry.2) := by
  have named := ((Keyed.find_eq_some_iff _ _ _).mp found).2
  exact Prod.ext named rfl

theorem indexed_new : Indexed new := by
  constructor
  · intro label index
    constructor
    · intro found
      cases found
    · intro found
      cases found
  · intro edge member
    cases member

theorem Indexed.addNode (indexed : Indexed graph) (label text : String) :
    Indexed (graph.addNode label text).1 ∧
      (graph.addNode label text).1.nodes[(graph.addNode label text).2]? = some label ∧
      graph.nodes <+: (graph.addNode label text).1.nodes := by
  unfold GraphIndex.addNode
  cases found : graph.byLabel.find label with
  | some entry =>
      have here := find_label found
      rw [here] at found
      exact ⟨indexed, (indexed.named label entry.2).mp found, List.prefix_refl _⟩
  | none =>
      refine ⟨⟨?_, ?_⟩, ?_, List.prefix_append _ _⟩
      · intro other index
        change (graph.byLabel.put (label, graph.nodes.length)).find other = _ ↔
          (graph.nodes ++ [label])[index]? = _
        rw [Keyed.find_put]
        by_cases same : label = other
        · subst same
          rw [if_pos rfl]
          constructor
          · intro equal
            cases equal
            rw [List.getElem?_append_right (Nat.le_refl _), Nat.sub_self]
            rfl
          · intro there
            rcases Nat.lt_or_ge index graph.nodes.length with old | new
            · rw [List.getElem?_append_left old] at there
              rw [(indexed.named label index).mpr there] at found
              cases found
            · have last : index - graph.nodes.length = 0 := by
                rw [List.getElem?_append_right new] at there
                have bound := (List.getElem?_eq_some_iff.mp there).1
                rw [List.length_singleton] at bound
                omega
              have equal : index = graph.nodes.length := by omega
              rw [equal]
        · rw [if_neg same, indexed.named other index]
          constructor
          · intro there
            rw [List.getElem?_append_left (List.getElem?_eq_some_iff.mp there).1]
            exact there
          · intro there
            rcases Nat.lt_or_ge index graph.nodes.length with old | new
            · rw [List.getElem?_append_left old] at there
              exact there
            · rw [List.getElem?_append_right new] at there
              have member := List.mem_of_getElem? there
              exact absurd (List.mem_singleton.mp member).symm same
      · intro edge member
        obtain ⟨first, second⟩ := indexed.inside edge member
        change edge.1 < (graph.nodes ++ [label]).length ∧ edge.2 < (graph.nodes ++ [label]).length
        rw [List.length_append]
        omega
      · change (graph.nodes ++ [label])[graph.nodes.length]? = some label
        rw [List.getElem?_append_right (Nat.le_refl _), Nat.sub_self]
        rfl

theorem Indexed.addEdge (indexed : Indexed graph) (source target : String) :
    Indexed (graph.addEdge source target) := by
  obtain ⟨first, atSource, _⟩ := indexed.addNode source source
  obtain ⟨second, atTarget, longer⟩ := first.addNode target target
  refine ⟨second.named, ?_⟩
  intro edge member
  rcases List.mem_append.mp member with old | new
  · exact second.inside edge old
  · rw [List.mem_singleton] at new
    subst new
    refine ⟨?_, (List.getElem?_eq_some_iff.mp atTarget).1⟩
    exact Nat.lt_of_lt_of_le (List.getElem?_eq_some_iff.mp atSource).1 longer.length_le

theorem indexed_build (calls : List BuildCall) : Indexed (build calls) := by
  have kept : ∀ graph, Indexed graph → Indexed (calls.foldl perform graph) := by
    induction calls with
    | nil =>
        intro graph indexed
        exact indexed
    | cons call rest ih =>
        intro graph indexed
        cases call with
        | addNode label text => exact ih _ (indexed.addNode label text).1
        | addEdge source target => exact ih _ (indexed.addEdge source target)
  exact kept new indexed_new

end GraphIndex

end Mneme.Brain

namespace Mneme.Brain

open Library

inductive RetrievalSource where
  | bm25
  | semantic
  | graph
  | reranker
deriving DecidableEq

/-- The arithmetic of scores. -/
structure Scoring (Score : Type) where
  zero : Score
  add : Score → Score → Score
  /-- What a rank in a channel counts. -/
  share : RetrievalSource → Nat → Score
  /-- Into the range from 0 to 1. -/
  clamp : Score → Score

structure Candidate (Score : Type) where
  id : String
  score : Score
  sources : List RetrievalSource
deriving DecidableEq

structure ScoredHit (Score : Type) where
  id : String
  text : String
  score : Score
  sources : List RetrievalSource

/-- What the three retrievers found, the best first. -/
structure Channels where
  bm25 : List String
  semantic : List String
  graph : List String

structure RetrievalEngine where
  /-- The ids and texts of the indexed documents. -/
  bm25 : List (String × String)
  graph : GraphIndex
  /-- The reranker is compiled in and installed. -/
  reranker : Bool
  nodeText : List (Nat × String)
  nodeLabels : List (Nat × String)

namespace RetrievalEngine

def textFor (engine : RetrievalEngine) (id : String) : Option String :=
  (engine.bm25.lookup id).or ((engine.graph.textFor id).or
    ((engine.nodeLabels.find? (fun entry => entry.2 = id)).bind
      (fun entry => engine.nodeText.lookup entry.1)))

/-- The text of a candidate, its id when there is none. -/
def displayText (engine : RetrievalEngine) (id : String) : String :=
  (engine.textFor id).getD id

end RetrievalEngine

def charsPerToken : Nat := 4

/-- Tokens of a text; the quotient is cut to 32 bits. -/
def estimateTokens (text : String) : UInt32 :=
  if text.isEmpty then 0
  else UInt32.ofNat ((text.utf8ByteSize + charsPerToken - 1) / charsPerToken)

/-! ### Fusion -/

section Fusion

variable {Score : Type} [LinearOrder Score] (scoring : Scoring Score)

abbrev Fused (Score : Type) := StringMap (Score × List RetrievalSource)

/-- Credit one place in a channel. -/
def credit (source : RetrievalSource) (fused : Fused Score) (place : String × Nat) : Fused Score :=
  let entry := ((fused.find place.1).map Prod.snd).getD (scoring.zero, [])
  fused.put (place.1, (scoring.add entry.1 (scoring.share source place.2), entry.2 ++ [source]))

def creditAll (source : RetrievalSource) (ids : List String) (fused : Fused Score) : Fused Score :=
  ids.zipIdx.foldl (credit scoring source) fused

def fuse (channels : Channels) : Fused Score :=
  creditAll scoring .graph channels.graph
    (creditAll scoring .semantic channels.semantic
      (creditAll scoring .bm25 channels.bm25 .empty))

/-- By descending score. -/
def higherFused (left right : Candidate Score) : Prop :=
  right.score ≤ left.score

instance : DecidableRel (@higherFused Score _) := fun left right =>
  inferInstanceAs (Decidable (right.score ≤ left.score))

def rerankCandidates : Nat := 25

/-- `Reranker::rerank`: the texts and scores as they came. -/
def rerank (candidates : List (String × Score)) : List (String × Score) := candidates

/-- Overwrite the first scores with what the reranker answers. -/
def rescore (engine : RetrievalEngine) (candidates : List (Candidate Score)) :
    List (Candidate Score) :=
  let answered := rerank ((candidates.take rerankCandidates).map
    (fun candidate => (engine.displayText candidate.id, candidate.score)))
  (candidates.mapIdx (fun index candidate =>
    match answered[index]? with
    | some rescored =>
        { candidate with score := rescored.2, sources := candidate.sources ++ [.reranker] }
    | none => candidate)).insertionSort higherFused

/-- The candidates in the order in which they are packed. -/
def candidates (engine : RetrievalEngine) (order : HashOrder (Score × List RetrievalSource))
    (channels : Channels) : List (Candidate Score) :=
  let sorted := ((order.arrange (fuse scoring channels).rows).map
    (fun entry => { id := entry.1, score := entry.2.1, sources := entry.2.2 })).insertionSort
      higherFused
  if engine.reranker then rescore engine sorted else sorted

end Fusion

/-! ### Packing -/

section Packing

variable {Score : Type} (scoring : Scoring Score) (engine : RetrievalEngine)

/-- How a run of the packing loop ends. -/
structure Packed (Score : Type) where
  hits : List (ScoredHit Score)
  used : UInt32
  /-- An addition left the 32 bits. -/
  overflowed : Bool
  panicked : Bool

def hitOf (candidate : Candidate Score) : ScoredHit Score :=
  { id := candidate.id
    text := engine.displayText candidate.id
    score := scoring.clamp candidate.score
    sources := candidate.sources }

/-- The loop over the candidates; with overflow checks an overflow panics. -/
def pack (overflowChecks : Bool) (budget : UInt32) : UInt32 → List (Candidate Score) → Packed Score
  | used, [] => { hits := [], used, overflowed := false, panicked := false }
  | used, candidate :: rest =>
      let est := estimateTokens (engine.displayText candidate.id)
      let overflows := decide (2 ^ 32 ≤ used.toNat + est.toNat)
      if overflowChecks ∧ overflows then
        { hits := [], used, overflowed := true, panicked := true }
      else if budget < used + est then
        let later := pack overflowChecks budget used rest
        { later with overflowed := overflows || later.overflowed }
      else if budget ≤ used + est then
        { hits := [hitOf scoring engine candidate]
          used := used + est
          overflowed := overflows
          panicked := false }
      else
        let later := pack overflowChecks budget (used + est) rest
        { later with
          hits := hitOf scoring engine candidate :: later.hits
          overflowed := overflows || later.overflowed }

/-- `RetrievalEngine::retrieve`, from what its channels found. -/
def retrieve [LinearOrder Score] (order : HashOrder (Score × List RetrievalSource))
    (overflowChecks : Bool) (channels : Channels) (budget : UInt32) : Packed Score :=
  pack scoring engine overflowChecks budget 0 (candidates scoring engine order channels)

end Packing

/-- Reciprocal rank fusion in exact arithmetic. -/
def exactScoring : Scoring Rat :=
  { zero := 0
    add := fun left right => left + right
    share := fun source rank => (if source = .graph then 1 / 2 else 1) / (60 + rank + 1)
    clamp := fun score => max 0 (min score 1) }

end Mneme.Brain
