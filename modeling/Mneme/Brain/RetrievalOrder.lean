/-
When the hits of retrieval do not depend on the order of its hash maps.

Two maps are gone through: the depths found around the anchors, and the fused
scores.  Both are sorted afterwards by a stable sort, so that entries of one
depth or of one score keep the order of the map.
-/

import Mathlib.Data.List.TakeWhile
import Mneme.Brain.RetrievePacking
import Mneme.Brain.TwoHop

namespace Mneme.Brain

open Library

/-- What is retrieved for: the ids that BM25 and the semantic search rank, and
the anchors of the walk. -/
structure Task where
  bm25 : List String
  semantic : List String
  anchors : List String

namespace RetrievalEngine

/-- The channels, for an order of the map of depths. -/
def channels (engine : RetrievalEngine) (walk : HashOrder Nat) (task : Task) : Channels :=
  { bm25 := task.bm25
    semantic := task.semantic
    graph := (engine.graph.twoHop walk task.anchors).map Prod.fst }

/-- The estimate of the text shown for an id. -/
def idTokens (engine : RetrievalEngine) (id : String) : Nat :=
  (estimateTokens (engine.displayText id)).toNat

end RetrievalEngine

variable {Score : Type} [LinearOrder Score] (scoring : Scoring Score) (engine : RetrievalEngine)
  (task : Task) (budget : UInt32)

/-- One id has the highest fused score of those that are not packed and fit. -/
def Leads (fused : Fused Score) (held : List String) (id : String) : Prop :=
  ∃ entry ∈ fused.rows, entry.1 = id ∧
    Packing.Fits engine.idTokens budget.toNat held id ∧
    ∀ other ∈ fused.rows, Packing.Fits engine.idTokens budget.toNat held other.1 →
      other.2.1 ≤ entry.2.1

/-- The ids that can have been packed at some point, each a leading one when it
was packed. -/
inductive Packable : List String → Prop where
  | nothing : Packable []
  | next {held : List String} {id : String} (walk : HashOrder Nat) (packable : Packable held)
      (goesOn : Packing.Open engine.idTokens budget.toNat held)
      (leads : Leads engine budget (fuse scoring (engine.channels walk task)) held id) :
      Packable (held ++ [id])

/-- Wherever packing goes on, one id leads, whatever the order of the walk. -/
def Undisputed : Prop :=
  ∀ held, Packable scoring engine task budget held →
    Packing.Open engine.idTokens budget.toNat held →
      ∀ walk otherWalk id other,
        Leads engine budget (fuse scoring (engine.channels walk task)) held id →
          Leads engine budget (fuse scoring (engine.channels otherWalk task)) held other →
            id = other

/-- The ids of the hits are the same for all orders of the two maps. -/
def OrderFree (overflowChecks : Bool) : Prop :=
  ∀ (walk otherWalk : HashOrder Nat) (order otherOrder : HashOrder (Score × List RetrievalSource)),
    (retrieve scoring engine order overflowChecks (engine.channels walk task) budget).hits.map
        ScoredHit.id =
      (retrieve scoring engine otherOrder overflowChecks (engine.channels otherWalk task)
        budget).hits.map ScoredHit.id

/-! ### The keys of the fusion -/

section Keys

theorem mem_keys_put {Value : Type} (map : StringMap Value) (row : String × Value) (id : String) :
    id ∈ (map.put row).rows.map Prod.fst ↔ id = row.1 ∨ id ∈ map.rows.map Prod.fst := by
  change id ∈ (map.rows.filter (fun old => old.1 ≠ row.1) ++ [row]).map Prod.fst ↔ _
  rw [List.map_append, List.mem_append, List.map_singleton, List.mem_singleton, or_comm]
  by_cases same : id = row.1
  · exact iff_of_true (Or.inl same) (Or.inl same)
  · apply or_congr_right
    constructor
    · intro member
      obtain ⟨old, inside, named⟩ := List.mem_map.mp member
      exact List.mem_map.mpr ⟨old, (List.mem_filter.mp inside).1, named⟩
    · intro member
      obtain ⟨old, inside, named⟩ := List.mem_map.mp member
      refine List.mem_map.mpr ⟨old, List.mem_filter.mpr ⟨inside, ?_⟩, named⟩
      rw [named]
      exact decide_eq_true same

omit [LinearOrder Score] in
theorem mem_keys_credits (source : RetrievalSource) (places : List (String × Nat))
    (fused : Fused Score) (id : String) :
    id ∈ (places.foldl (credit scoring source) fused).rows.map Prod.fst ↔
      id ∈ places.map Prod.fst ∨ id ∈ fused.rows.map Prod.fst := by
  induction places generalizing fused with
  | nil => exact (or_iff_right List.not_mem_nil).symm
  | cons place rest ih =>
      rw [List.foldl_cons, ih, List.map_cons, List.mem_cons]
      change _ ∨ id ∈ (fused.put (place.1, _)).rows.map Prod.fst ↔ _
      rw [mem_keys_put, ← or_assoc, or_comm (a := id ∈ rest.map Prod.fst)]

omit [LinearOrder Score] in
theorem mem_keys_creditAll (source : RetrievalSource) (ids : List String) (fused : Fused Score)
    (id : String) :
    id ∈ (creditAll scoring source ids fused).rows.map Prod.fst ↔
      id ∈ ids ∨ id ∈ fused.rows.map Prod.fst := by
  unfold creditAll
  rw [mem_keys_credits, List.zipIdx_map_fst]

omit [LinearOrder Score] in
/-- The ids fused are those of the channels. -/
theorem mem_keys_fuse (channels : Channels) (id : String) :
    id ∈ (fuse scoring channels).rows.map Prod.fst ↔
      id ∈ channels.graph ∨ id ∈ channels.semantic ∨ id ∈ channels.bm25 := by
  unfold fuse
  rw [mem_keys_creditAll, mem_keys_creditAll, mem_keys_creditAll]
  exact or_congr_right (or_congr_right (or_iff_left List.not_mem_nil))

/-- The labels found do not depend on the order of the walk. -/
theorem twoHop_labels (graph : GraphIndex) (walk otherWalk : HashOrder Nat)
    (anchors : List String) :
    ((graph.twoHop walk anchors).map Prod.fst).Perm
      ((graph.twoHop otherWalk anchors).map Prod.fst) := by
  have found := fun order : HashOrder Nat => ((List.perm_insertionSort
    (fun left right : String × Nat => left.2 ≤ right.2) _).trans
      (order.perm (anchors.foldl graph.expand .empty).rows)).map Prod.fst
  exact (found walk).trans (found otherWalk).symm

omit [LinearOrder Score] in
theorem fused_keys_perm (walk otherWalk : HashOrder Nat) :
    ((fuse scoring (engine.channels walk task)).rows.map Prod.fst).Perm
      ((fuse scoring (engine.channels otherWalk task)).rows.map Prod.fst) := by
  apply (List.perm_ext_iff_of_nodup (fuse scoring _).unique (fuse scoring _).unique).mpr
  intro id
  rw [mem_keys_fuse, mem_keys_fuse]
  exact or_congr_left (twoHop_labels engine.graph walk otherWalk task.anchors).mem_iff

end Keys

/-! ### The candidates of one order -/

section Ranking

/-- The candidates by descending score, the ties in the order of the map. -/
def ranked (order : HashOrder (Score × List RetrievalSource)) (fused : Fused Score) :
    List (Candidate Score) :=
  ((order.arrange fused.rows).map
    (fun entry => { id := entry.1, score := entry.2.1, sources := entry.2.2 })).insertionSort
      higherFused

variable (order : HashOrder (Score × List RetrievalSource))

theorem mem_ranked (fused : Fused Score) (candidate : Candidate Score) :
    candidate ∈ ranked order fused ↔
      (candidate.id, candidate.score, candidate.sources) ∈ fused.rows := by
  unfold ranked
  rw [List.mem_insertionSort, List.mem_map]
  constructor
  · intro there
    obtain ⟨entry, member, rfl⟩ := there
    exact (order.perm _).mem_iff.mp member
  · intro member
    exact ⟨_, (order.perm _).mem_iff.mpr member, rfl⟩

theorem ranked_keys (fused : Fused Score) :
    ((ranked order fused).map Candidate.id).Perm (fused.rows.map Prod.fst) := by
  unfold ranked
  refine ((List.perm_insertionSort _ _).map Candidate.id).trans ?_
  rw [List.map_map]
  exact (order.perm _).map Prod.fst

/-- A reranker that answers with the scores it was given changes no place. -/
theorem rescore_ids_eq {listed : List (Candidate Score)} (sorted : listed.Pairwise higherFused) :
    (rescore engine listed).map Candidate.id = listed.map Candidate.id := by
  unfold rescore rerank
  dsimp only
  generalize marked : listed.mapIdx _ = answered
  have same : answered.map (fun candidate => (candidate.id, candidate.score)) =
      listed.map (fun candidate => (candidate.id, candidate.score)) := by
    rw [← marked]
    apply List.ext_getElem?
    intro index
    rw [List.getElem?_map, List.getElem?_mapIdx, Option.map_map, List.getElem?_map,
      List.getElem?_map, List.getElem?_take]
    cases there : listed[index]? with
    | none => rfl
    | some candidate =>
        rw [Option.map_some, Option.map_some, Function.comp_apply]
        split
        · next rescored found =>
          split at found
          · cases found
            rfl
          · cases found
        · rfl
  have scores : answered.map Candidate.score = listed.map Candidate.score := by
    have seconds := congrArg (List.map Prod.snd) same
    rw [List.map_map, List.map_map] at seconds
    exact seconds
  have stillSorted : answered.Pairwise higherFused := by
    have byScore : (listed.map Candidate.score).Pairwise (fun left right => right ≤ left) :=
      List.pairwise_map.mpr sorted
    rw [← scores] at byScore
    exact (@List.pairwise_map _ _ Candidate.score _ _).mp byScore
  have firsts := congrArg (List.map Prod.fst) same
  rw [List.map_map, List.map_map] at firsts
  rw [stillSorted.insertionSort_eq]
  exact firsts

theorem candidates_ids (found : Channels) :
    (candidates scoring engine order found).map Candidate.id =
      (ranked order (fuse scoring found)).map Candidate.id := by
  unfold candidates
  dsimp only
  split
  · exact rescore_ids_eq engine (List.pairwise_insertionSort _ _)
  · rfl

variable {engine budget}

variable {fused : Fused Score}

/-- The first id that fits leads. -/
theorem leads_of_firstFit {order : HashOrder (Score × List RetrievalSource)}
    {held : List String} {id : String}
    (first : Packing.firstFit engine.idTokens budget.toNat ((ranked order fused).map Candidate.id)
      held = some id) : Leads engine budget fused held id := by
  have fits := (Packing.firstFit_fits first).2
  obtain ⟨_, front, back, split, unfit⟩ := List.find?_eq_some_iff_append.mp first
  obtain ⟨ahead, others, whole, frontIds, rest⟩ := List.map_eq_append_iff.mp split
  obtain ⟨candidate, behind, otherSplit, named, _⟩ := List.map_eq_cons_iff.mp rest
  rw [otherSplit] at whole
  have sorted : (ranked order fused).Pairwise higherFused := List.pairwise_insertionSort _ _
  rw [whole] at sorted
  have below := (List.pairwise_cons.mp (List.pairwise_append.mp sorted).2.1).1
  have own : candidate ∈ ranked order fused := by
    rw [whole]
    exact List.mem_append_right _ List.mem_cons_self
  refine ⟨_, (mem_ranked order fused candidate).mp own, named, fits, ?_⟩
  intro other member otherFits
  have listed := (mem_ranked order fused ⟨other.1, other.2.1, other.2.2⟩).mpr member
  rw [whole] at listed
  rcases List.mem_append.mp listed with before | after
  · have passed := unfit other.1 (by
      rw [← frontIds]
      exact List.mem_map_of_mem before)
    rw [decide_eq_true otherFits] at passed
    cases passed
  · rcases List.mem_cons.mp after with same | later
    · rw [← same]
    · exact below _ later

/-- The order that starts with the entry of one id. -/
def startingWith (Value : Type) (id : String) : HashOrder Value :=
  { arrange := fun entries =>
      entries.filter (fun entry => entry.1 = id) ++ entries.filter (fun entry => !decide (entry.1 = id))
    perm := fun entries => List.filter_append_perm _ entries }

theorem startingWith_rows {Value : Type} (map : StringMap Value) {entry : String × Value}
    (member : entry ∈ map.rows) :
    ∃ rest, (startingWith Value entry.1).arrange map.rows = entry :: rest := by
  have alone : map.rows.filter (fun other => other.1 = entry.1) = [entry] := by
    obtain ⟨front, back, split⟩ := List.append_of_mem member
    have distinct := map.unique
    rw [split, List.map_append, List.map_cons, List.nodup_middle, List.nodup_cons,
      List.mem_append, not_or] at distinct
    have none : ∀ others : List (String × Value), entry.1 ∉ others.map Prod.fst →
        others.filter (fun other => other.1 = entry.1) = [] := by
      intro others out
      apply List.filter_eq_nil_iff.mpr
      intro other inside same
      rw [← of_decide_eq_true same] at out
      exact out (List.mem_map_of_mem inside)
    rw [split, List.filter_append, none front distinct.1.1, List.filter_cons,
      if_pos (decide_eq_true rfl), none back distinct.1.2]
    rfl
  refine ⟨map.rows.filter (fun other => !decide (other.1 = entry.1)), ?_⟩
  change map.rows.filter (fun other => other.1 = entry.1) ++ _ = _
  rw [alone]
  rfl

/-- Some order of the map puts a leading id before all others that fit. -/
theorem firstFit_of_leads {held : List String} {id : String}
    (leads : Leads engine budget fused held id) :
    ∃ order, Packing.firstFit engine.idTokens budget.toNat
      ((ranked order fused).map Candidate.id) held = some id := by
  obtain ⟨entry, member, named, fits, best⟩ := leads
  obtain ⟨rest, arranged⟩ := startingWith_rows fused member
  refine ⟨startingWith _ entry.1, ?_⟩
  unfold ranked
  rw [arranged, List.map_cons, List.insertionSort_cons, List.orderedInsert_eq_take_drop,
    List.map_append, List.map_cons]
  apply List.find?_eq_some_iff_append.mpr
  refine ⟨decide_eq_true fits, _, _, by rw [named], ?_⟩
  intro other inside
  obtain ⟨candidate, ahead, rfl⟩ := List.mem_map.mp inside
  have higher := List.mem_takeWhile_imp ahead
  have listed := (List.mem_insertionSort _).mp ((List.takeWhile_prefix _).subset ahead)
  obtain ⟨row, inRest, rfl⟩ := List.mem_map.mp listed
  have there : row ∈ fused.rows := by
    apply ((startingWith _ entry.1).perm fused.rows).mem_iff.mp
    rw [arranged]
    exact List.mem_cons_of_mem _ inRest
  rw [Bool.not_eq_true', decide_eq_false_iff_not]
  intro otherFits
  exact of_decide_eq_true higher (best row there otherFits)

end Ranking

/-! ### All orders -/

/-- No addition of the packing leaves the 32 bits, whatever the orders. -/
def SumsFit (overflowChecks : Bool) : Prop :=
  ∀ walk order, (retrieve scoring engine order overflowChecks (engine.channels walk task)
    budget).overflowed = false

/-- The ids in the order of packing, for an order of the walk and one of the
scores. -/
def listing (orders : HashOrder Nat × HashOrder (Score × List RetrievalSource)) : List String :=
  (ranked orders.2 (fuse scoring (engine.channels orders.1 task))).map Candidate.id

variable {scoring engine task budget} {overflowChecks : Bool}

theorem hits_of_sumsFit (exact_sums : SumsFit scoring engine task budget overflowChecks)
    (walk : HashOrder Nat) (order : HashOrder (Score × List RetrievalSource)) :
    (retrieve scoring engine order overflowChecks (engine.channels walk task) budget).hits.map
        ScoredHit.id =
      Packing.kept engine.idTokens budget.toNat 0 (listing scoring engine task (walk, order)) := by
  have small := turns_small scoring engine overflowChecks budget 0 _ (exact_sums walk order)
  unfold retrieve
  rw [pack_eq scoring engine overflowChecks budget 0 _ small, hits_ids, UInt32.toNat_zero]
  have byIds := Packing.map_kept budget.toNat engine.idTokens Candidate.id 0
    (candidates scoring engine order (engine.channels walk task))
  rw [candidates_ids] at byIds
  exact byIds

theorem sumsFit_of_small (small : ∀ walk id,
    id ∈ (fuse scoring (engine.channels walk task)).rows.map Prod.fst →
      budget.toNat + engine.idTokens id < 2 ^ 32) :
    SumsFit scoring engine task budget overflowChecks := by
  intro walk order
  unfold retrieve
  rw [pack_eq]
  intro turn member
  obtain ⟨within, inside⟩ := Packing.turns_within _ _ (Nat.zero_le _) member
  have named := List.mem_map_of_mem (f := Candidate.id) inside
  rw [candidates_ids] at named
  have bound := small walk _ ((ranked_keys order _).mem_iff.mp named)
  exact Nat.lt_of_le_of_lt (Nat.add_le_add_right within _) bound

theorem reached_iff_packable (held : List String) :
    Packing.Reached engine.idTokens budget.toNat (listing scoring engine task) held ↔
      Packable scoring engine task budget held := by
  constructor
  · intro reached
    induction reached with
    | nothing => exact Packable.nothing
    | next orders _ goesOn first ih =>
        exact Packable.next orders.1 ih goesOn (leads_of_firstFit first)
  · intro packable
    induction packable with
    | nothing => exact Packing.Reached.nothing
    | next walk _ goesOn leads ih =>
        obtain ⟨order, first⟩ := firstFit_of_leads leads
        exact Packing.Reached.next (walk, order) ih goesOn first

theorem agree_iff_undisputed :
    Packing.Agree engine.idTokens budget.toNat (listing scoring engine task) ↔
      Undisputed scoring engine task budget := by
  constructor
  · intro agree held packable goesOn walk otherWalk id other leads otherLeads
    obtain ⟨order, first⟩ := firstFit_of_leads leads
    obtain ⟨otherOrder, otherFirst⟩ := firstFit_of_leads otherLeads
    exact agree held ((reached_iff_packable held).mpr packable) goesOn (walk, order)
      (otherWalk, otherOrder) id other first otherFirst
  · intro undisputed held reached goesOn orders otherOrders id other first otherFirst
    exact undisputed held ((reached_iff_packable held).mp reached) goesOn orders.1 otherOrders.1
      id other (leads_of_firstFit first) (leads_of_firstFit otherFirst)

/-- The hits do not depend on the order of the maps exactly when one id leads
wherever packing goes on. -/
theorem orderFree_iff (exact_sums : SumsFit scoring engine task budget overflowChecks) :
    OrderFree scoring engine task budget overflowChecks ↔
      Undisputed scoring engine task budget := by
  have distinct : ∀ orders, (listing scoring engine task orders).Nodup := fun orders =>
    (ranked_keys orders.2 _).nodup_iff.mpr (fuse scoring _).unique
  have same : ∀ orders otherOrders, (listing scoring engine task orders).Perm
      (listing scoring engine task otherOrders) := fun orders otherOrders =>
    (ranked_keys orders.2 _).trans ((fused_keys_perm scoring engine task _ _).trans
      (ranked_keys otherOrders.2 _).symm)
  rw [← agree_iff_undisputed, ← Packing.kept_eq_iff_agree distinct same]
  constructor
  · intro free orders otherOrders
    have equal := free orders.1 otherOrders.1 orders.2 otherOrders.2
    rw [hits_of_sumsFit exact_sums, hits_of_sumsFit exact_sums] at equal
    exact equal
  · intro equal walk otherWalk order otherOrder
    rw [hits_of_sumsFit exact_sums, hits_of_sumsFit exact_sums]
    exact equal (walk, order) (otherWalk, otherOrder)

/-- A document that fills the budget, and a node behind it. -/
theorem orderFree_iff_sparse :
    OrderFree exactScoring sparse ⟨["d"], [], ["g"]⟩ 1 false ↔
      Undisputed exactScoring sparse ⟨["d"], [], ["g"]⟩ 1 := by
  apply orderFree_iff
  apply sumsFit_of_small
  intro walk id member
  rw [mem_keys_fuse] at member
  have found : id = "g" ∨ id = "d" := by
    rcases member with graph | semantic | bm25
    · have there := (twoHop_labels sparse.graph walk
        { arrange := fun entries => entries, perm := fun _ => List.Perm.refl _ } ["g"]).mem_iff.mp graph
      exact Or.inl (List.mem_singleton.mp there)
    · cases semantic
    · exact Or.inr (List.mem_singleton.mp bm25)
  rcases found with rfl | rfl
  · decide +kernel
  · decide +kernel

/-! ### Two hits of one score -/

/-- Two documents of four characters. -/
def twin : RetrievalEngine :=
  { bm25 := [("d", "text"), ("e", "text")]
    graph := GraphIndex.new
    reranker := false
    nodeText := []
    nodeLabels := [] }

/-- The first of one channel and the first of another tie, and the map decides
which of them comes first. -/
theorem twins_reorder :
    ¬ ∀ (engine : RetrievalEngine) (task : Task) (budget : UInt32) (overflowChecks : Bool),
      OrderFree exactScoring engine task budget overflowChecks := by
  intro always
  let walk : HashOrder Nat := { arrange := id, perm := fun _ => List.Perm.refl _ }
  have free := always twin ⟨["d"], ["e"], []⟩ 2 false walk walk
    { arrange := id, perm := fun _ => List.Perm.refl _ }
    { arrange := List.reverse, perm := List.reverse_perm }
  exact absurd free (by decide +kernel)

end Mneme.Brain
