/-
When retrieval packs its candidates greedily.

The loop follows the packing in exact arithmetic as long as no addition leaves
the 32 bits, and it ends with the candidate that fills the budget: a candidate
without tokens that comes later is left out although it would have fitted.
-/

import Mneme.Brain.Retrieve

namespace Mneme.Brain

open Library

/-! ### The candidates -/

section Candidates

variable {Score : Type} [LinearOrder Score] (scoring : Scoring Score) (engine : RetrievalEngine)
  (order : HashOrder (Score × List RetrievalSource)) (channels : Channels)

instance : Std.Total (@higherFused Score _) :=
  ⟨fun left right => le_total right.score left.score⟩

instance : IsTrans (Candidate Score) higherFused :=
  ⟨fun _ _ _ first second => le_trans second first⟩

theorem rescore_ids (listed : List (Candidate Score)) :
    ((rescore engine listed).map Candidate.id).Perm (listed.map Candidate.id) := by
  refine ((List.perm_insertionSort _ _).map Candidate.id).trans (List.Perm.of_eq ?_)
  apply List.ext_getElem?
  intro index
  rw [List.getElem?_map, List.getElem?_mapIdx, List.getElem?_map, Option.map_map]
  congr 1
  funext candidate
  dsimp only [Function.comp]
  split
  · rfl
  · rfl

theorem candidates_distinct :
    ((candidates scoring engine order channels).map Candidate.id).Nodup := by
  have keys : (((order.arrange (fuse scoring channels).rows).map
      (fun entry => ({ id := entry.1, score := entry.2.1, sources := entry.2.2 } : Candidate Score))).map
        Candidate.id).Nodup := by
    rw [List.map_map]
    exact ((order.perm _).map Prod.fst).nodup_iff.mpr (fuse scoring channels).unique
  have sortedKeys := ((List.perm_insertionSort higherFused _).map Candidate.id).nodup_iff.mpr keys
  unfold candidates
  dsimp only
  split
  · exact (rescore_ids engine _).nodup_iff.mpr sortedKeys
  · exact sortedKeys

theorem candidates_ranked : (candidates scoring engine order channels).Pairwise higherFused := by
  unfold candidates
  dsimp only
  split
  · exact List.pairwise_insertionSort _ _
  · exact List.pairwise_insertionSort _ _

end Candidates

/-! ### The loop -/

section Loop

variable {Score : Type} (scoring : Scoring Score) (engine : RetrievalEngine)

/-- The estimate of a candidate. -/
def tokens (candidate : Candidate Score) : Nat :=
  (estimateTokens (engine.displayText candidate.id)).toNat

section Step

variable {engine} {overflowChecks : Bool} {budget used : UInt32} {candidate : Candidate Score}
  {rest : List (Candidate Score)}

/-- The tokens used with a candidate. -/
def withCandidate (engine : RetrievalEngine) (used : UInt32) (candidate : Candidate Score) : UInt32 :=
  used + estimateTokens (engine.displayText candidate.id)

theorem withCandidate_toNat (small : used.toNat + tokens engine candidate < 2 ^ 32) :
    (withCandidate engine used candidate).toNat = used.toNat + tokens engine candidate := by
  unfold withCandidate
  rw [UInt32.toNat_add]
  exact Nat.mod_eq_of_lt small

theorem pack_overflowed (large : 2 ^ 32 ≤ used.toNat + tokens engine candidate) :
    (pack scoring engine overflowChecks budget used (candidate :: rest)).overflowed = true := by
  have overflows : decide (2 ^ 32 ≤ used.toNat +
      (estimateTokens (engine.displayText candidate.id)).toNat) = true := decide_eq_true large
  unfold pack
  dsimp only
  rw [overflows]
  split
  · rfl
  · split
    · rfl
    · split
      · rfl
      · rfl

/-- A turn without overflow. -/
theorem pack_cons (small : used.toNat + tokens engine candidate < 2 ^ 32) :
    pack scoring engine overflowChecks budget used (candidate :: rest) =
      if budget < withCandidate engine used candidate then
        pack scoring engine overflowChecks budget used rest
      else if budget ≤ withCandidate engine used candidate then
        { hits := [hitOf scoring engine candidate]
          used := withCandidate engine used candidate
          overflowed := false
          panicked := false }
      else
        let later := pack scoring engine overflowChecks budget (withCandidate engine used candidate)
          rest
        { later with hits := hitOf scoring engine candidate :: later.hits } := by
  have fits : decide (2 ^ 32 ≤ used.toNat +
      (estimateTokens (engine.displayText candidate.id)).toNat) = false :=
    decide_eq_false (Nat.not_le.mpr small)
  have goesOn : ¬ (overflowChecks = true ∧ false = true) := fun both => Bool.false_ne_true both.2
  rw [pack]
  dsimp only
  rw [fits, if_neg goesOn]
  rfl

theorem pack_of_beyond (small : used.toNat + tokens engine candidate < 2 ^ 32)
    (beyond : budget.toNat < used.toNat + tokens engine candidate) :
    pack scoring engine overflowChecks budget used (candidate :: rest) =
      pack scoring engine overflowChecks budget used rest := by
  rw [pack_cons scoring small, if_pos]
  rw [UInt32.lt_iff_toNat_lt, withCandidate_toNat small]
  exact beyond

theorem pack_of_full (small : used.toNat + tokens engine candidate < 2 ^ 32)
    (full : used.toNat + tokens engine candidate = budget.toNat) :
    pack scoring engine overflowChecks budget used (candidate :: rest) =
      { hits := [hitOf scoring engine candidate]
        used := withCandidate engine used candidate
        overflowed := false
        panicked := false } := by
  rw [pack_cons scoring small, if_neg, if_pos]
  · rw [UInt32.le_iff_toNat_le, withCandidate_toNat small]
    omega
  · rw [UInt32.lt_iff_toNat_lt, withCandidate_toNat small]
    omega

theorem pack_of_room (small : used.toNat + tokens engine candidate < 2 ^ 32)
    (room : used.toNat + tokens engine candidate < budget.toNat) :
    pack scoring engine overflowChecks budget used (candidate :: rest) =
      { pack scoring engine overflowChecks budget (withCandidate engine used candidate) rest with
        hits := hitOf scoring engine candidate ::
          (pack scoring engine overflowChecks budget (withCandidate engine used candidate)
            rest).hits } := by
  rw [pack_cons scoring small, if_neg, if_neg]
  · rw [UInt32.le_iff_toNat_le, withCandidate_toNat small]
    omega
  · rw [UInt32.lt_iff_toNat_lt, withCandidate_toNat small]
    omega

end Step

/-- The loop keeps what greedy packing keeps. -/
theorem pack_eq (overflowChecks : Bool) (budget used : UInt32) (listed : List (Candidate Score))
    (small : ∀ turn ∈ Packing.turns (tokens engine) budget.toNat used.toNat listed,
      turn.1 + tokens engine turn.2 < 2 ^ 32) :
    pack scoring engine overflowChecks budget used listed =
      { hits := (Packing.kept (tokens engine) budget.toNat used.toNat listed).map
          (hitOf scoring engine)
        used := UInt32.ofNat (used.toNat +
          Packing.total (tokens engine)
            (Packing.kept (tokens engine) budget.toNat used.toNat listed))
        overflowed := false
        panicked := false } := by
  induction listed generalizing used with
  | nil =>
      change _ = ({ hits := [], used := UInt32.ofNat (used.toNat + 0), overflowed := false
                    panicked := false } : Packed Score)
      rw [Nat.add_zero, UInt32.ofNat_toNat]
      rfl
  | cons candidate rest ih =>
      have here : used.toNat + tokens engine candidate < 2 ^ 32 := small _ Packing.first_turn
      rcases Nat.lt_trichotomy (used.toNat + tokens engine candidate) budget.toNat with
        room | full | beyond
      · have later := ih (withCandidate engine used candidate) (by
          rw [withCandidate_toNat here]
          intro turn member
          exact small turn ((Packing.mem_turns_of_room room).mpr (Or.inr member)))
        rw [pack_of_room scoring here room, later, Packing.kept_of_room room, Packing.total_cons,
          withCandidate_toNat here, Nat.add_assoc]
        rfl
      · have alone : Packing.total (tokens engine) [candidate] = tokens engine candidate :=
          Nat.add_zero _
        rw [pack_of_full scoring here full, Packing.kept_of_full full, alone,
          ← withCandidate_toNat here, UInt32.ofNat_toNat]
        rfl
      · have later := ih used (fun turn member =>
          small turn ((Packing.mem_turns_of_beyond beyond).mpr (Or.inr member)))
        rw [pack_of_beyond scoring here beyond, later, Packing.kept_of_beyond beyond]

/-- A loop without overflow had small sums at all its turns. -/
theorem turns_small (overflowChecks : Bool) (budget used : UInt32) (listed : List (Candidate Score))
    (exact_sums : (pack scoring engine overflowChecks budget used listed).overflowed = false) :
    ∀ turn ∈ Packing.turns (tokens engine) budget.toNat used.toNat listed,
      turn.1 + tokens engine turn.2 < 2 ^ 32 := by
  induction listed generalizing used with
  | nil =>
      intro turn member
      cases member
  | cons candidate rest ih =>
      by_cases large : 2 ^ 32 ≤ used.toNat + tokens engine candidate
      · rw [pack_overflowed scoring large] at exact_sums
        cases exact_sums
      · have here := Nat.not_le.mp large
        intro turn member
        rcases Nat.lt_trichotomy (used.toNat + tokens engine candidate) budget.toNat with
          room | full | beyond
        · rw [pack_of_room scoring here room] at exact_sums
          have later := ih (withCandidate engine used candidate) exact_sums
          rw [withCandidate_toNat here] at later
          rcases (Packing.mem_turns_of_room room).mp member with first | other
          · rw [first]
            exact here
          · exact later turn other
        · rw [(Packing.mem_turns_of_full full).mp member]
          exact here
        · rw [pack_of_beyond scoring here beyond] at exact_sums
          rcases (Packing.mem_turns_of_beyond beyond).mp member with first | other
          · rw [first]
            exact here
          · exact ih used exact_sums turn other

end Loop

/-! ### Greedy packing -/

section Result

variable {Score : Type} [LinearOrder Score] (scoring : Scoring Score) (engine : RetrievalEngine)

/-- The hits are of different ids, their estimates add up to the tokens used,
within the budget and without overflow; they are candidates by descending score,
and no candidate left out would have fitted behind those packed before it. -/
structure PacksGreedily (listed : List (Candidate Score)) (budget : UInt32)
    (packed : Packed Score) : Prop where
  finished : packed.panicked = false
  exact : packed.overflowed = false
  distinct : (packed.hits.map ScoredHit.id).Nodup
  summed : packed.used.toNat =
    (packed.hits.map (fun hit => (estimateTokens hit.text).toNat)).sum
  within : packed.used ≤ budget
  greedy : ∃ packing : List (Candidate Score), packed.hits = packing.map (hitOf scoring engine) ∧
    packing.Sublist listed ∧ packing.Pairwise higherFused ∧
      Packing.LeavesNoRoom (tokens engine) budget.toNat Candidate.id 0 listed packing

omit [LinearOrder Score] in
theorem hits_ids (packing : List (Candidate Score)) :
    (packing.map (hitOf scoring engine)).map ScoredHit.id = packing.map Candidate.id :=
  List.map_map

theorem packsGreedily_of_small {listed : List (Candidate Score)} {overflowChecks : Bool}
    {budget : UInt32} (distinct : (listed.map Candidate.id).Nodup)
    (ranked : listed.Pairwise higherFused)
    (small : ∀ turn ∈ Packing.turns (tokens engine) budget.toNat 0 listed,
      turn.1 + tokens engine turn.2 < 2 ^ 32)
    (sized : ∀ candidate ∈ Packing.unseen (tokens engine) budget.toNat 0 listed,
      tokens engine candidate ≠ 0) :
    PacksGreedily scoring engine listed budget
      (pack scoring engine overflowChecks budget 0 listed) := by
  have inside := Packing.kept_sublist (tokens engine) budget.toNat 0 listed
  have bounded := Packing.kept_total_le (tokens engine) budget.toNat (Nat.zero_le _) listed
  rw [Nat.zero_add] at bounded
  have sum_lt : Packing.total (tokens engine) (Packing.kept (tokens engine) budget.toNat 0 listed) <
      2 ^ 32 := Nat.lt_of_le_of_lt bounded budget.toNat_lt
  have used_eq : (UInt32.ofNat ((0 : UInt32).toNat + Packing.total (tokens engine)
      (Packing.kept (tokens engine) budget.toNat 0 listed))).toNat =
        Packing.total (tokens engine) (Packing.kept (tokens engine) budget.toNat 0 listed) := by
    rw [UInt32.toNat_ofNat', UInt32.toNat_zero, Nat.zero_add]
    exact Nat.mod_eq_of_lt sum_lt
  rw [pack_eq scoring engine overflowChecks budget 0 listed small]
  refine ⟨rfl, rfl, ?_, ?_, ?_, ?_⟩
  · rw [hits_ids]
    exact distinct.sublist (inside.map _)
  · rw [List.map_map]
    exact used_eq
  · rw [UInt32.le_iff_toNat_le]
    exact Nat.le_trans (Nat.le_of_eq used_eq) bounded
  · exact ⟨_, rfl, inside, ranked.sublist inside,
      (Packing.kept_leavesNoRoom_iff (tokens engine) budget.toNat distinct).mpr sized⟩

/-- Retrieval packs greedily exactly when the sums of all turns fit 32 bits and
every candidate without a turn has tokens. -/
theorem retrieve_packs_iff (order : HashOrder (Score × List RetrievalSource))
    (overflowChecks : Bool) (channels : Channels) (budget : UInt32) :
    PacksGreedily scoring engine (candidates scoring engine order channels) budget
        (retrieve scoring engine order overflowChecks channels budget) ↔
      (∀ turn ∈ Packing.turns (tokens engine) budget.toNat 0
          (candidates scoring engine order channels),
        turn.1 + tokens engine turn.2 < 2 ^ 32) ∧
      ∀ candidate ∈ Packing.unseen (tokens engine) budget.toNat 0
          (candidates scoring engine order channels),
        tokens engine candidate ≠ 0 := by
  have distinct := candidates_distinct scoring engine order channels
  constructor
  · intro packs
    have small := turns_small scoring engine overflowChecks budget 0 _ packs.exact
    refine ⟨small, ?_⟩
    obtain ⟨packing, hits, _, _, noRoom⟩ := packs.greedy
    unfold retrieve at hits
    rw [pack_eq scoring engine overflowChecks budget 0 _ small] at hits
    have ids := congrArg (List.map ScoredHit.id) hits
    rw [hits_ids, hits_ids] at ids
    apply (Packing.kept_leavesNoRoom_iff (tokens engine) budget.toNat distinct).mp
    refine (Packing.leavesNoRoom_congr (tokens engine) budget.toNat ?_).mp noRoom
    intro candidate _
    rw [← ids]
    rfl
  · intro both
    exact packsGreedily_of_small scoring engine distinct
      (candidates_ranked scoring engine order channels) both.1 both.2

end Result

/-! ### A hit without text -/

/-- A document of one token, and a node of the graph without text. -/
def sparse : RetrievalEngine :=
  { bm25 := [("d", "text")]
    graph := (GraphIndex.new.addNode "g" "").1
    reranker := false
    nodeText := []
    nodeLabels := [] }

/-- The document fills the budget of one token, and the node is left out. -/
theorem textless_left_out :
    ¬ ∀ (engine : RetrievalEngine) (order : HashOrder (Rat × List RetrievalSource))
      (overflowChecks : Bool) (channels : Channels) (budget : UInt32),
      PacksGreedily exactScoring engine (candidates exactScoring engine order channels) budget
        (retrieve exactScoring engine order overflowChecks channels budget) := by
  intro always
  let order : HashOrder (Rat × List RetrievalSource) :=
    { arrange := id, perm := fun _ => List.Perm.refl _ }
  let channels : Channels := { bm25 := ["d"], semantic := [], graph := ["g"] }
  let document : Candidate Rat := { id := "d", score := 1 / 61, sources := [.bm25] }
  let node : Candidate Rat := { id := "g", score := 1 / 122, sources := [.graph] }
  have listed : candidates exactScoring sparse order channels = [document, node] := by
    decide +kernel
  have packed : (retrieve exactScoring sparse order false channels 1).hits.map ScoredHit.id =
      ["d"] := by decide +kernel
  obtain ⟨packing, hits, _, _, noRoom⟩ := (always sparse order false channels 1).greedy
  rw [hits, hits_ids] at packed
  have left : node.id ∉ packing.map Candidate.id := by
    rw [packed]
    decide
  have behind := noRoom [document] node [] listed left
  have before : Packing.among Candidate.id packing [document] = [document] := by
    unfold Packing.among
    rw [packed]
    rfl
  rw [before] at behind
  exact absurd behind (by decide +kernel)

end Mneme.Brain
