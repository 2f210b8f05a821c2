/-
What the moves of local moving do to the modularity.

Every accepted move raises the modularity over all pairs of nodes by twice the
difference of the two gains, so the loop comes to rest by itself.  The value
that `modularity` computes follows it only when the move leaves as much strength
without a link behind as it finds.
-/

import Mathlib.Algebra.Order.Archimedean.Basic
import Mneme.Brain.Connectivity
import Mneme.Brain.Modularity

namespace Mneme.Brain

open Library Transition

variable {n : Nat}

/-! ### One visit -/

section Visits

variable (adj : Adjacency n) (twoM resolution : Rat)

/-- The community a visited node finds best, and its gain. -/
def chosen (pass : Pass n) (u : Fin n) : Nat × Rat :=
  bestCommunity adj twoM resolution (otherLinks adj u) (pullOut adj pass u) u

/-- The gain of the community the node comes from. -/
def stayGain (pass : Pass n) (u : Fin n) : Rat :=
  gain adj twoM resolution (otherLinks adj u) (pullOut adj pass u) u (pass.labels.get u)

theorem moveNode_cases (pass : Pass n) (u : Fin n) :
    ((moveNode adj twoM resolution pass u).2 = true ∧
      (chosen adj twoM resolution pass u).1 ≠ pass.labels.get u ∧
      stayGain adj twoM resolution pass u + tolerance < (chosen adj twoM resolution pass u).2 ∧
      (moveNode adj twoM resolution pass u).1 =
        putInto adj (pullOut adj pass u) u (chosen adj twoM resolution pass u).1) ∨
    ((moveNode adj twoM resolution pass u).2 = false ∧
      (moveNode adj twoM resolution pass u).1 =
        putInto adj (pullOut adj pass u) u (pass.labels.get u)) := by
  have visit : moveNode adj twoM resolution pass u =
      if (chosen adj twoM resolution pass u).1 ≠ pass.labels.get u ∧
          (chosen adj twoM resolution pass u).2 > stayGain adj twoM resolution pass u + tolerance then
        (putInto adj (pullOut adj pass u) u (chosen adj twoM resolution pass u).1, true)
      else (putInto adj (pullOut adj pass u) u (pass.labels.get u), false) := rfl
  by_cases accepted : (chosen adj twoM resolution pass u).1 ≠ pass.labels.get u ∧
      (chosen adj twoM resolution pass u).2 > stayGain adj twoM resolution pass u + tolerance
  · left
    rw [visit, if_pos accepted]
    exact ⟨rfl, accepted.1, accepted.2, rfl⟩
  · right
    rw [visit, if_neg accepted]
    exact ⟨rfl, rfl⟩

/-- A visit in the pass of a partition ends in the pass of a partition. -/
theorem moveNode_passOf (partition : Partition n) (u : Fin n) :
    (moveNode adj twoM resolution (passOf adj partition) u).1 =
      passOf adj (moveNode adj twoM resolution (passOf adj partition) u).1.labels := by
  rcases moveNode_cases adj twoM resolution (passOf adj partition) u with
    ⟨_, _, _, moved⟩ | ⟨_, stayed⟩
  · rw [moved]
    exact putInto_passOf adj partition u _
  · rw [stayed]
    exact putInto_passOf adj partition u _

/-! ### The modularity over all pairs -/

variable {adj}

theorem fullModularity_moved (mirrored : Mirrored adj) {partition : Partition n} {u : Fin n}
    (moved : (moveNode adj twoM resolution (passOf adj partition) u).2 = true) :
    fullModularity adj twoM resolution
        (moveNode adj twoM resolution (passOf adj partition) u).1.labels -
      fullModularity adj twoM resolution partition =
      2 * ((chosen adj twoM resolution (passOf adj partition) u).2 -
        stayGain adj twoM resolution (passOf adj partition) u) := by
  rcases moveNode_cases adj twoM resolution (passOf adj partition) u with
    ⟨_, leaves, _, after⟩ | ⟨stayed, _⟩
  · have offered : (chosen adj twoM resolution (passOf adj partition) u).2 =
        gain adj twoM resolution (otherLinks adj u) (pullOut adj (passOf adj partition) u) u
          (chosen adj twoM resolution (passOf adj partition) u).1 :=
      ((bestCommunity_cases adj twoM resolution (otherLinks adj u)
        (pullOut adj (passOf adj partition) u) u).resolve_left leaves).2
    rw [after, putInto_passOf, offered]
    exact fullModularity_set twoM resolution mirrored partition u _
  · rw [stayed] at moved
    cases moved

/-- An accepted move raises it by more than twice the tolerance, and any other
visit keeps it. -/
theorem fullModularity_visited (mirrored : Mirrored adj) (partition : Partition n) (u : Fin n) :
    fullModularity adj twoM resolution partition +
        (if (moveNode adj twoM resolution (passOf adj partition) u).2 then 2 * tolerance else 0) ≤
      fullModularity adj twoM resolution
        (moveNode adj twoM resolution (passOf adj partition) u).1.labels := by
  rcases moveNode_cases adj twoM resolution (passOf adj partition) u with
    ⟨moved, _, better, _⟩ | ⟨stayed, after⟩
  · have raised := fullModularity_moved twoM resolution mirrored moved
    rw [if_pos moved]
    linarith
  · rw [stayed, after, if_neg Bool.false_ne_true, add_zero, putInto_passOf]
    have kept : partition.set u ((passOf adj partition).labels.get u) = partition := by
      apply List.Vector.ext
      intro v
      rw [get_set]
      exact congrFun (Function.update_eq_self u partition.get) v
    exact le_of_eq (congrArg (fullModularity adj twoM resolution) kept.symm)

end Visits

/-! ### The visits of a sweep -/

section Sweeps

variable (adj : Adjacency n) (twoM resolution : Rat)

/-- The visits of one round, each with the state it finds. -/
def roundVisits : List (Fin n) → Pass n → List (Pass n × Fin n)
  | [], _ => []
  | u :: rest, pass =>
      (pass, u) :: roundVisits rest (moveNode adj twoM resolution pass u).1

/-- The visits of the loop, when so many rounds may be made. -/
def sweepVisits (order : List (Fin n)) : Nat → Pass n → List (Pass n × Fin n)
  | 0, _ => []
  | rounds + 1, pass =>
      let round := moveRound adj twoM resolution order pass
      roundVisits adj twoM resolution order pass ++
        if round.2 then sweepVisits order rounds round.1 else []

/-- The loop of local moving without a cap on its rounds. -/
inductive Settles (order : List (Fin n)) : Pass n → Pass n → Prop
  | last {pass : Pass n} : (moveRound adj twoM resolution order pass).2 = false →
      Settles order pass (moveRound adj twoM resolution order pass).1
  | again {pass final : Pass n} : (moveRound adj twoM resolution order pass).2 = true →
      Settles order (moveRound adj twoM resolution order pass).1 final →
      Settles order pass final

/-- A visit as a step. -/
def moveStep (pass : Pass n) (u : Fin n) : Option (Pass n) :=
  some (moveNode adj twoM resolution pass u).1

/-- The state of a round from some state on, and whether a node moved. -/
def roundFold (order : List (Fin n)) (state : Pass n × Bool) : Pass n × Bool :=
  order.foldl
    (fun state u =>
      let visited := moveNode adj twoM resolution state.1 u
      (visited.1, state.2 || visited.2))
    state

variable (order : List (Fin n))

theorem run_roundVisits (pass : Pass n) (flag : Bool) :
    Run (moveStep adj twoM resolution) pass (roundVisits adj twoM resolution order pass)
      (roundFold adj twoM resolution order (pass, flag)).1 := by
  induction order generalizing pass flag with
  | nil => exact Run.start
  | cons u rest ih => exact Run.prepend rfl (ih _ _)

/-- The visits of the loop lead from where it starts to where it ends. -/
theorem run_sweepVisits (rounds : Nat) (pass : Pass n) :
    Run (moveStep adj twoM resolution) pass (sweepVisits adj twoM resolution order rounds pass)
      (moveRounds adj twoM resolution order rounds pass) := by
  induction rounds generalizing pass with
  | zero => exact Run.start
  | succ rounds ih =>
      have first := run_roundVisits adj twoM resolution order pass false
      rw [sweepVisits, moveRounds]
      split
      · exact first.append (ih _)
      · rw [List.append_nil]
        exact first

/-- The strengths a pass goes by are those of its labels. -/
def Counted (pass : Pass n) : Prop :=
  pass = passOf adj pass.labels

theorem counted_passOf (partition : Partition n) : Counted adj (passOf adj partition) := rfl

theorem counted_step {pass after : Pass n} {u : Fin n} (counted : Counted adj pass)
    (taken : moveStep adj twoM resolution pass u = some after) : Counted adj after := by
  cases taken
  rw [counted]
  exact moveNode_passOf adj twoM resolution pass.labels u

theorem sweepVisits_counted (rounds : Nat) (partition : Partition n) :
    ∀ taken ∈ sweepVisits adj twoM resolution order rounds (passOf adj partition),
      Counted adj taken.1 := by
  have run := run_sweepVisits adj twoM resolution order rounds (passOf adj partition)
  have anyStep : Respects (fun _ _ => True)
      (sweepVisits adj twoM resolution order rounds (passOf adj partition)) :=
    fun _ _ => trivial
  exact (run.throughout_of_respects (counted_passOf adj partition)
    (fun _ _ _ counted _ taken => counted_step adj twoM resolution counted taken) anyStep).1

/-- With rounds enough the cap does not matter. -/
theorem Settles.capped {order : List (Fin n)} {pass final : Pass n}
    (settles : Settles adj twoM resolution order pass final) :
    ∃ enough, ∀ cap, enough ≤ cap → moveRounds adj twoM resolution order cap pass = final := by
  induction settles with
  | last still =>
      refine ⟨1, fun cap enough => ?_⟩
      obtain ⟨rounds, rfl⟩ := Nat.exists_eq_add_of_le' enough
      rw [moveRounds]
      exact if_neg (Bool.eq_false_iff.mp still)
  | again moved _ ih =>
      obtain ⟨enough, capped⟩ := ih
      refine ⟨enough + 1, fun cap more => ?_⟩
      obtain ⟨rounds, rfl⟩ := Nat.exists_eq_add_of_le' more
      rw [← Nat.add_assoc, moveRounds]
      exact (if_pos moved).trans (capped _ (Nat.le_add_left _ _))

/-! ### The loop comes to rest -/

variable {adj}

/-- A round in which a node moves raises the modularity over all pairs by twice
the tolerance, and no round lowers it. -/
theorem fullModularity_roundFold (mirrored : Mirrored adj) (order : List (Fin n))
    (partition : Partition n) (flag : Bool) :
    ∃ reached, (roundFold adj twoM resolution order (passOf adj partition, flag)).1 =
        passOf adj reached ∧
      fullModularity adj twoM resolution partition ≤ fullModularity adj twoM resolution reached ∧
      ((roundFold adj twoM resolution order (passOf adj partition, flag)).2 = true →
        flag = true ∨ fullModularity adj twoM resolution partition + 2 * tolerance ≤
          fullModularity adj twoM resolution reached) := by
  induction order generalizing partition flag with
  | nil => exact ⟨partition, rfl, le_rfl, Or.inl⟩
  | cons u rest ih =>
      let visited := moveNode adj twoM resolution (passOf adj partition) u
      obtain ⟨reached, ends, higher, raised⟩ := ih visited.1.labels (flag || visited.2)
      rw [← moveNode_passOf adj twoM resolution partition u] at ends raised
      have first := fullModularity_visited twoM resolution mirrored partition u
      have positive : (0 : Rat) < 2 * tolerance := by
        unfold tolerance
        norm_num
      refine ⟨reached, ends, ?_, ?_⟩
      · refine le_trans ?_ (le_trans first higher)
        split
        · linarith
        · linarith
      · intro marked
        rcases raised marked with either | later
        · rcases Bool.or_eq_true_iff.mp either with before | now
          · exact Or.inl before
          · right
            rw [if_pos now] at first
            exact le_trans first higher
        · right
          refine le_trans (add_le_add_left (le_trans ?_ first) _) later
          split
          · linarith
          · linarith

theorem settles (mirrored : Mirrored adj) (order : List (Fin n)) (partition : Partition n) :
    ∃ final, Settles adj twoM resolution order (passOf adj partition) final := by
  let bound := ∑ u, ∑ v, |fullScore adj twoM resolution u v|
  have positive : (0 : Rat) < 2 * tolerance := by
    unfold tolerance
    norm_num
  -- The induction is on how many more moves fit below the bound.
  have left : ∀ moves : Nat, ∀ partition : Partition n,
      bound - fullModularity adj twoM resolution partition < moves * (2 * tolerance) →
      ∃ final, Settles adj twoM resolution order (passOf adj partition) final := by
    intro moves
    induction moves with
    | zero =>
        intro partition below
        have bounded : fullModularity adj twoM resolution partition ≤ bound :=
          pairScore_le (fullScore adj twoM resolution) partition.get
        rw [Nat.cast_zero, zero_mul] at below
        linarith
    | succ moves ih =>
        intro partition below
        obtain ⟨reached, ends, _, raised⟩ :=
          fullModularity_roundFold twoM resolution mirrored order partition false
        cases marked : (moveRound adj twoM resolution order (passOf adj partition)).2 with
        | false => exact ⟨_, Settles.last marked⟩
        | true =>
            have higher := (raised marked).resolve_left Bool.false_ne_true
            rw [Nat.cast_succ] at below
            obtain ⟨final, rest⟩ := ih reached (by linarith)
            rw [← ends] at rest
            exact ⟨final, Settles.again marked rest⟩
  obtain ⟨moves, enough⟩ := exists_nat_gt
    ((bound - fullModularity adj twoM resolution partition) / (2 * tolerance))
  exact left moves partition ((div_lt_iff₀ positive).mp enough)

end Sweeps

/-! ### The moves and the computed modularity -/

section Predictions

variable (adj : Adjacency n) (twoM resolution : Rat)

/-- The visit raises the computed modularity, by twice the difference of the
two gains: each link is listed at both ends. -/
def AsPredicted (pass : Pass n) (u : Fin n) : Prop :=
  let after := (moveNode adj twoM resolution pass u).1.labels
  modularity adj twoM resolution pass.labels < modularity adj twoM resolution after ∧
    modularity adj twoM resolution after - modularity adj twoM resolution pass.labels =
      2 * ((chosen adj twoM resolution pass u).2 - stayGain adj twoM resolution pass u)

/-- The community joined has as much strength without a link to the node as the
community left, or the expected weights do not count. -/
def Balanced (pass : Pass n) (u : Fin n) : Prop :=
  resolution = 0 ∨
    unlinkedStrength adj pass.labels u (chosen adj twoM resolution pass u).1 =
      unlinkedStrength adj pass.labels u (pass.labels.get u)

instance (pass : Pass n) (u : Fin n) : Decidable (Balanced adj twoM resolution pass u) :=
  inferInstanceAs (Decidable (_ ∨ _))

variable {adj}

theorem asPredicted_iff (mirrored : Mirrored adj) (positive : 0 < twoM) {partition : Partition n}
    {u : Fin n} (attached : 0 < strength adj u)
    (moved : (moveNode adj twoM resolution (passOf adj partition) u).2 = true) :
    AsPredicted adj twoM resolution (passOf adj partition) u ↔
      Balanced adj twoM resolution (passOf adj partition) u := by
  have predicted := fullModularity_moved twoM resolution mirrored moved
  rcases moveNode_cases adj twoM resolution (passOf adj partition) u with
    ⟨_, _, better, after⟩ | ⟨stayed, _⟩
  · have factor : 0 < strength adj u / (twoM * twoM) := div_pos attached (mul_pos positive positive)
    have tolerant : (0 : Rat) < tolerance := by
      unfold tolerance
      norm_num
    have computed := modularity_set twoM resolution mirrored partition u
      (chosen adj twoM resolution (passOf adj partition) u).1
    rw [after, putInto_passOf] at predicted
    change fullModularity adj twoM resolution (partition.set u _) - _ = _ at predicted
    rw [predicted] at computed
    unfold AsPredicted Balanced
    dsimp only
    rw [after, putInto_passOf]
    change (modularity adj twoM resolution partition <
        modularity adj twoM resolution (partition.set u _) ∧
      modularity adj twoM resolution (partition.set u _) -
        modularity adj twoM resolution partition = _) ↔ _ ∨
      unlinkedStrength adj partition u _ = unlinkedStrength adj partition u (partition.get u)
    constructor
    · intro asPredicted
      have nothing : resolution * (strength adj u / (twoM * twoM)) *
          (unlinkedStrength adj partition u (chosen adj twoM resolution (passOf adj partition) u).1 -
            unlinkedStrength adj partition u (partition.get u)) = 0 := by
        rw [asPredicted.2, mul_div_assoc] at computed
        linarith
      rcases mul_eq_zero.mp nothing with noFactor | same
      · exact Or.inl ((mul_eq_zero.mp noFactor).resolve_right (ne_of_gt factor))
      · exact Or.inr (sub_eq_zero.mp same)
    · intro balanced
      have nothing : resolution * strength adj u / (twoM * twoM) *
          (unlinkedStrength adj partition u (chosen adj twoM resolution (passOf adj partition) u).1 -
            unlinkedStrength adj partition u (partition.get u)) = 0 := by
        rcases balanced with noWeight | same
        · rw [noWeight, zero_mul, zero_div, zero_mul]
        · rw [same, sub_self, mul_zero]
      rw [nothing, mul_zero, add_zero] at computed
      exact ⟨by linarith, computed⟩
  · rw [stayed] at moved
    cases moved

end Predictions

namespace UnGraph

/-- The links of one edge. -/
def edgeLinks (edge : Fin n × Fin n × Rat) (u : Fin n) : List (Fin n × Rat) :=
  if edge.2.2 ≤ 0 then []
  else (if edge.1 = u then [(edge.2.1, edge.2.2)] else []) ++
    (if edge.1 ≠ edge.2.1 ∧ edge.2.1 = u then [(edge.1, edge.2.2)] else [])

variable (graph : UnGraph n)

theorem adjacency_eq (u : Fin n) :
    graph.adjacency u = graph.edges.flatMap (fun edge => edgeLinks edge u) := rfl

/-- The weights that an edge lists for a node and another one. -/
theorem edgeLinks_weights (edge : Fin n × Fin n × Rat) {u v : Fin n} (apart : u ≠ v) :
    ((edgeLinks edge u).filter (fun link => link.1 = v)).map Prod.snd =
      if ¬ edge.2.2 ≤ 0 ∧ (edge.1 = u ∧ edge.2.1 = v ∨ edge.1 = v ∧ edge.2.1 = u) then [edge.2.2]
      else [] := by
  obtain ⟨a, b, w⟩ := edge
  unfold edgeLinks
  dsimp only
  by_cases dropped : w ≤ 0
  · rw [if_pos dropped, if_neg (fun both => both.1 dropped)]
    rfl
  · rw [if_neg dropped, List.filter_append, List.map_append]
    by_cases fromFirst : a = u
    · have elsewhere : b ≠ u ∨ ¬ a ≠ b := by
        by_cases loop : b = u
        · exact Or.inr (not_not.mpr (fromFirst.trans loop.symm))
        · exact Or.inl loop
      have notSecond : ¬ (a ≠ b ∧ b = u) := by tauto
      have notBack : a ≠ v := fun same => apart (fromFirst.symm.trans same)
      rw [if_pos fromFirst, if_neg notSecond, List.filter_nil, List.map_nil, List.append_nil]
      by_cases there : b = v
      · rw [if_pos ⟨dropped, Or.inl ⟨fromFirst, there⟩⟩, List.filter_cons_of_pos (by simpa using there)]
        rfl
      · rw [if_neg (by tauto), List.filter_cons_of_neg (by simpa using there)]
        rfl
    · rw [if_neg fromFirst, List.filter_nil, List.map_nil, List.nil_append]
      by_cases fromSecond : b = u
      · have apartEnds : a ≠ b := fun same => fromFirst (same.trans fromSecond)
        rw [if_pos ⟨apartEnds, fromSecond⟩]
        by_cases there : a = v
        · rw [if_pos ⟨dropped, Or.inr ⟨there, fromSecond⟩⟩,
            List.filter_cons_of_pos (by simpa using there)]
          rfl
        · rw [if_neg (by tauto), List.filter_cons_of_neg (by simpa using there)]
          rfl
      · rw [if_neg (by tauto), if_neg (by tauto)]
        rfl

theorem mirrored_adjacency : Mirrored graph.adjacency := by
  intro u v
  by_cases same : u = v
  · rw [same]
  · unfold linkWeights
    rw [adjacency_eq, adjacency_eq, List.filter_flatMap, List.filter_flatMap, List.map_flatMap,
      List.map_flatMap]
    apply List.Perm.of_eq
    congr 1
    funext edge
    rw [edgeLinks_weights edge same, edgeLinks_weights edge (Ne.symm same)]
    exact if_congr (and_congr_right (fun _ => Or.comm.trans (or_congr Iff.rfl Iff.rfl))) rfl rfl

theorem twoM_pos : 0 < graph.twoM := by
  unfold twoM
  split
  · linarith
  · exact one_pos

/-- A node that moves has a link. -/
theorem strength_pos_of_moved {resolution : Rat} {pass : Pass n} {u : Fin n}
    (moved : (moveNode graph.adjacency graph.twoM resolution pass u).2 = true) :
    0 < strength graph.adjacency u := by
  rcases moveNode_cases graph.adjacency graph.twoM resolution pass u with
    ⟨_, leaves, _, _⟩ | ⟨stayed, _⟩
  · have there := (bestCommunity_cases graph.adjacency graph.twoM resolution
      (otherLinks graph.adjacency u) (pullOut graph.adjacency pass u) u).resolve_left leaves
    obtain ⟨v, w, member, _⟩ := mem_communitiesOf there.1
    have listed : (v, w) ∈ graph.adjacency u := List.mem_of_mem_filter member
    apply List.sum_pos
    · intro weight inWeights
      obtain ⟨link, linked, rfl⟩ := List.mem_map.mp inWeights
      exact (mem_adjacency linked).1
    · intro none
      rw [List.map_eq_nil_iff] at none
      rw [none] at listed
      cases listed
  · rw [stayed] at moved
    cases moved

theorem fullModularity_moveRounds {adj : Adjacency n} (mirrored : Mirrored adj)
    (twoM resolution : Rat) (order : List (Fin n)) (cap : Nat) (partition : Partition n) :
    ∃ reached, moveRounds adj twoM resolution order cap (passOf adj partition) =
        passOf adj reached ∧
      fullModularity adj twoM resolution partition ≤ fullModularity adj twoM resolution reached := by
  induction cap generalizing partition with
  | zero => exact ⟨partition, rfl, le_refl _⟩
  | succ cap ih =>
      obtain ⟨round, after, raised, _⟩ :=
        fullModularity_roundFold twoM resolution mirrored order partition false
      change (moveRound adj twoM resolution order (passOf adj partition)).1 = _ at after
      rw [moveRounds, after]
      split
      · obtain ⟨reached, same, more⟩ := ih round
        exact ⟨reached, same, raised.trans more⟩
      · exact ⟨round, rfl, raised⟩

/-- Local moving does not lower the modularity over all pairs, and from some number of rounds on
its cap changes nothing. -/
theorem localMove_rests (graph : UnGraph n) (resolution : Rat) (order : List (Fin n))
    (partition : Partition n) :
    fullModularity graph.adjacency graph.twoM resolution partition ≤
        fullModularity graph.adjacency graph.twoM resolution
          (localMove graph.adjacency graph.twoM resolution order partition) ∧
      ∃ enough final, ∀ cap, enough ≤ cap →
        moveRounds graph.adjacency graph.twoM resolution order cap
          (passOf graph.adjacency partition) = final := by
  constructor
  · obtain ⟨reached, same, raised⟩ := fullModularity_moveRounds graph.mirrored_adjacency
      graph.twoM resolution order 32 partition
    change _ ≤ fullModularity _ _ _ (moveRounds _ _ _ _ _ (passOf graph.adjacency partition)).labels
    rw [same]
    exact raised
  · obtain ⟨final, rests⟩ := settles graph.twoM resolution graph.mirrored_adjacency order partition
    obtain ⟨enough, capped⟩ := rests.capped
    exact ⟨enough, final, capped⟩

/-- A move of the loop raises the computed modularity as its gains predict
exactly when it is balanced, and without its cap the loop still comes to rest. -/
theorem moves_asPredicted_iff (graph : UnGraph n) (resolution : Rat) (order : List (Fin n))
    (partition : Partition n) :
    (∀ rounds, ∀ taken ∈ sweepVisits graph.adjacency graph.twoM resolution order rounds
        (passOf graph.adjacency partition),
      (moveNode graph.adjacency graph.twoM resolution taken.1 taken.2).2 = true →
        (AsPredicted graph.adjacency graph.twoM resolution taken.1 taken.2 ↔
          Balanced graph.adjacency graph.twoM resolution taken.1 taken.2)) ∧
    ∃ final, Settles graph.adjacency graph.twoM resolution order
      (passOf graph.adjacency partition) final := by
  constructor
  · intro rounds taken member moved
    have counted := sweepVisits_counted graph.adjacency graph.twoM resolution order rounds
      partition taken member
    have attached := graph.strength_pos_of_moved moved
    unfold Counted at counted
    rw [counted] at moved ⊢
    exact asPredicted_iff graph.twoM resolution graph.mirrored_adjacency graph.twoM_pos attached
      moved
  · exact settles graph.twoM resolution graph.mirrored_adjacency order partition

theorem moves_asPredicted_pair :
    ∃ taken ∈ sweepVisits pair.adjacency pair.twoM 1 [0, 1] 32 (passOf pair.adjacency (.ofFn Fin.val)),
      (moveNode pair.adjacency pair.twoM 1 taken.1 taken.2).2 = true ∧
        AsPredicted pair.adjacency pair.twoM 1 taken.1 taken.2 := by
  have balanced : ∃ taken ∈ sweepVisits pair.adjacency pair.twoM 1 [0, 1] 32
      (passOf pair.adjacency (.ofFn Fin.val)),
      (moveNode pair.adjacency pair.twoM 1 taken.1 taken.2).2 = true ∧
        Balanced pair.adjacency pair.twoM 1 taken.1 taken.2 := by decide +kernel
  obtain ⟨taken, member, moved, even⟩ := balanced
  exact ⟨taken, member, moved,
    ((moves_asPredicted_iff pair 1 [0, 1] (.ofFn Fin.val)).1 32 taken member moved).mpr even⟩

/-- A path with a heavy middle edge. -/
def path {n : Nat} (first second third fourth : Fin n) : UnGraph n :=
  { ids := Fin.val, edges := [(second, first, 1), (second, third, 2), (fourth, third, 1)] }

/-- The node 0 leaves its heavy neighbour, which has a further neighbour, for a
light one that stands alone. -/
theorem path_modularity_lowered :
    ¬ ∀ (n : Nat) (graph : UnGraph n) (resolution : Rat) (order : List (Fin n))
      (partition : Partition n), (∀ edge ∈ graph.edges, edge.1 ≠ edge.2.1) →
      ∀ taken ∈ sweepVisits graph.adjacency graph.twoM resolution order 32
        (passOf graph.adjacency partition),
      (moveNode graph.adjacency graph.twoM resolution taken.1 taken.2).2 = true →
        modularity graph.adjacency graph.twoM resolution taken.1.labels <
          modularity graph.adjacency graph.twoM resolution
            (moveNode graph.adjacency graph.twoM resolution taken.1 taken.2).1.labels := by
  intro rises
  have lowered : ∃ graph : UnGraph 4, (∀ edge ∈ graph.edges, edge.1 ≠ edge.2.1) ∧
      ∃ taken ∈ sweepVisits graph.adjacency graph.twoM 1 [3, 1, 0, 2] 32
        (passOf graph.adjacency (.ofFn Fin.val)),
      (moveNode graph.adjacency graph.twoM 1 taken.1 taken.2).2 = true ∧
        ¬ modularity graph.adjacency graph.twoM 1 taken.1.labels <
          modularity graph.adjacency graph.twoM 1
            (moveNode graph.adjacency graph.twoM 1 taken.1 taken.2).1.labels :=
    ⟨path 2 0 3 1, by decide, by decide +kernel⟩
  obtain ⟨graph, loopless, taken, member, moved, notRaised⟩ := lowered
  exact notRaised (rises 4 graph 1 [3, 1, 0, 2] (.ofFn Fin.val) loopless taken member moved)

end UnGraph

end Mneme.Brain
