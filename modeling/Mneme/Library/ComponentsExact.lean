/-
The walk finds exactly the strongly connected components of two nodes and more.

The nodes of the work stack are gray.  What is known of the nodes on the stack is said of any
gray nodes and any relation of successors that have been read, so that one turn of the walk
is one change of these.
-/

import Mathlib.Algebra.GroupWithZero.Nat
import Mneme.Library.Components

namespace Mneme.Library.Components

variable {Node : Type}

/-- What the walk knows when the successors `R` have been read and these nodes are gray. -/
structure Inv (adj : Node → List Node) (R : Node → Node → Prop) (gray : List Node)
    (state : State Node) : Prop where
  lows : ∀ v, (state.lowlink v).isSome = (state.indices v).isSome
  bound : ∀ v, state.Visited v → state.idx v < state.index
  on : ∀ v, state.onStack v = true ↔ v ∈ state.stack
  visited : ∀ v ∈ state.stack, state.Visited v
  sorted : state.stack.Pairwise (fun above below => state.idx below < state.idx above)
  grays : gray.Sublist state.stack
  chain : gray.IsChain (fun child parent => child ∈ adj parent)
  read : ∀ v w, state.Visited v → R v w → state.Visited w
  closed : ∀ v w, state.Visited v → v ∉ state.stack → w ∈ adj v → state.Visited w ∧ w ∉ state.stack
  /-- A node leads back to the node of its low number. -/
  leads : ∀ v ∈ state.stack, state.low v ≤ state.idx v ∧
    ∃ w ∈ state.stack, state.idx w = state.low v ∧ Reach adj v w
  lowRead : ∀ v ∈ state.stack, ∀ w ∈ state.stack, R v w → state.low v ≤ state.idx w
  /-- A node that is done and waits is under the nearest gray node, and leads back before itself. -/
  black : ∀ v ∈ state.stack, v ∉ gray → state.low v < state.idx v ∧
    ∃ g ∈ gray, state.idx g < state.idx v ∧
      (∀ other ∈ gray, state.idx other < state.idx v → state.idx other ≤ state.idx g) ∧
      Reach adj g v ∧ state.low g ≤ state.low v
  nodup : ∀ comp ∈ state.out, comp.Nodup
  size : ∀ comp ∈ state.out, 2 ≤ comp.length
  emitted : ∀ comp ∈ state.out, ∀ v ∈ comp, state.Visited v ∧ v ∉ state.stack
  whole : ∀ comp ∈ state.out, ∀ v ∈ comp, ∀ w, w ∈ comp ↔ Mutual adj v w
  found : ∀ v, state.Visited v → v ∉ state.stack → ∀ w, v ≠ w → Mutual adj v w →
    ∃ comp ∈ state.out, v ∈ comp
  apart : state.out.Pairwise List.Disjoint

section Turns

variable {adj : Node → List Node} {R R' : Node → Node → Prop} {gray below : List Node}
  {state : State Node} {v w : Node}

theorem Inv.mono (inv : Inv adj R gray state) (less : ∀ v w, R' v w → R v w) :
    Inv adj R' gray state :=
  { inv with
    read := fun v w visited read => inv.read v w visited (less v w read)
    lowRead := fun v inside w within read => inv.lowRead v inside w within (less v w read) }

theorem Inv.work (inv : Inv adj R gray state) (work : List (Frame Node)) :
    Inv adj R gray { state with work } :=
  { inv with }

theorem inv_start : Inv adj R [] (start : State Node) where
  lows := fun _ => rfl
  bound := fun v visited => nomatch visited
  on := fun v => by simp [start]
  visited := fun v inside => nomatch inside
  sorted := List.Pairwise.nil
  grays := List.Sublist.refl _
  chain := List.IsChain.nil
  read := fun v w visited => nomatch visited
  closed := fun v w visited => nomatch visited
  leads := fun v inside => nomatch inside
  lowRead := fun v inside => nomatch inside
  black := fun v inside => nomatch inside
  nodup := fun comp inside => nomatch inside
  size := fun comp inside => nomatch inside
  emitted := fun comp inside => nomatch inside
  whole := fun comp inside => nomatch inside
  found := fun v visited => nomatch visited
  apart := List.Pairwise.nil

/-- Nothing waits where no work is left. -/
theorem Inv.stack_nil (inv : Inv adj R [] state) : state.stack = [] := by
  apply List.eq_nil_iff_forall_not_mem.mpr
  intro v inside
  obtain ⟨_, g, member, _⟩ := inv.black v inside List.not_mem_nil
  exact List.not_mem_nil member

theorem Inv.distinct (inv : Inv adj R gray state) : state.stack.Nodup :=
  inv.sorted.imp (fun below same => by rw [same] at below; exact Nat.lt_irrefl _ below)

/-- Nodes on the stack have numbers of their own. -/
theorem Inv.idx_injective (inv : Inv adj R gray state) (inside : v ∈ state.stack)
    (within : w ∈ state.stack) (same : state.idx v = state.idx w) : v = w := by
  have apart : (state.stack.map state.idx).Nodup :=
    List.pairwise_map.mpr (inv.sorted.imp (fun less => Nat.ne_of_gt less))
  exact List.inj_on_of_nodup_map apart inside within same

theorem Inv.low_le (inv : Inv adj R gray state) (inside : v ∈ state.stack) :
    state.low v ≤ state.idx v :=
  (inv.leads v inside).1

theorem Inv.known (inv : Inv adj R gray state) (inside : v ∈ state.stack) :
    (state.lowlink v).isSome = true := by
  rw [inv.lows]
  exact inv.visited v inside

/-- The gray nodes below have lower numbers. -/
theorem Inv.gray_lt (inv : Inv adj R (v :: below) state) (member : w ∈ below) :
    state.idx w < state.idx v :=
  List.rel_of_pairwise_cons (inv.sorted.sublist inv.grays) member

/-- The node on top reads a successor that has been met. -/
theorem Inv.reads (inv : Inv adj R gray state) (visited : state.Visited w)
    (low : v ∈ state.stack → w ∈ state.stack → state.low v ≤ state.idx w) :
    Inv adj (fun x u => R x u ∨ (x = v ∧ u = w)) gray state := by
  refine { inv with read := ?_, lowRead := ?_ }
  · rintro x u known (read | ⟨_, rfl⟩)
    · exact inv.read x u known read
    · exact visited
  · rintro x inside u within (read | ⟨rfl, rfl⟩)
    · exact inv.lowRead x inside u within read
    · exact low inside within

/-- The last gray node leads back to none before itself. -/
theorem Inv.last_root (inv : Inv adj R [v] state) : state.low v = state.idx v := by
  have top := inv.grays.subset (List.mem_singleton_self v)
  obtain ⟨less, w, within, same, _⟩ := inv.leads v top
  by_contra different
  have ungray : w ∉ [v] := by
    intro member
    rw [List.mem_singleton.mp member] at same
    exact different same.symm
  obtain ⟨_, g, member, ahead, _⟩ := inv.black w within ungray
  rw [List.mem_singleton.mp member] at ahead
  omega

theorem sublist_behind {above rest : List Node} (fresh : v ∉ above)
    (grays : (v :: below).Sublist (above ++ v :: rest)) : below.Sublist rest := by
  induction above with
  | nil => exact List.cons_sublist_cons.mp grays
  | cons w above ih =>
      rcases List.cons_sublist_cons'.mp grays with later | ⟨same, _⟩
      · exact ih (fun inside => fresh (List.mem_cons_of_mem w inside)) later
      · exact absurd (same ▸ List.mem_cons_self) fresh

/-! ### What has been read -/

variable (adj) in
/-- The successors that have been read, by the work that is left. -/
def Read (work : List (Frame Node)) (v w : Node) : Prop :=
  (∃ frame ∈ work, frame.v = v ∧ w ∈ (adj v).take frame.i) ∨ (v ∉ work.map Frame.v ∧ w ∈ adj v)

section Reading

variable {work below : List (Frame Node)} {i : Nat} {v w x u : Node}

theorem read_next (next : (adj v)[i]? = some w) (read : Read adj (⟨v, i + 1⟩ :: below) x u) :
    Read adj (⟨v, i⟩ :: below) x u ∨ (x = v ∧ u = w) := by
  rcases read with ⟨frame, member, same, taken⟩ | ⟨ungray, edge⟩
  · rcases List.mem_cons.mp member with rfl | member
    · rw [List.take_add_one, List.mem_append] at taken
      rcases taken with before | last
      · exact Or.inl (Or.inl ⟨⟨v, i⟩, List.mem_cons_self, same, before⟩)
      · have same' : x = v := same.symm
        rw [same', next] at last
        exact Or.inr ⟨same', List.mem_singleton.mp last⟩
    · exact Or.inl (Or.inl ⟨frame, List.mem_cons_of_mem _ member, same, taken⟩)
  · exact Or.inl (Or.inr ⟨ungray, edge⟩)

theorem read_opened (new : w ∉ work.map Frame.v) (read : Read adj (⟨w, 0⟩ :: work) x u) :
    x ≠ w ∧ Read adj work x u := by
  rcases read with ⟨frame, member, same, taken⟩ | ⟨ungray, edge⟩
  · rcases List.mem_cons.mp member with rfl | member
    · cases taken
    · refine ⟨?_, Or.inl ⟨frame, member, same, taken⟩⟩
      intro equal
      rw [equal] at same
      exact new (same ▸ List.mem_map_of_mem member)
  · rw [List.map_cons, List.mem_cons, not_or] at ungray
    exact ⟨ungray.1, Or.inr ⟨ungray.2, edge⟩⟩

theorem read_all (last : (adj v)[i]? = none) (edge : u ∈ adj v) : u ∈ (adj v).take i := by
  rw [List.take_of_length_le (List.getElem?_eq_none_iff.mp last)]
  exact edge

theorem read_closed (last : (adj v)[i]? = none) (read : Read adj below x u) :
    Read adj (⟨v, i⟩ :: below) x u := by
  rcases read with ⟨frame, member, same, taken⟩ | ⟨ungray, edge⟩
  · exact Or.inl ⟨frame, List.mem_cons_of_mem _ member, same, taken⟩
  · by_cases same : x = v
    · rw [same] at edge ⊢
      exact Or.inl ⟨⟨v, i⟩, List.mem_cons_self, rfl, read_all last edge⟩
    · refine Or.inr ⟨?_, edge⟩
      rw [List.map_cons, List.mem_cons, not_or]
      exact ⟨same, ungray⟩

theorem done_read (last : (adj v)[i]? = none) (ungray : x ∉ below.map Frame.v) (edge : u ∈ adj x) :
    Read adj (⟨v, i⟩ :: below) x u :=
  read_closed last (Or.inr ⟨ungray, edge⟩)

end Reading

section Steps

variable [DecidableEq Node]

/-! ### A node is met -/

theorem Inv.visit (inv : Inv adj R gray state) (new : ¬ state.Visited w)
    (edge : ∀ top ∈ gray.head?, w ∈ adj top) :
    Inv adj (fun v u => v ≠ w ∧ (R v u ∨ u = w)) (w :: gray) (state.visit w) := by
  have other : ∀ v, state.Visited v → v ≠ w := fun v visited same => new (same ▸ visited)
  have idx_old : ∀ v, state.Visited v → (state.visit w).idx v = state.idx v := by
    intro v visited
    rw [idx_visit, if_neg (other v visited)]
  have low_old : ∀ v, state.Visited v → (state.visit w).low v = state.low v := by
    intro v visited
    rw [low_visit, if_neg (other v visited)]
  have idx_new : (state.visit w).idx w = state.index := by rw [idx_visit, if_pos rfl]
  have low_new : (state.visit w).low w = state.index := by rw [low_visit, if_pos rfl]
  have absent : w ∉ state.stack := fun inside => new (inv.visited w inside)
  have old : ∀ v, v ∈ (state.visit w).stack → v ≠ w → v ∈ state.stack :=
    fun v inside different => List.mem_of_ne_of_mem different inside
  have gone : ∀ v, (state.visit w).Visited v → v ∉ (state.visit w).stack →
      state.Visited v ∧ v ∉ state.stack := by
    intro v visited outside
    rcases visited_visit.mp visited with same | before
    · exact absurd (same ▸ List.mem_cons_self) outside
    · exact ⟨before, fun inside => outside (List.mem_cons_of_mem w inside)⟩
  refine ⟨?_, ?_, ?_, ?_, ?_, inv.grays.cons_cons w, ?_, ?_, ?_, ?_, ?_, ?_, inv.nodup, inv.size,
    ?_, inv.whole, ?_, inv.apart⟩
  · intro v
    unfold State.visit
    dsimp only
    rw [Function.update_apply, Function.update_apply]
    split
    · rfl
    · exact inv.lows v
  · intro v visited
    change _ < state.index + 1
    rcases visited_visit.mp visited with same | before
    · rw [same, idx_new]
      exact Nat.lt_succ_self _
    · rw [idx_old v before]
      exact Nat.lt_succ_of_lt (inv.bound v before)
  · intro v
    unfold State.visit
    dsimp only
    rw [Function.update_apply, List.mem_cons]
    split
    · rename_i same
      exact iff_of_true rfl (Or.inl same)
    · rename_i different
      rw [or_iff_right different]
      exact inv.on v
  · intro v inside
    rcases List.mem_cons.mp inside with same | before
    · exact visited_visit.mpr (Or.inl same)
    · exact visited_visit.mpr (Or.inr (inv.visited v before))
  · apply List.pairwise_cons.mpr
    constructor
    · intro v inside
      rw [idx_new, idx_old v (inv.visited v inside)]
      exact inv.bound v (inv.visited v inside)
    · apply inv.sorted.imp_of_mem
      intro above below inAbove inBelow less
      rwa [idx_old above (inv.visited above inAbove), idx_old below (inv.visited below inBelow)]
  · cases gray with
    | nil => exact List.isChain_singleton w
    | cons top gray => exact List.isChain_cons_cons.mpr ⟨edge top rfl, inv.chain⟩
  · rintro v u visited ⟨different, read | same⟩
    · rcases visited_visit.mp visited with same | before
      · exact absurd same different
      · exact visited_visit.mpr (Or.inr (inv.read v u before read))
    · exact visited_visit.mpr (Or.inl same)
  · intro v u visited outside successor
    obtain ⟨before, absent⟩ := gone v visited outside
    obtain ⟨known, apart⟩ := inv.closed v u before absent successor
    refine ⟨visited_visit.mpr (Or.inr known), ?_⟩
    intro inside
    exact apart (old u inside (other u known))
  · intro v inside
    rcases List.mem_cons.mp inside with same | before
    · rw [same, low_new, idx_new]
      exact ⟨le_refl _, w, List.mem_cons_self, idx_new, Relation.ReflTransGen.refl⟩
    · obtain ⟨less, u, within, same, reach⟩ := inv.leads v before
      rw [low_old v (inv.visited v before), idx_old v (inv.visited v before)]
      refine ⟨less, u, List.mem_cons_of_mem w within, ?_, reach⟩
      rw [idx_old u (inv.visited u within)]
      exact same
  · rintro v inside u within ⟨different, read⟩
    have before := old v inside different
    rw [low_old v (inv.visited v before)]
    by_cases same : u = w
    · rw [same, idx_new]
      exact le_of_lt (lt_of_le_of_lt (inv.low_le before) (inv.bound v (inv.visited v before)))
    · have earlier := old u within same
      rw [idx_old u (inv.visited u earlier)]
      exact inv.lowRead v before u earlier (read.resolve_right same)
  · intro v inside ungray
    have different : v ≠ w := fun same => ungray (same ▸ List.mem_cons_self)
    have before := old v inside different
    obtain ⟨less, g, member, ahead, nearest, reach, lower⟩ :=
      inv.black v before (fun gray => ungray (List.mem_cons_of_mem w gray))
    have known := inv.visited v before
    have known' := inv.visited g (inv.grays.subset member)
    rw [low_old v known, idx_old v known]
    refine ⟨less, g, List.mem_cons_of_mem w member, ?_, ?_, reach, ?_⟩
    · rw [idx_old g known']
      exact ahead
    · intro u among earlier
      rcases List.mem_cons.mp among with same | among
      · rw [same, idx_new] at earlier
        exact absurd (inv.bound v known) (Nat.lt_asymm earlier)
      · have known'' := inv.visited u (inv.grays.subset among)
        rw [idx_old u known''] at earlier ⊢
        rw [idx_old g known']
        exact nearest u among earlier
    · rw [low_old g known']
      exact lower
  · intro comp inOut v member
    obtain ⟨known, absent⟩ := inv.emitted comp inOut v member
    refine ⟨visited_visit.mpr (Or.inr known), ?_⟩
    intro inside
    exact absent (old v inside (other v known))
  · intro v visited outside
    obtain ⟨before, absent⟩ := gone v visited outside
    exact inv.found v before absent

/-! ### A node is seen to lead back -/

/-- The same walk with a lower number at one node. -/
def State.withLow (state : State Node) (v : Node) (number : Nat) : State Node :=
  { state with lowlink := Function.update state.lowlink v (some number) }

theorem low_withLow (number : Nat) (u : Node) :
    (state.withLow v number).low u = if u = v then number else state.low u := by
  unfold State.low State.withLow
  dsimp only
  rw [Function.update_apply]
  split <;> rfl

/-- A lower number that is still led back to keeps what is known. -/
theorem Inv.withLow (inv : Inv adj R gray state) (inside : v ∈ state.stack) {number : Nat}
    (lower : number ≤ state.low v) (leads : ∃ u ∈ state.stack, state.idx u = number ∧ Reach adj v u)
    (member : v ∈ gray) : Inv adj R gray (state.withLow v number) := by
  have below : ∀ u, (state.withLow v number).low u ≤ state.low u := by
    intro u
    rw [low_withLow]
    split
    · rename_i same
      rw [same]
      exact lower
    · exact le_refl _
  refine { inv with lows := ?_, leads := ?_, lowRead := ?_, black := ?_ }
  · intro u
    unfold State.withLow
    dsimp only
    rw [Function.update_apply]
    split
    · rename_i same
      rw [same]
      exact (inv.visited v inside).symm
    · exact inv.lows u
  · intro u within
    change _ ≤ state.idx u ∧ ∃ w ∈ state.stack, state.idx w = _ ∧ _
    rw [low_withLow]
    split
    · rename_i same
      rw [same]
      exact ⟨le_trans lower (inv.low_le inside), leads⟩
    · exact inv.leads u within
  · intro u within w among read
    exact le_trans (below u) (inv.lowRead u within w among read)
  · intro u within ungray
    have different : u ≠ v := fun same => ungray (same ▸ member)
    obtain ⟨less, g, among, ahead, nearest, reach, lower⟩ := inv.black u within ungray
    rw [low_withLow, if_neg different]
    exact ⟨less, g, among, ahead, nearest, reach, le_trans (below g) lower⟩

theorem Inv.back (inv : Inv adj R gray state) (member : v ∈ gray) (within : w ∈ state.stack)
    (edge : w ∈ adj v) :
    Inv adj (fun x u => R x u ∨ (x = v ∧ u = w)) gray (state.lower v (some (state.idx w))) := by
  have inside := inv.grays.subset member
  rw [lower_some (inv.known inside)]
  have leads : ∃ u ∈ state.stack, state.idx u = min (state.low v) (state.idx w) ∧
      Reach adj v u := by
    rcases le_total (state.low v) (state.idx w) with less | more
    · obtain ⟨u, among, same, reach⟩ := (inv.leads v inside).2
      exact ⟨u, among, by rw [Nat.min_eq_left less]; exact same, reach⟩
    · exact ⟨w, within, by rw [Nat.min_eq_right more], Relation.ReflTransGen.single edge⟩
  have lowered := inv.withLow inside (Nat.min_le_left ..) leads member
  apply lowered.reads (inv.visited w within)
  intro _ _
  rw [low_withLow, if_pos rfl]
  exact Nat.min_le_right ..

/-! ### A node is done, and its component is not whole -/

theorem Inv.blacken {parent : Node} (inv : Inv adj R (v :: parent :: below) state)
    (early : state.low v < state.idx v) (lower : state.low parent ≤ state.low v) :
    Inv adj R (parent :: below) state := by
  have edge : v ∈ adj parent := (List.isChain_cons_cons.mp inv.chain).1
  have nearest : ∀ u ∈ parent :: below, state.idx u ≤ state.idx parent := by
    intro u among
    rcases List.mem_cons.mp among with same | among
    · rw [same]
    · have order := inv.sorted.sublist (List.Sublist.trans (List.sublist_cons_self v _) inv.grays)
      exact le_of_lt (List.rel_of_pairwise_cons order among)
  refine { inv with grays := ?_, chain := ?_, black := ?_ }
  · exact List.Sublist.trans (List.sublist_cons_self v _) inv.grays
  · exact (List.isChain_cons_cons.mp inv.chain).2
  · intro u inside ungray
    by_cases same : u = v
    · rw [same]
      exact ⟨early, parent, List.mem_cons_self, inv.gray_lt List.mem_cons_self,
        fun other among _ => nearest other among, Relation.ReflTransGen.single edge, lower⟩
    · obtain ⟨less, g, member, ahead, highest, reach, lower'⟩ :=
        inv.black u inside (fun member => (List.mem_cons.mp member).elim same ungray)
      refine ⟨less, ?_⟩
      by_cases top : g = v
      · rw [top] at ahead reach lower'
        exact ⟨parent, List.mem_cons_self, lt_trans (inv.gray_lt List.mem_cons_self) ahead,
          fun other among _ => nearest other among, Relation.ReflTransGen.head edge reach,
          le_trans lower lower'⟩
      · exact ⟨g, (List.mem_cons.mp member).resolve_left top, ahead,
          fun other among => highest other (List.mem_cons_of_mem v among), reach, lower'⟩

theorem Inv.pass {parent : Node} (inv : Inv adj R (v :: parent :: below) state)
    (early : state.low v < state.idx v) :
    Inv adj R (parent :: below) (state.lower parent (some (state.low v))) := by
  have inside := inv.grays.subset (List.mem_cons_self (a := v))
  have inside' : parent ∈ state.stack :=
    inv.grays.subset (List.mem_cons_of_mem v List.mem_cons_self)
  have edge : v ∈ adj parent := (List.isChain_cons_cons.mp inv.chain).1
  rw [lower_some (inv.known inside')]
  have leads : ∃ u ∈ state.stack, state.idx u = min (state.low parent) (state.low v) ∧
      Reach adj parent u := by
    rcases le_total (state.low parent) (state.low v) with less | more
    · obtain ⟨u, among, same, reach⟩ := (inv.leads parent inside').2
      exact ⟨u, among, by rw [Nat.min_eq_left less]; exact same, reach⟩
    · obtain ⟨u, among, same, reach⟩ := (inv.leads v inside).2
      exact ⟨u, among, by rw [Nat.min_eq_right more]; exact same,
        Relation.ReflTransGen.head edge reach⟩
  have different : v ≠ parent := by
    intro same
    have less := inv.gray_lt (List.mem_cons_self (a := parent))
    rw [same] at less
    exact Nat.lt_irrefl _ less
  have lowered := inv.withLow inside' (Nat.min_le_left ..) leads
    (List.mem_cons_of_mem v List.mem_cons_self)
  have unchanged : (state.withLow parent (min (state.low parent) (state.low v))).low v =
      state.low v := by
    rw [low_withLow, if_neg different]
  apply lowered.blacken
  · rw [unchanged]
    exact early
  · rw [unchanged, low_withLow, if_pos rfl]
    exact Nat.min_le_right ..

/-! ### A component is whole -/

theorem popUntil_split {above rest : List Node} (fresh : v ∉ above) :
    popUntil v (above ++ v :: rest) = (above ++ [v], rest) := by
  induction above with
  | nil => exact if_pos rfl
  | cons w above ih =>
      have different : w ≠ v := fun same => fresh (same ▸ List.mem_cons_self)
      rw [List.cons_append, popUntil, if_neg different,
        ih (fun inside => fresh (List.mem_cons_of_mem w inside))]
      rfl

/-- The stack is cut at the root. -/
theorem popUntil_root (inv : Inv adj R (v :: below) state) : ∃ above rest, state.stack = above ++ v :: rest ∧
    popUntil v state.stack = (above ++ [v], rest) ∧ below.Sublist rest ∧
    (∀ x, x ∈ above ++ [v] ↔ x ∈ state.stack ∧ state.idx v ≤ state.idx x) ∧
    ∀ x, x ∈ rest ↔ x ∈ state.stack ∧ state.idx x < state.idx v := by
  have top := inv.grays.subset (List.mem_cons_self (a := v))
  obtain ⟨above, rest, split⟩ := List.append_of_mem top
  have sorted := inv.sorted
  have distinct := inv.distinct
  have grays := inv.grays
  rw [split] at sorted distinct grays
  obtain ⟨_, tail, cross⟩ := List.pairwise_append.mp sorted
  have fresh : v ∉ above := by
    intro inside
    exact (List.disjoint_of_nodup_append distinct) inside List.mem_cons_self
  have higher : ∀ x ∈ above, state.idx v < state.idx x :=
    fun x inside => cross x inside v List.mem_cons_self
  have lower : ∀ x ∈ rest, state.idx x < state.idx v :=
    fun x inside => List.rel_of_pairwise_cons tail inside
  refine ⟨above, rest, split, ?_, ?_, ?_, ?_⟩
  · rw [split]
    exact popUntil_split fresh
  · exact sublist_behind fresh grays
  · intro x
    rw [split, List.mem_append, List.mem_singleton, List.mem_append, List.mem_cons]
    constructor
    · rintro (inside | same)
      · exact ⟨Or.inl inside, le_of_lt (higher x inside)⟩
      · exact ⟨Or.inr (Or.inl same), by rw [same]⟩
    · rintro ⟨inside | same | inside, order⟩
      · exact Or.inl inside
      · exact Or.inr same
      · exact absurd (lower x inside) (Nat.not_lt.mpr order)
  · intro x
    rw [split, List.mem_append, List.mem_cons]
    constructor
    · intro inside
      exact ⟨Or.inr (Or.inr inside), lower x inside⟩
    · rintro ⟨inside | same | inside, order⟩
      · exact absurd (higher x inside) (Nat.lt_asymm order)
      · rw [same] at order
        exact absurd order (Nat.lt_irrefl _)
      · exact inside

section Whole

variable (inv : Inv adj R (v :: below) state) (root : state.low v = state.idx v)
  (done : ∀ x, x ∉ below → ∀ u ∈ adj x, R x u)
include inv root

variable {x : Node}

/-- A node above the root is under it, and leads no further back. -/
theorem above_root (inside : x ∈ state.stack) (above : state.idx v ≤ state.idx x) :
    x = v ∨ (x ∉ v :: below ∧ state.low x < state.idx x ∧ state.idx v ≤ state.low x ∧
      Reach adj v x) := by
  have top := inv.grays.subset (List.mem_cons_self (a := v))
  rcases Nat.eq_or_lt_of_le above with same | more
  · exact Or.inl (inv.idx_injective inside top same.symm)
  · have ungray : x ∉ v :: below := by
      intro member
      rcases List.mem_cons.mp member with same | member
      · rw [same] at more
        exact Nat.lt_irrefl _ more
      · have less := inv.gray_lt member
        omega
    obtain ⟨less, g, member, ahead, nearest, reach, lower⟩ := inv.black x inside ungray
    have highest := nearest v List.mem_cons_self more
    have same : g = v := by
      rcases List.mem_cons.mp member with same | member
      · exact same
      · have less := inv.gray_lt member
        omega
    rw [same, root] at lower
    rw [same] at reach
    exact Or.inr ⟨ungray, less, lower, reach⟩

theorem root_reaches (inside : x ∈ state.stack) (above : state.idx v ≤ state.idx x) :
    Reach adj v x := by
  rcases above_root inv root inside above with same | ⟨_, _, _, reach⟩
  · rw [same]
    exact Relation.ReflTransGen.refl
  · exact reach

theorem reaches_root (inside : x ∈ state.stack) (above : state.idx v ≤ state.idx x) :
    Reach adj x v := by
  -- by the number of the node: it leads back to a node above the root with a lower one
  generalize size : state.idx x = number at above
  induction number using Nat.strong_induction_on generalizing x with
  | _ number ih =>
      rcases above_root inv root inside (size ▸ above) with same | ⟨_, less, higher, _⟩
      · rw [same]
        exact Relation.ReflTransGen.refl
      · obtain ⟨_, u, within, same, reach⟩ := inv.leads x inside
        exact Relation.ReflTransGen.trans reach
          (ih (state.idx u) (by omega) within rfl (by omega))

include done

/-- What lies above the root leads to such nodes and to components that are whole. -/
theorem above_step {x u : Node} (inside : x ∈ state.stack) (above : state.idx v ≤ state.idx x)
    (edge : u ∈ adj x) :
    (u ∈ state.stack ∧ state.idx v ≤ state.idx u) ∨ (state.Visited u ∧ u ∉ state.stack) := by
  have ungray : x ∉ below := by
    intro member
    have less := inv.gray_lt member
    omega
  have read := done x ungray u edge
  have visited := inv.read x u (inv.visited x inside) read
  by_cases within : u ∈ state.stack
  · have lower := inv.lowRead x inside u within read
    refine Or.inl ⟨within, ?_⟩
    rcases above_root inv root inside above with same | ⟨_, _, higher, _⟩
    · rw [same, root] at lower
      exact lower
    · omega
  · exact Or.inr ⟨visited, within⟩

theorem above_iff (y : Node) : (y ∈ state.stack ∧ state.idx v ≤ state.idx y) ↔ Mutual adj v y := by
  have top := inv.grays.subset (List.mem_cons_self (a := v))
  constructor
  · rintro ⟨inside, above⟩
    exact ⟨root_reaches inv root inside above, reaches_root inv root inside above⟩
  · rintro ⟨there, back⟩
    have region : (y ∈ state.stack ∧ state.idx v ≤ state.idx y) ∨
        (state.Visited y ∧ y ∉ state.stack) := by
      induction there with
      | refl => exact Or.inl ⟨top, le_refl _⟩
      | @tail x u reach edge ih =>
          rcases ih (Relation.ReflTransGen.head edge back) with ⟨inside, above⟩ | ⟨known, gone⟩
          · exact above_step inv root done inside above edge
          · exact Or.inr (inv.closed x u known gone edge)
    rcases region with inside | ⟨known, gone⟩
    · exact inside
    · -- what is whole leads to nothing on the stack
      have never : ∀ z, Reach adj y z → state.Visited z ∧ z ∉ state.stack := by
        intro z reach
        induction reach with
        | refl => exact ⟨known, gone⟩
        | @tail x u _ edge ih => exact inv.closed x u ih.1 ih.2 edge
      exact absurd top (never v back).2

theorem Inv.emit : Inv adj R below (state.emit v) := by
  obtain ⟨above, rest, split, popped, grays, inComp, inRest⟩ := popUntil_root inv
  have component : ∀ x ∈ above ++ [v], ∀ w, w ∈ above ++ [v] ↔ Mutual adj x w := by
    intro x member w
    have vx := (above_iff inv root done x).mp ((inComp x).mp member)
    rw [inComp, above_iff inv root done]
    constructor
    · intro vw
      exact ⟨Relation.ReflTransGen.trans vx.2 vw.1, Relation.ReflTransGen.trans vw.2 vx.1⟩
    · intro xw
      exact ⟨Relation.ReflTransGen.trans vx.1 xw.1, Relation.ReflTransGen.trans xw.2 vx.2⟩
  have distinct := inv.distinct
  have sorted := inv.sorted
  rw [split] at distinct sorted
  have both : (above ++ [v]).Nodup ∧ rest.Nodup ∧ (above ++ [v]).Disjoint rest := by
    have apart := distinct
    rw [← List.singleton_append, ← List.append_assoc] at apart
    exact List.nodup_append'.mp apart
  have stack : (state.emit v).stack = rest := by
    unfold State.emit
    rw [popped]
  have out : (state.emit v).out =
      if 2 ≤ (above ++ [v]).length then state.out ++ [above ++ [v]] else state.out := by
    unfold State.emit
    rw [popped]
  have kept : ∀ x, x ∈ rest → x ∈ state.stack := fun x inside => ((inRest x).mp inside).1
  have gone : ∀ x, x ∈ state.stack → x ∉ rest → x ∈ above ++ [v] := by
    intro x inside outside
    rw [inComp]
    refine ⟨inside, ?_⟩
    by_contra low
    exact outside ((inRest x).mpr ⟨inside, Nat.lt_of_not_le low⟩)
  have members : ∀ comp ∈ (state.emit v).out, comp ∈ state.out ∨
      (comp = above ++ [v] ∧ 2 ≤ (above ++ [v]).length) := by
    intro comp member
    rw [out] at member
    split at member
    · rename_i big
      rcases List.mem_append.mp member with earlier | last
      · exact Or.inl earlier
      · exact Or.inr ⟨List.mem_singleton.mp last, big⟩
    · exact Or.inl member
  have earlier : ∀ comp ∈ state.out, comp ∈ (state.emit v).out := by
    intro comp member
    rw [out]
    split
    · exact List.mem_append_left _ member
    · exact member
  refine ⟨inv.lows, inv.bound, ?_, ?_, ?_, ?_, ?_, inv.read, ?_, ?_, ?_, ?_, ?_, ?_, ?_, ?_, ?_,
    ?_⟩
  · intro x
    have on : (state.emit v).onStack x = (state.onStack x && decide (x ∉ above ++ [v])) := by
      unfold State.emit
      rw [popped]
    rw [on, stack, Bool.and_eq_true, inv.on, decide_eq_true_eq]
    constructor
    · rintro ⟨inside, outside⟩
      by_contra absent
      exact outside (gone x inside absent)
    · intro inside
      exact ⟨kept x inside, fun member => both.2.2 member inside⟩
  · intro x inside
    rw [stack] at inside
    exact inv.visited x (kept x inside)
  · rw [stack]
    exact (List.pairwise_cons.mp (List.pairwise_append.mp sorted).2.1).2
  · rw [stack]
    exact grays
  · exact inv.chain.tail
  · intro x w visited outside successor
    rw [stack] at outside ⊢
    by_cases inside : x ∈ state.stack
    · obtain ⟨_, above_⟩ := (inComp x).mp (gone x inside outside)
      rcases above_step inv root done inside above_ successor with ⟨within, high⟩ | ⟨known, absent⟩
      · refine ⟨inv.visited w within, ?_⟩
        intro left
        exact absurd ((inRest w).mp left).2 (Nat.not_lt.mpr high)
      · exact ⟨known, fun left => absent (kept w left)⟩
    · obtain ⟨known, absent⟩ := inv.closed x w visited inside successor
      exact ⟨known, fun left => absent (kept w left)⟩
  · intro x inside
    rw [stack] at inside ⊢
    obtain ⟨before, order⟩ := (inRest x).mp inside
    obtain ⟨less, w, within, same, reach⟩ := inv.leads x before
    refine ⟨less, w, (inRest w).mpr ⟨within, ?_⟩, same, reach⟩
    change state.low x ≤ state.idx x at less
    change state.idx w = state.low x at same
    omega
  · intro x inside w within
    rw [stack] at inside within
    exact inv.lowRead x (kept x inside) w (kept w within)
  · intro x inside ungray
    rw [stack] at inside
    obtain ⟨before, order⟩ := (inRest x).mp inside
    have other : x ≠ v := by
      intro same
      rw [same] at order
      exact Nat.lt_irrefl _ order
    obtain ⟨less, g, member, ahead, nearest, reach, lower⟩ :=
      inv.black x before (fun member => (List.mem_cons.mp member).elim other ungray)
    refine ⟨less, g, ?_, ahead, fun other among => nearest other (List.mem_cons_of_mem v among),
      reach, lower⟩
    rcases List.mem_cons.mp member with same | member
    · rw [same] at ahead
      exact absurd ahead (Nat.lt_asymm order)
    · exact member
  · intro comp member
    rcases members comp member with before | ⟨rfl, _⟩
    · exact inv.nodup comp before
    · exact both.1
  · intro comp member
    rcases members comp member with before | ⟨rfl, big⟩
    · exact inv.size comp before
    · exact big
  · intro comp member x inside
    rw [stack]
    rcases members comp member with before | ⟨rfl, _⟩
    · obtain ⟨known, absent⟩ := inv.emitted comp before x inside
      exact ⟨known, fun left => absent (kept x left)⟩
    · exact ⟨inv.visited x ((inComp x).mp inside).1, fun left => both.2.2 inside left⟩
  · intro comp member
    rcases members comp member with before | ⟨rfl, _⟩
    · exact inv.whole comp before
    · exact component
  · intro x visited outside w different related
    rw [stack] at outside
    by_cases inside : x ∈ state.stack
    · have own := gone x inside outside
      have partner : w ∈ above ++ [v] := (component x own w).mpr related
      have big : 2 ≤ (above ++ [v]).length := by
        by_contra small
        have one : (above ++ [v]).length = 1 := by
          rw [List.length_append, List.length_singleton] at small ⊢
          omega
        obtain ⟨only, same⟩ := List.length_eq_one_iff.mp one
        rw [same, List.mem_singleton] at own partner
        exact different (own.trans partner.symm)
      refine ⟨above ++ [v], ?_, own⟩
      rw [out, if_pos big]
      exact List.mem_append_right _ (List.mem_singleton_self _)
    · obtain ⟨comp, member, within⟩ := inv.found x visited inside w different related
      exact ⟨comp, earlier comp member, within⟩
  · rw [out]
    split
    · apply List.pairwise_append.mpr
      refine ⟨inv.apart, List.pairwise_singleton _ _, ?_⟩
      intro comp before last member x inside within
      rw [List.mem_singleton.mp member] at within
      exact (inv.emitted comp before x inside).2 ((inComp x).mp within).1
    · exact inv.apart

end Whole

end Steps

end Turns

/-! ### One turn of the loop -/

section Run

variable [DecidableEq Node] {adj : Node → List Node} {state after : State Node}

variable (adj) in
def Sound (state : State Node) : Prop :=
  Inv adj (Read adj state.work) (state.work.map Frame.v) state

variable (v : Node)

theorem lower_work (bound : Option Nat) : (state.lower v bound).work = state.work := by
  unfold State.lower
  split <;> rfl

theorem lower_indices (bound : Option Nat) : (state.lower v bound).indices = state.indices := by
  unfold State.lower
  split <;> rfl

variable {below : List (Frame Node)}

theorem sound_next {v w : Node} {i : Nat} (sound : Sound adj state)
    (work : state.work = ⟨v, i⟩ :: below) (next : (adj v)[i]? = some w) :
    Sound adj (State.advance { state with work := ⟨v, i + 1⟩ :: below } v w) := by
  unfold Sound at sound
  rw [work] at sound
  have inv := sound.work (⟨v, i + 1⟩ :: below)
  have edge : w ∈ adj v := List.mem_of_getElem? next
  unfold State.advance
  cases number : state.indices w with
  | none =>
      have new : ¬ state.Visited w := by
        unfold State.Visited
        rw [number]
        exact Bool.false_ne_true
      have ungray : w ∉ (Frame.mk v (i + 1) :: below).map Frame.v :=
        fun member => new (inv.visited w (inv.grays.subset member))
      apply (inv.visit new (fun top head => by cases head; exact edge)).mono
      intro x u read
      obtain ⟨different, read⟩ := read_opened ungray read
      exact ⟨different, (read_next next read).imp_right And.right⟩
  | some number' =>
      have same : state.idx w = number' := by
        unfold State.idx
        rw [number]
        rfl
      have visited : state.Visited w := by
        unfold State.Visited
        rw [number]
        rfl
      dsimp only
      split
      · rename_i on
        unfold Sound
        rw [lower_work, ← same]
        apply (inv.back List.mem_cons_self ((inv.on w).mp on) edge).mono
        exact fun x u read => read_next next read
      · rename_i off
        apply (inv.reads visited (fun _ within => absurd ((inv.on w).mpr within) off)).mono
        exact fun x u read => read_next next read

theorem sound_finish {v : Node} {i : Nat} (sound : Sound adj state)
    (work : state.work = ⟨v, i⟩ :: below) (last : (adj v)[i]? = none) :
    Sound adj (state.finish v below) := by
  unfold Sound at sound
  rw [work] at sound
  have top : v ∈ state.stack := sound.grays.subset List.mem_cons_self
  have known := sound.known top
  have low : state.lowlink v = some (state.low v) := by
    obtain ⟨number, found⟩ := Option.isSome_iff_exists.mp known
    unfold State.low
    rw [found]
    rfl
  have idx := indices_of_visited (sound.visited v top)
  unfold State.finish
  by_cases root : state.low v = state.idx v
  · have emitted := sound.emit root (fun x ungray u edge => done_read last ungray edge)
    have same : state.lowlink v = state.indices v := by rw [low, idx, root]
    rw [if_pos same]
    cases below with
    | nil => exact (emitted.work []).mono (fun x u read => read_closed last read)
    | cons parent below =>
        have low' : (state.emit v).lowlink v = some (state.low v) := low
        have member : parent.v ∈ (parent :: below).map Frame.v := List.mem_cons_self
        have higher : state.low parent.v ≤ state.low v := by
          have less : state.idx parent.v < state.idx v := sound.gray_lt member
          have lower := sound.low_le (sound.grays.subset (List.mem_cons_of_mem v member))
          omega
        dsimp only
        rw [low', lower_noop]
        · exact (emitted.work (parent :: below)).mono (fun x u read => read_closed last read)
        · exact emitted.known (emitted.grays.subset member)
        · exact higher
  · have different : state.lowlink v ≠ state.indices v := by
      rw [low, idx]
      exact fun same => root (Option.some.inj same)
    have early : state.low v < state.idx v := lt_of_le_of_ne (sound.low_le top) root
    rw [if_neg different]
    cases below with
    | nil => exact absurd sound.last_root root
    | cons parent below =>
        dsimp only
        rw [low]
        unfold Sound
        rw [lower_work]
        have passed := Inv.pass (sound.work (parent :: below)) early
        exact passed.mono (fun x u read => read_closed last read)

theorem sound_turn (sound : Sound adj state) : Sound adj (turn adj state) := by
  unfold turn
  split
  · exact sound
  · rename_i v i below work
    split
    · rename_i w next
      exact sound_next sound work next
    · rename_i last
      exact sound_finish sound work last

/-! ### The loop ends -/

variable (adj) in
/-- What the walk may still do: to meet nodes of a set, and to read what its frames hold. -/
def potential (region : Finset Node) (state : State Node) : Nat :=
  (∑ v ∈ region.filter (fun v => state.indices v = none), ((adj v).length + 2)) +
    (state.work.map (fun frame => (adj frame.v).length - frame.i + 1)).sum

theorem finish_indices (below : List (Frame Node)) :
    (state.finish v below).indices = state.indices := by
  have same : (if state.lowlink v = state.indices v then state.emit v else state).indices =
      state.indices := by
    split <;> rfl
  cases below with
  | nil => exact same
  | cons parent below => exact (lower_indices ..).trans same

theorem finish_work (below : List (Frame Node)) : (state.finish v below).work = below := by
  cases below with
  | nil => rfl
  | cons parent below => exact lower_work ..

section Potential

variable {region : Finset Node}

theorem unvisited_visit {w : Node} (new : state.indices w = none) (member : w ∈ region) :
    (∑ v ∈ region.filter (fun v => (state.visit w).indices v = none), ((adj v).length + 2)) +
        ((adj w).length + 2) =
      ∑ v ∈ region.filter (fun v => state.indices v = none), ((adj v).length + 2) := by
  have fewer : region.filter (fun v => (state.visit w).indices v = none) =
      (region.filter (fun v => state.indices v = none)).erase w := by
    ext v
    unfold State.visit
    dsimp only
    rw [Finset.mem_erase, Finset.mem_filter, Finset.mem_filter, Function.update_apply]
    by_cases same : v = w
    · simp [same]
    · simp [same]
  rw [fewer]
  exact Finset.sum_erase_add _ _ (Finset.mem_filter.mpr ⟨member, new⟩)

theorem potential_turn (closed : ∀ v, ∀ w ∈ adj v, w ∈ region) (working : state.work ≠ []) :
    potential adj region (turn adj state) < potential adj region state := by
  unfold turn
  split
  · rename_i none
    exact absurd none working
  · rename_i v i below work
    split
    · rename_i w next
      have inside : i < (adj v).length := (List.getElem?_eq_some_iff.mp next).1
      unfold State.advance
      cases number : state.indices w with
      | none =>
          have sums := @unvisited_visit _ _ adj { state with work := ⟨v, i + 1⟩ :: below } region w
            number (closed v w (List.mem_of_getElem? next))
          unfold potential
          rw [work]
          change _ + (List.map _ (⟨w, 0⟩ :: ⟨v, i + 1⟩ :: below)).sum < _
          simp only [List.map_cons, List.sum_cons] at sums ⊢
          omega
      | some number' =>
          have less : potential adj region { state with work := ⟨v, i + 1⟩ :: below } <
              potential adj region state := by
            unfold potential
            rw [work]
            simp only [List.map_cons, List.sum_cons]
            omega
          dsimp only
          split
          · unfold potential at less ⊢
            rw [lower_work, lower_indices]
            exact less
          · exact less
    · unfold potential
      rw [finish_indices, finish_work, work]
      simp only [List.map_cons, List.sum_cons]
      omega

end Potential

theorem visited_turn {v : Node} (visited : state.Visited v) : (turn adj state).Visited v := by
  unfold turn
  split
  · exact visited
  · split
    · unfold State.advance
      split
      · exact visited_visit.mpr (Or.inr visited)
      · split
        · unfold State.Visited
          rw [lower_indices]
          exact visited
        · exact visited
    · unfold State.Visited
      rw [finish_indices]
      exact visited

/-- A walk that has come to rest, and has forgotten no node of an earlier one. -/
structure Rests (adj : Node → List Node) (region : Finset Node) (state after : State Node) :
    Prop where
  sound : Sound adj after
  idle : after.work = []
  visited : ∀ v, state.Visited v → after.Visited v
  potential : potential adj region after ≤ potential adj region state

section Loop

variable {region : Finset Node} {fuel : Nat}

theorem loop_rests (closed : ∀ v, ∀ w ∈ adj v, w ∈ region) (sound : Sound adj state)
    (enough : potential adj region state < fuel) :
    ∃ after, loop adj fuel state = some after ∧ Rests adj region state after := by
  induction fuel generalizing state with
  | zero => exact absurd enough (Nat.not_lt_zero _)
  | succ fuel ih =>
      unfold loop
      split
      · rename_i idle
        exact ⟨state, rfl, sound, List.isEmpty_iff.mp idle, fun _ visited => visited, le_refl _⟩
      · rename_i working
        have less := potential_turn closed (fun none => working (List.isEmpty_iff.mpr none))
        obtain ⟨after, ends, rests⟩ := ih (sound_turn sound) (by omega)
        exact ⟨after, ends, rests.sound, rests.idle,
          fun v visited => rests.visited v (visited_turn visited),
          le_trans rests.potential (le_of_lt less)⟩

theorem search_rests (closed : ∀ v, ∀ w ∈ adj v, w ∈ region) (sound : Sound adj state)
    (idle : state.work = []) (enough : potential adj region state < fuel) {v : Node}
    (member : v ∈ region) :
    ∃ after, search adj fuel state v = some after ∧ Rests adj region state after ∧
      after.Visited v := by
  unfold search
  split
  · rename_i visited
    exact ⟨state, rfl, ⟨sound, idle, fun _ visited => visited, le_refl _⟩, visited⟩
  · rename_i unvisited
    have new : ¬ state.Visited v := unvisited
    have number : state.indices v = none := by
      rw [← Option.not_isSome_iff_eq_none]
      exact unvisited
    have begun : Sound adj (State.visit { state with work := [] } v) := by
      unfold Sound at sound
      rw [idle] at sound
      apply ((sound.work []).visit new (fun top head => nomatch head)).mono
      intro x u read
      obtain ⟨different, read⟩ := read_opened List.not_mem_nil read
      exact ⟨different, Or.inl read⟩
    have less : potential adj region (State.visit { state with work := [] } v) ≤
        potential adj region state := by
      have sums := @unvisited_visit _ _ adj { state with work := [] } region v number member
      unfold potential
      rw [idle]
      change _ + (List.map _ [Frame.mk v 0]).sum ≤ _
      simp only [List.map_cons, List.map_nil, List.sum_cons, List.sum_nil] at sums ⊢
      omega
    obtain ⟨after, ends, rests⟩ := loop_rests closed begun (lt_of_le_of_lt less enough)
    refine ⟨after, ends, ⟨rests.sound, rests.idle, ?_, le_trans rests.potential less⟩, ?_⟩
    · intro w visited
      exact rests.visited w (visited_visit.mpr (Or.inr visited))
    · exact rests.visited v (visited_visit.mpr (Or.inl rfl))

variable {allNodes : List Node}

theorem searches_rest (closed : ∀ v, ∀ w ∈ adj v, w ∈ region) (sound : Sound adj state)
    (idle : state.work = []) (enough : potential adj region state < fuel)
    (members : ∀ v ∈ allNodes, v ∈ region) :
    ∃ after, allNodes.foldlM (search adj fuel) state = some after ∧ Rests adj region state after ∧
      ∀ v ∈ allNodes, after.Visited v := by
  induction allNodes generalizing state with
  | nil =>
      exact ⟨state, rfl, ⟨sound, idle, fun _ visited => visited, le_refl _⟩,
        fun v member => nomatch member⟩
  | cons v allNodes ih =>
      obtain ⟨between, found, rests, visited⟩ :=
        search_rests closed sound idle enough (members v List.mem_cons_self)
      obtain ⟨after, later, rests', all⟩ := ih rests.sound rests.idle
        (lt_of_le_of_lt rests.potential enough)
        (fun w member => members w (List.mem_cons_of_mem v member))
      refine ⟨after, ?_, ⟨rests'.sound, rests'.idle, ?_, ?_⟩, ?_⟩
      · rw [List.foldlM_cons, found]
        exact later
      · exact fun w known => rests'.visited w (rests.visited w known)
      · exact le_trans rests'.potential rests.potential
      · intro w member
        rcases List.mem_cons.mp member with rfl | member
        · exact rests'.visited w visited
        · exact all w member

/-! ### The result -/

theorem loop_more {more : Nat} (less : fuel ≤ more) (ends : loop adj fuel state = some after) :
    loop adj more state = some after := by
  induction fuel generalizing state more with
  | zero => cases ends
  | succ fuel ih =>
      obtain ⟨more, rfl⟩ := Nat.exists_eq_succ_of_ne_zero (Nat.ne_of_gt (Nat.zero_lt_of_lt less))
      unfold loop at ends ⊢
      split
      · rename_i idle
        rw [if_pos idle] at ends
        exact ends
      · rename_i working
        rw [if_neg working] at ends
        exact ih (Nat.le_of_succ_le_succ less) ends

theorem searches_more {more : Nat} (less : fuel ≤ more)
    (ends : allNodes.foldlM (search adj fuel) state = some after) :
    allNodes.foldlM (search adj more) state = some after := by
  induction allNodes generalizing state with
  | nil => exact ends
  | cons v allNodes ih =>
      rw [List.foldlM_cons] at ends ⊢
      obtain ⟨between, found, later⟩ := Option.bind_eq_some_iff.mp ends
      have same : search adj more state v = some between := by
        unfold search at found ⊢
        split at found
        · rename_i visited
          rw [if_pos visited]
          exact found
        · rename_i unvisited
          rw [if_neg unvisited]
          exact loop_more less found
      rw [same]
      exact ih later

end Loop

/-- With enough turns the walk ends, and finds the components of two nodes and more. -/
theorem components_exact {allNodes : List Node} (sources : ∀ v, ∀ w ∈ adj v, v ∈ allNodes)
    (targets : ∀ v, ∀ w ∈ adj v, w ∈ allNodes) :
    ∃ bound out, (∀ fuel, bound ≤ fuel → components adj fuel allNodes = some out) ∧
      Exact adj out := by
  have sound : Sound adj (start : State Node) := inv_start
  have closed : ∀ v, ∀ w ∈ adj v, w ∈ allNodes.toFinset :=
    fun v w edge => List.mem_toFinset.mpr (targets v w edge)
  have members : ∀ v ∈ allNodes, v ∈ allNodes.toFinset := fun v => List.mem_toFinset.mpr
  obtain ⟨after, ends, rests, all⟩ := searches_rest closed sound rfl (Nat.lt_succ_self _) members
  have inv := rests.sound
  unfold Sound at inv
  rw [rests.idle] at inv
  have empty := inv.stack_nil
  refine ⟨(potential adj allNodes.toFinset start).succ, after.out, ?_, inv.nodup, inv.size,
    inv.whole, ?_, inv.apart⟩
  · intro fuel enough
    unfold components
    rw [searches_more enough ends]
    rfl
  · intro v w different related
    have leaves : v ∈ allNodes := by
      rcases Relation.ReflTransGen.cases_head related.1 with same | ⟨u, edge, _⟩
      · exact absurd same different
      · exact sources v u edge
    apply inv.found v (all v leaves) _ w different related
    rw [empty]
    exact List.not_mem_nil

end Run

end Mneme.Library.Components
