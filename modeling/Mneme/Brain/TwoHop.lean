/-
When the two-hop neighbourhood gives every label its least distance.

Each anchor offers depths in its turn.  A hop lowers the depth that is there;
an anchor is entered with depth 0 only when it is not there yet, so an anchor
that an earlier one reached keeps the depth of that hop.
-/

import Mneme.Brain.Retrieve
import Mneme.Library.Breadth

namespace Mneme.Brain.GraphIndex

open Library

/-! ### Depths offered -/

/-- The labels and depths that one anchor offers, in turn. -/
def offersOf (graph : GraphIndex) (anchor : String) : List (String × Nat) :=
  match graph.byLabel.find anchor with
  | none => []
  | some entry =>
      (anchor, 0) :: (graph.neighbors entry.2).flatMap (fun near =>
        (graph.labelAt near, 1) :: (graph.neighbors near).map (fun far => (graph.labelAt far, 2)))

def offers (graph : GraphIndex) (anchors : List String) : List (String × Nat) :=
  anchors.flatMap graph.offersOf

def note (out : StringMap Nat) (offer : String × Nat) : StringMap Nat :=
  if offer.2 = 0 then seed offer.1 out else touch offer.1 offer.2 out

theorem expand_eq (graph : GraphIndex) (out : StringMap Nat) (anchor : String) :
    graph.expand out anchor = (graph.offersOf anchor).foldl note out := by
  unfold expand offersOf
  cases graph.byLabel.find anchor with
  | none => rfl
  | some entry =>
      have first : note out (anchor, 0) = seed anchor out := if_pos rfl
      dsimp only
      rw [List.foldl_cons, first, List.foldl_flatMap]
      congr 1
      funext out near
      have near_eq : note out (graph.labelAt near, 1) = touch (graph.labelAt near) 1 out :=
        if_neg Nat.one_ne_zero
      rw [List.foldl_cons, near_eq, List.foldl_map]
      rfl

theorem expand_all_eq (graph : GraphIndex) (anchors : List String) (out : StringMap Nat) :
    anchors.foldl graph.expand out = (graph.offers anchors).foldl note out := by
  unfold offers
  rw [List.foldl_flatMap]
  congr 1
  funext out anchor
  exact expand_eq graph out anchor

/-- What an offer makes of the depth of its label. -/
def hear (depth : Option Nat) (offered : Nat) : Option Nat :=
  match depth with
  | none => some offered
  | some held => if offered = 0 then some held else some (min held offered)

def depthIn (out : StringMap Nat) (label : String) : Option Nat :=
  (out.find label).map Prod.snd

def depthsOf (label : String) (offered : List (String × Nat)) : List Nat :=
  (offered.filter (fun offer => offer.1 = label)).map Prod.snd

variable (out : StringMap Nat)

theorem depthIn_put (named label : String) (depth : Nat) :
    depthIn (out.put (named, depth)) label = if named = label then some depth else depthIn out label := by
  unfold depthIn
  rw [Keyed.find_put]
  split
  · rfl
  · rfl

variable {label : String}

theorem depthIn_of_find {out : StringMap Nat} {found : Option (String × Nat)}
    (finds : out.find label = found) : depthIn out label = found.map Prod.snd :=
  congrArg (Option.map Prod.snd) finds

/-- An offer leaves the map alone or enters what its label then has. -/
theorem note_cases (offer : String × Nat) :
    (note out offer = out ∧ hear (depthIn out offer.1) offer.2 = depthIn out offer.1) ∨
      ∃ depth, note out offer = out.put (offer.1, depth) ∧
        hear (depthIn out offer.1) offer.2 = some depth := by
  cases found : out.find offer.1 with
  | none =>
      right
      refine ⟨offer.2, ?_, ?_⟩
      · unfold note seed touch
        rw [found]
        split
        · rename_i zero
          rw [zero]
        · rfl
      · rw [depthIn_of_find found]
        rfl
  | some entry =>
      rw [depthIn_of_find found]
      unfold note seed touch hear
      rw [found]
      by_cases zero : offer.2 = 0
      · left
        rw [if_pos zero]
        exact ⟨rfl, if_pos zero⟩
      · right
        rw [if_neg zero]
        exact ⟨_, rfl, if_neg zero⟩

theorem depthIn_note (offer : String × Nat) (label : String) :
    depthIn (note out offer) label =
      if offer.1 = label then hear (depthIn out label) offer.2 else depthIn out label := by
  rcases note_cases out offer with ⟨alone, kept⟩ | ⟨depth, entered, heard⟩
  · rw [alone]
    by_cases same : offer.1 = label
    · rw [if_pos same, ← same, kept]
    · rw [if_neg same]
  · rw [entered, depthIn_put]
    by_cases same : offer.1 = label
    · rw [if_pos same, if_pos same, ← same, heard]
    · rw [if_neg same, if_neg same]

theorem depthIn_notes (offered : List (String × Nat)) (out : StringMap Nat) (label : String) :
    depthIn (offered.foldl note out) label =
      (depthsOf label offered).foldl hear (depthIn out label) := by
  induction offered generalizing out with
  | nil => rfl
  | cons offer rest ih =>
      rw [List.foldl_cons, ih, depthIn_note]
      unfold depthsOf
      by_cases same : offer.1 = label
      · have kept : (offer :: rest).filter (fun offer => offer.1 = label) =
            offer :: rest.filter (fun offer => offer.1 = label) :=
          List.filter_cons_of_pos (decide_eq_true same)
        rw [if_pos same, kept, List.map_cons, List.foldl_cons]
      · have dropped : (offer :: rest).filter (fun offer => offer.1 = label) =
            rest.filter (fun offer => offer.1 = label) :=
          List.filter_cons_of_neg (fun held => same (of_decide_eq_true held))
        rw [if_neg same, dropped]

/-- The depth of a label that has one: no offer but that of an anchor is lower,
and only a first offer is 0. -/
theorem hear_some (depths : List Nat) (first : Nat) :
    ∃ depth, depths.foldl hear (some first) = some depth ∧ depth ∈ first :: depths ∧ depth ≤ first ∧
      (∀ offered ∈ depths, offered ≠ 0 → depth ≤ offered) ∧ (depth = 0 → first = 0) := by
  induction depths generalizing first with
  | nil =>
      refine ⟨first, rfl, List.mem_cons_self, Nat.le_refl _, ?_, id⟩
      intro offered member
      cases member
  | cons offer rest ih =>
      rw [List.foldl_cons]
      by_cases zero : offer = 0
      · have kept : hear (some first) offer = some first := if_pos zero
        obtain ⟨depth, heard, member, below, least, onlyFirst⟩ := ih first
        refine ⟨depth, by rw [kept, heard], ?_, below, ?_, onlyFirst⟩
        · rcases List.mem_cons.mp member with same | later
          · rw [same]
            exact List.mem_cons_self
          · exact List.mem_cons_of_mem _ (List.mem_cons_of_mem _ later)
        · intro offered inside positive
          rcases List.mem_cons.mp inside with same | later
          · exact absurd (same.trans zero) positive
          · exact least offered later positive
      · have lowered : hear (some first) offer = some (min first offer) := if_neg zero
        obtain ⟨depth, heard, member, below, least, onlyFirst⟩ := ih (min first offer)
        refine ⟨depth, by rw [lowered, heard], ?_, by omega, ?_, ?_⟩
        · rcases List.mem_cons.mp member with same | later
          · rcases Nat.le_total first offer with small | large
            · rw [same, Nat.min_eq_left small]
              exact List.mem_cons_self
            · rw [same, Nat.min_eq_right large]
              exact List.mem_cons_of_mem _ List.mem_cons_self
          · exact List.mem_cons_of_mem _ (List.mem_cons_of_mem _ later)
        · intro offered inside positive
          rcases List.mem_cons.mp inside with same | later
          · rw [same]
            omega
          · exact least offered later positive
        · intro isZero
          have both := onlyFirst isZero
          omega

variable {depths : List Nat}

theorem hear_of_mem {offered : Nat} (member : offered ∈ depths) :
    ∃ depth, depths.foldl hear none = some depth := by
  cases depths with
  | nil => cases member
  | cons first rest =>
      obtain ⟨depth, heard, _⟩ := hear_some rest first
      exact ⟨depth, heard⟩

variable {depth : Nat}

theorem hear_least (heard : depths.foldl hear none = some depth)
    (anchored : 0 ∈ depths → depths.head? = some 0) : IsLeast { offered | offered ∈ depths } depth := by
  cases depths with
  | nil => cases heard
  | cons first rest =>
      obtain ⟨least, result, member, below, lower, _⟩ := hear_some rest first
      have same : least = depth := Option.some.inj (result.symm.trans heard)
      subst same
      refine ⟨member, ?_⟩
      intro offered inside
      rcases List.mem_cons.mp inside with isFirst | later
      · rw [isFirst]
        exact below
      · by_cases zero : offered = 0
        · rw [zero] at later
          have atHead := Option.some.inj (anchored (List.mem_cons_of_mem _ later))
          omega
        · exact lower offered later zero

theorem head_of_least (heard : depths.foldl hear none = some depth)
    (zero : depth = 0) : depths.head? = some 0 := by
  cases depths with
  | nil => cases heard
  | cons first rest =>
      obtain ⟨least, result, _, _, _, onlyFirst⟩ := hear_some rest first
      have same : least = depth := Option.some.inj (result.symm.trans heard)
      rw [onlyFirst (same.trans zero)]
      rfl

/-! ### Hops -/

/-- An edge leads from the node of one label to the node of the other one. -/
def Hop (graph : GraphIndex) (source target : String) : Prop :=
  ∃ edge ∈ graph.edges, graph.nodes[edge.1]? = some source ∧ graph.nodes[edge.2]? = some target

/-- The anchors that are labels of the graph. -/
def known (graph : GraphIndex) (anchors : List String) : List String :=
  anchors.filter (fun anchor => (graph.byLabel.find anchor).isSome)

/-- A walk of so many edges leads from some known anchor to the label. -/
def Reached (graph : GraphIndex) (anchors : List String) (hops : Nat) (label : String) : Prop :=
  Search.Walked (fun _ => graph.Hop) (graph.known anchors) hops label

/-- The least of these numbers is the distance of the label from the anchors. -/
def hops (graph : GraphIndex) (anchors : List String) (label : String) : Set Nat :=
  Search.lengths (fun _ => graph.Hop) (graph.known anchors) label

variable {graph : GraphIndex}

variable {index near : Nat}

theorem mem_neighbors : near ∈ graph.neighbors index ↔ (index, near) ∈ graph.edges := by
  unfold neighbors
  rw [List.mem_reverse, List.mem_map]
  constructor
  · intro found
    obtain ⟨edge, member, rfl⟩ := found
    obtain ⟨listed, source⟩ := List.mem_filter.mp member
    rw [← of_decide_eq_true source]
    exact listed
  · intro listed
    exact ⟨(index, near), List.mem_filter.mpr ⟨listed, decide_eq_true rfl⟩, rfl⟩

theorem labelAt_eq (there : graph.nodes[index]? = some label) : graph.labelAt index = label := by
  unfold labelAt
  rw [there]
  rfl

/-- The labels next to a node are one hop away from its label. -/
theorem Indexed.hop_iff (indexed : Indexed graph)
    {source : String} (there : graph.nodes[index]? = some source) (target : String) :
    graph.Hop source target ↔ ∃ near ∈ graph.neighbors index, graph.nodes[near]? = some target := by
  constructor
  · intro hop
    obtain ⟨edge, listed, atSource, atTarget⟩ := hop
    have first := (indexed.named source edge.1).mpr atSource
    rw [(indexed.named source index).mpr there] at first
    have same : index = edge.1 := congrArg Prod.snd (Option.some.inj first)
    refine ⟨edge.2, mem_neighbors.mpr ?_, atTarget⟩
    rw [same]
    exact listed
  · intro found
    obtain ⟨near, member, atTarget⟩ := found
    exact ⟨(index, near), mem_neighbors.mp member, there, atTarget⟩

theorem Indexed.labelled (indexed : Indexed graph)
    (next : near ∈ graph.neighbors index) : graph.nodes[near]? = some (graph.labelAt near) := by
  have bound := (indexed.inside _ (mem_neighbors.mp next)).2
  have there : graph.nodes[near]? = some graph.nodes[near] := List.getElem?_eq_getElem bound
  rw [there, labelAt_eq there]

/-- One anchor offers the ends of its walks of up to two edges. -/
theorem Indexed.mem_offersOf (indexed : Indexed graph) (anchor label : String) (depth : Nat) :
    (label, depth) ∈ graph.offersOf anchor ↔ (graph.byLabel.find anchor).isSome ∧
      (depth = 0 ∧ label = anchor ∨ depth = 1 ∧ graph.Hop anchor label ∨
        depth = 2 ∧ ∃ between, graph.Hop anchor between ∧ graph.Hop between label) := by
  unfold offersOf
  cases found : graph.byLabel.find anchor with
  | none =>
      constructor
      · intro member
        cases member
      · intro both
        cases both.1
  | some entry =>
      have here := find_label found
      rw [here] at found
      have there := (indexed.named anchor entry.2).mp found
      dsimp only
      rw [List.mem_cons, List.mem_flatMap]
      constructor
      · intro offered
        refine ⟨rfl, ?_⟩
        rcases offered with start | ⟨near, next, member⟩
        · cases start
          exact Or.inl ⟨rfl, rfl⟩
        · have nearby := (indexed.hop_iff there (graph.labelAt near)).mpr
            ⟨near, next, indexed.labelled next⟩
          rcases List.mem_cons.mp member with first | second
          · cases first
            exact Or.inr (Or.inl ⟨rfl, nearby⟩)
          · obtain ⟨far, beyond, same⟩ := List.mem_map.mp second
            cases same
            refine Or.inr (Or.inr ⟨rfl, graph.labelAt near, nearby, ?_⟩)
            exact (indexed.hop_iff (indexed.labelled next) _).mpr
              ⟨far, beyond, indexed.labelled beyond⟩
      · intro both
        obtain ⟨_, ⟨rfl, rfl⟩ | ⟨rfl, hop⟩ | ⟨rfl, between, first, second⟩⟩ := both
        · exact Or.inl rfl
        · obtain ⟨near, next, atLabel⟩ := (indexed.hop_iff there label).mp hop
          refine Or.inr ⟨near, next, ?_⟩
          rw [labelAt_eq atLabel]
          exact List.mem_cons_self
        · obtain ⟨near, next, atBetween⟩ := (indexed.hop_iff there between).mp first
          obtain ⟨far, beyond, atLabel⟩ := (indexed.hop_iff atBetween label).mp second
          refine Or.inr ⟨near, next, List.mem_cons_of_mem _ (List.mem_map.mpr ⟨far, beyond, ?_⟩)⟩
          rw [labelAt_eq atLabel]

variable {anchor : String}

theorem mem_known {anchors : List String} :
    anchor ∈ graph.known anchors ↔ anchor ∈ anchors ∧ (graph.byLabel.find anchor).isSome = true :=
  List.mem_filter

/-- The offers are the walks of up to two edges. -/
theorem Indexed.mem_offers (indexed : Indexed graph) (anchors : List String)
    (label : String) (depth : Nat) :
    (label, depth) ∈ graph.offers anchors ↔ depth ≤ 2 ∧ graph.Reached anchors depth label := by
  unfold offers
  rw [List.mem_flatMap]
  constructor
  · intro found
    obtain ⟨anchor, listed, offered⟩ := found
    obtain ⟨isLabel, offer⟩ := (indexed.mem_offersOf anchor label depth).mp offered
    have start : graph.Reached anchors 0 anchor := mem_known.mpr ⟨listed, isLabel⟩
    obtain ⟨rfl, rfl⟩ | ⟨rfl, hop⟩ | ⟨rfl, between, first, second⟩ := offer
    · exact ⟨Nat.zero_le 2, start⟩
    · exact ⟨Nat.le_succ 1, anchor, start, hop⟩
    · exact ⟨Nat.le_refl 2, between, ⟨anchor, start, first⟩, second⟩
  · intro both
    obtain ⟨small, reached⟩ := both
    have which : depth = 0 ∨ depth = 1 ∨ depth = 2 := by omega
    rcases which with rfl | rfl | rfl
    · obtain ⟨listed, isLabel⟩ := mem_known.mp reached
      exact ⟨label, listed, (indexed.mem_offersOf label label 0).mpr
        ⟨isLabel, Or.inl ⟨rfl, rfl⟩⟩⟩
    · obtain ⟨anchor, start, hop⟩ := reached
      obtain ⟨listed, isLabel⟩ := mem_known.mp start
      exact ⟨anchor, listed, (indexed.mem_offersOf anchor label 1).mpr
        ⟨isLabel, Or.inr (Or.inl ⟨rfl, hop⟩)⟩⟩
    · obtain ⟨between, ⟨anchor, start, first⟩, second⟩ := reached
      obtain ⟨listed, isLabel⟩ := mem_known.mp start
      exact ⟨anchor, listed, (indexed.mem_offersOf anchor label 2).mpr
        ⟨isLabel, Or.inr (Or.inr ⟨rfl, between, first, second⟩)⟩⟩

theorem mem_depthsOf {offered : List (String × Nat)} :
    depth ∈ depthsOf label offered ↔ (label, depth) ∈ offered := by
  unfold depthsOf
  rw [List.mem_map]
  constructor
  · intro found
    obtain ⟨offer, member, rfl⟩ := found
    obtain ⟨listed, named⟩ := List.mem_filter.mp member
    rw [← of_decide_eq_true named]
    exact listed
  · intro listed
    exact ⟨(label, depth), List.mem_filter.mpr ⟨listed, decide_eq_true rfl⟩, rfl⟩

/-! ### The neighbourhood -/

/-- Each label within two hops of a known anchor stands in the result once,
with its least distance, and nearer labels stand first. -/
structure Exact (graph : GraphIndex) (anchors : List String) (result : List (String × Nat)) :
    Prop where
  once : (result.map Prod.fst).Nodup
  nearest : ∀ label depth,
    (label, depth) ∈ result ↔ depth ≤ 2 ∧ IsLeast (graph.hops anchors label) depth
  ordered : result.Pairwise (fun left right => left.2 ≤ right.2)

/-- No known anchor is one or two hops away from a known anchor that is listed
before its first place. -/
def AnchorsFirst (graph : GraphIndex) (anchors : List String) : Prop :=
  ∀ front anchor back, anchors = front ++ anchor :: back → anchor ∉ front →
    anchor ∈ graph.known anchors →
      ¬ graph.Reached front 1 anchor ∧ ¬ graph.Reached front 2 anchor

theorem mem_rows_iff (label : String) (depth : Nat) :
    (label, depth) ∈ out.rows ↔ depthIn out label = some depth := by
  constructor
  · intro member
    exact depthIn_of_find ((Keyed.find_eq_some_iff out label (label, depth)).mpr ⟨member, rfl⟩)
  · intro holds
    obtain ⟨entry, found, same⟩ := Option.map_eq_some_iff.mp holds
    obtain ⟨member, named⟩ := (Keyed.find_eq_some_iff out label entry).mp found
    have equal : entry = (label, depth) := Prod.ext named same
    rw [equal] at member
    exact member

theorem mem_twoHop (graph : GraphIndex) (order : HashOrder Nat) (anchors : List String)
    (label : String) (depth : Nat) :
    (label, depth) ∈ graph.twoHop order anchors ↔
      (depthsOf label (graph.offers anchors)).foldl hear none = some depth := by
  unfold twoHop
  rw [List.mem_insertionSort, (order.perm _).mem_iff, mem_rows_iff, expand_all_eq, depthIn_notes]
  rfl

theorem twoHop_once (graph : GraphIndex) (order : HashOrder Nat) (anchors : List String) :
    ((graph.twoHop order anchors).map Prod.fst).Nodup := by
  have permuted : (graph.twoHop order anchors).Perm
      (anchors.foldl graph.expand (Keyed.empty : StringMap Nat)).rows :=
    (List.perm_insertionSort _ _).trans (order.perm _)
  exact (permuted.map Prod.fst).nodup_iff.mpr (Keyed.unique _)

instance : Std.Total (fun left right : String × Nat => left.2 ≤ right.2) :=
  ⟨fun left right => Nat.le_total left.2 right.2⟩

instance : IsTrans (String × Nat) (fun left right => left.2 ≤ right.2) :=
  ⟨fun _ _ _ first second => Nat.le_trans first second⟩

/-- The least depth offered is the distance. -/
theorem Indexed.least_iff (indexed : Indexed graph) (anchors : List String)
    (label : String) (depth : Nat) :
    IsLeast { offered | offered ∈ depthsOf label (graph.offers anchors) } depth ↔
      depth ≤ 2 ∧ IsLeast (graph.hops anchors label) depth := by
  have offered : ∀ hops, hops ∈ depthsOf label (graph.offers anchors) ↔
      hops ≤ 2 ∧ graph.Reached anchors hops label := by
    intro hops
    rw [mem_depthsOf]
    exact indexed.mem_offers anchors label hops
  constructor
  · intro least
    obtain ⟨small, reached⟩ := (offered depth).mp least.1
    refine ⟨small, reached, ?_⟩
    intro other alsoReached
    rcases Nat.le_total other 2 with near | far
    · exact least.2 ((offered other).mpr ⟨near, alsoReached⟩)
    · exact Nat.le_trans small far
  · intro both
    refine ⟨(offered depth).mpr ⟨both.1, both.2.1⟩, ?_⟩
    intro other member
    exact both.2.2 ((offered other).mp member).2

/-- Only a first offer of 0 gives the distance 0 to an anchor. -/
theorem Indexed.exact_iff (indexed : Indexed graph) (order : HashOrder Nat)
    (anchors : List String) :
    Exact graph anchors (graph.twoHop order anchors) ↔
      ∀ label, 0 ∈ depthsOf label (graph.offers anchors) →
        (depthsOf label (graph.offers anchors)).head? = some 0 := by
  constructor
  · intro exactly label anchored
    obtain ⟨depth, heard⟩ := hear_of_mem anchored
    have least := ((exactly.nearest label depth).mp
      ((mem_twoHop graph order anchors label depth).mpr heard)).2
    have start := ((indexed.mem_offers anchors label 0).mp (mem_depthsOf.mp anchored)).2
    exact head_of_least heard (Nat.le_zero.mp (least.2 start))
  · intro anchored
    refine ⟨twoHop_once graph order anchors, ?_, List.pairwise_insertionSort _ _⟩
    intro label depth
    rw [mem_twoHop, ← indexed.least_iff]
    constructor
    · intro heard
      exact hear_least heard (anchored label)
    · intro least
      obtain ⟨other, heard⟩ := hear_of_mem least.1
      rw [least.unique (hear_least heard (anchored label))]
      exact heard

theorem offersOf_known (isLabel : (graph.byLabel.find anchor).isSome = true) :
    ∃ rest, graph.offersOf anchor = (anchor, 0) :: rest := by
  unfold offersOf
  cases found : graph.byLabel.find anchor with
  | none =>
      rw [found] at isLabel
      cases isLabel
  | some entry => exact ⟨_, rfl⟩

/-- At the first place of an anchor its first offer is its own 0, unless an
anchor before it reached it. -/
theorem depthsOf_split (front back : List String)
    (isLabel : (graph.byLabel.find anchor).isSome = true) :
    ∃ rest, depthsOf anchor (graph.offers (front ++ anchor :: back)) =
      depthsOf anchor (graph.offers front) ++ 0 :: rest := by
  obtain ⟨later, own⟩ := offersOf_known isLabel
  have offered : graph.offers (front ++ anchor :: back) =
      graph.offers front ++ (anchor, 0) :: (later ++ graph.offers back) := by
    unfold offers
    rw [List.flatMap_append, List.flatMap_cons, own]
    rfl
  have first : ((anchor, 0) :: (later ++ graph.offers back)).filter (fun offer => offer.1 = anchor) =
      (anchor, 0) :: (later ++ graph.offers back).filter (fun offer => offer.1 = anchor) :=
    List.filter_cons_of_pos (decide_eq_true rfl)
  refine ⟨depthsOf anchor (later ++ graph.offers back), ?_⟩
  unfold depthsOf
  rw [offered, List.filter_append, List.map_append, first, List.map_cons]

theorem Indexed.anchorsFirst_iff (indexed : Indexed graph) (anchors : List String) :
    (∀ label, 0 ∈ depthsOf label (graph.offers anchors) →
        (depthsOf label (graph.offers anchors)).head? = some 0) ↔
      AnchorsFirst graph anchors := by
  constructor
  · intro anchored front anchor back split new isKnown
    have isLabel := (mem_known.mp isKnown).2
    obtain ⟨rest, depths⟩ := depthsOf_split front back isLabel
    rw [← split] at depths
    have atHead := anchored anchor (by
      rw [depths]
      exact List.mem_append_right _ List.mem_cons_self)
    have never : ∀ hops, hops ≤ 2 → hops ≠ 0 → ¬ graph.Reached front hops anchor := by
      intro hops small positive reached
      have offered := mem_depthsOf.mpr ((indexed.mem_offers front anchor hops).mpr ⟨small, reached⟩)
      cases early : depthsOf anchor (graph.offers front) with
      | nil =>
          rw [early] at offered
          cases offered
      | cons first others =>
          rw [depths, early] at atHead
          have zero : first = 0 := Option.some.inj atHead
          have inFront : 0 ∈ depthsOf anchor (graph.offers front) := by
            rw [early, zero]
            exact List.mem_cons_self
          have start := ((indexed.mem_offers front anchor 0).mp (mem_depthsOf.mp inFront)).2
          exact new (mem_known.mp start).1
    exact ⟨never 1 (Nat.le_succ 1) Nat.one_ne_zero, never 2 (Nat.le_refl 2) (Nat.succ_ne_zero 1)⟩
  · intro first label anchored
    have start := ((indexed.mem_offers anchors label 0).mp (mem_depthsOf.mp anchored)).2
    obtain ⟨listed, isLabel⟩ := mem_known.mp start
    obtain ⟨front, back, split, new⟩ := List.eq_append_cons_of_mem listed
    obtain ⟨rest, depths⟩ := depthsOf_split front back isLabel
    obtain ⟨notOne, notTwo⟩ := first front label back split new start
    have nothing : depthsOf label (graph.offers front) = [] := by
      apply List.eq_nil_iff_forall_not_mem.mpr
      intro hops offered
      obtain ⟨small, reached⟩ := (indexed.mem_offers front label hops).mp (mem_depthsOf.mp offered)
      have which : hops = 0 ∨ hops = 1 ∨ hops = 2 := by omega
      rcases which with rfl | rfl | rfl
      · exact new (mem_known.mp reached).1
      · exact notOne reached
      · exact notTwo reached
    rw [split, depths, nothing]
    rfl

/-- On every graph that is built the neighbourhood is exact exactly when no
known anchor is reached from one that is listed before it. -/
theorem twoHop_exact_iff (calls : List BuildCall) (order : HashOrder Nat) (anchors : List String) :
    Exact (build calls) anchors ((build calls).twoHop order anchors) ↔
      AnchorsFirst (build calls) anchors :=
  ((indexed_build calls).exact_iff order anchors).trans ((indexed_build calls).anchorsFirst_iff anchors)

/-- Two anchors with an edge between them: the second one is returned at
depth 1. -/
theorem second_anchor_at_one :
    ¬ ∀ (calls : List BuildCall) (order : HashOrder Nat) (anchors : List String),
      Exact (build calls) anchors ((build calls).twoHop order anchors) := by
  intro always
  have exactly := always [.addEdge "a" "b"] { arrange := id, perm := fun _ => List.Perm.refl _ }
    ["a", "b"]
  have listed : ("b", 1) ∈ (build [.addEdge "a" "b"]).twoHop
      { arrange := id, perm := fun _ => List.Perm.refl _ } ["a", "b"] := by decide
  have least := ((exactly.nearest "b" 1).mp listed).2
  have anchor : 0 ∈ (build [.addEdge "a" "b"]).hops ["a", "b"] "b" := by
    change "b" ∈ (build [.addEdge "a" "b"]).known ["a", "b"]
    decide
  exact Nat.not_succ_le_zero 0 (least.2 anchor)

end Mneme.Brain.GraphIndex
