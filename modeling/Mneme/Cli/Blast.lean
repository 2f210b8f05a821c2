/-
The blast command: the walk over the shard itself, the layers made of the
supervisor's answer, and what is printed of either.
-/

import Mathlib.Algebra.GroupWithZero.Nat
import Mneme.Supervisor.Blast

namespace Mneme.Cli

open Common Library Parsers Store Supervisor

/-! ### Printing -/

structure Printed where
  total : Nat
  /-- The layers with their depths, without the target's own and the empty ones. -/
  layers : List (Nat × List String)

/-- Depth 0 is the target itself. -/
def isShown (layer : List String × Nat) : Bool :=
  layer.2 ≠ 0 ∧ layer.1 ≠ []

def printLayers (layers : List (List String)) : Printed :=
  { total := ((layers.drop 1).map List.length).sum
    layers := (layers.zipIdx.filter isShown).map Prod.swap }

/-- The names printed under a depth. -/
def Printed.at (printed : Printed) (depth : Nat) : List String :=
  (printed.layers.filter (fun layer => layer.1 = depth)).flatMap Prod.snd

/-- `if let Some(layer) = layers.get_mut(depth) { layer.push(node) }` -/
def pushLayer (layers : List (List String)) (depth : Nat) (node : String) : List (List String) :=
  layers.modify depth (fun layer => layer ++ [node])

def layersFromItems (items : List BlastItem) (maxDepth : Nat) : List (List String) :=
  items.foldl (fun layers item => pushLayer layers item.depth item.qualifiedName)
    ([] :: List.replicate maxDepth [])

def printLayersFromItems (items : List BlastItem) (maxDepth : Nat) : Printed :=
  printLayers (layersFromItems items maxDepth)

/-! ### The walk over the shard -/

structure DirectWalk where
  visited : Finset String
  frontier : List (String × Nat)
  layers : List (List String)

namespace DirectWalk

def start (starts : List String) (depth : Nat) : DirectWalk :=
  { visited := starts.toFinset
    frontier := starts.map (fun node => (node, 0))
    layers := starts :: List.replicate depth [] }

def visit (reached : Nat) (walk : DirectWalk) (source : String) : DirectWalk :=
  if source ∈ walk.visited then walk
  else
    { visited := insert source walk.visited
      frontier := walk.frontier ++ [(source, reached + 1)]
      layers := pushLayer walk.layers (reached + 1) source }

def step (rows : String → List String) (depth : Nat) (walk : DirectWalk) : DirectWalk :=
  match walk.frontier with
  | [] => walk
  | (node, reached) :: rest =>
      if depth ≤ reached then { walk with frontier := rest }
      else (rows node).foldl (visit reached) { walk with frontier := rest }

def run (rows : String → List String) (depth : Nat) : Nat → DirectWalk → DirectWalk
  | 0, walk => walk
  | fuel + 1, walk => run rows depth fuel (walk.step rows depth)

end DirectWalk

inductive DirectBlast where
  | noMatch
  | printed (layers : Printed)

/-- The fallback without the supervisor. -/
def directBlast (hash : StableHash) (ties : RowOrder NodeRow) (orders : String → RowOrder String)
    (shard : GraphShard) (target : String) (depth : Nat) : DirectBlast :=
  let starts := shard.resolveTarget hash ties target
  if starts.isEmpty then .noMatch
  else
    .printed (printLayers (DirectWalk.run (shard.dependents hash orders) depth
      (walkFuel starts shard) (DirectWalk.start starts depth)).layers)

/-- The names shown under a depth; nothing when no node matches. -/
def DirectBlast.at : DirectBlast → Nat → List String
  | .noMatch, _ => []
  | .printed layers, depth => layers.at depth

/-! ### Layers by depth -/

variable (layers : List (List String))

theorem getElem?_zipIdx_filter (first depth : Nat) :
    ((layers.zipIdx first).filter (fun layer => layer.2 = depth)).map Prod.fst =
      if first ≤ depth then (layers[depth - first]?).toList else [] := by
  induction layers generalizing first with
  | nil =>
      split <;> rfl
  | cons layer layers ih =>
      rw [List.zipIdx_cons, List.filter_cons]
      by_cases same : first = depth
      · have later := ih (first + 1)
        rw [if_neg (by omega), List.map_eq_nil_iff] at later
        rw [if_pos (decide_eq_true same), later, if_pos (Nat.le_of_eq same), ← same, Nat.sub_self]
        rfl
      · rw [if_neg (by simpa using same), ih]
        by_cases below : first ≤ depth
        · have shifted : depth - first = depth - (first + 1) + 1 := by
            omega
          rw [if_pos (by omega), if_pos below, shifted, List.getElem?_cons_succ]
        · rw [if_neg (by omega), if_neg below]

/-- The empty layers that are left out show nothing. -/
theorem shown_flatten (layers : List (List String × Nat)) {depth : Nat} (below : 0 < depth) :
    ((((layers.filter isShown).map Prod.swap).filter
        (fun layer => layer.1 = depth)).flatMap Prod.snd) =
      ((layers.filter (fun layer => layer.2 = depth)).map Prod.fst).flatten := by
  induction layers with
  | nil => rfl
  | cons head layers ih =>
      obtain ⟨layer, index⟩ := head
      by_cases here : index = depth
      · subst here
        cases layer with
        | nil =>
            have hidden : isShown ([], index) = false := by
              simp [isShown]
            simpa [List.filter_cons, hidden] using ih
        | cons name names =>
            have shown : isShown (name :: names, index) = true := by
              simpa [isShown] using Nat.ne_of_gt below
            simpa [List.filter_cons, shown] using ih
      · cases kept : isShown (layer, index) with
        | true => simpa [List.filter_cons, kept, here] using ih
        | false => simpa [List.filter_cons, kept, here] using ih

theorem printLayers_at {depth : Nat} (below : 0 < depth) :
    (printLayers layers).at depth = (layers[depth]?).getD [] := by
  have indexed := getElem?_zipIdx_filter layers 0 depth
  rw [if_pos (Nat.zero_le _), Nat.sub_zero] at indexed
  unfold Printed.at printLayers
  rw [shown_flatten _ below, indexed]
  cases layers[depth]? with
  | none => rfl
  | some layer => exact List.append_nil layer

theorem printLayers_empty (depth index : Nat) :
    (printLayers ([] :: List.replicate depth [])).at index = [] := by
  unfold Printed.at printLayers
  have none : ([] :: List.replicate depth []).zipIdx.filter isShown = [] := by
    rw [List.filter_eq_nil_iff]
    intro layer member shown
    have empty := List.fst_mem_of_mem_zipIdx member
    rw [← List.replicate_succ, List.mem_replicate] at empty
    exact (of_decide_eq_true shown).2 empty.2
  rw [none]
  rfl

theorem printLayers_at_zero : (printLayers layers).at 0 = [] := by
  unfold Printed.at printLayers
  have none : ((layers.zipIdx.filter isShown).map Prod.swap).filter
      (fun layer => layer.1 = 0) = [] := by
    rw [List.filter_eq_nil_iff]
    intro layer member zero
    obtain ⟨⟨names, depth⟩, kept, same⟩ := List.mem_map.mp member
    subst same
    exact (of_decide_eq_true (List.mem_filter.mp kept).2).1 (of_decide_eq_true zero)
  rw [none]
  rfl

theorem getElem?_pushLayer (depth : Nat) (node : String) (index : Nat) :
    (pushLayer layers depth node)[index]? =
      (layers[index]?).map (fun layer => if depth = index then layer ++ [node] else layer) := by
  unfold pushLayer
  rw [List.getElem?_modify]
  rfl

/-- Regroup what a search has noted, from given layers on. -/
def regroup (layers : List (List String)) (noted : List (String × Nat)) : List (List String) :=
  noted.foldl (fun layers (node, depth) => pushLayer layers depth node) layers

theorem regroup_append (left right : List (String × Nat)) :
    regroup layers (left ++ right) = regroup (regroup layers left) right :=
  List.foldl_append

theorem getElem?_regroup_stamped (depth : Nat) (nodes : List String) (index : Nat) :
    (regroup layers (Search.stamped depth nodes))[index]? =
      (layers[index]?).map (fun layer => if depth = index then layer ++ nodes else layer) := by
  induction nodes generalizing layers with
  | nil => simp [Search.stamped, regroup]
  | cons node nodes ih =>
      have first : regroup layers (Search.stamped depth (node :: nodes)) =
        regroup (pushLayer layers depth node) (Search.stamped depth nodes) := rfl
      rw [first, ih, getElem?_pushLayer, Option.map_map]
      congr 1
      funext layer
      by_cases here : depth = index
      · simp [here]
      · simp [here]

/-- Regrouping the levels of a search adds each level to the layer of its depth. -/
theorem getElem?_regroup_levels (next : String → List String) (starts : List String)
    (layers : List (List String)) (depth index : Nat) :
    (regroup layers (Search.levels next starts depth))[index]? =
      (layers[index]?).map (fun layer =>
        if 0 < index ∧ index ≤ depth then layer ++ (Search.level next starts index).2 else layer) := by
  induction depth with
  | zero =>
      have outside : ¬ (0 < index ∧ index ≤ 0) := by
        omega
      simp only [if_neg outside]
      exact Option.map_id'.symm
  | succ depth ih =>
      rw [Search.levels, regroup_append, getElem?_regroup_stamped, ih, Option.map_map]
      congr 1
      funext layer
      by_cases here : depth + 1 = index
      · subst here
        simp
      · have same : (0 < index ∧ index ≤ depth + 1) ↔ (0 < index ∧ index ≤ depth) := by
          omega
        simp only [Function.comp_apply, here, if_false, same]

/-- Whatever stands in the layer of depth 0, the layer printed under a depth
is the level of that depth. -/
theorem printLayers_levels (next : String → List String) (starts zeroth : List String)
    (depth index : Nat) :
    (printLayers (regroup (zeroth :: List.replicate depth [])
        (Search.levels next starts depth))).at index =
      if 0 < index ∧ index ≤ depth then (Search.level next starts index).2 else [] := by
  rcases Nat.eq_zero_or_pos index with zero | below
  · subst zero
    rw [printLayers_at_zero, if_neg (by omega)]
  · obtain ⟨before, rfl⟩ : ∃ before, index = before + 1 := ⟨index - 1, by omega⟩
    rw [printLayers_at _ below, getElem?_regroup_levels, List.getElem?_cons_succ,
      List.getElem?_replicate]
    by_cases inside : before < depth
    · rw [if_pos inside, if_pos ⟨below, inside⟩, Option.map_some, if_pos ⟨below, inside⟩]
      rfl
    · rw [if_neg inside, if_neg (fun both => inside both.2)]
      rfl

/-! ### The two walks -/

/-- The direct walk keeps what the search keeps, with the notes regrouped. -/
def directOf (layers : List (List String)) (search : Search String) : DirectWalk :=
  { visited := search.visited
    frontier := search.frontier
    layers := regroup layers search.noted }

theorem visit_directOf (reached : Nat) (search : Search String) (source : String) :
    (directOf layers search).visit reached source =
      directOf layers (search.note (reached + 1) source) := by
  change (if source ∈ search.visited then _ else _) =
    directOf layers (if source ∈ search.visited then _ else _)
  by_cases known : source ∈ search.visited
  · rw [if_pos known, if_pos known]
  · rw [if_neg known, if_neg known]
    unfold directOf
    rw [regroup_append]
    rfl

theorem foldl_visit_directOf (reached : Nat) (sources : List String) (search : Search String) :
    sources.foldl (DirectWalk.visit reached) (directOf layers search) =
      directOf layers (sources.foldl (Search.note (reached + 1)) search) := by
  induction sources generalizing search with
  | nil => rfl
  | cons source sources ih => rw [List.foldl_cons, visit_directOf, ih, List.foldl_cons]

theorem step_directOf (rows : String → List String) (depth : Nat) (layers : List (List String))
    (search : Search String) :
    (directOf layers search).step rows depth = directOf layers (search.step rows depth) := by
  obtain ⟨visited, frontier, noted⟩ := search
  cases frontier with
  | nil => rfl
  | cons front rest =>
      obtain ⟨node, reached⟩ := front
      change (if depth ≤ reached then _ else _) = directOf layers (if depth ≤ reached then _ else _)
      by_cases last : depth ≤ reached
      · rw [if_pos last, if_pos last]
        rfl
      · rw [if_neg last, if_neg last]
        exact foldl_visit_directOf layers reached (rows node) { visited, frontier := rest, noted }

theorem run_directOf (rows : String → List String) (depth fuel : Nat) (layers : List (List String))
    (search : Search String) :
    DirectWalk.run rows depth fuel (directOf layers search) =
      directOf layers (search.run rows depth fuel) := by
  induction fuel generalizing search with
  | zero => rfl
  | succ fuel ih =>
      rw [DirectWalk.run, step_directOf, ih]
      rfl

theorem foldl_items (noted : List (String × Nat)) :
    (noted.map (fun (node, depth) => ({ qualifiedName := node, depth := depth } : BlastItem))).foldl
        (fun layers item => pushLayer layers item.depth item.qualifiedName) layers =
      regroup layers noted := by
  rw [List.foldl_map]
  rfl

/-- Both paths print the levels of one search, in the orders of their rows. -/
theorem directBlast_at (hash : StableHash) (ties : RowOrder NodeRow)
    (orders : String → RowOrder String) (shard : GraphShard) (target : String) (depth index : Nat) :
    (directBlast hash ties orders shard target depth).at index =
      if shard.resolveTarget hash ties target ≠ [] ∧ 0 < index ∧ index ≤ depth then
        (Search.level (shard.dependents hash orders) (shard.resolveTarget hash ties target) index).2
      else [] := by
  unfold directBlast
  dsimp only
  cases starts : shard.resolveTarget hash ties target with
  | nil => rfl
  | cons first rest =>
      have walk := run_directOf (shard.dependents hash orders) depth
        (walkFuel (first :: rest) shard) ((first :: rest) :: List.replicate depth [])
        (Search.start (first :: rest))
      change DirectWalk.run _ depth _ (DirectWalk.start (first :: rest) depth) = _ at walk
      rw [List.isEmpty_cons, if_neg Bool.false_ne_true, walk]
      change (printLayers (regroup _ _)).at index = _
      rw [(walk_complete hash orders shard _ depth).1, printLayers_levels]
      simp only [ne_eq, reduceCtorEq, not_false_eq_true, true_and]

theorem suppliedBlast_at (hash : StableHash) (ties : RowOrder NodeRow)
    (orders : String → RowOrder String) (shard : GraphShard) (target : String) (depth index : Nat) :
    (printLayersFromItems (runBlast hash ties orders shard target depth) depth).at index =
      if shard.resolveTarget hash ties target ≠ [] ∧ 0 < index ∧ index ≤ depth then
        (Search.level (shard.dependents hash orders) (shard.resolveTarget hash ties target) index).2
      else [] := by
  unfold runBlast printLayersFromItems layersFromItems
  dsimp only
  cases starts : shard.resolveTarget hash ties target with
  | nil =>
      rw [List.isEmpty_nil, if_pos rfl, if_neg (fun printed => printed.1 rfl)]
      exact printLayers_empty depth index
  | cons first rest =>
      rw [List.isEmpty_cons, if_neg Bool.false_ne_true, foldl_items,
        (walk_complete hash orders shard _ depth).1, printLayers_levels]
      simp only [ne_eq, reduceCtorEq, not_false_eq_true, true_and]

theorem blast_paths_agree (hash : StableHash) (ties : RowOrder NodeRow)
    (direct supplied : String → RowOrder String) (shard : GraphShard) (target : String)
    (depth index : Nat) :
    ((directBlast hash ties direct shard target depth).at index).Perm
      ((printLayersFromItems (runBlast hash ties supplied shard target depth) depth).at index) := by
  rw [directBlast_at, suppliedBlast_at]
  by_cases printed : shard.resolveTarget hash ties target ≠ [] ∧ 0 < index ∧ index ≤ depth
  · rw [if_pos printed, if_pos printed]
    exact Search.level_perm (shard.dependents_same hash direct supplied) _ index
  · rw [if_neg printed, if_neg printed]

/-! ### The lines that recall and blast print -/

/-- What lies on the standard output after these lines. -/
def stdout : List String → String
  | [] => ""
  | line :: lines => line ++ "\n" ++ stdout lines

/-! ### Recall -/

def hitLocation (hit : RecallHit) : String :=
  match hit.filePath, hit.lineStart with
  | some file, some line => if 0 < line then file ++ ":" ++ toString line else file
  | some file, none => file
  | none, _ => "-"

def hitTitle (hit : RecallHit) : String :=
  "  [" ++ hit.kind ++ "] " ++ hit.qualifiedName

def hitLines (hit : RecallHit) : List String :=
  [hitTitle hit] ++
    (if hit.name ≠ hit.qualifiedName then ["      name: " ++ hit.name] else []) ++
    ["      " ++ hitLocation hit, ""]

/-- The first line, which quotes the query. -/
def hitsHeading (hits : List RecallHit) (query : String) : String :=
  if hits.isEmpty then "no results for `" ++ query ++ "`"
  else toString hits.length ++ " hit(s) for `" ++ query ++ "`:"

def printHits (hits : List RecallHit) (query : String) : List String :=
  hitsHeading hits query :: if hits.isEmpty then [] else "" :: hits.flatMap hitLines

/-! ### Blast -/

def layerLines (layer : Nat × List String) : List String :=
  ("depth " ++ toString layer.1 ++ ": " ++ toString layer.2.length ++ " dependent(s)") ::
    (layer.2.map (fun name => "  " ++ name) ++ [""])

/-- The first line, which quotes the target. -/
def blastHeading (target : String) (total : Nat) : String :=
  "blast radius for `" ++ target ++ "` — " ++ toString total ++ " dependent(s)"

def Printed.lines (printed : Printed) (target : String) : List String :=
  blastHeading target printed.total :: "" :: printed.layers.flatMap layerLines

end Mneme.Cli
