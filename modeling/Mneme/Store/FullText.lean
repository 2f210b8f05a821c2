/-
The full-text index of the nodes, kept by triggers.

The index holds an entry for each row it was told of.  A row that a replacing insert
deletes is told of only on a connection with recursive triggers; ids are not used
twice, so such an entry stays.
-/

import Mathlib.Data.List.Nodup
import Mathlib.Data.List.Perm.Basic
import Mneme.Library.Run

namespace Mneme.Store.FullText

open Transition

/-- The columns of a node that the index holds. -/
structure Indexed where
  name : String
  qualifiedName : String
  filePath : Option String
  signature : Option String
  summary : Option String
deriving DecidableEq

/-- A row of `nodes`; the index does not read the other columns. -/
structure NodeRow (Rest : Type) where
  id : Nat
  indexed : Indexed
  rest : Rest

structure Entry where
  rowid : Nat
  indexed : Indexed
deriving DecidableEq

variable {Rest : Type}

def NodeRow.entry (row : NodeRow Rest) : Entry :=
  { rowid := row.id, indexed := row.indexed }

def NodeRow.qualifiedName (row : NodeRow Rest) : String :=
  row.indexed.qualifiedName

/-- The table `nodes` with its sequence of ids, and the entries of `nodes_fts`. -/
structure Shard (Rest : Type) where
  nodes : List (NodeRow Rest)
  lastId : Nat
  fts : List Entry
  ids : (nodes.map NodeRow.id).Nodup
  issued : ∀ row ∈ nodes, row.id ≤ lastId
  names : (nodes.map NodeRow.qualifiedName).Nodup

/-! ### Connections -/

/-- A connection, as the pragmas that were set on it. -/
abbrev Connection := List (String × String)

def applyPragmas : Connection :=
  [("journal_mode", "WAL"), ("synchronous", "NORMAL"), ("foreign_keys", "ON"),
    ("temp_store", "MEMORY"), ("mmap_size", "268435456")]

/-- Off, unless it is set. -/
def recursiveTriggers (connection : Connection) : Bool :=
  connection.lookup "recursive_triggers" = some "ON"

/-! ### Triggers -/

def nodesAi (new : NodeRow Rest) (fts : List Entry) : List Entry :=
  fts ++ [new.entry]

def nodesAd (old : NodeRow Rest) (fts : List Entry) : List Entry :=
  fts.erase old.entry

def nodesAu (old new : NodeRow Rest) (fts : List Entry) : List Entry :=
  nodesAi new (nodesAd old fts)

/-! ### Statements -/

inductive Statement (Rest : Type) where
  | insertOrReplace (indexed : Indexed) (rest : Rest)
  | update (which : NodeRow Rest → Bool) (change : NodeRow Rest → Indexed × Rest)
  | delete (which : NodeRow Rest → Bool)

/-- Rows are deleted, and the triggers of those that fire take their entries away. -/
def Shard.remove (shard : Shard Rest) (which : NodeRow Rest → Bool) (fires : Bool) :
    Shard Rest :=
  { nodes := shard.nodes.filter (fun row => !which row)
    lastId := shard.lastId
    fts :=
      if fires then (shard.nodes.filter which).foldl (fun fts old => nodesAd old fts) shard.fts
      else shard.fts
    ids := shard.ids.sublist (List.filter_sublist.map NodeRow.id)
    issued := fun row inside => shard.issued row (List.mem_filter.mp inside).1
    names := shard.names.sublist (List.filter_sublist.map NodeRow.qualifiedName) }

/-- A row with a new id, whose name no row has. -/
def Shard.append (shard : Shard Rest) (indexed : Indexed) (rest : Rest)
    (free : indexed.qualifiedName ∉ shard.nodes.map NodeRow.qualifiedName) : Shard Rest :=
  let row : NodeRow Rest := { id := shard.lastId + 1, indexed, rest }
  { nodes := shard.nodes ++ [row]
    lastId := shard.lastId + 1
    fts := nodesAi row shard.fts
    ids := by
      rw [List.map_append, List.nodup_append]
      refine ⟨shard.ids, List.nodup_singleton _, ?_⟩
      intro id old other new same
      obtain ⟨earlier, inside, number⟩ := List.mem_map.mp old
      have below := shard.issued earlier inside
      rw [List.map_singleton, List.mem_singleton] at new
      change other = shard.lastId + 1 at new
      omega
    issued := by
      intro other inside
      rcases List.mem_append.mp inside with old | new
      · exact Nat.le_succ_of_le (shard.issued other old)
      · have same := List.mem_singleton.mp new
        exact Nat.le_of_eq (congrArg NodeRow.id same)
    names := by
      rw [List.map_append, List.nodup_append]
      refine ⟨shard.names, List.nodup_singleton _, ?_⟩
      intro name old other new same
      rw [List.map_singleton, List.mem_singleton] at new
      change other = indexed.qualifiedName at new
      rw [same, new] at old
      exact free old }

/-- The row with the same name is deleted first; its trigger fires on a connection
with recursive triggers. -/
def insertOrReplace (connection : Connection) (shard : Shard Rest) (indexed : Indexed)
    (rest : Rest) : Shard Rest :=
  (shard.remove (fun row => row.qualifiedName = indexed.qualifiedName)
      (recursiveTriggers connection)).append indexed rest (by
    intro inside
    obtain ⟨row, kept, same⟩ := List.mem_map.mp inside
    have other : row.qualifiedName ≠ indexed.qualifiedName := by
      simpa using (List.mem_filter.mp kept).2
    exact other same)

/-- One row changes, unless another row has its new name. -/
def updateRow (change : NodeRow Rest → Indexed × Rest) (shard : Shard Rest)
    (old : NodeRow Rest) : Option (Shard Rest) :=
  let new : NodeRow Rest := { id := old.id, indexed := (change old).1, rest := (change old).2 }
  if free : ∀ row ∈ shard.nodes, row.id ≠ old.id → row.qualifiedName ≠ new.qualifiedName then
    let put : NodeRow Rest → NodeRow Rest := fun row => if row.id = old.id then new else row
    have put_id : ∀ row, (put row).id = row.id := by
      intro row
      by_cases here : row.id = old.id
      · exact (congrArg NodeRow.id (if_pos here)).trans here.symm
      · exact congrArg NodeRow.id (if_neg here)
    some
      { nodes := shard.nodes.map put
        lastId := shard.lastId
        fts := nodesAu old new shard.fts
        ids := by
          have same : (shard.nodes.map put).map NodeRow.id = shard.nodes.map NodeRow.id := by
            rw [List.map_map]
            exact List.map_congr_left (fun row _ => put_id row)
          rw [same]
          exact shard.ids
        issued := by
          intro row inside
          obtain ⟨before, among, same⟩ := List.mem_map.mp inside
          rw [← same, put_id]
          exact shard.issued before among
        names := by
          rw [List.map_map]
          apply List.Nodup.map_on _ shard.ids.of_map
          intro first left second right same
          have by_id : first.id = second.id → first = second :=
            List.inj_on_of_nodup_map shard.ids left right
          have by_name : first.qualifiedName = second.qualifiedName → first = second :=
            List.inj_on_of_nodup_map shard.names left right
          change (put first).qualifiedName = (put second).qualifiedName at same
          by_cases here : first.id = old.id
          · by_cases there : second.id = old.id
            · exact by_id (here.trans there.symm)
            · rw [show put first = new from if_pos here,
                show put second = second from if_neg there] at same
              exact absurd same.symm (free second right there)
          · by_cases there : second.id = old.id
            · rw [show put first = first from if_neg here,
                show put second = new from if_pos there] at same
              exact absurd same (free first left here)
            · rw [show put first = first from if_neg here,
                show put second = second from if_neg there] at same
              exact by_name same }
  else none

/-- The rows change one after the other; one that cannot undoes the statement. -/
def update (shard : Shard Rest) (which : NodeRow Rest → Bool)
    (change : NodeRow Rest → Indexed × Rest) : Shard Rest :=
  ((shard.nodes.filter which).foldlM (updateRow change) shard).getD shard

def execute (connection : Connection) (shard : Shard Rest) : Statement Rest → Shard Rest
  | .insertOrReplace indexed rest => insertOrReplace connection shard indexed rest
  | .update which change => update shard which change
  | .delete which => shard.remove which true

/-- The index is built anew when a probe finds nothing in it. -/
def seedNodesFts (matchesSrc : Entry → Bool) (shard : Shard Rest) : Shard Rest :=
  if shard.nodes.isEmpty || shard.fts.any matchesSrc then shard
  else { shard with fts := shard.nodes.map NodeRow.entry }

def next (connection : Connection) (shard : Shard Rest) (statement : Statement Rest) :
    Option (Shard Rest) :=
  some (execute connection shard statement)

/-! ### The index in step -/

/-- The entries are those of the rows, with their contents. -/
def InStep (shard : Shard Rest) : Prop :=
  shard.fts.Perm (shard.nodes.map NodeRow.entry)

/-- The statement inserts a name that a row has. -/
def Replaces (shard : Shard Rest) : Statement Rest → Prop
  | .insertOrReplace indexed _ => indexed.qualifiedName ∈ shard.nodes.map NodeRow.qualifiedName
  | .update _ _ => False
  | .delete _ => False

variable {shard : Shard Rest}

theorem foldl_nodesAd (removed : List (NodeRow Rest)) {fts kept : List Entry}
    (indexed : fts.Perm (removed.map NodeRow.entry ++ kept)) :
    (removed.foldl (fun fts old => nodesAd old fts) fts).Perm kept := by
  induction removed generalizing fts with
  | nil => exact indexed
  | cons old rest ih =>
      apply ih
      have erased := indexed.erase old.entry
      rw [List.map_cons, List.cons_append, List.erase_cons_head] at erased
      exact erased

theorem remove_inStep (inStep : InStep shard) (which : NodeRow Rest → Bool) :
    InStep (shard.remove which true) := by
  apply foldl_nodesAd
  rw [← List.map_append]
  exact inStep.trans ((List.filter_append_perm which shard.nodes).symm.map NodeRow.entry)

theorem append_inStep (inStep : InStep shard) (indexed : Indexed)
    (rest : Rest) (free : indexed.qualifiedName ∉ shard.nodes.map NodeRow.qualifiedName) :
    InStep (shard.append indexed rest free) := by
  change (shard.fts ++ [_]).Perm ((shard.nodes ++ [_]).map NodeRow.entry)
  rw [List.map_append]
  exact inStep.append_right _

/-! ### Updates -/

variable {change : NodeRow Rest → Indexed × Rest}

variable {shard after : Shard Rest}

variable {old : NodeRow Rest}

theorem updateRow_nodes (updated : updateRow change shard old = some after) :
    after.fts = nodesAu old ⟨old.id, (change old).1, (change old).2⟩ shard.fts ∧
      after.nodes = shard.nodes.map (fun row =>
        if row.id = old.id then ⟨old.id, (change old).1, (change old).2⟩ else row) := by
  unfold updateRow at updated
  dsimp only at updated
  split at updated
  · rw [Option.some.injEq] at updated
    rw [← updated]
    exact ⟨rfl, rfl⟩
  · cases updated

theorem updateRow_keeps {row : NodeRow Rest} (updated : updateRow change shard old = some after)
    (inside : row ∈ shard.nodes) (other : row.id ≠ old.id) : row ∈ after.nodes := by
  rw [(updateRow_nodes updated).2]
  exact List.mem_map.mpr ⟨row, inside, if_neg other⟩

theorem updateRow_inStep (updated : updateRow change shard old = some after)
    (inStep : InStep shard) (inside : old ∈ shard.nodes) : InStep after := by
  obtain ⟨before, behind, split⟩ := List.append_of_mem inside
  have ids := shard.ids
  rw [split, List.map_append, List.map_cons, List.nodup_middle, List.nodup_cons,
    ← List.map_append] at ids
  have others : ∀ row ∈ before ++ behind, row.id ≠ old.id := by
    intro row among same
    exact ids.1 (List.mem_map.mpr ⟨row, among, same⟩)
  have same : ∀ rows : List (NodeRow Rest), (∀ row ∈ rows, row ∈ before ++ behind) →
      rows.map (fun row => if row.id = old.id then
        (⟨old.id, (change old).1, (change old).2⟩ : NodeRow Rest) else row) = rows := by
    intro rows among
    refine (List.map_congr_left ?_).trans (List.map_id _)
    intro row member
    exact if_neg (others row (among row member))
  obtain ⟨entries, rows⟩ := updateRow_nodes updated
  unfold InStep at inStep ⊢
  rw [split, List.map_append, List.map_cons] at inStep
  have erased := (inStep.trans List.perm_middle).erase old.entry
  rw [List.erase_cons_head] at erased
  rw [entries, rows, split, List.map_append, List.map_cons, if_pos rfl,
    same before (fun row member => List.mem_append_left _ member),
    same behind (fun row member => List.mem_append_right _ member), List.map_append,
    List.map_cons]
  exact ((erased.append_right _).trans (List.perm_append_singleton _ _)).trans
    List.perm_middle.symm

/-- The rows still to be changed are untouched by the earlier changes. -/
theorem updateRows_inStep {rows : List (NodeRow Rest)}
    (updated : rows.foldlM (updateRow change) shard = some after) (inStep : InStep shard)
    (inside : ∀ row ∈ rows, row ∈ shard.nodes) (ids : (rows.map NodeRow.id).Nodup) :
    InStep after := by
  induction rows generalizing shard with
  | nil =>
      cases updated
      exact inStep
  | cons old rest ih =>
      rw [List.foldlM_cons] at updated
      obtain ⟨between, first, others⟩ := Option.bind_eq_some_iff.mp updated
      rw [List.map_cons, List.nodup_cons] at ids
      refine ih others (updateRow_inStep first inStep (inside old List.mem_cons_self)) ?_ ids.2
      intro row member
      refine updateRow_keeps first (inside row (List.mem_cons_of_mem _ member)) ?_
      intro same
      exact ids.1 (List.mem_map.mpr ⟨row, member, same⟩)

theorem update_inStep (inStep : InStep shard)
    (which : NodeRow Rest → Bool) (change : NodeRow Rest → Indexed × Rest) :
    InStep (update shard which change) := by
  unfold update
  cases updated : (shard.nodes.filter which).foldlM (updateRow change) shard with
  | none => exact inStep
  | some after =>
      refine updateRows_inStep updated inStep (fun row member => (List.mem_filter.mp member).1) ?_
      exact shard.ids.sublist (List.filter_sublist.map NodeRow.id)

/-! ### Replacing inserts -/

/-- The trigger of the replaced row is the only one that can be missed. -/
theorem insertOrReplace_inStep_iff (connection : Connection)
    (inStep : InStep shard) (indexed : Indexed) (rest : Rest) :
    InStep (insertOrReplace connection shard indexed rest) ↔
      recursiveTriggers connection = true ∨
        indexed.qualifiedName ∉ shard.nodes.map NodeRow.qualifiedName := by
  unfold insertOrReplace
  cases fires : recursiveTriggers connection with
  | true => exact iff_of_true (append_inStep (remove_inStep inStep _) _ _ _) (Or.inl rfl)
  | false =>
      rw [or_iff_right Bool.false_ne_true]
      constructor
      · intro after replaced
        obtain ⟨row, inside, same⟩ := List.mem_map.mp replaced
        have fewer : (shard.nodes.filter
            (fun row => !decide (row.qualifiedName = indexed.qualifiedName))).length <
              shard.nodes.length :=
          List.length_filter_lt_length_iff_exists.mpr ⟨row, inside, by simpa using same⟩
        have entries := inStep.length_eq
        have lengths := after.length_eq
        simp only [Shard.append, Shard.remove, nodesAi, List.length_append, List.length_map,
          List.length_singleton, Bool.false_eq_true, if_false] at entries lengths
        omega
      · intro free
        refine append_inStep ?_ indexed rest _
        have all : shard.nodes.filter
            (fun row => !decide (row.qualifiedName = indexed.qualifiedName)) = shard.nodes := by
          refine List.filter_eq_self.mpr ?_
          intro row inside
          have other : row.qualifiedName ≠ indexed.qualifiedName := by
            intro same
            exact free (List.mem_map.mpr ⟨row, inside, same⟩)
          simpa using other
        change shard.fts.Perm ((shard.nodes.filter _).map NodeRow.entry)
        rw [all]
        exact inStep

theorem execute_inStep_iff (connection : Connection)
    (inStep : InStep shard) (statement : Statement Rest) :
    InStep (execute connection shard statement) ↔
      recursiveTriggers connection = true ∨ ¬ Replaces shard statement := by
  cases statement with
  | insertOrReplace indexed rest => exact insertOrReplace_inStep_iff connection inStep indexed rest
  | update which change => exact iff_of_true (update_inStep inStep which change) (Or.inr id)
  | delete which => exact iff_of_true (remove_inStep inStep which) (Or.inr id)

/-- On a connection of the builder the index follows the nodes throughout a run
exactly when no statement of it inserts a name that a row already has. -/
theorem in_step_iff {start : Shard Rest} (inStep : InStep start)
    {history : List (Shard Rest × Statement Rest)} {final : Shard Rest}
    (run : Run (next applyPragmas) start history final) :
    Throughout InStep history final ↔
      Respects (fun shard statement => ¬ Replaces shard statement) history := by
  have off : ¬ recursiveTriggers applyPragmas = true := by decide
  refine run.throughout_iff_respects inStep (fun _ held => held) ?_ ?_
  · intro shard statement after before allowed taken
    cases taken
    exact (execute_inStep_iff applyPragmas before statement).mpr (Or.inr allowed)
  · intro shard statement after before taken good
    cases taken
    exact ((execute_inStep_iff applyPragmas before statement).mp good).resolve_left off

/-- A new shard. -/
def created : Shard Unit :=
  { nodes := []
    lastId := 0
    fts := []
    ids := List.nodup_nil
    issued := fun _ inside => absurd inside List.not_mem_nil
    names := List.nodup_nil }

theorem created_in_step : InStep created :=
  List.Perm.refl _

/-- What the writers insert for a function of a file. -/
def mainNode : Indexed :=
  { name := "main", qualifiedName := "n_0a1b", filePath := some "src/main.rs",
    signature := none, summary := none }

theorem first_insert_in_step :
    ∃ history final, Run (next applyPragmas) created history final ∧
      history.map Prod.snd = [.insertOrReplace mainNode ()] ∧ Throughout InStep history final := by
  have run : Run (next applyPragmas) created [(created, .insertOrReplace mainNode ())] _ :=
    Run.start.step rfl
  refine ⟨_, _, run, rfl, (in_step_iff created_in_step run).mpr ?_⟩
  intro taken member
  rw [List.mem_singleton.mp member]
  exact List.not_mem_nil

/-- A second insert of the node leaves its first entry behind. -/
theorem rebuilt_node_twice_indexed :
    ¬ ∀ (history : List (Shard Unit × Statement Unit)) (final : Shard Unit),
      Run (next applyPragmas) created history final → Throughout InStep history final := by
  intro always
  obtain ⟨history, final, run, _, tested⟩ := Run.of_trace (next applyPragmas) created
    [.insertOrReplace mainNode (), .insertOrReplace mainNode ()]
    (fun _ final => decide (final.nodes.length < final.fts.length)) (by decide)
  have same := (always history final run).2.length_eq
  rw [List.length_map] at same
  have more := of_decide_eq_true tested
  omega

end Mneme.Store.FullText
