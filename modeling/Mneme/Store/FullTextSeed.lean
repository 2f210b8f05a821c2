/-
The full-text index when the builder opens a Graph shard.

Whether the index is rebuilt is decided by a probe for one word.  An index that
answers the probe is taken for whole, however few rows it covers.
-/

import Mathlib.Data.List.Dedup
import Mneme.Library.Fallible
import Mneme.Store.FullText

namespace Mneme.Store.FullText

open Library

variable {Rest : Type}

/-! ### The calls on the connection -/

/-- The calls of `init_shard` and of `seed_nodes_fts`, in their order. -/
inductive InitCall where
  | connect
  | applyPragmas
  | schema
  | recordVersion
  | hasFts
  | nodeRows
  | probeHits
  | rebuild
deriving DecidableEq

abbrev DbError := String

/-- The calls that fail, each with its error. -/
abbrev Failures := InitCall → Option DbError

def attempt {Answer : Type} (failures : Failures) (call : InitCall) (answer : Answer) :
    Except DbError Answer :=
  match failures call with
  | some error => .error error
  | none => .ok answer

/-- `.unwrap_or(0)` -/
def unwrapOrZero : Except DbError Nat → Nat
  | .ok count => count
  | .error _ => 0

variable {failures : Failures}

theorem attempt_eq_ok {Answer : Type} {call : InitCall} {answer result : Answer} :
    attempt failures call answer = .ok result ↔ failures call = none ∧ answer = result := by
  unfold attempt
  cases failures call with
  | none =>
      rw [Except.ok.injEq]
      exact ⟨fun same => ⟨rfl, same⟩, fun both => both.2⟩
  | some error =>
      constructor
      · intro impossible
        cases impossible
      · intro impossible
        cases impossible.1

theorem unwrapOrZero_attempt (failures : Failures) (call : InitCall) (count : Nat) :
    unwrapOrZero (attempt failures call count) = 0 ↔ failures call ≠ none ∨ count = 0 := by
  unfold attempt
  cases failures call with
  | none => exact ⟨Or.inr, fun zero => zero.resolve_left (fun none => none rfl)⟩
  | some error => exact iff_of_true rfl (Or.inl (Option.some_ne_none error))

/-! ### Opening a shard -/

/-- The file of a Graph shard.  Before the schema is executed it may lack the
declaration of `nodes_fts`, and then it has no entries. -/
structure GraphFile (Rest : Type) where
  shard : Shard Rest
  declared : Bool
  undeclared : declared = false → shard.fts = []

namespace GraphFile

/-- `schema_sql`: every statement creates what is not there. -/
def executeSchema (file : GraphFile Rest) : GraphFile Rest :=
  { shard := file.shard, declared := true, undeclared := fun absent => Bool.noConfusion absent }

/-- `INSERT INTO nodes_fts(nodes_fts) VALUES('rebuild')` -/
def rebuild (file : GraphFile Rest) : GraphFile Rest :=
  { shard := { file.shard with fts := file.shard.nodes.map NodeRow.entry }
    declared := true
    undeclared := fun absent => Bool.noConfusion absent }

/-- `SELECT COUNT(*) FROM nodes_fts WHERE nodes_fts MATCH 'src'` -/
def probeHits (matchesSrc : Entry → Bool) (file : GraphFile Rest) : Nat :=
  ((file.shard.fts.filter matchesSrc).map Entry.rowid).dedup.length

theorem probeHits_eq_zero (matchesSrc : Entry → Bool) (file : GraphFile Rest) :
    file.probeHits matchesSrc = 0 ↔ ∀ entry ∈ file.shard.fts, matchesSrc entry = false := by
  unfold probeHits
  rw [List.length_eq_zero_iff, List.dedup_eq_nil, List.map_eq_nil_iff, List.filter_eq_nil_iff]
  simp only [Bool.not_eq_true]

/-- `seed_nodes_fts` -/
def seedNodesFts (failures : Failures) (matchesSrc : Entry → Bool) (file : GraphFile Rest) :
    Except DbError (GraphFile Rest) :=
  let hasFts := unwrapOrZero (attempt failures .hasFts (if file.declared then 1 else 0))
  if hasFts = 0 then .ok file
  else
    let nodeRows := unwrapOrZero (attempt failures .nodeRows file.shard.nodes.length)
    if nodeRows = 0 then .ok file
    else
      let probeHits := unwrapOrZero (attempt failures .probeHits (file.probeHits matchesSrc))
      if probeHits = 0 then attempt failures .rebuild file.rebuild
      else .ok file

end GraphFile

/-- `init_shard` for `DbLayer::Graph` -/
def initShard (failures : Failures) (matchesSrc : Entry → Bool) (file : GraphFile Rest) :
    Except DbError (GraphFile Rest) :=
  (attempt failures .connect ()).bind fun _ =>
    (attempt failures .applyPragmas ()).bind fun _ =>
      (attempt failures .schema file.executeSchema).bind fun file =>
        (attempt failures .recordVersion ()).bind fun _ =>
          file.seedNodesFts failures matchesSrc

/-! ### When the index is rebuilt -/

/-- The counts are read, there are rows, and the probe fails or finds nothing. -/
def Rebuilds (failures : Failures) (matchesSrc : Entry → Bool) (file : GraphFile Rest) : Prop :=
  failures .hasFts = none ∧ failures .nodeRows = none ∧ file.shard.nodes ≠ [] ∧
    (failures .probeHits ≠ none ∨ ∀ entry ∈ file.shard.fts, matchesSrc entry = false)

variable {file after : GraphFile Rest} {matchesSrc : Entry → Bool}

theorem seedNodesFts_rebuilds (declared : file.declared = true)
    (rebuilds : Rebuilds failures matchesSrc file)
    (seeded : file.seedNodesFts failures matchesSrc = .ok after) : after = file.rebuild := by
  obtain ⟨hasRead, rowsRead, rows, silent⟩ := rebuilds
  unfold GraphFile.seedNodesFts at seeded
  dsimp only at seeded
  rw [if_pos declared, if_neg, if_neg, if_pos] at seeded
  · exact ((Iff.mp attempt_eq_ok seeded).2).symm
  · rw [unwrapOrZero_attempt, GraphFile.probeHits_eq_zero]
    exact silent
  · rw [unwrapOrZero_attempt, List.length_eq_zero_iff]
    exact not_or.mpr ⟨fun fails => fails rowsRead, rows⟩
  · rw [unwrapOrZero_attempt]
    exact not_or.mpr ⟨fun fails => fails hasRead, Nat.one_ne_zero⟩

theorem seedNodesFts_keeps (declared : file.declared = true)
    (keeps : ¬ Rebuilds failures matchesSrc file)
    (seeded : file.seedNodesFts failures matchesSrc = .ok after) : after = file := by
  unfold GraphFile.seedNodesFts at seeded
  dsimp only at seeded
  rw [if_pos declared] at seeded
  split at seeded
  · exact (Except.ok.inj seeded).symm
  · rename_i hasFts
    rw [unwrapOrZero_attempt, not_or, not_not] at hasFts
    split at seeded
    · exact (Except.ok.inj seeded).symm
    · rename_i nodeRows
      rw [unwrapOrZero_attempt, not_or, not_not, List.length_eq_zero_iff] at nodeRows
      split at seeded
      · rename_i silent
        rw [unwrapOrZero_attempt, GraphFile.probeHits_eq_zero] at silent
        exact absurd ⟨hasFts.1, nodeRows.1, nodeRows.2, silent⟩ keeps
      · exact (Except.ok.inj seeded).symm

theorem initShard_seeds (opened : initShard failures matchesSrc file = .ok after) :
    file.executeSchema.seedNodesFts failures matchesSrc = .ok after := by
  unfold initShard at opened
  obtain ⟨_, _, opened⟩ := Iff.mp bind_eq_ok opened
  obtain ⟨_, _, opened⟩ := Iff.mp bind_eq_ok opened
  obtain ⟨created, schema, opened⟩ := Iff.mp bind_eq_ok opened
  obtain ⟨_, _, opened⟩ := Iff.mp bind_eq_ok opened
  rw [(Iff.mp attempt_eq_ok schema).2]
  exact opened

theorem initShard_shard (opened : initShard failures matchesSrc file = .ok after) :
    (Rebuilds failures matchesSrc file ∧ after.shard = file.rebuild.shard) ∨
      (¬ Rebuilds failures matchesSrc file ∧ after.shard = file.shard) := by
  have seeded := initShard_seeds opened
  have declared : file.executeSchema.declared = true := rfl
  by_cases rebuilds : Rebuilds failures matchesSrc file.executeSchema
  · left
    rw [seedNodesFts_rebuilds declared rebuilds seeded]
    exact ⟨rebuilds, rfl⟩
  · right
    rw [seedNodesFts_keeps declared rebuilds seeded]
    exact ⟨rebuilds, rfl⟩

/-- After the builder has opened a shard, the index holds the entries of the
rows exactly when it held them before or the probe had it rebuilt. -/
theorem initShard_inStep_iff (failures : Failures) (matchesSrc : Entry → Bool)
    {file after : GraphFile Rest} (opened : initShard failures matchesSrc file = .ok after) :
    InStep after.shard ↔ InStep file.shard ∨ Rebuilds failures matchesSrc file := by
  rcases initShard_shard opened with ⟨rebuilds, same⟩ | ⟨keeps, same⟩
  · rw [same]
    exact iff_of_true (List.Perm.refl _) (Or.inr rebuilds)
  · rw [same]
    exact ⟨Or.inl, fun before => before.resolve_right keeps⟩

/-! ### An index of some of the rows -/

/-- A column has the word `src`, between characters that are no letters or digits. -/
def columnMentionsSrc (column : String) : Bool :=
  ((column.toList.map Char.toLower).splitOnP (fun char => !char.isAlphanum)).contains "src".toList

def mentionsSrc (entry : Entry) : Bool :=
  columnMentionsSrc entry.indexed.name || columnMentionsSrc entry.indexed.qualifiedName ||
    entry.indexed.filePath.any columnMentionsSrc || entry.indexed.signature.any columnMentionsSrc ||
    entry.indexed.summary.any columnMentionsSrc

def helperNode : Indexed :=
  { name := "helper", qualifiedName := "n_2c3d", filePath := some "src/helper.rs",
    signature := none, summary := none }

/-- Two rows, with the entries that are given. -/
def twoRows (fts : List Entry) : GraphFile Unit :=
  { shard :=
      { nodes := [⟨1, mainNode, ()⟩, ⟨2, helperNode, ()⟩]
        lastId := 2
        fts := fts
        ids := by decide
        issued := by decide
        names := by decide }
    declared := true
    undeclared := fun absent => Bool.noConfusion absent }

/-- An index without entries is filled. -/
theorem unindexed_filled :
    initShard (fun _ => none) mentionsSrc (twoRows []) = .ok (twoRows []).rebuild ∧
      InStep (twoRows []).rebuild.shard := by
  have opened : initShard (fun _ => none) mentionsSrc (twoRows []) = .ok (twoRows []).rebuild := rfl
  refine ⟨opened, (initShard_inStep_iff (fun _ => none) mentionsSrc opened).mpr (Or.inr ?_)⟩
  exact ⟨rfl, rfl, List.cons_ne_nil _ _, Or.inr (fun _ indexed => absurd indexed List.not_mem_nil)⟩

/-- An index of the first row alone answers the probe and stays as it is. -/
theorem partial_stays :
    ∃ after, initShard (fun _ => none) mentionsSrc (twoRows [⟨1, mainNode⟩]) = .ok after ∧
      ¬ InStep after.shard := by
  refine ⟨twoRows [⟨1, mainNode⟩], rfl, ?_⟩
  intro inStep
  have counts := inStep.length_eq
  change 1 = 2 at counts
  omega

end Mneme.Store.FullText
