/-
Snapshots and restores of one project through one store.

A shard is read and written through connections the store keeps: the writer
task of the layer and the layer's read pool, both opened at the first use and
kept for good.  Snapshot and restore work on the files behind their backs.
-/

import Mathlib.Tactic.Cases
import Mneme.Common.Storage
import Mneme.Library.Files
import Mneme.Library.Run

namespace Mneme.Store

open Common Library.Files Transition

/-- The rendering of a timestamp as a directory name, to the second. -/
abbrev SnapshotId := Nat

def SnapshotId.ofMillis (now : Nat) : SnapshotId := now / 1000

variable {Contents : Type}

/-- The database files of a snapshot directory. -/
abbrev SnapshotDir (Contents : Type) := DbLayer → Option Contents

/-- `taken` and `expected` are history: what each layer held at each snapshot
call that returned an id, and what a query of each layer should see. -/
structure Shelf (Contents : Type) where
  disk : Disk DbLayer Contents
  writer : DbLayer → Option Inode
  readers : DbLayer → Option (List Inode)
  dirs : SnapshotId → Option (SnapshotDir Contents)
  taken : List (SnapshotId × (DbLayer → Contents))
  expected : Option (DbLayer → Contents)

inductive ShelfEvent (Contents : Type) where
  /-- A write, with what its statement makes of the contents. -/
  | write (layer : DbLayer) (change : Contents → Contents)
  /-- The first query of a layer opens its read pool. -/
  | query (layer : DbLayer)
  /-- The pool replaces one of its connections. -/
  | recycle (layer : DbLayer) (index : Nat)
  | snapshot (now : Nat)
  /-- The backup fails after some layers, and may leave a partial file. -/
  | snapshotFailed (now count : Nat) (leftover : Option Contents)
  /-- Restore the snapshot that the numbered call returned. -/
  | restore (call : Nat)
  | restoreMissing (id : SnapshotId)
  /-- The restore fails after some layers.  The next layer may be renamed away
  already, and may have been copied in part. -/
  | restoreFailed (call count : Nat) (leftover : Option (Option Contents))

section Lifecycle

variable (blank : Contents) (poolSize : Nat)

/-- One round of the loop in `snapshot`. -/
def backupLayer (disk : Disk DbLayer Contents) (dir : SnapshotDir Contents) (layer : DbLayer) :
    SnapshotDir Contents :=
  match disk.files layer with
  | none => dir
  | some inode => Function.update dir layer (some (disk.contents inode))

def backupLayers (disk : Disk DbLayer Contents) (layers : List DbLayer)
    (dir : SnapshotDir Contents) : SnapshotDir Contents :=
  layers.foldl (backupLayer disk) dir

/-- One round of the loop in `restore`: the file is renamed and the saved one
copied in its place.  A layer the snapshot does not have is skipped. -/
def restoreLayer (dir : SnapshotDir Contents) (disk : Disk DbLayer Contents) (layer : DbLayer) :
    Disk DbLayer Contents :=
  match dir layer with
  | none => disk
  | some contents => disk.install layer contents

def restoreLayers (dir : SnapshotDir Contents) (layers : List DbLayer)
    (disk : Disk DbLayer Contents) : Disk DbLayer Contents :=
  layers.foldl (restoreLayer dir) disk

/-- The layer the failed restore was at. -/
def breakLayer (dir : SnapshotDir Contents) (leftover : Option (Option Contents))
    (disk : Disk DbLayer Contents) (layer : DbLayer) : Disk DbLayer Contents :=
  match dir layer, leftover with
  | some _, some none => disk.remove layer
  | some _, some (some contents) => (disk.remove layer).install layer contents
  | _, _ => disk

namespace Shelf

/-- A store opened on a disk. -/
def opened (disk : Disk DbLayer Contents)
    (dirs : SnapshotId → Option (SnapshotDir Contents)) : Shelf Contents :=
  { disk := disk
    writer := fun _ => none
    readers := fun _ => none
    dirs := dirs
    taken := []
    expected := some (disk.seen blank) }

/-- The connection of the writer task. -/
def connect (state : Shelf Contents) (layer : DbLayer) : Disk DbLayer Contents × Inode :=
  match state.writer layer with
  | some inode => (state.disk, inode)
  | none => state.disk.openFile blank layer

def write (state : Shelf Contents) (layer : DbLayer) (change : Contents → Contents) :
    Shelf Contents :=
  let (disk, inode) := state.connect blank layer
  { state with
    disk := disk.modify inode change
    writer := Function.update state.writer layer (some inode)
    expected := state.expected.map (fun expected =>
      Function.update expected layer (change (expected layer))) }

def query (state : Shelf Contents) (layer : DbLayer) : Shelf Contents :=
  match state.readers layer with
  | some _ => state
  | none =>
      let (disk, inode) := state.disk.openFile blank layer
      { state with
        disk := disk
        readers := Function.update state.readers layer (some (List.replicate poolSize inode)) }

def recycle (state : Shelf Contents) (layer : DbLayer) (index : Nat) : Shelf Contents :=
  match state.readers layer with
  | none => state
  | some pool =>
      let (disk, inode) := state.disk.openFile blank layer
      { state with
        disk := disk
        readers := Function.update state.readers layer (some (pool.set index inode)) }

/-- `create_dir_all`: an existing directory of that name is used as it is. -/
def dirAt (state : Shelf Contents) (id : SnapshotId) : SnapshotDir Contents :=
  (state.dirs id).getD (fun _ => none)

def putDir (state : Shelf Contents) (id : SnapshotId) (dir : SnapshotDir Contents) :
    Shelf Contents :=
  { state with dirs := Function.update state.dirs id (some dir) }

def snapshot (state : Shelf Contents) (now : Nat) : Shelf Contents :=
  let id := SnapshotId.ofMillis now
  { state.putDir id (backupLayers state.disk DbLayer.allPerProject (state.dirAt id)) with
    taken := state.taken ++ [(id, state.expected.getD (state.disk.seen blank))] }

def snapshotFailed (state : Shelf Contents) (now count : Nat) (leftover : Option Contents) :
    Shelf Contents :=
  let id := SnapshotId.ofMillis now
  let copied := backupLayers state.disk (DbLayer.allPerProject.take count) (state.dirAt id)
  match DbLayer.allPerProject[count]?, leftover with
  | some layer, some contents => state.putDir id (Function.update copied layer (some contents))
  | _, _ => state.putDir id copied

def restore (state : Shelf Contents) (dir : SnapshotDir Contents) (saved : DbLayer → Contents) :
    Shelf Contents :=
  { state with
    disk := restoreLayers dir DbLayer.allPerProject state.disk
    expected := some saved }

/-- What the layers should hold is open until the next restore succeeds. -/
def restoreFailed (state : Shelf Contents) (dir : SnapshotDir Contents) (count : Nat)
    (leftover : Option (Option Contents)) : Shelf Contents :=
  let restored := restoreLayers dir (DbLayer.allPerProject.take count) state.disk
  { state with
    disk :=
      match DbLayer.allPerProject[count]? with
      | some layer => breakLayer dir leftover restored layer
      | none => restored
    expected := none }

def next (state : Shelf Contents) : ShelfEvent Contents → Option (Shelf Contents)
  | .write layer change => some (state.write blank layer change)
  | .query layer => some (state.query blank poolSize layer)
  | .recycle layer index => some (state.recycle blank layer index)
  | .snapshot now => some (state.snapshot blank now)
  | .snapshotFailed now count leftover => some (state.snapshotFailed now count leftover)
  | .restore call =>
      match state.taken[call]? with
      | none => none
      | some (id, saved) =>
          match state.dirs id with
          | none => none
          | some dir => some (state.restore dir saved)
  | .restoreMissing id =>
      match state.dirs id with
      | none => some state
      | some _ => none
  | .restoreFailed call count leftover =>
      match state.taken[call]? with
      | none => none
      | some (id, _) =>
          match state.dirs id with
          | none => none
          | some dir => some (state.restoreFailed dir count leftover)

/-- What a query of the layer may see: any connection of its pool may serve it. -/
def Sees (state : Shelf Contents) (layer : DbLayer) (contents : Contents) : Prop :=
  match state.readers layer with
  | none => contents = state.disk.seen blank layer
  | some pool => ∃ inode, inode ∈ pool ∧ contents = state.disk.contents inode

/-- Every query sees what it should, and every id still names its own state. -/
structure Faithful (state : Shelf Contents) : Prop where
  queries : ∀ expected, state.expected = some expected →
    ∀ layer, layer ∈ DbLayer.allPerProject →
      ∀ contents, state.Sees blank layer contents → contents = expected layer
  snapshots : ∀ id saved, (id, saved) ∈ state.taken → ∃ dir, state.dirs id = some dir ∧
    ∀ layer, layer ∈ DbLayer.allPerProject → (dir layer).getD blank = saved layer

/-- The store has no connection to a layer the snapshot brings back, and a
layer the snapshot does not have is empty now. -/
def Restorable (state : Shelf Contents) (dir : SnapshotDir Contents) : Prop :=
  ∀ layer, layer ∈ DbLayer.allPerProject →
    match dir layer with
    | some _ => state.writer layer = none ∧ state.readers layer = none
    | none => state.disk.seen blank layer = blank

def Careful (state : Shelf Contents) : ShelfEvent Contents → Prop
  | .snapshot now => state.dirs (SnapshotId.ofMillis now) = none
  | .snapshotFailed now _ _ => state.dirs (SnapshotId.ofMillis now) = none
  | .restore call => ∀ id saved dir, state.taken[call]? = some (id, saved) →
      state.dirs id = some dir → state.Restorable blank dir
  | .restoreFailed call _ _ => ∀ id saved dir, state.taken[call]? = some (id, saved) →
      state.dirs id = some dir → state.Restorable blank dir
  | _ => True

end Shelf

/-! ### The loops over the layers -/

theorem backupLayers_apply (disk : Disk DbLayer Contents) (layers : List DbLayer)
    (dir : SnapshotDir Contents) (layer : DbLayer) :
    backupLayers disk layers dir layer =
      if layer ∈ layers then (disk.files layer).elim (dir layer) (fun inode =>
        some (disk.contents inode))
      else dir layer := by
  unfold backupLayers
  induction layers generalizing dir with
  | nil => rfl
  | cons head rest ih =>
      rw [List.foldl_cons, ih]
      have other : layer ≠ head → backupLayer disk dir head layer = dir layer := by
        intro different
        unfold backupLayer
        cases disk.files head with
        | none => rfl
        | some inode => exact Function.update_of_ne different _ _
      have here : layer = head → backupLayer disk dir head layer =
          (disk.files layer).elim (dir layer) (fun inode => some (disk.contents inode)) := by
        intro same
        subst same
        unfold backupLayer
        cases disk.files layer with
        | none => rfl
        | some inode => exact Function.update_self _ _ _
      by_cases same : layer = head
      · rw [here same, if_pos (List.mem_cons.mpr (Or.inl same))]
        cases disk.files layer <;> exact ite_self _
      · rw [other same]
        simp only [List.mem_cons, same, false_or]

/-- A fresh snapshot directory shows what the files showed. -/
theorem backupLayers_getD (disk : Disk DbLayer Contents) (layer : DbLayer)
    (member : layer ∈ DbLayer.allPerProject) :
    (backupLayers disk DbLayer.allPerProject (fun _ => none) layer).getD blank =
      disk.seen blank layer := by
  rw [backupLayers_apply, if_pos member]
  cases leads : disk.files layer with
  | none => exact (Disk.seen_of_missing leads).symm
  | some inode => exact (Disk.seen_of_file leads).symm

theorem seen_restoreLayers (dir : SnapshotDir Contents) (layers : List DbLayer)
    (disk : Disk DbLayer Contents) (layer : DbLayer) :
    (restoreLayers dir layers disk).seen blank layer =
      if layer ∈ layers then (dir layer).getD (disk.seen blank layer)
      else disk.seen blank layer := by
  unfold restoreLayers
  induction layers generalizing disk with
  | nil => rfl
  | cons head rest ih =>
      rw [List.foldl_cons, ih]
      by_cases same : layer = head
      · subst same
        rw [if_pos List.mem_cons_self]
        unfold restoreLayer
        cases dir layer with
        | none => exact ite_self _
        | some contents =>
            rw [Disk.seen_install_self]
            exact ite_self _
      · have kept : (restoreLayer dir disk head).seen blank layer = disk.seen blank layer := by
          unfold restoreLayer
          cases dir head with
          | none => rfl
          | some contents => exact Disk.seen_install_other same contents
        rw [kept]
        simp only [List.mem_cons, same, false_or]

theorem restoreLayers_files (dir : SnapshotDir Contents) (layers : List DbLayer)
    (disk : Disk DbLayer Contents) {layer : DbLayer} (kept : layer ∈ layers → dir layer = none) :
    (restoreLayers dir layers disk).files layer = disk.files layer := by
  unfold restoreLayers
  induction layers generalizing disk with
  | nil => rfl
  | cons head rest ih =>
      rw [List.foldl_cons, ih _ (fun member => kept (List.mem_cons_of_mem _ member))]
      unfold restoreLayer
      cases saved : dir head with
      | none => rfl
      | some contents =>
          have different : layer ≠ head := by
            intro same
            subst same
            rw [kept List.mem_cons_self] at saved
            cases saved
          exact Disk.install_files_other different contents

end Lifecycle

end Mneme.Store
