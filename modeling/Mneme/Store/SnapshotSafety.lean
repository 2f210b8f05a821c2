/-
When a restore brings back what its snapshot saw.

The connections of the store are current while each leads to the file that its
layer's name leads to.  A restore moves the names, so it may only be made for
layers the store has not opened yet.
-/

import Mneme.Store.Lifecycle

namespace Mneme.Store

open Common Library.Files Transition

variable {Contents : Type} {blank : Contents} {poolSize : Nat}

namespace Shelf

structure Coherent (blank : Contents) (state : Shelf Contents) : Prop where
  writer : ∀ layer inode, state.writer layer = some inode → state.disk.files layer = some inode
  readers : ∀ layer pool inode, state.readers layer = some pool → inode ∈ pool →
    state.disk.files layer = some inode
  current : ∀ expected, state.expected = some expected →
    ∀ layer, layer ∈ DbLayer.allPerProject → state.disk.seen blank layer = expected layer
  snapshots : ∀ id saved, (id, saved) ∈ state.taken → ∃ dir, state.dirs id = some dir ∧
    ∀ layer, layer ∈ DbLayer.allPerProject → (dir layer).getD blank = saved layer

theorem opened_coherent (disk : Disk DbLayer Contents)
    (dirs : SnapshotId → Option (SnapshotDir Contents)) :
    Coherent blank (opened blank disk dirs) := by
  constructor
  · intro layer inode impossible
    cases impossible
  · intro layer pool inode impossible
    cases impossible
  · intro expected same layer _
    rw [← Option.some.inj same]
    rfl
  · intro id saved member
    exact absurd member List.not_mem_nil

variable {state : Shelf Contents}

theorem faithful_of_coherent (coherent : Coherent blank state) : Faithful blank state := by
  refine ⟨?_, coherent.snapshots⟩
  intro expected same layer member contents sees
  have current := coherent.current expected same layer member
  unfold Sees at sees
  split at sees
  · rw [sees, current]
  · next pool opened =>
      obtain ⟨inode, inPool, read⟩ := sees
      rw [read, ← Disk.seen_of_file (coherent.readers layer pool inode opened inPool), current]

/-- The writer's connection leads to the file of its layer. -/
theorem connect_spec (coherent : Coherent blank state) (layer : DbLayer) :
    (state.connect blank layer).1.files layer = some (state.connect blank layer).2 ∧
      (∀ other inode, state.disk.files other = some inode →
        (state.connect blank layer).1.files other = some inode) ∧
      ∀ other, (state.connect blank layer).1.seen blank other = state.disk.seen blank other := by
  unfold connect
  cases held : state.writer layer with
  | some inode => exact ⟨coherent.writer layer inode held, fun _ _ leads => leads, fun _ => rfl⟩
  | none =>
      exact ⟨Disk.openFile_files_self, fun _ _ leads => Disk.openFile_files leads,
        fun _ => Disk.seen_openFile⟩

theorem write_coherent (coherent : Coherent blank state)
    (layer : DbLayer) (change : Contents → Contents) :
    Coherent blank (state.write blank layer change) := by
  obtain ⟨leads, kept, same⟩ := connect_spec coherent layer
  constructor
  · intro other inode held
    by_cases here : other = layer
    · subst here
      change Function.update state.writer other _ other = _ at held
      rw [Function.update_self] at held
      rw [← held]
      exact leads
    · change Function.update state.writer layer _ other = _ at held
      rw [Function.update_of_ne here] at held
      exact kept other inode (coherent.writer other inode held)
  · intro other pool inode held member
    exact kept other inode (coherent.readers other pool inode held member)
  · intro expected awaited other member
    obtain ⟨before, was, rfl⟩ := Option.map_eq_some_iff.mp awaited
    have current := coherent.current before was
    change ((state.connect blank layer).1.modify (state.connect blank layer).2 change).seen
      blank other = _
    rw [Disk.seen_modify leads, same, same]
    by_cases here : other = layer
    · subst here
      rw [if_pos rfl, Function.update_self, current other member]
    · rw [if_neg here, Function.update_of_ne here, current other member]
  · exact coherent.snapshots

/-- A pool that gets connections to the file of its layer. -/
theorem readers_coherent (coherent : Coherent blank state) (layer : DbLayer) (pool : List Inode)
    (leads : ∀ inode, inode ∈ pool →
      (state.disk.openFile blank layer).1.files layer = some inode) :
    Coherent blank { state with
      disk := (state.disk.openFile blank layer).1
      readers := Function.update state.readers layer (some pool) } := by
  constructor
  · intro other inode held
    exact Disk.openFile_files (coherent.writer other inode held)
  · intro other inPool inode held member
    by_cases here : other = layer
    · subst here
      change Function.update state.readers other _ other = _ at held
      rw [Function.update_self] at held
      cases held
      exact leads inode member
    · change Function.update state.readers layer _ other = _ at held
      rw [Function.update_of_ne here] at held
      exact Disk.openFile_files (coherent.readers other inPool inode held member)
  · intro expected same other member
    rw [← coherent.current expected same other member]
    exact Disk.seen_openFile
  · exact coherent.snapshots

theorem query_coherent (coherent : Coherent blank state) (layer : DbLayer) :
    Coherent blank (state.query blank poolSize layer) := by
  unfold query
  split
  · exact coherent
  · apply readers_coherent coherent
    intro inode member
    rw [List.eq_of_mem_replicate member]
    exact Disk.openFile_files_self

theorem recycle_coherent (coherent : Coherent blank state) (layer : DbLayer) (index : Nat) :
    Coherent blank (state.recycle blank layer index) := by
  unfold recycle
  split
  · exact coherent
  · next pool opened =>
      apply readers_coherent coherent
      intro inode member
      rcases List.mem_or_eq_of_mem_set member with old | new
      · exact Disk.openFile_files (coherent.readers layer pool inode opened old)
      · rw [new]
        exact Disk.openFile_files_self

/-- A directory nobody was given the id of may change. -/
theorem putDir_coherent (coherent : Coherent blank state)
    {id : SnapshotId} (unused : state.dirs id = none) (dir : SnapshotDir Contents) :
    Coherent blank (state.putDir id dir) := by
  refine { coherent with snapshots := ?_ }
  intro other saved member
  obtain ⟨held, found, same⟩ := coherent.snapshots other saved member
  have different : other ≠ id := by
    intro equal
    rw [equal, unused] at found
    cases found
  exact ⟨held, (Function.update_of_ne different _ _).trans found, same⟩

theorem snapshot_coherent (coherent : Coherent blank state) {now : Nat}
    (unused : state.dirs (SnapshotId.ofMillis now) = none) :
    Coherent blank (state.snapshot blank now) := by
  have stored := putDir_coherent coherent unused
    (backupLayers state.disk DbLayer.allPerProject (state.dirAt (SnapshotId.ofMillis now)))
  refine { stored with snapshots := ?_ }
  intro id saved member
  rcases List.mem_append.mp member with old | new
  · exact stored.snapshots id saved old
  · cases List.mem_singleton.mp new
    refine ⟨_, Function.update_self _ _ _, ?_⟩
    intro layer inProject
    have fresh : state.dirAt (SnapshotId.ofMillis now) = fun _ => none := by
      unfold dirAt
      rw [unused]
      rfl
    rw [fresh, backupLayers_getD blank state.disk layer inProject]
    cases awaited : state.expected with
    | none => rfl
    | some expected => exact coherent.current expected awaited layer inProject

theorem snapshotFailed_coherent (coherent : Coherent blank state)
    {now : Nat} (unused : state.dirs (SnapshotId.ofMillis now) = none) (count : Nat)
    (leftover : Option Contents) : Coherent blank (state.snapshotFailed now count leftover) := by
  unfold snapshotFailed
  dsimp only
  split <;> exact putDir_coherent coherent unused _

variable {dir : SnapshotDir Contents}

/-- A connection leads to no layer the snapshot brings back. -/
theorem restorable_none {layer : DbLayer}
    (restorable : state.Restorable blank dir) (member : layer ∈ DbLayer.allPerProject)
    (inUse : state.writer layer ≠ none ∨ state.readers layer ≠ none) : dir layer = none := by
  have allowed := restorable layer member
  cases saved : dir layer with
  | none => rfl
  | some contents =>
      rw [saved] at allowed
      rcases inUse with writing | reading
      · exact absurd allowed.1 writing
      · exact absurd allowed.2 reading

/-- Moving the names of layers the store has not opened disturbs no connection. -/
theorem connections_kept (coherent : Coherent blank state) {disk : Disk DbLayer Contents}
    (kept : ∀ layer, state.writer layer ≠ none ∨ state.readers layer ≠ none →
      disk.files layer = state.disk.files layer) :
    (∀ layer inode, state.writer layer = some inode → disk.files layer = some inode) ∧
      ∀ layer pool inode, state.readers layer = some pool → inode ∈ pool →
        disk.files layer = some inode := by
  constructor
  · intro layer inode held
    rw [← coherent.writer layer inode held]
    apply kept layer
    rw [held]
    exact Or.inl (Option.some_ne_none inode)
  · intro layer pool inode held inPool
    rw [← coherent.readers layer pool inode held inPool]
    apply kept layer
    rw [held]
    exact Or.inr (Option.some_ne_none pool)

theorem restore_coherent (coherent : Coherent blank state)
    {id : SnapshotId} {saved : DbLayer → Contents}
    (member : (id, saved) ∈ state.taken) (found : state.dirs id = some dir)
    (restorable : state.Restorable blank dir) : Coherent blank (state.restore dir saved) := by
  have kept : ∀ layer, state.writer layer ≠ none ∨ state.readers layer ≠ none →
      (restoreLayers dir DbLayer.allPerProject state.disk).files layer =
        state.disk.files layer := fun layer inUse =>
    restoreLayers_files dir _ _ (fun inProject => restorable_none restorable inProject inUse)
  obtain ⟨writing, reading⟩ := connections_kept coherent kept
  refine ⟨writing, reading, ?_, coherent.snapshots⟩
  intro expected same layer inProject
  cases same
  obtain ⟨stored, there, holds⟩ := coherent.snapshots id saved member
  rw [found] at there
  cases there
  change (restoreLayers dir DbLayer.allPerProject state.disk).seen blank layer = _
  rw [seen_restoreLayers, if_pos inProject, ← holds layer inProject]
  have allowed := restorable layer inProject
  cases present : dir layer with
  | some contents => rfl
  | none =>
      rw [present] at allowed
      exact allowed

theorem breakLayer_files (dir : SnapshotDir Contents) (leftover : Option (Option Contents))
    (disk : Disk DbLayer Contents) {layer other : DbLayer}
    (kept : other = layer → dir layer = none) :
    (breakLayer dir leftover disk layer).files other = disk.files other := by
  unfold breakLayer
  have different : ∀ {contents}, dir layer = some contents → other ≠ layer := by
    intro contents present same
    rw [kept same] at present
    cases present
  split
  · next present => exact Function.update_of_ne (different present) _ _
  · next present =>
      exact (Disk.install_files_other (different present) _).trans
        (Function.update_of_ne (different present) _ _)
  · rfl

theorem restoreFailed_coherent (coherent : Coherent blank state)
    (restorable : state.Restorable blank dir) (count : Nat) (leftover : Option (Option Contents)) :
    Coherent blank (state.restoreFailed dir count leftover) := by
  have kept : ∀ layer, state.writer layer ≠ none ∨ state.readers layer ≠ none →
      (state.restoreFailed dir count leftover).disk.files layer =
        state.disk.files layer := by
    intro layer inUse
    have skipped := fun inProject => restorable_none restorable inProject inUse
    have prefixed := restoreLayers_files dir (DbLayer.allPerProject.take count) state.disk
      (fun taken => skipped (List.mem_of_mem_take taken))
    unfold restoreFailed
    dsimp only
    split
    · next broken at_ =>
        rw [breakLayer_files dir leftover _ _, prefixed]
        intro same
        rw [← same]
        apply skipped
        rw [same]
        exact List.mem_of_getElem? at_
    · exact prefixed
  obtain ⟨writing, reading⟩ := connections_kept coherent kept
  refine ⟨writing, reading, ?_, coherent.snapshots⟩
  intro expected impossible
  cases impossible

theorem step_coherent {state after : Shelf Contents} {event : ShelfEvent Contents}
    (coherent : Coherent blank state) (careful : state.Careful blank event)
    (step : state.next blank poolSize event = some after) : Coherent blank after := by
  cases event with
  | write layer change =>
      cases step
      exact write_coherent coherent layer change
  | query layer =>
      cases step
      exact query_coherent coherent layer
  | recycle layer index =>
      cases step
      exact recycle_coherent coherent layer index
  | snapshot now =>
      cases step
      exact snapshot_coherent coherent careful
  | snapshotFailed now count leftover =>
      cases step
      exact snapshotFailed_coherent coherent careful count leftover
  | restore call =>
      simp only [next] at step
      split at step
      · cases step
      · next id saved taken =>
          split at step
          · cases step
          · next dir found =>
              cases step
              exact restore_coherent coherent (List.mem_of_getElem? taken) found
                (careful id saved dir taken found)
  | restoreMissing id =>
      simp only [next] at step
      split at step
      · cases step
        exact coherent
      · cases step
  | restoreFailed call count leftover =>
      simp only [next] at step
      split at step
      · cases step
      · next id saved taken =>
          split at step
          · cases step
          · next dir found =>
              cases step
              exact restoreFailed_coherent coherent (careful id saved dir taken found) count leftover

def builtDisk : Disk DbLayer (List Nat) :=
  (Disk.empty []).install .graph [1]

end Shelf

end Mneme.Store
