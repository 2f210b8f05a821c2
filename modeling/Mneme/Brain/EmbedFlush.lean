/-
What a crash in a flush leaves on disk.

Until the old file is removed the old state is found, and from the rename on the new
one; in between there is no file.
-/

import Mneme.Brain.EmbedMap

namespace Mneme.Brain.Embed

open Common Library Transition

/-- The disk after a crash behind so many operations of a flush. -/
def crashedFlush (store : EmbedStore) (count : Nat) : Disk :=
  afterCrash Disk.perform (flushOperations store.state store.disk) store.disk count

/-- The state that is found when the store is opened after the crash. -/
def recovered (store : EmbedStore) (count : Nat) : State :=
  openState (crashedFlush store count).index

/-- The old file is removed and the new one has not taken its name. -/
def BetweenFiles (store : EmbedStore) (count : Nat) : Prop :=
  .removeIndex ∈ (flushOperations store.state store.disk).take count ∧
    .rename ∉ (flushOperations store.state store.disk).take count

/-! ### The operations of a flush -/

theorem writeTemporary_plain (state : State) :
    ∀ operation ∈ writeTemporary state,
      operation ≠ .removeIndex ∧ operation ≠ .rename ∧
        ∀ disk : Disk, (disk.perform operation).index = disk.index := by
  intro operation member
  rcases List.mem_cons.mp member with rfl | inside
  · exact ⟨by decide, by decide, fun _ => rfl⟩
  · obtain ⟨piece, _, rfl⟩ := List.mem_map.mp inside
    exact ⟨DiskOperation.noConfusion, DiskOperation.noConfusion, fun _ => rfl⟩

theorem flushOperations_dirty {state : State} (dirty : state.dirty = true) (disk : Disk) :
    flushOperations state disk =
      writeTemporary state ++ ((if disk.index.isSome then [.removeIndex] else []) ++ [.rename]) := by
  unfold flushOperations
  rw [dirty]
  rfl

section Crash

variable {store : EmbedStore} {count : Nat}

/-- While the temporary file is written the index is the old one. -/
theorem crash_writing (dirty : store.state.dirty = true)
    (writing : count ≤ (writeTemporary store.state).length) :
    (crashedFlush store count).index = store.disk.index ∧ ¬ BetweenFiles store count := by
  have plain := writeTemporary_plain store.state
  unfold crashedFlush BetweenFiles
  rw [flushOperations_dirty dirty, afterCrash_append _ _ _ _ writing,
    List.take_append_of_le_length writing]
  refine ⟨afterCrash_frame Disk.index (fun operation member => (plain operation member).2.2)
    store.disk count, ?_⟩
  intro between
  exact (plain _ (List.mem_of_mem_take between.1)).1 rfl

/-- Once all operations are done the index is the new one. -/
theorem crash_done (dirty : store.state.dirty = true)
    (done : (flushOperations store.state store.disk).length ≤ count) :
    (crashedFlush store count).index = some (filePieces store.state).flatten ∧
      ¬ BetweenFiles store count := by
  unfold crashedFlush BetweenFiles afterCrash
  rw [List.take_of_length_le done, perform_flush dirty]
  refine ⟨rfl, ?_⟩
  intro between
  refine between.2 ?_
  rw [flushOperations_dirty dirty]
  simp

theorem crash_between (dirty : store.state.dirty = true) (old : store.disk.index.isSome = true)
    (removed : count = (writeTemporary store.state).length + 1) :
    (crashedFlush store count).index = none ∧ BetweenFiles store count := by
  have plain := writeTemporary_plain store.state
  have done : (flushOperations store.state store.disk).take count =
      writeTemporary store.state ++ [.removeIndex] := by
    rw [flushOperations_dirty dirty, if_pos old, removed, List.take_length_add_append]
    rfl
  unfold crashedFlush BetweenFiles afterCrash
  rw [done, List.foldl_append]
  refine ⟨rfl, by simp, ?_⟩
  intro renamed
  rcases List.mem_append.mp renamed with writing | last
  · exact (plain _ writing).2.1 rfl
  · cases List.mem_singleton.mp last

/-- A crash finds the old file, the new one, or none between them. -/
theorem crash_cases (store : EmbedStore) (count : Nat) :
    ((crashedFlush store count).index = store.disk.index ∧ ¬ BetweenFiles store count) ∨
      (store.state.dirty = true ∧
        (crashedFlush store count).index = some (filePieces store.state).flatten ∧
          ¬ BetweenFiles store count) ∨
      ((crashedFlush store count).index = none ∧ BetweenFiles store count) := by
  cases dirty : store.state.dirty with
  | false =>
      left
      unfold crashedFlush BetweenFiles afterCrash
      rw [flushOperations_clean dirty, List.take_nil]
      exact ⟨rfl, fun between => List.not_mem_nil between.1⟩
  | true =>
      rcases Nat.lt_or_ge (writeTemporary store.state).length count with after | writing
      · right
        rcases Nat.lt_or_ge count (flushOperations store.state store.disk).length with
          before | done
        · right
          rw [flushOperations_dirty dirty, List.length_append, List.length_append,
            List.length_singleton] at before
          split at before
          · rename_i old
            rw [List.length_singleton] at before
            exact crash_between dirty old (by omega)
          · rw [List.length_nil] at before
            omega
        · left
          exact ⟨rfl, crash_done dirty done⟩
      · left
        exact crash_writing dirty writing

end Crash

/-! ### What is recovered -/

/-- The state that a flush stores. -/
def flushedState (store : EmbedStore) : State :=
  (store.perform .flush).state

/-- Reopening gives the state flushed before or the new one, and no empty store in their
place. -/
def CrashAtomic (store : EmbedStore) (count : Nat) : Prop :=
  recovered store count = openState store.disk.index ∨ recovered store count = flushedState store

theorem default_eq_iff {rows : List Row} {state : State} (holds : Holds rows state)
    (clean : state.dirty = false) : State.default = state ↔ state.ids = [] := by
  constructor
  · intro same
    rw [← same]
    rfl
  · intro empty
    have none_ : rows = [] := by
      have ids := holds.ids
      rw [empty] at ids
      exact List.map_eq_nil_iff.mp ids.symm
    have vectors := holds.vectors
    rw [none_] at vectors
    cases state
    simp_all [State.default]

/-- In every store that calls lead to, a flush is crash-atomic at a point exactly when
the point is not between the two files, or one of the two states is empty. -/
theorem crashAtomic_iff {temporary : Option Bytes} {store : EmbedStore}
    (reachable : Reachable next (fresh temporary) store) (count : Nat) :
    CrashAtomic store count ↔
      ¬ BetweenFiles store count ∨ (openState store.disk.index).ids = [] ∨ store.state.ids = [] := by
  obtain ⟨history, run⟩ := reachable
  obtain ⟨current, saved, stands, _⟩ := stands_of_run run
  unfold CrashAtomic recovered
  rcases crash_cases store count with ⟨old, apart⟩ | ⟨_, new, apart⟩ | ⟨none_, between⟩
  · rw [old]
    exact ⟨fun _ => Or.inl apart, fun _ => Or.inl rfl⟩
  · rw [new, openState_written stands.state stands.fits]
    exact ⟨fun _ => Or.inl apart, fun _ => Or.inr rfl⟩
  · rw [none_]
    have old := default_eq_iff stands.file stands.clean
    have new := default_eq_iff (stands.state.dirty false) rfl
    have opened : openState none = State.default := rfl
    rw [opened, old]
    unfold flushedState EmbedStore.perform
    rw [new]
    constructor
    · intro empty
      exact Or.inr empty
    · intro condition
      exact condition.resolve_left (fun apart => apart between)

/-! ### A second flush -/

theorem upsert_disk (store : EmbedStore) (node : NodeId) (vector : List F32) :
    (store.perform (.upsert node vector)).disk = store.disk := rfl

theorem flush_disk {store : EmbedStore} (dirty : store.state.dirty = true) :
    (store.perform .flush).disk =
      { index := some (filePieces store.state).flatten, temporary := none } :=
  perform_flush dirty store.disk

def onceFlushed : EmbedStore :=
  ((fresh none).perform (.upsert 7 ones)).perform .flush

def secondPut : EmbedStore :=
  onceFlushed.perform (.upsert 8 ones)

theorem onceFlushed_run : ∃ history, Run next (fresh none) history onceFlushed := by
  have first : next (fresh none) (.upsert 7 ones) = some ((fresh none).perform (.upsert 7 ones)) :=
    next_of_fits (by decide +kernel)
  have second : next ((fresh none).perform (.upsert 7 ones)) .flush = some onceFlushed :=
    next_of_fits (by decide +kernel)
  exact ⟨_, (Run.start.step first).step second⟩

theorem secondPut_reachable : Reachable next (fresh none) secondPut := by
  have third : next onceFlushed (.upsert 8 ones) = some secondPut :=
    next_of_fits (by decide +kernel)
  exact Reachable.step onceFlushed_run third

/-- Nothing is done to the files before the first operation. -/
theorem secondPut_untouched : CrashAtomic secondPut 0 :=
  (crashAtomic_iff secondPut_reachable 0).mpr
    (Or.inl (fun between => List.not_mem_nil between.1))

/-- The state flushed before is there until the flush begins. -/
theorem secondPut_old : (openState secondPut.disk.index).ids = [7] := by
  obtain ⟨history, run⟩ := onceFlushed_run
  obtain ⟨current, saved, stands, _⟩ := stands_of_run run
  have same : onceFlushed.state = openState secondPut.disk.index := stands.flushed rfl
  rw [← same]
  decide +kernel

theorem secondPut_index : secondPut.disk.index.isSome = true := by
  have dirty : ((fresh none).perform (.upsert 7 ones)).state.dirty = true := by decide +kernel
  unfold secondPut onceFlushed
  rw [upsert_disk, flush_disk dirty]
  rfl

theorem secondPut_lost : ¬ ∀ (store : EmbedStore) (count : Nat),
    Reachable next (fresh none) store → CrashAtomic store count := by
  intro always
  have atomic := always secondPut ((writeTemporary secondPut.state).length + 1) secondPut_reachable
  have dirty : secondPut.state.dirty = true := by decide +kernel
  have removed := (crash_between dirty secondPut_index rfl).1
  have new : (flushedState secondPut).ids = [7, 8] := by decide +kernel
  unfold CrashAtomic recovered at atomic
  rw [removed] at atomic
  rcases atomic with old | stored
  · have ids := congrArg State.ids old
    rw [secondPut_old] at ids
    cases ids
  · have ids := congrArg State.ids stored
    rw [new] at ids
    cases ids

end Mneme.Brain.Embed
