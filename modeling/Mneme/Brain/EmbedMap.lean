/-
The embedding store is a persistent map.

A state stands for a list of rows with distinct nodes.  Each call does to the rows what
it does to a map, and the file holds the rows one after the other.
-/

import Mathlib.Data.List.InsertIdx
import Mneme.Brain.EmbedStore
import Mneme.Library.Fallible
import Mneme.Library.Run

namespace Mneme.Brain.Embed

open Common Library Transition

abbrev Row := NodeId × List F32

/-- The state is these rows, laid end to end. -/
structure Holds (rows : List Row) (state : State) : Prop where
  ids : state.ids = rows.map Prod.fst
  vectors : state.vectors = (rows.map Prod.snd).flatten
  even : ∀ row ∈ rows.map Prod.snd, row.length = embeddingDim
  distinct : (rows.map Prod.fst).Nodup

/-! ### The state as rows -/

section Rows

variable {rows : List Row} {state : State}

theorem Holds.dirty (holds : Holds rows state) (dirty : Bool) : Holds rows { state with dirty } :=
  ⟨holds.ids, holds.vectors, holds.even, holds.distinct⟩

theorem Holds.flat (holds : Holds rows state) :
    state.vectors.length = state.ids.length * embeddingDim := by
  rw [holds.vectors, holds.ids, Rows.flatten_length holds.even, List.length_map, List.length_map]

theorem default_holds : Holds [] State.default :=
  ⟨rfl, rfl, fun _ member => absurd member List.not_mem_nil, List.nodup_nil⟩

/-- What is read for a node is the vector of its row. -/
theorem Holds.vectorOf (holds : Holds rows state) (node : NodeId) :
    vectorOf state node = rows.lookup node := by
  unfold Embed.vectorOf
  rw [Rows.lookup_eq_position, holds.ids, holds.vectors]
  cases found : Rows.position (rows.map Prod.fst) node with
  | none => rfl
  | some index =>
      have within : index < (rows.map Prod.snd).length := by
        have bound := Rows.position_lt found
        rw [List.length_map] at bound ⊢
        exact bound
      rw [Option.map_some, Option.bind_some, Rows.rowAt_flatten holds.even within,
        List.getElem?_eq_getElem within]

theorem Holds.put (holds : Holds rows state) (node : NodeId) {vector : List F32}
    (length : vector.length = embeddingDim) :
    Holds (Rows.putRow rows node vector) (put state node vector) := by
  have distinct := Rows.putRow_nodup holds.distinct node vector
  have even : ∀ row ∈ (Rows.putRow rows node vector).map Prod.snd, row.length = embeddingDim := by
    intro row member
    obtain ⟨entry, inside, rfl⟩ := List.mem_map.mp member
    rcases Rows.mem_putRow inside with rfl | old
    · exact length
    · exact holds.even _ (List.mem_map_of_mem old)
  unfold Embed.put
  rw [holds.ids]
  split
  · rename_i pos found
    have bound : pos < (rows.map Prod.fst).length := Rows.position_lt found
    have within : pos < rows.length := by rwa [List.length_map] at bound
    have here : (rows.map Prod.fst)[pos] = node :=
      of_decide_eq_true (List.findIdx?_eq_some_iff_getElem.mp found).2.1
    refine ⟨?_, ?_, even, distinct⟩
    · rw [Rows.putRow_of_some found, List.map_set]
      conv => rhs; rw [← here]
      exact (List.set_getElem_self _).symm
    · rw [Rows.putRow_of_some found, List.map_set, holds.vectors]
      exact Rows.setRow_flatten holds.even (by rwa [List.length_map]) vector
  · rename_i missing
    refine ⟨?_, ?_, even, distinct⟩
    · rw [Rows.putRow_of_none missing, List.map_append]
      rfl
    · rw [Rows.putRow_of_none missing, List.map_append, List.flatten_append, holds.vectors]
      dsimp only
      simp

theorem checkLength_ok_iff (vector : List F32) :
    checkLength vector = .ok () ↔ vector.length = embeddingDim := by
  unfold checkLength
  split
  · rename_i wrong
    exact ⟨fun impossible => (by cases impossible), fun length => absurd length wrong⟩
  · rename_i length
    exact ⟨fun _ => not_not.mp length, fun _ => rfl⟩

theorem checkLengths_ok_iff (items : List Row) :
    checkLengths items = .ok () ↔ ∀ item ∈ items, item.2.length = embeddingDim := by
  induction items with
  | nil => exact ⟨fun _ item member => absurd member List.not_mem_nil, fun _ => rfl⟩
  | cons first rest ih =>
      rw [checkLengths, List.forall_mem_cons, ← ih, ← checkLength_ok_iff]
      constructor
      · intro passed
        obtain ⟨_, here, later⟩ := bind_eq_ok.mp passed
        exact ⟨here, later⟩
      · intro both
        exact bind_eq_ok.mpr ⟨(), both.1, both.2⟩

/-- A vector of the wrong length changes nothing; another one is put. -/
theorem Holds.upsert (holds : Holds rows state) (node : NodeId) (vector : List F32) :
    Holds (if vector.length = embeddingDim then Rows.putRow rows node vector else rows)
      (upsert state node vector).2 := by
  unfold Embed.upsert
  cases checked : checkLength vector with
  | error error =>
      have wrong : vector.length ≠ embeddingDim := by
        intro length
        rw [(checkLength_ok_iff vector).mpr length] at checked
        cases checked
      rw [if_neg wrong]
      exact holds
  | ok done =>
      have length := (checkLength_ok_iff vector).mp checked
      rw [if_pos length]
      exact (holds.put node length).dirty true

theorem Holds.putAll (holds : Holds rows state) {items : List Row}
    (lengths : ∀ item ∈ items, item.2.length = embeddingDim) :
    Holds (items.foldl (fun rows item => Rows.putRow rows item.1 item.2) rows)
      (items.foldl (fun state item => Embed.put state item.1 item.2) state) := by
  induction items generalizing rows state with
  | nil => exact holds
  | cons item rest ih =>
      rw [List.foldl_cons, List.foldl_cons]
      exact ih (holds.put item.1 (lengths item List.mem_cons_self))
        (fun other member => lengths other (List.mem_cons_of_mem _ member))

theorem Holds.upsertMany (holds : Holds rows state) (items : List Row) :
    Holds (if ∀ item ∈ items, item.2.length = embeddingDim then
        items.foldl (fun rows item => Rows.putRow rows item.1 item.2) rows else rows)
      (upsertMany state items).2 := by
  unfold Embed.upsertMany
  cases checked : checkLengths items with
  | error error =>
      have wrong : ¬ ∀ item ∈ items, item.2.length = embeddingDim := by
        intro lengths
        rw [(checkLengths_ok_iff items).mpr lengths] at checked
        cases checked
      rw [if_neg wrong]
      exact holds
  | ok done =>
      have lengths := (checkLengths_ok_iff items).mp checked
      rw [if_pos lengths]
      exact (holds.putAll lengths).dirty true

theorem Holds.remove (holds : Holds rows state) (node : NodeId) :
    Holds (Rows.dropRow rows node) (remove state node).2 := by
  have fewer := Rows.dropRow_sublist rows node
  have even : ∀ row ∈ (Rows.dropRow rows node).map Prod.snd, row.length = embeddingDim :=
    fun row member => holds.even row ((fewer.map Prod.snd).subset member)
  have distinct := holds.distinct.sublist (fewer.map Prod.fst)
  unfold Embed.remove
  rw [holds.ids]
  split
  · rename_i pos found
    refine ⟨?_, ?_, even, distinct⟩
    · rw [Rows.dropRow_of_some found, List.eraseIdx_map]
    · rw [Rows.dropRow_of_some found, holds.vectors, ← List.eraseIdx_map]
      exact Rows.removeRow_flatten holds.even pos
  · rename_i missing
    rw [Rows.dropRow_of_none missing] at even distinct ⊢
    exact ⟨holds.ids, holds.vectors, even, distinct⟩

end Rows

/-! ### The file -/

section Codec

def encodeRow (row : Row) : Bytes :=
  leBytes 16 row.1.toNat ++ f32Bytes row.2

def header (count : Nat) : Bytes :=
  leBytes 4 magic ++ (leBytes 4 embeddingDim ++ leBytes 8 count)

theorem readExact_append {first : Bytes} {count : Nat} (length : first.length = count)
    (rest : Bytes) : readExact count (first ++ rest) = .ok (first, rest) := by
  unfold readExact
  rw [if_pos (by rw [List.length_append]; omega), List.take_left' length, List.drop_left' length]

variable {rows : List Row}

theorem loadRows_encode
    (even : ∀ row ∈ rows.map Prod.snd, row.length = embeddingDim) (rest : Bytes) :
    loadRows rows.length (rows.flatMap encodeRow ++ rest) =
      .ok (rows.map Prod.fst, (rows.map Prod.snd).flatten) := by
  induction rows with
  | nil => rfl
  | cons row rows ih =>
      have length : row.2.length = embeddingDim := even _ List.mem_cons_self
      have value : BitVec.ofNat 128 (leValue (leBytes 16 row.1.toNat)) = row.1 := by
        have power : 256 ^ 16 = 2 ^ 128 := by decide
        rw [leValue_leBytes, power, Nat.mod_eq_of_lt row.1.isLt, BitVec.ofNat_toNat,
          BitVec.setWidth_eq]
      rw [List.length_cons, List.flatMap_cons, List.append_assoc, encodeRow, List.append_assoc,
        loadRows]
      refine bind_eq_ok.mpr ⟨_, readExact_append (leBytes_length 16 _) _, ?_⟩
      refine bind_eq_ok.mpr ⟨_, readExact_append (by rw [f32Bytes_length, length]) _, ?_⟩
      refine bind_eq_ok.mpr ⟨_, ih (fun other member => even other (List.mem_cons_of_mem _ member)),
        ?_⟩
      dsimp only
      rw [value, f32Chunks_f32Bytes]
      rfl

theorem loadFile_encode (even : ∀ row ∈ rows.map Prod.snd, row.length = embeddingDim)
    (small : rows.length < 256 ^ 8) :
    loadFile (header rows.length ++ rows.flatMap encodeRow) =
      .ok { ids := rows.map Prod.fst, vectors := (rows.map Prod.snd).flatten, dirty := false } := by
  have isMagic : leValue (leBytes 4 magic) = magic := by decide
  have isDim : leValue (leBytes 4 embeddingDim) = embeddingDim := by decide
  have isCount : leValue (leBytes 8 rows.length) = rows.length := by
    rw [leValue_leBytes, Nat.mod_eq_of_lt small]
  have loaded := loadRows_encode even []
  rw [List.append_nil] at loaded
  unfold loadFile header
  rw [List.append_assoc, List.append_assoc]
  refine bind_eq_ok.mpr ⟨_, readExact_append (leBytes_length 4 _) _, ?_⟩
  dsimp only
  rw [if_neg (not_not.mpr isMagic)]
  refine bind_eq_ok.mpr ⟨_, readExact_append (leBytes_length 4 _) _, ?_⟩
  dsimp only
  rw [if_neg (not_not.mpr isDim)]
  refine bind_eq_ok.mpr ⟨_, readExact_append (leBytes_length 8 _) _, ?_⟩
  dsimp only
  rw [isCount]
  exact bind_eq_ok.mpr ⟨_, loaded, rfl⟩

theorem flatten_rowPieces (rows : List Row) :
    (rows.flatMap (fun row => [leBytes 16 row.1.toNat, f32Bytes row.2])).flatten =
      rows.flatMap encodeRow := by
  induction rows with
  | nil => rfl
  | cons row rest ih =>
      rw [List.flatMap_cons, List.flatten_append, ih, List.flatMap_cons]
      simp [encodeRow]

/-- The pieces written, one after the other, are the header and the rows. -/
theorem filePieces_flatten {state : State} (holds : Holds rows state) :
    (filePieces state).flatten = header rows.length ++ rows.flatMap encodeRow := by
  have pieces : state.ids.zipIdx.flatMap (fun entry => [leBytes 16 entry.1.toNat,
      f32Bytes (Rows.rowAt embeddingDim state.vectors entry.2)]) =
      rows.flatMap (fun row => [leBytes 16 row.1.toNat, f32Bytes row.2]) := by
    rw [holds.ids, holds.vectors, List.zipIdx_map, List.flatMap_map]
    have entries : ∀ entry ∈ rows.zipIdx,
        Rows.rowAt embeddingDim (rows.map Prod.snd).flatten entry.2 = entry.1.2 := by
      intro entry member
      obtain ⟨_, within, same⟩ := List.mem_zipIdx member
      have bound : entry.2 < (rows.map Prod.snd).length := by
        rw [List.length_map]
        omega
      rw [Rows.rowAt_flatten holds.even bound, List.getElem_map, same]
      rfl
    have read : rows.zipIdx.flatMap (fun entry => [leBytes 16 entry.1.1.toNat,
        f32Bytes (Rows.rowAt embeddingDim (rows.map Prod.snd).flatten entry.2)]) =
        rows.zipIdx.flatMap (fun entry => [leBytes 16 entry.1.1.toNat, f32Bytes entry.1.2]) := by
      apply List.flatMap_congr
      intro entry member
      rw [entries entry member]
    have firsts : rows.zipIdx.map Prod.fst = rows := List.zipIdx_map_fst 0 rows
    refine read.trans ?_
    conv => rhs; rw [← firsts, List.flatMap_map]
  change ([leBytes 4 magic, leBytes 4 embeddingDim, leBytes 8 state.ids.length] ++
    state.ids.zipIdx.flatMap (fun entry => [leBytes 16 entry.1.toNat,
      f32Bytes (Rows.rowAt embeddingDim state.vectors entry.2)])).flatten = _
  rw [pieces, List.flatten_append, flatten_rowPieces, holds.ids, List.length_map]
  simp [header]

theorem maxRows_small : maxRows < 256 ^ 8 := by decide

/-- A file that was written is read back as it was. -/
theorem openState_written {state : State} (holds : Holds rows state)
    (fits : rows.length ≤ maxRows) :
    openState (some (filePieces state).flatten) = { state with dirty := false } := by
  have loaded := loadFile_encode holds.even (Nat.lt_of_le_of_lt fits maxRows_small)
  rw [← holds.ids, ← holds.vectors, ← filePieces_flatten holds] at loaded
  unfold openState
  dsimp only
  rw [loaded]

end Codec

/-! ### The disk -/

theorem perform_appends (pieces : List Bytes) (index : Option Bytes) (start : Bytes) :
    (pieces.map DiskOperation.append).foldl Disk.perform { index, temporary := some start } =
      { index, temporary := some (start ++ pieces.flatten) } := by
  induction pieces generalizing start with
  | nil => simp
  | cons piece rest ih =>
      rw [List.map_cons, List.foldl_cons, Disk.perform, Option.getD_some, ih, List.flatten_cons,
        List.append_assoc]

theorem perform_writeTemporary (state : State) (disk : Disk) :
    (writeTemporary state).foldl Disk.perform disk =
      { disk with temporary := some (filePieces state).flatten } := by
  unfold writeTemporary
  rw [List.foldl_cons, Disk.perform, perform_appends, List.nil_append]

variable {state : State}

theorem perform_flush (dirty : state.dirty = true) (disk : Disk) :
    (flushOperations state disk).foldl Disk.perform disk =
      { index := some (filePieces state).flatten, temporary := none } := by
  unfold flushOperations
  rw [dirty, if_neg (by simp), List.foldl_append, perform_writeTemporary, List.foldl_append]
  split <;> rfl

theorem flushOperations_clean (clean : state.dirty = false) (disk : Disk) :
    flushOperations state disk = [] := by
  unfold flushOperations
  rw [clean]
  rfl

/-! ### Runs -/

/-- The rows of the state and those of the file. -/
structure Stands (current saved : List Row) (store : EmbedStore) : Prop where
  state : Holds current store.state
  file : Holds saved (openState store.disk.index)
  clean : (openState store.disk.index).dirty = false
  flushed : store.state.dirty = false → store.state = openState store.disk.index
  fits : current.length ≤ maxRows
  fitted : saved.length ≤ maxRows

/-- What a call makes of the rows. -/
def callRows (current saved : List Row) : StoreCall → List Row
  | .upsert node vector =>
      if vector.length = embeddingDim then Rows.putRow current node vector else current
  | .upsertMany items =>
      if ∀ item ∈ items, item.2.length = embeddingDim then
        items.foldl (fun rows item => Rows.putRow rows item.1 item.2) current
      else current
  | .remove node => Rows.dropRow current node
  | .flush => current
  | .reopen => saved

def callSaved (current saved : List Row) : StoreCall → List Row
  | .flush => current
  | _ => saved

theorem next_eq_some {store after : EmbedStore} {call : StoreCall}
    (taken : next store call = some after) :
    after = store.perform call ∧ after.state.ids.length ≤ maxRows := by
  unfold next at taken
  dsimp only at taken
  split at taken
  · rename_i fits
    cases taken
    exact ⟨rfl, fits⟩
  · cases taken

section Stands

variable {current saved : List Row} {store : EmbedStore}

theorem fresh_stands (temporary : Option Bytes) : Stands [] [] (fresh temporary) :=
  ⟨default_holds, default_holds, rfl, fun _ => rfl, Nat.zero_le _, Nat.zero_le _⟩

/-- A call that changes the state marks it. -/
theorem Stands.flushed_of_marks (stands : Stands current saved store) {state : State}
    (marked : state = store.state ∨ state.dirty = true) (clean : state.dirty = false) :
    state = openState store.disk.index := by
  rcases marked with same | dirty
  · rw [same] at clean ⊢
    exact stands.flushed clean
  · rw [dirty] at clean
    cases clean

variable (state : State)

theorem upsert_marks (node : NodeId) (vector : List F32) :
    (upsert state node vector).2 = state ∨ (upsert state node vector).2.dirty = true := by
  unfold upsert
  split
  · exact Or.inl rfl
  · exact Or.inr rfl

theorem upsertMany_marks (items : List Row) :
    (upsertMany state items).2 = state ∨ (upsertMany state items).2.dirty = true := by
  unfold upsertMany
  split
  · exact Or.inl rfl
  · exact Or.inr rfl

theorem remove_marks (node : NodeId) :
    (remove state node).2 = state ∨ (remove state node).2.dirty = true := by
  unfold remove
  split
  · exact Or.inr rfl
  · exact Or.inl rfl

theorem Stands.flush (stands : Stands current saved store) :
    Stands current current (store.perform .flush) := by
  cases marked : store.state.dirty with
  | false =>
      have file := stands.flushed marked
      have same : store.perform .flush = store := by
        unfold EmbedStore.perform
        rw [flushOperations_clean marked, List.foldl_nil, ← marked]
      rw [same]
      exact ⟨stands.state, file ▸ stands.state, stands.clean, stands.flushed, stands.fits,
        stands.fits⟩
  | true =>
      have disk := perform_flush marked store.disk
      have opened := openState_written stands.state stands.fits
      unfold EmbedStore.perform
      rw [disk]
      refine ⟨stands.state.dirty false, ?_, ?_, ?_, stands.fits, stands.fits⟩
      · dsimp only
        rw [opened]
        exact stands.state.dirty false
      · dsimp only
        rw [opened]
      · intro _
        exact opened.symm

theorem Stands.next {after : EmbedStore} {call : StoreCall} (stands : Stands current saved store)
    (taken : next store call = some after) :
    Stands (callRows current saved call) (callSaved current saved call) after := by
  obtain ⟨same, fits⟩ := next_eq_some taken
  subst same
  have kept : ∀ {rows : List Row} {state : State}, Holds rows state →
      state.ids.length ≤ maxRows → (state = store.state ∨ state.dirty = true) →
        Stands rows saved { store with state } := by
    intro rows state holds few marked
    rw [holds.ids, List.length_map] at few
    exact ⟨holds, stands.file, stands.clean, stands.flushed_of_marks marked, few,
      stands.fitted⟩
  cases call with
  | upsert node vector => exact kept (stands.state.upsert node vector) fits (upsert_marks _ _ _)
  | upsertMany items => exact kept (stands.state.upsertMany items) fits (upsertMany_marks _ _)
  | remove node => exact kept (stands.state.remove node) fits (remove_marks _ _)
  | flush => exact stands.flush
  | reopen =>
      exact ⟨stands.file, stands.file, stands.clean, fun _ => rfl, stands.fitted, stands.fitted⟩

end Stands

/-! ### The map -/

/-- What the store is for: a map from nodes to vectors, and the one that was saved last. -/
structure Shelf where
  current : NodeId → Option (List F32)
  saved : NodeId → Option (List F32)

def Shelf.empty : Shelf :=
  { current := fun _ => none, saved := fun _ => none }

/-- Vectors of a wrong length are refused, all of a batch with the first of them. -/
def Shelf.call (shelf : Shelf) : StoreCall → Shelf
  | .upsert node vector =>
      if vector.length = embeddingDim then
        { shelf with current := Function.update shelf.current node (some vector) }
      else shelf
  | .upsertMany items =>
      if ∀ item ∈ items, item.2.length = embeddingDim then
        { shelf with
          current := items.foldl (fun map item => Function.update map item.1 (some item.2))
            shelf.current }
      else shelf
  | .remove node => { shelf with current := Function.update shelf.current node none }
  | .flush => { shelf with saved := shelf.current }
  | .reopen => { shelf with current := shelf.saved }

/-- The map of some rows. -/
def mapOf (rows : List Row) : NodeId → Option (List F32) :=
  fun node => rows.lookup node

theorem mapOf_putRow (rows : List Row) (node : NodeId) (vector : List F32) :
    mapOf (Rows.putRow rows node vector) = Function.update (mapOf rows) node (some vector) := by
  funext other
  rw [Function.update_apply]
  exact Rows.lookup_putRow rows node vector other

theorem mapOf_dropRow {rows : List Row} (distinct : (rows.map Prod.fst).Nodup) (node : NodeId) :
    mapOf (Rows.dropRow rows node) = Function.update (mapOf rows) node none := by
  funext other
  rw [Function.update_apply]
  exact Rows.lookup_dropRow distinct node other

theorem mapOf_putAll (rows items : List Row) :
    mapOf (items.foldl (fun rows item => Rows.putRow rows item.1 item.2) rows) =
      items.foldl (fun (map : NodeId → Option (List F32)) item =>
        Function.update map item.1 (some item.2)) (mapOf rows) := by
  induction items generalizing rows with
  | nil => rfl
  | cons item rest ih => rw [List.foldl_cons, List.foldl_cons, ih, mapOf_putRow]

/-- Each call does to the map what it does to the rows. -/
theorem shelf_call {current saved : List Row} (distinct : (current.map Prod.fst).Nodup)
    (call : StoreCall) :
    Shelf.call { current := mapOf current, saved := mapOf saved } call =
      { current := mapOf (callRows current saved call)
        saved := mapOf (callSaved current saved call) } := by
  cases call with
  | upsert node vector =>
      simp only [Shelf.call, callRows, callSaved]
      split
      · rw [mapOf_putRow]
      · rfl
  | upsertMany items =>
      simp only [Shelf.call, callRows, callSaved]
      split
      · rw [mapOf_putAll]
      · rfl
  | remove node =>
      simp only [Shelf.call, callRows, callSaved]
      rw [mapOf_dropRow distinct]
  | flush => rfl
  | reopen => rfl

theorem stands_of_run {temporary : Option Bytes} {history : List (EmbedStore × StoreCall)}
    {final : EmbedStore} (run : Run next (fresh temporary) history final) :
    ∃ current saved, Stands current saved final ∧
      (history.map Prod.snd).foldl Shelf.call Shelf.empty =
        { current := mapOf current, saved := mapOf saved } := by
  induction run with
  | start => exact ⟨[], [], fresh_stands temporary, rfl⟩
  | @step history store after call _ taken ih =>
      obtain ⟨current, saved, stands, shelf⟩ := ih
      refine ⟨_, _, stands.next taken, ?_⟩
      rw [List.map_append, List.foldl_append, shelf]
      exact shelf_call stands.state.distinct call

/-- The store is the map that the calls so far make. -/
structure IsMap (shelf : Shelf) (store : EmbedStore) : Prop where
  distinct : store.state.ids.Nodup
  flat : store.state.vectors.length = store.state.ids.length * embeddingDim
  index : ∀ (place : Nat) (within : place < store.state.ids.length),
    Rows.position store.state.ids store.state.ids[place] = some place
  current : ∀ node, vectorOf store.state node = shelf.current node
  failing : ∀ items error, (upsertMany store.state items).1 = .error error →
    (upsertMany store.state items).2 = store.state
  reopened : ((store.perform .flush).perform .reopen).state = (store.perform .flush).state

theorem upsertMany_failing {items : List Row} {error : BrainError}
    (failed : (upsertMany state items).1 = .error error) : (upsertMany state items).2 = state := by
  unfold upsertMany at failed ⊢
  split
  · rfl
  · rename_i checked
    rw [checked] at failed
    cases failed

/-- After every run of calls the store is the map that the calls make. -/
theorem store_isMap {temporary : Option Bytes} {history : List (EmbedStore × StoreCall)}
    {final : EmbedStore} (run : Run next (fresh temporary) history final) :
    IsMap ((history.map Prod.snd).foldl Shelf.call Shelf.empty) final := by
  obtain ⟨current, saved, stands, shelf⟩ := stands_of_run run
  have distinct : final.state.ids.Nodup := by
    rw [stands.state.ids]
    exact stands.state.distinct
  rw [shelf]
  refine ⟨distinct, stands.state.flat, fun place within => Rows.position_getElem distinct within,
    stands.state.vectorOf, fun items error failed => upsertMany_failing failed, ?_⟩
  have after := stands.flush
  exact (after.flushed rfl).symm

/-! ### A short run -/

def ones : List F32 :=
  List.replicate embeddingDim 0x3f800000

theorem next_of_fits {store : EmbedStore} {call : StoreCall}
    (fits : (store.perform call).state.ids.length ≤ maxRows) :
    next store call = some (store.perform call) :=
  if_pos fits

theorem ones_stored : IsMap
    ((([(fresh none, StoreCall.upsert 7 ones)] ++
      [((fresh none).perform (.upsert 7 ones), StoreCall.flush)]).map Prod.snd).foldl
        Shelf.call Shelf.empty)
    (((fresh none).perform (.upsert 7 ones)).perform .flush) := by
  have first : next (fresh none) (.upsert 7 ones) = some ((fresh none).perform (.upsert 7 ones)) :=
    next_of_fits (by decide +kernel)
  have second : next ((fresh none).perform (.upsert 7 ones)) .flush =
      some (((fresh none).perform (.upsert 7 ones)).perform .flush) :=
    next_of_fits (by decide +kernel)
  exact store_isMap ((Run.start.step first).step second)

end Mneme.Brain.Embed
