/-
The embedding store: vectors by node in one flat buffer, and its file.

A vector component is the bit pattern of its f32, and rows are written in the byte order
they are read in, the little-endian one.  No file operation fails.  Growing a vector
beyond what an allocation may hold aborts the process.
-/

import Mneme.Common.Floats
import Mneme.Library.Rows

namespace Mneme.Brain.Embed

open Common Library

abbrev NodeId := BitVec 128

abbrev Bytes := List UInt8

def embeddingDim : Nat := 384

structure State where
  ids : List NodeId
  vectors : List F32
  dirty : Bool
deriving DecidableEq

def State.default : State :=
  { ids := [], vectors := [], dirty := false }

inductive BrainError where
  | invalid (message : String)
  | unexpectedEof
  | badMagic (magic : Nat)
  | dimMismatch (file : Nat)
deriving DecidableEq

/-! ### The state -/

def checkLength (vector : List F32) : Except BrainError Unit :=
  if vector.length ≠ embeddingDim then
    .error (.invalid ("vector length " ++ toString vector.length ++ " != EMBEDDING_DIM (" ++
      toString embeddingDim ++ ")"))
  else .ok ()

/-- The first vector of a wrong length is the error. -/
def checkLengths : List (NodeId × List F32) → Except BrainError Unit
  | [] => .ok ()
  | item :: rest => do
      checkLength item.2
      checkLengths rest

/-- Overwrite the row of the node, or add one at the end. -/
def put (state : State) (node : NodeId) (vector : List F32) : State :=
  match Rows.position state.ids node with
  | some pos => { state with vectors := Rows.setRow embeddingDim state.vectors pos vector }
  | none => { state with ids := state.ids ++ [node], vectors := state.vectors ++ vector }

def upsert (state : State) (node : NodeId) (vector : List F32) :
    Except BrainError Unit × State :=
  match checkLength vector with
  | .error error => (.error error, state)
  | .ok _ => (.ok (), { put state node vector with dirty := true })

/-- All lengths are checked before the first vector is put. -/
def upsertMany (state : State) (items : List (NodeId × List F32)) :
    Except BrainError Unit × State :=
  match checkLengths items with
  | .error error => (.error error, state)
  | .ok _ =>
      (.ok (), { items.foldl (fun state item => put state item.1 item.2) state with dirty := true })

def remove (state : State) (node : NodeId) : Bool × State :=
  match Rows.position state.ids node with
  | some pos =>
      (true, {
        ids := state.ids.eraseIdx pos
        vectors := Rows.removeRow embeddingDim state.vectors pos
        dirty := true })
  | none => (false, state)

/-- The row of a node, as the searches read it. -/
def vectorOf (state : State) (node : NodeId) : Option (List F32) :=
  (Rows.position state.ids node).map (Rows.rowAt embeddingDim state.vectors)

/-! ### The file -/

def magic : Nat := 0x44544231

/-- What is written to the file, one piece after the other. -/
def filePieces (state : State) : List Bytes :=
  [leBytes 4 magic, leBytes 4 embeddingDim, leBytes 8 state.ids.length] ++
    state.ids.zipIdx.flatMap (fun (node, index) =>
      [leBytes 16 node.toNat, f32Bytes (Rows.rowAt embeddingDim state.vectors index)])

def readExact (count : Nat) (bytes : Bytes) : Except BrainError (Bytes × Bytes) :=
  if count ≤ bytes.length then .ok (bytes.take count, bytes.drop count)
  else .error .unexpectedEof

def loadRows : Nat → Bytes → Except BrainError (List NodeId × List F32)
  | 0, _ => .ok ([], [])
  | count + 1, bytes => do
      let (id, bytes) ← readExact 16 bytes
      let (row, bytes) ← readExact (embeddingDim * 4) bytes
      let (ids, vectors) ← loadRows count bytes
      return (BitVec.ofNat 128 (leValue id) :: ids, f32Chunks row ++ vectors)

/-- Trailing bytes are only warned about. -/
def loadFile (bytes : Bytes) : Except BrainError State := do
  let (first, bytes) ← readExact 4 bytes
  if leValue first ≠ magic then throw (.badMagic (leValue first))
  let (second, bytes) ← readExact 4 bytes
  if leValue second ≠ embeddingDim then throw (.dimMismatch (leValue second))
  let (third, bytes) ← readExact 8 bytes
  let (ids, vectors) ← loadRows (leValue third) bytes
  return { ids, vectors, dirty := false }

/-- The state that opening gives: an unreadable file counts as none. -/
def openState (index : Option Bytes) : State :=
  match index with
  | none => .default
  | some bytes =>
      match loadFile bytes with
      | .error _ => .default
      | .ok state => state

/-! ### The disk -/

/-- The files `index.bin` and `index.bin.tmp`. -/
structure Disk where
  index : Option Bytes
  temporary : Option Bytes

inductive DiskOperation where
  | truncateTemporary
  | append (bytes : Bytes)
  | removeIndex
  | rename
deriving DecidableEq

def Disk.perform (disk : Disk) : DiskOperation → Disk
  | .truncateTemporary => { disk with temporary := some [] }
  | .append bytes => { disk with temporary := some (disk.temporary.getD [] ++ bytes) }
  | .removeIndex => { disk with index := none }
  | .rename => { index := disk.temporary, temporary := none }

def writeTemporary (state : State) : List DiskOperation :=
  .truncateTemporary :: (filePieces state).map .append

/-- The old file is removed before the new one takes its name. -/
def flushOperations (state : State) (disk : Disk) : List DiskOperation :=
  if !state.dirty then []
  else writeTemporary state ++ ((if disk.index.isSome then [.removeIndex] else []) ++ [.rename])

/-! ### The store -/

structure EmbedStore where
  state : State
  disk : Disk

inductive StoreCall where
  | upsert (node : NodeId) (vector : List F32)
  | upsertMany (items : List (NodeId × List F32))
  | remove (node : NodeId)
  | flush
  | reopen

def EmbedStore.perform (store : EmbedStore) : StoreCall → EmbedStore
  | .upsert node vector => { store with state := (Embed.upsert store.state node vector).2 }
  | .upsertMany items => { store with state := (Embed.upsertMany store.state items).2 }
  | .remove node => { store with state := (Embed.remove store.state node).2 }
  | .flush =>
      { state := { store.state with dirty := false }
        disk := (flushOperations store.state store.disk).foldl Disk.perform store.disk }
  | .reopen => { store with state := openState store.disk.index }

/-- No allocation is larger than `isize::MAX` bytes. -/
def maxRows : Nat := (2 ^ 63 - 1) / (embeddingDim * 4)

def next (store : EmbedStore) (call : StoreCall) : Option EmbedStore :=
  let after := store.perform call
  if after.state.ids.length ≤ maxRows then some after else none

/-- A directory without an index; a temporary file may have been left. -/
def fresh (temporary : Option Bytes) : EmbedStore :=
  { state := .default, disk := { index := none, temporary } }

end Mneme.Brain.Embed
