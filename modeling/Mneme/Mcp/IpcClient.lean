/-
The IPC client of the MCP server, and the frames of its connection: a length in four bytes,
most significant first, and as many bytes of payload.

One socket field, one receive buffer and one map of pending requests outlive
the connections.  The callbacks of every socket ever created act on them, in
any order the runtime may choose; each callback is one step.
-/

import Mathlib.Data.List.Nodup
import Mneme.Library.Framing
import Mneme.Library.Run

namespace Mneme.Mcp

open Library

abbrev Byte := UInt8

/-- A payload whose length its header can tell. -/
abbrev Frame := { payload : List Byte // payload.length < 4294967296 }

def readUInt32BE (first second third fourth : Byte) : Nat :=
  ((first.toNat * 256 + second.toNat) * 256 + third.toNat) * 256 + fourth.toNat

def writeUInt32BE (value : Nat) : List Byte :=
  [UInt8.ofNat (value / 16777216), UInt8.ofNat (value / 65536), UInt8.ofNat (value / 256),
    UInt8.ofNat value]

def encodeFrame (frame : Frame) : List Byte :=
  writeUInt32BE frame.val.length ++ frame.val

theorem readUInt32BE_lt (first second third fourth : Byte) :
    readUInt32BE first second third fourth < 4294967296 := by
  have firstBound := first.toNat_lt
  have secondBound := second.toNat_lt
  have thirdBound := third.toNat_lt
  have fourthBound := fourth.toNat_lt
  unfold readUInt32BE
  omega

/-- One round of the loop in `onData`. -/
def takeFrame : List Byte → Option (Frame × List Byte)
  | first :: second :: third :: fourth :: rest =>
      if short : rest.length < readUInt32BE first second third fourth then none
      else
        some (⟨rest.take (readUInt32BE first second third fourth), by
            rw [List.length_take]
            exact Nat.lt_of_le_of_lt (Nat.min_le_left _ _) (readUInt32BE_lt _ _ _ _)⟩,
          rest.drop (readUInt32BE first second third fourth))
  | _ => none

theorem readUInt32BE_write {value : Nat} (small : value < 4294967296) :
    readUInt32BE (UInt8.ofNat (value / 16777216)) (UInt8.ofNat (value / 65536))
      (UInt8.ofNat (value / 256)) (UInt8.ofNat value) = value := by
  unfold readUInt32BE
  simp only [UInt8.toNat_ofNat']
  omega

theorem writeUInt32BE_read (first second third fourth : Byte) :
    writeUInt32BE (readUInt32BE first second third fourth) = [first, second, third, fourth] := by
  have firstBound := first.toNat_lt
  have secondBound := second.toNat_lt
  have thirdBound := third.toNat_lt
  have fourthBound := fourth.toNat_lt
  unfold writeUInt32BE readUInt32BE
  congr 1
  · apply UInt8.toNat_inj.mp
    rw [UInt8.toNat_ofNat']
    omega
  · congr 1
    · apply UInt8.toNat_inj.mp
      rw [UInt8.toNat_ofNat']
      omega
    · congr 1
      · apply UInt8.toNat_inj.mp
        rw [UInt8.toNat_ofNat']
        omega
      · congr 1
        apply UInt8.toNat_inj.mp
        rw [UInt8.toNat_ofNat']
        omega

theorem takeFrame_encodeFrame (frame : Frame) (rest : List Byte) :
    takeFrame (encodeFrame frame ++ rest) = some (frame, rest) := by
  obtain ⟨payload, small⟩ := frame
  have read := readUInt32BE_write small
  have long : ¬ (payload ++ rest).length < payload.length := by
    rw [List.length_append]
    omega
  simp only [encodeFrame, writeUInt32BE, List.cons_append, List.nil_append, takeFrame, read,
    dif_neg long, List.take_left, List.drop_left]

theorem encodeFrame_of_takeFrame {buffer rest : List Byte} {frame : Frame}
    (taken : takeFrame buffer = some (frame, rest)) : buffer = encodeFrame frame ++ rest := by
  unfold takeFrame at taken
  split at taken
  · next first second third fourth tail =>
      split at taken
      · cases taken
      · next long =>
          cases taken
          unfold encodeFrame
          have length : (tail.take (readUInt32BE first second third fourth)).length =
              readUInt32BE first second third fourth := by
            rw [List.length_take]
            omega
          rw [length, writeUInt32BE_read, List.append_assoc, List.take_append_drop]
          rfl
  · cases taken

def lengthPrefixed : Framing Byte Frame :=
  { encode := encodeFrame
    next := takeFrame
    nonempty := by
      intro frame
      exact List.cons_ne_nil _ _
    accepts := takeFrame_encodeFrame
    splits := by
      intro buffer frame rest taken
      exact encodeFrame_of_takeFrame taken }

/-! ### The client -/

open Transition

/-- Sockets are numbered in the order in which `connect` makes them. -/
abbrev SocketId := Nat

inductive SocketPhase where
  | unused
  | connecting
  | live
  /-- Destroyed, its close event still to come. -/
  | destroyed
  | closed
deriving DecidableEq

/-- `received` and `decoded` are history: the bytes of the data events so far,
and the frames taken from the buffer in them. -/
structure Connection where
  phase : SocketPhase
  received : List Byte
  decoded : List Frame

inductive Outcome where
  | resolved (response : Frame)
  | timedOut
  | socketClosed
  | socketMissing
  | writeFailed

/-- The requests: `pending` and `timers` are the client's, the rest is history
and the state of the promises handed out. -/
structure Ledger (RequestId : Type) where
  pending : List RequestId
  timers : List RequestId
  sent : List (RequestId × SocketId)
  outcomes : RequestId → Option Outcome
  settled : List RequestId

structure IpcClient (RequestId : Type) where
  socket : Option SocketId
  connectPromise : Option SocketId
  buffer : List Byte
  sockets : SocketId → Connection
  nextSocket : SocketId
  ledger : Ledger RequestId
  /-- History: which socket was the client's when which close event came. -/
  droppedBy : List (SocketId × SocketId)
  /-- History: which request was pending when which close event came. -/
  rejectedBy : List (RequestId × SocketId)

inductive ClientEvent (RequestId : Type) where
  | connect
  | connected (socket : SocketId)
  | error (socket : SocketId)
  | destroyed (socket : SocketId)
  | data (socket : SocketId) (chunk : List Byte)
  | closed (socket : SocketId)
  /-- `request` after `ensureConnected` has returned. -/
  | request (id : RequestId)
  | writeError (id : RequestId)
  | timeout (id : RequestId)
  | close

variable {RequestId : Type} [DecidableEq RequestId]

namespace Ledger

def empty : Ledger RequestId :=
  { pending := [], timers := [], sent := [], outcomes := fun _ => none, settled := [] }

/-- Clear the timer and delete the pending entry. -/
def forget (ledger : Ledger RequestId) (id : RequestId) : Ledger RequestId :=
  { ledger with
    pending := ledger.pending.filter (fun other => other ≠ id)
    timers := ledger.timers.filter (fun other => other ≠ id) }

/-- A promise takes the first outcome it is given. -/
def settle (ledger : Ledger RequestId) (id : RequestId) (outcome : Outcome) : Ledger RequestId :=
  match ledger.outcomes id with
  | some _ => ledger
  | none =>
      { ledger with
        outcomes := Function.update ledger.outcomes id (some outcome)
        settled := ledger.settled ++ [id] }

def finish (outcome : Outcome) (ledger : Ledger RequestId) (id : RequestId) : Ledger RequestId :=
  (ledger.forget id).settle id outcome

/-- `idOf` is the id member of a payload that parses and has one. -/
def answer (idOf : List Byte → Option RequestId) (ledger : Ledger RequestId) (frame : Frame) :
    Ledger RequestId :=
  match idOf frame.val with
  | none => ledger
  | some id => if id ∈ ledger.pending then ledger.finish (.resolved frame) id else ledger

def answerAll (idOf : List Byte → Option RequestId) (frames : List Frame)
    (ledger : Ledger RequestId) : Ledger RequestId :=
  frames.foldl (answer idOf) ledger

/-- The loop of a close event over the pending entries. -/
def rejectAll (ids : List RequestId) (ledger : Ledger RequestId) : Ledger RequestId :=
  ids.foldl (finish .socketClosed) ledger

def write (ledger : Ledger RequestId) (id : RequestId) (socket : SocketId) : Ledger RequestId :=
  { ledger with
    pending := ledger.pending ++ [id]
    timers := ledger.timers ++ [id]
    sent := ledger.sent ++ [(id, socket)] }

/-- Request ids are never drawn twice. -/
def Fresh (ledger : Ledger RequestId) (id : RequestId) : Prop :=
  id ∉ ledger.settled ∧ id ∉ ledger.sent.map Prod.fst

instance (ledger : Ledger RequestId) (id : RequestId) : Decidable (ledger.Fresh id) :=
  inferInstanceAs (Decidable (_ ∧ _))

end Ledger

namespace IpcClient

def new : IpcClient RequestId :=
  { socket := none
    connectPromise := none
    buffer := []
    sockets := fun _ => ⟨.unused, [], []⟩
    nextSocket := 0
    ledger := .empty
    droppedBy := []
    rejectedBy := [] }

def phase (client : IpcClient RequestId) (socket : SocketId) : SocketPhase :=
  (client.sockets socket).phase

def setPhase (client : IpcClient RequestId) (socket : SocketId) (phase : SocketPhase) :
    SocketId → Connection :=
  Function.update client.sockets socket { client.sockets socket with phase := phase }

/-- `this.socket && !this.socket.destroyed` -/
def usable (client : IpcClient RequestId) : Bool :=
  client.socket.any (fun socket => client.phase socket = .live)

def connect (client : IpcClient RequestId) : IpcClient RequestId :=
  if client.usable || client.connectPromise.isSome then client
  else
    { client with
      sockets := Function.update client.sockets client.nextSocket ⟨.connecting, [], []⟩
      connectPromise := some client.nextSocket
      nextSocket := client.nextSocket + 1 }

def onData (idOf : List Byte → Option RequestId) (client : IpcClient RequestId)
    (socket : SocketId) (chunk : List Byte) : IpcClient RequestId :=
  let (frames, rest) := lengthPrefixed.drain (client.buffer ++ chunk)
  let connection := client.sockets socket
  { client with
    buffer := rest
    ledger := client.ledger.answerAll idOf frames
    sockets := Function.update client.sockets socket
      { connection with
        received := connection.received ++ chunk
        decoded := connection.decoded ++ frames } }

def onClose (client : IpcClient RequestId) (socket : SocketId) : IpcClient RequestId :=
  { client with
    socket := none
    connectPromise := none
    sockets := client.setPhase socket .closed
    ledger := client.ledger.rejectAll client.ledger.pending
    droppedBy := client.droppedBy ++ client.socket.toList.map (fun held => (held, socket))
    rejectedBy := client.rejectedBy ++ client.ledger.pending.map (fun id => (id, socket)) }

def request (client : IpcClient RequestId) (id : RequestId) : IpcClient RequestId :=
  match client.socket with
  | none => { client with ledger := client.ledger.settle id .socketMissing }
  | some socket => { client with ledger := client.ledger.write id socket }

def close (client : IpcClient RequestId) : IpcClient RequestId :=
  { client with
    sockets :=
      match client.socket with
      | some socket => client.setPhase socket .destroyed
      | none => client.sockets
    socket := none }

def next (idOf : List Byte → Option RequestId) (client : IpcClient RequestId) :
    ClientEvent RequestId → Option (IpcClient RequestId)
  | .connect => some client.connect
  | .connected socket =>
      if client.phase socket = .connecting then
        some { client with
          socket := some socket
          connectPromise := none
          sockets := client.setPhase socket .live }
      else none
  | .error socket =>
      if client.phase socket = .unused ∨ client.phase socket = .closed then none
      else some { client with connectPromise := none }
  | .destroyed socket =>
      if client.phase socket = .connecting ∨ client.phase socket = .live then
        some { client with sockets := client.setPhase socket .destroyed }
      else none
  | .data socket chunk =>
      if client.phase socket = .live then some (client.onData idOf socket chunk) else none
  | .closed socket =>
      if client.phase socket = .unused ∨ client.phase socket = .closed then none
      else some (client.onClose socket)
  | .request id => if client.ledger.Fresh id then some (client.request id) else none
  | .writeError id =>
      if id ∈ client.ledger.sent.map Prod.fst then
        some { client with ledger := client.ledger.finish .writeFailed id }
      else none
  | .timeout id =>
      if id ∈ client.ledger.timers then
        some { client with ledger := client.ledger.finish .timedOut id }
      else none
  | .close => some client.close

/-- What the client promises about its connections and its requests. -/
structure Orderly (idOf : List Byte → Option RequestId) (client : IpcClient RequestId) : Prop where
  framing : ∀ socket, ∃ rest,
    lengthPrefixed.Cuts (client.sockets socket).received (client.sockets socket).decoded rest
  matching : ∀ id frame, client.ledger.outcomes id = some (.resolved frame) →
    idOf frame.val = some id
  once : client.ledger.settled.Nodup
  timed : ∀ id socket, (id, socket) ∈ client.ledger.sent → client.ledger.outcomes id = none →
    id ∈ client.ledger.pending ∧ id ∈ client.ledger.timers
  keeps : ∀ held socket, (held, socket) ∈ client.droppedBy → held ≤ socket
  spares : ∀ id carrier socket, (id, socket) ∈ client.rejectedBy →
    (id, carrier) ∈ client.ledger.sent → carrier ≤ socket

/-- Bytes arrive on a socket only while the buffer holds just what is left of
its own bytes, and a socket closes only while no newer one is the client's
socket or carries a pending request. -/
def Careful (client : IpcClient RequestId) : ClientEvent RequestId → Prop
  | .data socket _ =>
      client.buffer = (lengthPrefixed.drain (client.sockets socket).received).2
  | .closed socket =>
      (∀ held, held ∈ client.socket → held ≤ socket) ∧
        ∀ entry, entry ∈ client.ledger.sent → entry.1 ∈ client.ledger.pending → entry.2 ≤ socket
  | _ => True

instance (client : IpcClient RequestId) (event : ClientEvent RequestId) :
    Decidable (client.Careful event) :=
  match event with
  | .data socket _ => inferInstanceAs
      (Decidable (client.buffer = (lengthPrefixed.drain (client.sockets socket).received).2))
  | .closed socket => inferInstanceAs
      (Decidable ((∀ held, held ∈ client.socket → held ≤ socket) ∧
        ∀ entry, entry ∈ client.ledger.sent → entry.1 ∈ client.ledger.pending →
          entry.2 ≤ socket))
  | .connect | .connected _ | .error _ | .destroyed _ | .request _ | .writeError _
  | .timeout _ | .close => isTrue trivial

end IpcClient

/-! ### The requests -/

namespace Ledger

structure Sound (idOf : List Byte → Option RequestId) (ledger : Ledger RequestId) : Prop where
  matching : ∀ id frame, ledger.outcomes id = some (.resolved frame) → idOf frame.val = some id
  settled : ∀ id, id ∈ ledger.settled ↔ ledger.outcomes id ≠ none
  once : ledger.settled.Nodup
  timed : ∀ id socket, (id, socket) ∈ ledger.sent → ledger.outcomes id = none →
    id ∈ ledger.pending ∧ id ∈ ledger.timers

variable {idOf : List Byte → Option RequestId} {ledger : Ledger RequestId}

omit [DecidableEq RequestId] in
theorem empty_sound : Sound idOf (empty : Ledger RequestId) := by
  constructor
  · intro id frame impossible
    cases impossible
  · intro id
    exact iff_of_false List.not_mem_nil (fun different => different rfl)
  · exact List.nodup_nil
  · intro id socket member
    exact absurd member List.not_mem_nil

variable (id : RequestId)

variable (outcome : Outcome)

theorem settle_sent : (ledger.settle id outcome).sent = ledger.sent := by
  unfold settle
  split <;> rfl

theorem settle_outcomes_other {id other : RequestId} (different : other ≠ id) (outcome : Outcome) :
    (ledger.settle id outcome).outcomes other = ledger.outcomes other := by
  unfold settle
  split
  · rfl
  · exact Function.update_of_ne different _ _

theorem settle_settles : (ledger.settle id outcome).outcomes id ≠ none := by
  unfold settle
  split
  · next held found =>
      rw [found]
      exact Option.some_ne_none held
  · change Function.update ledger.outcomes id (some outcome) id ≠ none
    rw [Function.update_self]
    exact Option.some_ne_none outcome

/-- Settling a promise keeps the books when its entries are gone or it alone
loses them. -/
theorem settle_sound {before : Ledger RequestId} (sound : Sound idOf before) {id : RequestId}
    {outcome : Outcome} (sameSent : ledger.sent = before.sent)
    (sameOutcomes : ledger.outcomes = before.outcomes) (sameSettled : ledger.settled = before.settled)
    (kept : ∀ other, other ≠ id → (other ∈ before.pending → other ∈ ledger.pending) ∧
      (other ∈ before.timers → other ∈ ledger.timers))
    (matches_ : ∀ frame, outcome = .resolved frame → idOf frame.val = some id) :
    Sound idOf (ledger.settle id outcome) := by
  have timed : ∀ other socket, (other, socket) ∈ (ledger.settle id outcome).sent →
      (ledger.settle id outcome).outcomes other = none →
        other ∈ ledger.pending ∧ other ∈ ledger.timers := by
    intro other socket member unsettled
    have different : other ≠ id := by
      intro same
      rw [same] at unsettled
      exact settle_settles id outcome unsettled
    rw [settle_sent, sameSent] at member
    rw [settle_outcomes_other different, sameOutcomes] at unsettled
    have both := sound.timed other socket member unsettled
    exact ⟨(kept other different).1 both.1, (kept other different).2 both.2⟩
  unfold settle at timed ⊢
  cases found : ledger.outcomes id with
  | some held =>
      rw [found] at timed
      refine ⟨?_, ?_, ?_, timed⟩
      · intro other frame resolved
        change ledger.outcomes other = _ at resolved
        rw [sameOutcomes] at resolved
        exact sound.matching other frame resolved
      · intro other
        change other ∈ ledger.settled ↔ ledger.outcomes other ≠ none
        rw [sameSettled, sameOutcomes]
        exact sound.settled other
      · change ledger.settled.Nodup
        rw [sameSettled]
        exact sound.once
  | none =>
      rw [found] at timed
      have unsettled : id ∉ ledger.settled := by
        rw [sameSettled, sound.settled, ← sameOutcomes]
        exact fun different => different found
      refine ⟨?_, ?_, ?_, timed⟩
      · intro other frame resolved
        by_cases same : other = id
        · subst same
          change Function.update ledger.outcomes other _ other = _ at resolved
          rw [Function.update_self] at resolved
          exact matches_ frame (Option.some.inj resolved)
        · change Function.update ledger.outcomes id _ other = _ at resolved
          rw [Function.update_of_ne same, sameOutcomes] at resolved
          exact sound.matching other frame resolved
      · intro other
        change other ∈ ledger.settled ++ [id] ↔ Function.update ledger.outcomes id _ other ≠ none
        rw [List.mem_append, List.mem_singleton]
        by_cases same : other = id
        · subst same
          rw [Function.update_self]
          exact iff_of_true (Or.inr rfl) (Option.some_ne_none outcome)
        · rw [Function.update_of_ne same, sameSettled, sameOutcomes, sound.settled]
          exact or_iff_left same
      · change (ledger.settled ++ [id]).Nodup
        rw [List.nodup_append]
        refine ⟨?_, List.nodup_singleton id, ?_⟩
        · rw [sameSettled]
          exact sound.once
        · intro held inSettled other last same
          rw [List.mem_singleton.mp last] at same
          rw [same] at inSettled
          exact unsettled inSettled

theorem finish_sound (sound : Sound idOf ledger) {id : RequestId} {outcome : Outcome}
    (matches_ : ∀ frame, outcome = .resolved frame → idOf frame.val = some id) :
    Sound idOf (ledger.finish outcome id) := by
  change Sound idOf ((ledger.forget id).settle id outcome)
  refine settle_sound sound rfl rfl rfl ?_ matches_
  intro other different
  have passes : decide (other ≠ id) = true := decide_eq_true different
  exact ⟨fun member => List.mem_filter.mpr ⟨member, passes⟩,
    fun member => List.mem_filter.mpr ⟨member, passes⟩⟩

/-- Nothing is written and no entry is added. -/
def Shrinks (before after : Ledger RequestId) : Prop :=
  after.sent = before.sent ∧ ∀ id, id ∈ after.pending → id ∈ before.pending

omit [DecidableEq RequestId] in
theorem Shrinks.refl (ledger : Ledger RequestId) : ledger.Shrinks ledger :=
  ⟨rfl, fun _ member => member⟩

omit [DecidableEq RequestId] in
theorem Shrinks.trans {middle after : Ledger RequestId} (first : ledger.Shrinks middle)
    (second : middle.Shrinks after) : ledger.Shrinks after :=
  ⟨second.1.trans first.1, fun id member => first.2 id (second.2 id member)⟩

theorem settle_pending :
    (ledger.settle id outcome).pending = ledger.pending := by
  unfold settle
  split <;> rfl

theorem finish_shrinks (id : RequestId) :
    ledger.Shrinks (ledger.finish outcome id) := by
  refine ⟨settle_sent id outcome, ?_⟩
  intro other member
  change other ∈ ((ledger.forget id).settle id outcome).pending at member
  rw [settle_pending] at member
  exact (List.mem_filter.mp member).1

theorem answerAll_sound (sound : Sound idOf ledger) (frames : List Frame) :
    Sound idOf (ledger.answerAll idOf frames) := by
  unfold answerAll
  induction frames generalizing ledger with
  | nil => exact sound
  | cons frame rest ih =>
      apply ih
      unfold answer
      split
      · exact sound
      · next id named =>
          split
          · apply finish_sound sound
            intro other same
            cases same
            exact named
          · exact sound

theorem answerAll_shrinks (frames : List Frame) :
    ledger.Shrinks (ledger.answerAll idOf frames) := by
  unfold answerAll
  induction frames generalizing ledger with
  | nil => exact .refl ledger
  | cons frame rest ih =>
      have here : ledger.Shrinks (ledger.answer idOf frame) := by
        unfold answer
        split
        · exact .refl ledger
        · split
          · exact finish_shrinks _ _
          · exact .refl ledger
      exact here.trans ih

theorem rejectAll_sound (sound : Sound idOf ledger) (ids : List RequestId) :
    Sound idOf (ledger.rejectAll ids) := by
  unfold rejectAll
  induction ids generalizing ledger with
  | nil => exact sound
  | cons id rest ih =>
      apply ih
      exact finish_sound sound (fun frame impossible => nomatch impossible)

theorem rejectAll_shrinks (ids : List RequestId) : ledger.Shrinks (ledger.rejectAll ids) := by
  unfold rejectAll
  induction ids generalizing ledger with
  | nil => exact .refl ledger
  | cons id rest ih => exact (finish_shrinks .socketClosed id).trans ih

omit [DecidableEq RequestId] in
theorem write_sound (sound : Sound idOf ledger) (id : RequestId) (socket : SocketId) :
    Sound idOf (ledger.write id socket) := by
  refine { sound with timed := ?_ }
  intro other written member unsettled
  rcases List.mem_append.mp member with old | new
  · have both := sound.timed other written old unsettled
    exact ⟨List.mem_append_left _ both.1, List.mem_append_left _ both.2⟩
  · cases List.mem_singleton.mp new
    exact ⟨List.mem_append_right _ (List.mem_singleton_self id),
      List.mem_append_right _ (List.mem_singleton_self id)⟩

end Ledger

/-! ### The connections -/

namespace IpcClient

variable {idOf : List Byte → Option RequestId} {client after : IpcClient RequestId}

structure Books (client : IpcClient RequestId) : Prop where
  framing : ∀ socket, ∃ rest,
    lengthPrefixed.Cuts (client.sockets socket).received (client.sockets socket).decoded rest
  written : ∀ id, id ∈ client.ledger.pending → id ∈ client.ledger.sent.map Prod.fst
  rejected : ∀ id socket, (id, socket) ∈ client.rejectedBy →
    id ∈ client.ledger.sent.map Prod.fst
  keeps : ∀ held socket, (held, socket) ∈ client.droppedBy → held ≤ socket
  spares : ∀ id carrier socket, (id, socket) ∈ client.rejectedBy →
    (id, carrier) ∈ client.ledger.sent → carrier ≤ socket

omit [DecidableEq RequestId] in
theorem Books.orderly (books : Books client) (sound : client.ledger.Sound idOf) :
    Orderly idOf client where
  framing := books.framing
  matching := sound.matching
  once := sound.once
  timed := sound.timed
  keeps := books.keeps
  spares := books.spares

theorem cuts_nothing : lengthPrefixed.Cuts [] [] [] :=
  ⟨rfl, rfl⟩

omit [DecidableEq RequestId] in
theorem books_new : Books (new : IpcClient RequestId) := by
  constructor
  · intro socket
    exact ⟨[], cuts_nothing⟩
  · intro id impossible
    cases impossible
  · intro id socket impossible
    cases impossible
  · intro held socket impossible
    cases impossible
  · intro id carrier socket impossible
    cases impossible

omit [DecidableEq RequestId] in
/-- A step that writes no request and rejects none in bulk. -/
theorem Books.quiet (books : Books client) (framing : ∀ socket, ∃ rest,
      lengthPrefixed.Cuts (after.sockets socket).received (after.sockets socket).decoded rest)
    (shrinks : client.ledger.Shrinks after.ledger) (dropped : after.droppedBy = client.droppedBy)
    (rejected : after.rejectedBy = client.rejectedBy) : Books after := by
  refine ⟨framing, ?_, ?_, ?_, ?_⟩
  · intro id member
    rw [shrinks.1]
    exact books.written id (shrinks.2 id member)
  · rw [shrinks.1, rejected]
    exact books.rejected
  · rw [dropped]
    exact books.keeps
  · rw [shrinks.1, rejected]
    exact books.spares

omit [DecidableEq RequestId] in
/-- The phase of a socket says nothing about its bytes. -/
theorem Books.framing_setPhase (books : Books client) (changed : SocketId)
    (phase : SocketPhase) (socket : SocketId) : ∃ rest,
      lengthPrefixed.Cuts (client.setPhase changed phase socket).received
        (client.setPhase changed phase socket).decoded rest := by
  unfold setPhase
  by_cases same : socket = changed
  · subst same
    rw [Function.update_self]
    exact books.framing socket
  · rw [Function.update_of_ne same]
    exact books.framing socket

omit [DecidableEq RequestId] in
theorem connect_books (books : Books client) : Books client.connect := by
  unfold connect
  split
  · exact books
  · refine books.quiet ?_ (.refl _) rfl rfl
    intro socket
    by_cases same : socket = client.nextSocket
    · subst same
      refine ⟨[], ?_⟩
      change lengthPrefixed.Cuts (Function.update client.sockets client.nextSocket _ _).received
        (Function.update client.sockets client.nextSocket _ _).decoded []
      rw [Function.update_self]
      exact cuts_nothing
    · change ∃ rest, lengthPrefixed.Cuts
        (Function.update client.sockets client.nextSocket _ socket).received
        (Function.update client.sockets client.nextSocket _ socket).decoded rest
      rw [Function.update_of_ne same]
      exact books.framing socket

theorem onData_books (books : Books client) {socket : SocketId} {chunk : List Byte}
    (careful : client.buffer = (lengthPrefixed.drain (client.sockets socket).received).2) :
    Books (client.onData idOf socket chunk) := by
  refine books.quiet ?_ (Ledger.answerAll_shrinks _) rfl rfl
  intro other
  by_cases same : other = socket
  · subst same
    -- what the socket decoded is what draining its bytes gives, so its rest is the buffer
    obtain ⟨rest, cut⟩ := books.framing other
    have drained := cut.unique (lengthPrefixed.drain_cuts (client.sockets other).received)
    have left : rest = client.buffer := drained.2.trans careful.symm
    have longer : lengthPrefixed.Cuts ((client.sockets other).received ++ chunk)
        ((client.sockets other).decoded ++ (lengthPrefixed.drain (client.buffer ++ chunk)).1)
        (lengthPrefixed.drain (client.buffer ++ chunk)).2 := by
      rw [← left]
      exact cut.append
    refine ⟨(lengthPrefixed.drain (client.buffer ++ chunk)).2, ?_⟩
    change lengthPrefixed.Cuts (Function.update client.sockets other _ other).received
      (Function.update client.sockets other _ other).decoded _
    rw [Function.update_self]
    exact longer
  · change ∃ rest, lengthPrefixed.Cuts (Function.update client.sockets socket _ other).received
      (Function.update client.sockets socket _ other).decoded rest
    rw [Function.update_of_ne same]
    exact books.framing other

theorem onClose_books (books : Books client) {socket : SocketId}
    (newest : ∀ held, held ∈ client.socket → held ≤ socket)
    (carried : ∀ entry, entry ∈ client.ledger.sent → entry.1 ∈ client.ledger.pending →
      entry.2 ≤ socket) : Books (client.onClose socket) := by
  obtain ⟨sameSent, fewer⟩ := client.ledger.rejectAll_shrinks client.ledger.pending
  refine ⟨books.framing_setPhase socket .closed, ?_, ?_, ?_, ?_⟩
  · intro id member
    change id ∈ (client.ledger.rejectAll client.ledger.pending).sent.map Prod.fst
    rw [sameSent]
    exact books.written id (fewer id member)
  · intro id closer member
    change id ∈ (client.ledger.rejectAll client.ledger.pending).sent.map Prod.fst
    rw [sameSent]
    rcases List.mem_append.mp member with earlier | now
    · exact books.rejected id closer earlier
    · obtain ⟨pending, waiting, same⟩ := List.mem_map.mp now
      cases same
      exact books.written id waiting
  · intro held closer member
    rcases List.mem_append.mp member with earlier | now
    · exact books.keeps held closer earlier
    · obtain ⟨current, isHeld, same⟩ := List.mem_map.mp now
      cases same
      exact newest held (Option.mem_toList.mp isHeld)
  · intro id carrier closer member written
    change (id, carrier) ∈ (client.ledger.rejectAll client.ledger.pending).sent at written
    rw [sameSent] at written
    rcases List.mem_append.mp member with earlier | now
    · exact books.spares id carrier closer earlier written
    · obtain ⟨pending, waiting, same⟩ := List.mem_map.mp now
      cases same
      exact carried (id, carrier) written waiting

theorem request_books (books : Books client) {id : RequestId}
    (fresh : client.ledger.Fresh id) : Books (client.request id) := by
  unfold request
  split
  · refine books.quiet books.framing ⟨Ledger.settle_sent id _, ?_⟩ rfl rfl
    intro other member
    change other ∈ (client.ledger.settle id _).pending at member
    rw [Ledger.settle_pending] at member
    exact member
  · next socket held =>
      have kept : ∀ other, other ∈ client.ledger.sent.map Prod.fst →
          other ∈ (client.ledger.sent ++ [(id, socket)]).map Prod.fst := by
        intro other member
        rw [List.map_append]
        exact List.mem_append_left _ member
      refine ⟨books.framing, ?_, ?_, books.keeps, ?_⟩
      · intro other member
        change other ∈ (client.ledger.sent ++ [(id, socket)]).map Prod.fst
        rcases List.mem_append.mp member with earlier | now
        · exact kept other (books.written other earlier)
        · rw [List.mem_singleton.mp now, List.map_append]
          exact List.mem_append_right _ (List.mem_singleton_self id)
      · intro other closer member
        exact kept other (books.rejected other closer member)
      · intro other carrier closer member written
        rcases List.mem_append.mp written with earlier | now
        · exact books.spares other carrier closer member earlier
        · -- an id that was rejected had been written, so it is not drawn again
          cases List.mem_singleton.mp now
          exact absurd (books.rejected id closer member) fresh.2

omit [DecidableEq RequestId] in
theorem close_books (books : Books client) : Books client.close := by
  refine books.quiet ?_ (.refl _) rfl rfl
  unfold close
  cases client.socket with
  | none => exact books.framing
  | some socket => exact books.framing_setPhase socket .destroyed

variable {event : ClientEvent RequestId}

theorem next_sound (sound : client.ledger.Sound idOf)
    (taken : next idOf client event = some after) : after.ledger.Sound idOf := by
  cases event with
  | connect =>
      cases taken
      unfold connect
      split
      · exact sound
      · exact sound
  | data socket chunk =>
      simp only [next] at taken
      split at taken <;> cases taken
      exact Ledger.answerAll_sound sound _
  | closed socket =>
      simp only [next] at taken
      split at taken <;> cases taken
      exact Ledger.rejectAll_sound sound _
  | request id =>
      simp only [next] at taken
      split at taken <;> cases taken
      unfold request
      split
      · exact Ledger.settle_sound sound rfl rfl rfl
          (fun other different => ⟨fun member => member, fun member => member⟩)
          (fun frame impossible => nomatch impossible)
      · exact Ledger.write_sound sound id _
  | writeError id | timeout id =>
      simp only [next] at taken
      split at taken <;> cases taken
      exact Ledger.finish_sound sound (fun frame impossible => nomatch impossible)
  | connected socket | error socket | destroyed socket =>
      simp only [next] at taken
      split at taken <;> cases taken
      exact sound
  | close =>
      cases taken
      exact sound

/-- Whatever the order of the callbacks, a response settles only the request
it names, no promise is settled twice and every unsettled request has its timer. -/
theorem sound_throughout
    {history : List (IpcClient RequestId × ClientEvent RequestId)} {final : IpcClient RequestId}
    (run : Run (next idOf) new history final) :
    Throughout (fun client => client.ledger.Sound idOf) history final := by
  induction run with
  | start => exact ⟨fun taken member => absurd member List.not_mem_nil, Ledger.empty_sound⟩
  | step _ taken ih =>
      exact (throughout_append_iff _ _ _ _ _).mpr ⟨ih, next_sound ih.2 taken⟩

theorem next_books (books : Books client)
    (careful : client.Careful event) (taken : next idOf client event = some after) :
    Books after := by
  cases event with
  | connect =>
      cases taken
      exact connect_books books
  | connected socket =>
      simp only [next] at taken
      split at taken <;> cases taken
      exact books.quiet (books.framing_setPhase socket .live) (.refl _) rfl rfl
  | error socket =>
      simp only [next] at taken
      split at taken <;> cases taken
      exact books.quiet books.framing (.refl _) rfl rfl
  | destroyed socket =>
      simp only [next] at taken
      split at taken <;> cases taken
      exact books.quiet (books.framing_setPhase socket .destroyed) (.refl _) rfl rfl
  | data socket chunk =>
      simp only [next] at taken
      split at taken <;> cases taken
      exact onData_books books careful
  | closed socket =>
      simp only [next] at taken
      split at taken <;> cases taken
      exact onClose_books books careful.1 careful.2
  | request id =>
      simp only [next] at taken
      split at taken <;> cases taken
      next fresh => exact request_books books fresh
  | writeError id =>
      simp only [next] at taken
      split at taken <;> cases taken
      exact books.quiet books.framing (Ledger.finish_shrinks .writeFailed id) rfl rfl
  | timeout id =>
      simp only [next] at taken
      split at taken <;> cases taken
      exact books.quiet books.framing (Ledger.finish_shrinks .timedOut id) rfl rfl
  | close =>
      cases taken
      exact close_books books

/-- The client keeps its promises as long as no bytes meet the rest of another
connection in the buffer and no close event comes late. -/
theorem orderly_of_careful (idOf : List Byte → Option RequestId)
    {history : List (IpcClient RequestId × ClientEvent RequestId)} {final : IpcClient RequestId}
    (run : Run (next idOf) new history final) (careful : Respects Careful history) :
    Throughout (Orderly idOf) history final := by
  have books := run.throughout_of_respects books_new
    (fun client event after books allowed taken => next_books books allowed taken) careful
  have sound := sound_throughout run
  exact ⟨fun taken member => (books.1 taken member).orderly (sound.1 taken member),
    books.2.orderly sound.2⟩

def named (payload : List Byte) : Option Byte :=
  payload.head?

/-- Two sockets, the second made after the first one was closed between two
frames, and one answer on each. -/
theorem orderly_of_careful_reconnect :
    ∃ history final, Run (next named) new history final ∧ history.length = 11 ∧
      final.socket = some 1 ∧ Throughout (Orderly named) history final := by
  obtain ⟨history, final, run, labels, tested⟩ := Run.of_trace (next named) new
    [.connect, .connected 0, .request 97, .data 0 [0, 0, 0], .data 0 [1, 97], .destroyed 0,
      .closed 0, .connect, .connected 1, .request 98, .data 1 [0, 0, 0, 1, 98]]
    (fun history final => Respects Careful history ∧ final.socket = some 1) (by decide)
  obtain ⟨careful, current⟩ := of_decide_eq_true tested
  refine ⟨history, final, run, ?_, current, orderly_of_careful named run careful⟩
  rw [← List.length_map Prod.snd, labels]
  rfl

/-- A connection lost inside a frame leaves two bytes behind, and the first
frame of the next one is read as an empty one. -/
theorem stale_bytes_shift_frames :
    ∃ history final, Run (next named) new history final ∧
      history.map Prod.snd = [.connect, .connected 0, .data 0 [0, 0], .destroyed 0, .closed 0,
        .connect, .connected 1, .request 98, .data 1 [0, 0, 0, 1, 98]] ∧
      (final.sockets 1).received = [0, 0, 0, 1, 98] ∧
      (final.sockets 1).decoded.map Subtype.val = [[]] ∧ ¬ Orderly named final := by
  obtain ⟨history, final, run, labels, tested⟩ := Run.of_trace (next named) new
    [.connect, .connected 0, .data 0 [0, 0], .destroyed 0, .closed 0,
      .connect, .connected 1, .request 98, .data 1 [0, 0, 0, 1, 98]]
    (fun _ final => (final.sockets 1).received = [0, 0, 0, 1, 98] ∧
      (final.sockets 1).decoded.map Subtype.val = [[]]) (by decide)
  obtain ⟨received, decoded⟩ := of_decide_eq_true tested
  refine ⟨history, final, run, labels, received, decoded, ?_⟩
  intro orderly
  obtain ⟨rest, cut⟩ := orderly.framing 1
  have drained := cut.unique (lengthPrefixed.drain_cuts (final.sockets 1).received)
  have impossible := decoded
  rw [drained.1, received] at impossible
  revert impossible
  decide

end IpcClient

end Mneme.Mcp
