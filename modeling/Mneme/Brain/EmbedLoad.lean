/-
Which index files are loaded safely.

The buffers for ids and vectors are reserved from the count in the header before
a row is read.  A reservation that an allocation may hold is taken to be
granted and its size is kept; a larger one panics, and with overflow checks so
does a product that does not fit a usize.
-/

import Mneme.Brain.EmbedMap

namespace Mneme.Brain.Embed

open Common Library

/-! ### Loading with its reservations -/

/-- `isize::MAX`: no allocation is larger. -/
def isizeMax : Nat := 2 ^ 63 - 1

inductive Loading where
  | panicked
  | returned (result : Except BrainError State)

structure Load where
  /-- The sizes in bytes of the buffers asked for, the fixed row buffer apart. -/
  requests : List Nat
  /-- The number of components did not fit a usize. -/
  overflowed : Bool
  loading : Loading

/-- The count that the header announces, and the bytes behind the header. -/
def readHeader (bytes : Bytes) : Except BrainError (Nat × Bytes) := do
  let (first, bytes) ← readExact 4 bytes
  if leValue first ≠ magic then throw (.badMagic (leValue first))
  let (second, bytes) ← readExact 4 bytes
  if leValue second ≠ embeddingDim then throw (.dimMismatch (leValue second))
  let (third, bytes) ← readExact 8 bytes
  return (leValue third, bytes)

def readState (count : Nat) (bytes : Bytes) : Except BrainError State :=
  (loadRows count bytes).map (fun rows => { ids := rows.1, vectors := rows.2, dirty := false })

/-- `Vec::with_capacity(count)`, `Vec::with_capacity(count * EMBEDDING_DIM)`,
and the rows. -/
def reserve (overflowChecks : Bool) (count : Nat) (bytes : Bytes) : Load :=
  let components := count * embeddingDim
  let overflowed := decide (2 ^ 64 ≤ components)
  let capacity := components % 2 ^ 64
  if isizeMax < count * 16 then
    { requests := [], overflowed := false, loading := .panicked }
  else if overflowChecks ∧ overflowed then
    { requests := [count * 16], overflowed, loading := .panicked }
  else if isizeMax < capacity * 4 then
    { requests := [count * 16], overflowed, loading := .panicked }
  else
    { requests := [count * 16, capacity * 4]
      overflowed
      loading := .returned (readState count bytes) }

def loadReserving (overflowChecks : Bool) (bytes : Bytes) : Load :=
  match readHeader bytes with
  | .error error =>
      { requests := [], overflowed := false, loading := .returned (.error error) }
  | .ok announced => reserve overflowChecks announced.1 announced.2

theorem loadFile_eq (bytes : Bytes) :
    loadFile bytes = (readHeader bytes).bind (fun announced => readState announced.1 announced.2) := by
  unfold loadFile readHeader
  cases readExact 4 bytes with
  | error error => rfl
  | ok first =>
      change (if leValue first.1 ≠ magic then throw _ else _) =
        Except.bind (if leValue first.1 ≠ magic then throw _ else _) _
      by_cases isMagic : leValue first.1 ≠ magic
      · rw [if_pos isMagic, if_pos isMagic]
        rfl
      · rw [if_neg isMagic, if_neg isMagic]
        cases readExact 4 first.2 with
        | error error => rfl
        | ok second =>
            change (if leValue second.1 ≠ embeddingDim then throw _ else _) =
              Except.bind (if leValue second.1 ≠ embeddingDim then throw _ else _) _
            by_cases isDim : leValue second.1 ≠ embeddingDim
            · rw [if_pos isDim, if_pos isDim]
              rfl
            · rw [if_neg isDim, if_neg isDim]
              cases readExact 8 second.2 with
              | error error => rfl
              | ok third =>
                  change (loadRows (leValue third.1) third.2).bind _ =
                    (loadRows (leValue third.1) third.2).map _
                  cases loadRows (leValue third.1) third.2 with
                  | error error => rfl
                  | ok rows => rfl

/-! ### The rows -/

def rowBytes : Nat := 16 + embeddingDim * 4

/-- The ids in the places of so many rows. -/
def announcedIds (count : Nat) (bytes : Bytes) : List Nat :=
  (List.range count).map (fun index => leAt 16 (index * rowBytes) bytes)

theorem announcedIds_succ (count : Nat) (bytes : Bytes) :
    announcedIds (count + 1) bytes =
      leValue (bytes.take 16) :: announcedIds count (bytes.drop rowBytes) := by
  have here : leAt 16 (0 * rowBytes) bytes = leValue (bytes.take 16) := by
    unfold leAt
    rw [Nat.zero_mul, List.drop_zero]
  have later : ∀ index, leAt 16 ((index + 1) * rowBytes) bytes =
      leAt 16 (index * rowBytes) (bytes.drop rowBytes) := by
    intro index
    unfold leAt
    rw [List.drop_drop, Nat.add_one_mul, Nat.add_comm]
  unfold announcedIds
  rw [List.range_succ_eq_map, List.map_cons, List.map_map, here]
  exact congrArg _ (List.map_congr_left (fun index _ => later index))

variable {bytes : Bytes} {count : Nat}

theorem readExact_long (long : count ≤ bytes.length) :
    readExact count bytes = .ok (bytes.take count, bytes.drop count) := if_pos long

theorem readExact_short (short : bytes.length < count) :
    readExact count bytes = .error .unexpectedEof := if_neg (Nat.not_le.mpr short)

/-- Rows that are all there are read, with a vector for each id. -/
theorem loadRows_whole (there : count * rowBytes ≤ bytes.length) :
    ∃ vectors, vectors.length = count * embeddingDim ∧
      loadRows count bytes = .ok ((announcedIds count bytes).map (BitVec.ofNat 128), vectors) := by
  induction count generalizing bytes with
  | zero => exact ⟨[], rfl, rfl⟩
  | succ count ih =>
      have size : rowBytes = 16 + embeddingDim * 4 := rfl
      rw [Nat.add_one_mul] at there
      obtain ⟨vectors, length, loaded⟩ := @ih (bytes.drop rowBytes) (by
        rw [List.length_drop]
        omega)
      have rowLength : ((bytes.drop 16).take (embeddingDim * 4)).length = embeddingDim * 4 := by
        rw [List.length_take, List.length_drop]
        omega
      refine ⟨f32Chunks ((bytes.drop 16).take (embeddingDim * 4)) ++ vectors, ?_, ?_⟩
      · rw [List.length_append, f32Chunks_length embeddingDim rowLength, length,
          Nat.add_one_mul, Nat.add_comm]
      · rw [announcedIds_succ, List.map_cons, loadRows]
        refine bind_eq_ok.mpr ⟨_, readExact_long (by omega), ?_⟩
        refine bind_eq_ok.mpr ⟨_, readExact_long (by rw [List.length_drop]; omega), ?_⟩
        dsimp only
        rw [List.drop_drop, ← size]
        exact bind_eq_ok.mpr ⟨_, loaded, rfl⟩

theorem loadRows_cut (cut : bytes.length < count * rowBytes) :
    loadRows count bytes = .error .unexpectedEof := by
  induction count generalizing bytes with
  | zero => exact absurd cut (by omega)
  | succ count ih =>
      have size : rowBytes = 16 + embeddingDim * 4 := rfl
      rw [Nat.add_one_mul] at cut
      rw [loadRows]
      by_cases id : 16 ≤ bytes.length
      · rw [readExact_long id]
        change (readExact (embeddingDim * 4) (bytes.drop 16)).bind _ = _
        by_cases row : embeddingDim * 4 ≤ (bytes.drop 16).length
        · rw [readExact_long row]
          change (loadRows count ((bytes.drop 16).drop (embeddingDim * 4))).bind _ = _
          rw [List.length_drop] at row
          rw [ih (by rw [List.length_drop, List.length_drop]; omega)]
          rfl
        · rw [readExact_short (Nat.not_le.mp row)]
          rfl
      · rw [readExact_short (Nat.not_le.mp id)]
        rfl

/-! ### Safe loads -/

/-- Every slot has its own id and its own vector. -/
structure Consistent (state : State) : Prop where
  distinct : state.ids.Nodup
  flat : state.vectors.length = state.ids.length * embeddingDim

/-- An error or a consistent state is returned, the sizes are exact, and no
buffer is larger than the file. -/
structure SafeLoad (overflowChecks : Bool) (bytes : Bytes) : Prop where
  settled : ∃ result, (loadReserving overflowChecks bytes).loading = .returned result ∧
    ∀ state, result = .ok state → Consistent state
  sized : (loadReserving overflowChecks bytes).overflowed = false
  justified : ∀ size ∈ (loadReserving overflowChecks bytes).requests, size ≤ bytes.length

/-- The vectors that the header announces take no more bytes than the file has
and an allocation holds, and rows that are all there have different ids. -/
def HonestHeader (bytes : Bytes) : Prop :=
  ∀ count rows, readHeader bytes = .ok (count, rows) →
    count * (embeddingDim * 4) ≤ bytes.length ∧ count * (embeddingDim * 4) ≤ isizeMax ∧
      (count * rowBytes ≤ rows.length → (announcedIds count rows).Nodup)

variable {overflowChecks : Bool}

variable {result : Except BrainError State}

/-- What a load returns is what the file says, whatever is reserved. -/
theorem loadReserving_returned
    (returned : (loadReserving overflowChecks bytes).loading = .returned result) :
    loadFile bytes = result := by
  rw [loadFile_eq]
  unfold loadReserving at returned
  cases header : readHeader bytes with
  | error error =>
      rw [header] at returned
      cases returned
      rfl
  | ok announced =>
      rw [header] at returned
      unfold reserve at returned
      dsimp only at returned
      split at returned
      · cases returned
      · split at returned
        · cases returned
        · split at returned
          · cases returned
          · cases returned
            rfl

/-- A number of bytes that an allocation holds is a product without overflow. -/
theorem reserve_of_small (overflowChecks : Bool) (bytes : Bytes)
    (small : count * (embeddingDim * 4) ≤ isizeMax) :
    reserve overflowChecks count bytes =
      { requests := [count * 16, count * embeddingDim * 4]
        overflowed := false
        loading := .returned (readState count bytes) } := by
  have dim : count * embeddingDim = count * 384 := rfl
  have most : isizeMax = 2 ^ 63 - 1 := rfl
  rw [← Nat.mul_assoc] at small
  have fits : count * embeddingDim < 2 ^ 64 := by omega
  have exact_size : count * embeddingDim % 2 ^ 64 = count * embeddingDim := Nat.mod_eq_of_lt fits
  have noOverflow : decide (2 ^ 64 ≤ count * embeddingDim) = false :=
    decide_eq_false (Nat.not_le.mpr fits)
  unfold reserve
  dsimp only
  rw [exact_size, noOverflow, if_neg (by omega), if_neg (fun both => Bool.false_ne_true both.2),
    if_neg (by omega)]

theorem announcedIds_bits (count : Nat) (bytes : Bytes) :
    ((announcedIds count bytes).map (BitVec.ofNat 128)).Nodup ↔ (announcedIds count bytes).Nodup := by
  have small : ∀ id ∈ announcedIds count bytes, id < 2 ^ 128 := by
    intro id member
    obtain ⟨index, _, rfl⟩ := List.mem_map.mp member
    exact leAt_lt 16 _ bytes
  constructor
  · exact List.Nodup.of_map _
  · intro distinct
    apply List.Nodup.map_on _ distinct
    intro first inFirst second inSecond same
    have values := congrArg BitVec.toNat same
    rw [BitVec.toNat_ofNat, BitVec.toNat_ofNat, Nat.mod_eq_of_lt (small first inFirst),
      Nat.mod_eq_of_lt (small second inSecond)] at values
    exact values

/-- The state read is consistent exactly when the ids of whole rows differ. -/
theorem readState_consistent_iff (count : Nat) (bytes : Bytes) :
    (∀ state, readState count bytes = .ok state → Consistent state) ↔
      (count * rowBytes ≤ bytes.length → (announcedIds count bytes).Nodup) := by
  by_cases there : count * rowBytes ≤ bytes.length
  · obtain ⟨vectors, length, loaded⟩ := loadRows_whole there
    have read : readState count bytes = .ok
        { ids := (announcedIds count bytes).map (BitVec.ofNat 128), vectors, dirty := false } := by
      unfold readState
      rw [loaded]
      rfl
    rw [read, ← announcedIds_bits]
    constructor
    · intro consistent _
      exact (consistent _ rfl).distinct
    · intro distinct state same
      cases same
      refine ⟨distinct there, ?_⟩
      change vectors.length = ((announcedIds count bytes).map (BitVec.ofNat 128)).length * embeddingDim
      rw [length, List.length_map, announcedIds, List.length_map, List.length_range]
  · have failed : readState count bytes = .error .unexpectedEof := by
      unfold readState
      rw [loadRows_cut (Nat.not_le.mp there)]
      rfl
    rw [failed]
    constructor
    · intro _ whole
      exact absurd whole there
    · intro _ state impossible
      cases impossible

theorem reserve_overflowed (within : ¬ isizeMax < count * 16) :
    (reserve overflowChecks count bytes).overflowed = decide (2 ^ 64 ≤ count * embeddingDim) := by
  unfold reserve
  dsimp only
  rw [if_neg within]
  split
  · rfl
  · split
    · rfl
    · rfl

/-- What a reservation without panic and overflow tells about the count. -/
theorem small_of_reserve
    (returned : (reserve overflowChecks count bytes).loading = .returned result)
    (sized : (reserve overflowChecks count bytes).overflowed = false) :
    count * (embeddingDim * 4) ≤ isizeMax := by
  by_cases within : isizeMax < count * 16
  · unfold reserve at returned
    dsimp only at returned
    rw [if_pos within] at returned
    cases returned
  · rw [reserve_overflowed within, decide_eq_false_iff_not, Nat.not_le] at sized
    unfold reserve at returned
    dsimp only at returned
    rw [if_neg within, Nat.mod_eq_of_lt sized] at returned
    split at returned
    · cases returned
    · split at returned
      · cases returned
      · rename_i held
        rw [← Nat.mul_assoc]
        exact Nat.not_lt.mp held

/-- A file is loaded safely exactly when its header is not accepted or is
honest. -/
theorem safeLoad_iff (overflowChecks : Bool) (bytes : Bytes) :
    SafeLoad overflowChecks bytes ↔ HonestHeader bytes := by
  cases header : readHeader bytes with
  | error error =>
      have load : loadReserving overflowChecks bytes =
          { requests := [], overflowed := false, loading := .returned (.error error) } := by
        unfold loadReserving
        rw [header]
      constructor
      · intro _ count rows accepted
        rw [header] at accepted
        cases accepted
      · intro _
        refine ⟨⟨.error error, by rw [load], ?_⟩, by rw [load], ?_⟩
        · intro state impossible
          cases impossible
        · intro size member
          rw [load] at member
          cases member
  | ok announced =>
      obtain ⟨count, rows⟩ := announced
      have load : loadReserving overflowChecks bytes = reserve overflowChecks count rows := by
        unfold loadReserving
        rw [header]
      constructor
      · intro safe
        obtain ⟨⟨result, returned, consistent⟩, sized, justified⟩ := safe
        have read := loadReserving_returned returned
        rw [load] at returned sized justified
        have small := small_of_reserve returned sized
        rw [reserve_of_small overflowChecks rows small] at justified
        intro other others accepted
        rw [header] at accepted
        cases accepted
        refine ⟨?_, small, (readState_consistent_iff count rows).mp ?_⟩
        · rw [← Nat.mul_assoc]
          exact justified _ (List.mem_cons_of_mem _ List.mem_cons_self)
        · rw [loadFile_eq, header] at read
          intro state loaded
          exact consistent state (read.symm.trans loaded)
      · intro honest
        obtain ⟨within, small, distinct⟩ := honest count rows header
        refine ⟨⟨readState count rows, ?_, (readState_consistent_iff count rows).mpr distinct⟩, ?_, ?_⟩
        · rw [load, reserve_of_small overflowChecks rows small]
        · rw [load, reserve_of_small overflowChecks rows small]
        · intro size member
          rw [load, reserve_of_small overflowChecks rows small] at member
          have dim : count * (embeddingDim * 4) = count * 1536 := rfl
          have same : count * embeddingDim * 4 = count * 1536 := Nat.mul_assoc _ _ _
          rcases List.mem_cons.mp member with ids | vectors
          · omega
          · rw [List.mem_singleton] at vectors
            omega

/-- A header that announces 2 ^ 60 rows, and nothing behind it. -/
def boastful : Bytes :=
  [0x31, 0x42, 0x54, 0x44, 0x80, 0x01, 0, 0, 0, 0, 0, 0, 0, 0, 0, 0x10]

theorem boastful_panics : ¬ ∀ (overflowChecks : Bool) (bytes : Bytes),
    SafeLoad overflowChecks bytes := by
  intro safe
  obtain ⟨result, returned, _⟩ := (safe false boastful).settled
  have panicked : (loadReserving false boastful).loading = .panicked := rfl
  rw [panicked] at returned
  cases returned

end Mneme.Brain.Embed
