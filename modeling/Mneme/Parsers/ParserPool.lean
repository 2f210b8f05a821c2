/-
The parsers of one language, leased to tasks: a permit first, then the first slot whose
mutex is free.

Waiting for the permit, each `try_lock_owned`, waiting for the first slot and the two drops at
the end of a lease are steps of their own, and the tasks take theirs in any order.
-/

import Mathlib.Data.List.Nodup
import Mathlib.Data.List.Perm.Subperm
import Mneme.Library.Run

namespace Mneme.Parsers.ParserPool

open Transition

/-- Where a task that holds a permit stands. -/
inductive Phase where
  /-- `try_lock_owned` comes next for this slot. -/
  | trying (idx : Nat)
  /-- In front of `lock_owned` on the first slot. -/
  | waiting
  | leased (slot : Nat)
  /-- The guard is dropped, the permit not yet. -/
  | returning
deriving DecidableEq

structure LanguageSlots (Task : Type) where
  /-- The mutexes, with the task that holds each. -/
  slots : List (Option Task)
  permits : Nat
  /-- The tasks that hold the other permits. -/
  holders : List Task
  phase : Task → Phase

inductive PoolStep (Task : Type) where
  | acquire (task : Task)
  | tryLock (task : Task)
  | lockFirst (task : Task)
  /-- The call is dropped while it waits for the first slot. -/
  | cancel (task : Task)
  | dropGuard (task : Task)
  | dropPermit (task : Task)

variable {Task : Type} [DecidableEq Task]

def new (workersPerLanguage : Nat) : LanguageSlots Task :=
  { slots := List.replicate workersPerLanguage none
    permits := workersPerLanguage
    holders := []
    phase := fun _ => .returning }

/-- The task locks this slot, or no slot, and turns to a phase. -/
def LanguageSlots.turn (pool : LanguageSlots Task) (task : Task) (phase : Phase)
    (slots : List (Option Task)) : LanguageSlots Task :=
  { pool with slots, phase := fun other => if other = task then phase else pool.phase other }

def next (pool : LanguageSlots Task) : PoolStep Task → Option (LanguageSlots Task)
  | .acquire task =>
      if task ∉ pool.holders ∧ 0 < pool.permits then
        some { pool.turn task (.trying 0) pool.slots with
          permits := pool.permits - 1
          holders := task :: pool.holders }
      else none
  | .tryLock task =>
      if task ∈ pool.holders then
        match pool.phase task with
        | .trying idx =>
            match pool.slots[idx]? with
            | none => some (pool.turn task .waiting pool.slots)
            | some none => some (pool.turn task (.leased idx) (pool.slots.set idx (some task)))
            | some (some _) => some (pool.turn task (.trying (idx + 1)) pool.slots)
        | _ => none
      else none
  | .lockFirst task =>
      if task ∈ pool.holders ∧ pool.phase task = .waiting ∧ pool.slots[0]? = some none then
        some (pool.turn task (.leased 0) (pool.slots.set 0 (some task)))
      else none
  | .cancel task =>
      if task ∈ pool.holders ∧ pool.phase task = .waiting then
        some (pool.turn task .returning pool.slots)
      else none
  | .dropGuard task =>
      if task ∈ pool.holders then
        match pool.phase task with
        | .leased slot => some (pool.turn task .returning (pool.slots.set slot none))
        | _ => none
      else none
  | .dropPermit task =>
      if task ∈ pool.holders ∧ pool.phase task = .returning then
        some { pool with permits := pool.permits + 1, holders := pool.holders.erase task }
      else none

/-- The permits are accounted for, and a slot is locked by the task that leases it. -/
structure Sound (workers : Nat) (pool : LanguageSlots Task) : Prop where
  size : pool.slots.length = workers
  counted : pool.holders.length + pool.permits = workers
  distinct : pool.holders.Nodup
  locked : ∀ slot task, pool.slots[slot]? = some (some task) ↔
    task ∈ pool.holders ∧ pool.phase task = .leased slot

variable {pool after : LanguageSlots Task} {workers : Nat}

theorem Sound.next (sound : Sound workers pool) {step : PoolStep Task}
    (taken : next pool step = some after) : Sound workers after := by
  obtain ⟨size, counted, distinct, locked⟩ := sound
  cases step with
  | acquire task | lockFirst task | cancel task | dropPermit task =>
      simp only [ParserPool.next] at taken
      split at taken <;> cases taken
      constructor <;> grind [LanguageSlots.turn, List.Nodup.mem_erase_iff]
  | tryLock task =>
      simp only [ParserPool.next] at taken
      repeat' split at taken
      all_goals cases taken
      all_goals constructor <;> grind [LanguageSlots.turn]
  | dropGuard task =>
      simp only [ParserPool.next] at taken
      repeat' split at taken
      all_goals cases taken
      next holds _ slot leased =>
        have own := (locked slot task).mpr ⟨holds, leased⟩
        constructor <;> grind [LanguageSlots.turn]

theorem Sound.slot_free (sound : Sound workers pool) {task : Task} (holds : task ∈ pool.holders)
    (unleased : ∀ slot, pool.phase task ≠ .leased slot) : none ∈ pool.slots := by
  by_contra full
  have locked : ∀ (slot : Nat) (inside : slot < pool.slots.length),
      ∃ other, pool.slots[slot] = some other ∧ other ∈ pool.holders ∧
        pool.phase other = .leased slot := by
    intro slot inside
    cases held : pool.slots[slot] with
    | none => exact absurd (held ▸ List.getElem_mem inside) full
    | some other =>
        exact ⟨other, rfl, (sound.locked slot other).mp (List.getElem?_eq_some_iff.mpr
          ⟨inside, held⟩)⟩
  -- A slot for each of the other holders at most.
  have distinct : pool.slots.Nodup := by
    rw [List.nodup_iff_injective_get]
    intro first second same
    obtain ⟨one, held, _, here⟩ := locked first first.isLt
    obtain ⟨other, held', _, there⟩ := locked second second.isLt
    grind
  have listed : pool.slots ⊆ (pool.holders.erase task).map some := by
    intro entry member
    obtain ⟨slot, inside, rfl⟩ := List.getElem_of_mem member
    obtain ⟨other, held, inHolders, leased⟩ := locked slot inside
    rw [held]
    refine List.mem_map_of_mem ((List.mem_erase_of_ne ?_).mpr inHolders)
    intro same
    exact unleased slot (same ▸ leased)
  have fewer := (List.Nodup.subperm distinct listed).length_le
  rw [List.length_map, List.length_erase_of_mem holds] at fewer
  have some_ := List.length_pos_of_mem holds
  have size := sound.size
  have counted := sound.counted
  omega

/-- At every moment a slot is leased to one task only, the permits bound the leases, and a task
that has a permit but no slot finds one free, also while it waits for the first. -/
theorem leases_exclusive (workers : Nat) (pool : LanguageSlots Task)
    (reachable : Reachable next (new workers) pool) :
    (∀ slot, ∀ first ∈ pool.holders, ∀ second ∈ pool.holders,
      pool.phase first = .leased slot → pool.phase second = .leased slot → first = second) ∧
    pool.holders.length + pool.permits = workers ∧
    ∀ task ∈ pool.holders, (∀ slot, pool.phase task ≠ .leased slot) → none ∈ pool.slots := by
  have fresh : Sound workers (new workers : LanguageSlots Task) := by
    constructor <;> grind [new]
  have sound : Sound workers pool :=
    Reachable.invariant fresh (fun _ _ _ sound taken => sound.next taken) reachable
  refine ⟨?_, sound.counted, fun task holds unleased => sound.slot_free holds unleased⟩
  intro slot first inFirst second inSecond leased leased'
  have one := (sound.locked slot first).mpr ⟨inFirst, leased⟩
  have other := (sound.locked slot second).mpr ⟨inSecond, leased'⟩
  rw [one] at other
  exact Option.some.inj (Option.some.inj other)

/-- The second task finds the first slot locked and leases the other. -/
def bothLeased : List (PoolStep Nat) :=
  [.acquire 1, .acquire 2, .tryLock 1, .tryLock 2, .tryLock 2]

theorem leases_exclusive_both : ∃ pool, Reachable next (new 2) pool ∧
    pool.phase 2 = .leased 1 ∧ pool.holders.length + pool.permits = 2 := by
  have executed : execute next (new 2) bothLeased = some (_, _) := rfl
  have run := Run.of_execute executed
  exact ⟨_, ⟨_, run⟩, rfl, (leases_exclusive 2 _ ⟨_, run⟩).2.1⟩

end Mneme.Parsers.ParserPool
