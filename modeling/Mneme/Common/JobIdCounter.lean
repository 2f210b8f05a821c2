/-
The job id counter under any number of threads.

The atomic operations on the counter are the steps, in one order for all threads; what a
thread does between two of them is its own.  The counter is a machine word and wraps.
-/

import Mathlib.Algebra.GroupWithZero.Nat
import Mneme.Common.Jobs
import Mneme.Library.Run

namespace Mneme.Common

open Transition

/-- Where a thread stands; `floors` is history, the seeds that had returned when `next` was
called. -/
inductive IdThread where
  | idle
  | nextCalled (floors : List UInt64)
  | seedCalled (value : UInt64)
  /-- At the head of the loop of `seed_to`. -/
  | seedLoop (value current : UInt64)
  | seedExchange (value current : UInt64)

structure Allocation where
  id : UInt64
  floors : List UInt64
deriving DecidableEq

/-- All but the counter and the threads is history: the ids returned, the seeds returned, and
whether the counter has wrapped. -/
structure JobIdCounter where
  counter : UInt64
  threads : Nat → IdThread
  allocated : List Allocation
  seeded : List UInt64
  wrapped : Bool

inductive IdStep where
  | callNext
  | fetchAdd
  | callSeedTo (value : UInt64)
  | load
  | compare
  | compareExchange
deriving DecidableEq

namespace JobIdCounter

def start : JobIdCounter :=
  { counter := 1
    threads := fun _ => .idle
    allocated := []
    seeded := []
    wrapped := false }

def move (state : JobIdCounter) (thread : Nat) (place : IdThread) : JobIdCounter :=
  { state with threads := Function.update state.threads thread place }

/-- A step of one thread. -/
def next (state : JobIdCounter) : Nat × IdStep → Option JobIdCounter
  | (thread, .callNext) =>
      match state.threads thread with
      | .idle => some (state.move thread (.nextCalled state.seeded))
      | _ => none
  | (thread, .fetchAdd) =>
      match state.threads thread with
      | .nextCalled floors =>
          some { state.move thread .idle with
            counter := state.counter + 1
            allocated := state.allocated ++ [{ id := state.counter, floors }]
            wrapped := state.wrapped || state.counter + 1 == 0 }
      | _ => none
  | (thread, .callSeedTo value) =>
      match state.threads thread with
      | .idle => some (state.move thread (.seedCalled value))
      | _ => none
  | (thread, .load) =>
      match state.threads thread with
      | .seedCalled value => some (state.move thread (.seedLoop value state.counter))
      | _ => none
  | (thread, .compare) =>
      match state.threads thread with
      | .seedLoop value current =>
          if value ≤ current then
            some { state.move thread .idle with seeded := state.seeded ++ [value] }
          else some (state.move thread (.seedExchange value current))
      | _ => none
  | (thread, .compareExchange) =>
      match state.threads thread with
      | .seedExchange value current =>
          if state.counter = current then
            some { state.move thread .idle with
              counter := value
              seeded := state.seeded ++ [value] }
          else some (state.move thread (.seedLoop value state.counter))
      | _ => none

/-- What a step can be: the inversion of `next`. -/
inductive Taken (state : JobIdCounter) (thread : Nat) : IdStep → JobIdCounter → Prop
  | callNext : Taken state thread .callNext (state.move thread (.nextCalled state.seeded))
  | fetchAdd (floors : List UInt64) (place : state.threads thread = .nextCalled floors) :
      Taken state thread .fetchAdd
        { state.move thread .idle with
          counter := state.counter + 1
          allocated := state.allocated ++ [{ id := state.counter, floors }]
          wrapped := state.wrapped || state.counter + 1 == 0 }
  | callSeedTo (value : UInt64) :
      Taken state thread (.callSeedTo value) (state.move thread (.seedCalled value))
  | load (value : UInt64) :
      Taken state thread .load (state.move thread (.seedLoop value state.counter))
  | past (value current : UInt64) (place : state.threads thread = .seedLoop value current)
      (reached : value ≤ current) :
      Taken state thread .compare
        { state.move thread .idle with seeded := state.seeded ++ [value] }
  | short (value current : UInt64) (place : state.threads thread = .seedLoop value current)
      (below : current < value) :
      Taken state thread .compare (state.move thread (.seedExchange value current))
  | exchanged (value : UInt64) (place : state.threads thread = .seedExchange value state.counter) :
      Taken state thread .compareExchange
        { state.move thread .idle with counter := value, seeded := state.seeded ++ [value] }
  | overtaken (value current : UInt64) (place : state.threads thread = .seedExchange value current) :
      Taken state thread .compareExchange (state.move thread (.seedLoop value state.counter))

theorem taken_of_next {state after : JobIdCounter} {thread : Nat} {label : IdStep}
    (taken : state.next (thread, label) = some after) : Taken state thread label after := by
  cases label with
  | callNext =>
      cases place : state.threads thread <;> simp only [next, place] at taken <;> cases taken
      exact .callNext
  | fetchAdd =>
      cases place : state.threads thread <;> simp only [next, place] at taken <;> cases taken
      exact .fetchAdd _ place
  | callSeedTo value =>
      cases place : state.threads thread <;> simp only [next, place] at taken <;> cases taken
      exact .callSeedTo value
  | load =>
      cases place : state.threads thread <;> simp only [next, place] at taken <;> cases taken
      exact .load _
  | compare =>
      cases place : state.threads thread with
      | seedLoop value current =>
          simp only [next, place] at taken
          by_cases reached : value ≤ current
          · rw [if_pos reached] at taken
            cases taken
            exact .past value current place reached
          · rw [if_neg reached] at taken
            cases taken
            exact .short value current place (UInt64.not_le.mp reached)
      | _ =>
          simp only [next, place] at taken
          cases taken
  | compareExchange =>
      cases place : state.threads thread with
      | seedExchange value current =>
          simp only [next, place] at taken
          by_cases same : state.counter = current
          · rw [if_pos same] at taken
            cases taken
            rw [← same] at place
            exact .exchanged value place
          · rw [if_neg same] at taken
            cases taken
            exact .overtaken value current place
      | _ =>
          simp only [next, place] at taken
          cases taken

theorem place_of_move {state : JobIdCounter} {thread other : Nat} {moved place : IdThread}
    (found : (state.move thread moved).threads other = place) :
    moved = place ∨ state.threads other = place := by
  change Function.update state.threads thread moved other = place at found
  by_cases same : other = thread
  · rw [same, Function.update_self] at found
    exact Or.inl found
  · rw [Function.update_of_ne same] at found
    exact Or.inr found

/-! ### The counter before it wraps -/

/-- Until the counter wraps it only moves forward, past every id and every seed returned. -/
structure Sound (state : JobIdCounter) : Prop where
  distinct : (state.allocated.map Allocation.id).Nodup
  floors : ∀ allocation, allocation ∈ state.allocated → ∀ value, value ∈ allocation.floors →
    value ≤ allocation.id
  short : ∀ thread value current, state.threads thread = .seedExchange value current →
    current < value
  below : state.wrapped = false → ∀ allocation, allocation ∈ state.allocated →
    allocation.id < state.counter
  reached : state.wrapped = false → ∀ value, value ∈ state.seeded → value ≤ state.counter
  called : state.wrapped = false → ∀ thread floors, state.threads thread = .nextCalled floors →
    ∀ value, value ∈ floors → value ≤ state.counter
  loaded : state.wrapped = false → ∀ thread value current,
    state.threads thread = .seedLoop value current → current ≤ state.counter

theorem start_sound : Sound start where
  distinct := List.nodup_nil
  floors := fun _ member => nomatch member
  short := fun _ _ _ place => nomatch place
  below := fun _ _ member => nomatch member
  reached := fun _ _ member => nomatch member
  called := fun _ _ _ place => nomatch place
  loaded := fun _ _ _ _ place => nomatch place

section Step

variable {state after : JobIdCounter} {thread : Nat} {label : IdStep}

theorem unwrapped_before (taken : Taken state thread label after) (kept : after.wrapped = false) :
    state.wrapped = false := by
  cases taken with
  | fetchAdd floors place => exact (Bool.or_eq_false_iff.mp kept).1
  | _ => exact kept

theorem toNat_add_one {counter : UInt64} (kept : (counter + 1 == 0) = false) :
    (counter + 1).toNat = counter.toNat + 1 := by
  have bound := counter.toNat_lt
  have nonzero : counter + 1 ≠ 0 := by
    intro zero
    rw [zero] at kept
    cases kept
  have sum : (counter + 1).toNat = (counter.toNat + 1) % 2 ^ 64 := UInt64.toNat_add counter 1
  by_cases last : counter.toNat + 1 = 2 ^ 64
  · exfalso
    rw [last, Nat.mod_self] at sum
    exact nonzero (UInt64.toNat_inj.mp sum)
  · rw [sum, Nat.mod_eq_of_lt (by omega)]

/-- Each step of a thread is one of the two operations, taken at once, or neither. -/
theorem step_sequential (sound : Sound state) (taken : Taken state thread label after)
    (kept : after.wrapped = false) :
    (after.counter = state.counter ∧ after.allocated = state.allocated ∧
      after.seeded = state.seeded) ∨
    (∃ floors, (state.counter.toNat, after.counter.toNat) = JobId.next state.counter.toNat ∧
      after.allocated = state.allocated ++ [{ id := state.counter, floors }] ∧
      after.seeded = state.seeded) ∨
    ∃ value, after.counter.toNat = JobId.seedTo state.counter.toNat value.toNat ∧
      after.allocated = state.allocated ∧ after.seeded = state.seeded ++ [value] := by
  have before := unwrapped_before taken kept
  cases taken with
  | fetchAdd floors place =>
      have sum := toNat_add_one (Bool.or_eq_false_iff.mp kept).2
      exact Or.inr (Or.inl ⟨floors, by rw [JobId.next, ← sum], rfl, rfl⟩)
  | past value current place reached =>
      have under : value ≤ state.counter :=
        UInt64.le_trans reached (sound.loaded before thread value current place)
      refine Or.inr (Or.inr ⟨value, ?_, rfl, rfl⟩)
      rw [JobId.seedTo, if_pos (UInt64.le_iff_toNat_le.mp under)]
      rfl
  | exchanged value place =>
      have above := UInt64.lt_iff_toNat_lt.mp (sound.short thread value _ place)
      refine Or.inr (Or.inr ⟨value, ?_, rfl, rfl⟩)
      rw [JobId.seedTo, if_neg (Nat.not_le_of_lt above)]
  | _ => exact Or.inl ⟨rfl, rfl, rfl⟩

theorem counter_le (sound : Sound state) (taken : Taken state thread label after)
    (kept : after.wrapped = false) : state.counter ≤ after.counter := by
  rw [UInt64.le_iff_toNat_le]
  rcases step_sequential sound taken kept with same | allocated | seeded
  · rw [same.1]
  · obtain ⟨floors, drawn, _⟩ := allocated
    have counter : after.counter.toNat = state.counter.toNat + 1 := congrArg Prod.snd drawn
    omega
  · obtain ⟨value, moved, _⟩ := seeded
    unfold JobId.seedTo at moved
    split at moved <;> omega

theorem called_step (sound : Sound state) (taken : Taken state thread label after)
    (kept : after.wrapped = false) (other : Nat) (floors : List UInt64)
    (place : after.threads other = .nextCalled floors) :
    ∀ value, value ∈ floors → value ≤ after.counter := by
  have before := unwrapped_before taken kept
  have forward := counter_le sound taken kept
  have moved : floors = state.seeded ∨ state.threads other = .nextCalled floors := by
    cases taken with
    | callNext =>
        cases place_of_move place with
        | inl here =>
            cases here
            exact Or.inl rfl
        | inr there => exact Or.inr there
    | _ =>
        cases place_of_move place with
        | inl here => cases here
        | inr there => exact Or.inr there
  intro value member
  cases moved with
  | inl seeds =>
      rw [seeds] at member
      exact UInt64.le_trans (sound.reached before value member) forward
  | inr there => exact UInt64.le_trans (sound.called before other floors there value member) forward

theorem loaded_step (sound : Sound state) (taken : Taken state thread label after)
    (kept : after.wrapped = false) (other : Nat) (value current : UInt64)
    (place : after.threads other = .seedLoop value current) : current ≤ after.counter := by
  have before := unwrapped_before taken kept
  have forward := counter_le sound taken kept
  have moved : current = state.counter ∨ state.threads other = .seedLoop value current := by
    cases taken with
    | load =>
        cases place_of_move place with
        | inl here =>
            cases here
            exact Or.inl rfl
        | inr there => exact Or.inr there
    | overtaken =>
        cases place_of_move place with
        | inl here =>
            cases here
            exact Or.inl rfl
        | inr there => exact Or.inr there
    | _ =>
        cases place_of_move place with
        | inl here => cases here
        | inr there => exact Or.inr there
  cases moved with
  | inl fresh =>
      rw [fresh]
      exact forward
  | inr there => exact UInt64.le_trans (sound.loaded before other value current there) forward

theorem short_step (sound : Sound state) (taken : Taken state thread label after)
    (other : Nat) (value current : UInt64)
    (place : after.threads other = .seedExchange value current) : current < value := by
  cases taken with
  | short moved loaded place' below =>
      cases place_of_move place with
      | inl here =>
          cases here
          exact below
      | inr there => exact sound.short other value current there
  | _ =>
      cases place_of_move place with
      | inl here => cases here
      | inr there => exact sound.short other value current there

/-- An id is drawn before the counter wraps. -/
theorem drawn_step (sound : Sound state) (taken : Taken state thread label after)
    (allowed : label = .fetchAdd → state.wrapped = false) :
    (after.allocated.map Allocation.id).Nodup ∧
      ∀ allocation, allocation ∈ after.allocated → ∀ value, value ∈ allocation.floors →
        value ≤ allocation.id := by
  cases taken with
  | fetchAdd floors place =>
      have before := allowed rfl
      constructor
      · rw [List.map_append, List.nodup_append]
        refine ⟨sound.distinct, List.nodup_singleton _, ?_⟩
        intro id old new fresh same
        obtain ⟨allocation, inside, named⟩ := List.mem_map.mp old
        rw [List.map_singleton, List.mem_singleton] at fresh
        have under := sound.below before allocation inside
        rw [named, same, fresh] at under
        exact UInt64.lt_irrefl _ under
      · intro allocation member value floor
        cases List.mem_append.mp member with
        | inl old => exact sound.floors allocation old value floor
        | inr new =>
            rw [List.mem_singleton.mp new] at floor ⊢
            exact sound.called before thread floors place value floor
  | _ => exact ⟨sound.distinct, sound.floors⟩

theorem below_step (sound : Sound state) (taken : Taken state thread label after)
    (kept : after.wrapped = false) (allocation : Allocation)
    (member : allocation ∈ after.allocated) : allocation.id < after.counter := by
  have before := unwrapped_before taken kept
  have forward := counter_le sound taken kept
  rcases step_sequential sound taken kept with same | allocated | seeded
  · rw [same.2.1] at member
    exact UInt64.lt_of_lt_of_le (sound.below before allocation member) forward
  · obtain ⟨floors, drawn, appended, _⟩ := allocated
    rw [appended] at member
    cases List.mem_append.mp member with
    | inl old => exact UInt64.lt_of_lt_of_le (sound.below before allocation old) forward
    | inr new =>
        have counter : after.counter.toNat = state.counter.toNat + 1 := congrArg Prod.snd drawn
        rw [List.mem_singleton.mp new, UInt64.lt_iff_toNat_lt, counter]
        exact Nat.lt_succ_self _
  · obtain ⟨value, _, same, _⟩ := seeded
    rw [same] at member
    exact UInt64.lt_of_lt_of_le (sound.below before allocation member) forward

theorem reached_step (sound : Sound state) (taken : Taken state thread label after)
    (kept : after.wrapped = false) (value : UInt64) (member : value ∈ after.seeded) :
    value ≤ after.counter := by
  have before := unwrapped_before taken kept
  have forward := counter_le sound taken kept
  rcases step_sequential sound taken kept with same | allocated | seeded
  · rw [same.2.2] at member
    exact UInt64.le_trans (sound.reached before value member) forward
  · obtain ⟨floors, _, _, same⟩ := allocated
    rw [same] at member
    exact UInt64.le_trans (sound.reached before value member) forward
  · obtain ⟨seed, moved, _, appended⟩ := seeded
    rw [appended] at member
    cases List.mem_append.mp member with
    | inl old => exact UInt64.le_trans (sound.reached before value old) forward
    | inr new =>
        rw [List.mem_singleton.mp new, UInt64.le_iff_toNat_le, moved]
        unfold JobId.seedTo
        split <;> omega

theorem step_sound (sound : Sound state) (taken : Taken state thread label after)
    (allowed : label = .fetchAdd → state.wrapped = false) : Sound after where
  distinct := (drawn_step sound taken allowed).1
  floors := (drawn_step sound taken allowed).2
  short := short_step sound taken
  below := below_step sound taken
  reached := reached_step sound taken
  called := called_step sound taken
  loaded := loaded_step sound taken

end Step

/-! ### Runs -/

/-- The ids returned are distinct, and none is below a seed that had returned when its `next`
was called. -/
structure Allocates (state : JobIdCounter) : Prop where
  distinct : (state.allocated.map Allocation.id).Nodup
  floors : ∀ allocation, allocation ∈ state.allocated → ∀ value, value ∈ allocation.floors →
    value ≤ allocation.id

/-- No id is drawn from a counter that has wrapped. -/
def BeforeWrap (state : JobIdCounter) (label : Nat × IdStep) : Prop :=
  label.2 = .fetchAdd → state.wrapped = false

instance (state : JobIdCounter) (label : Nat × IdStep) : Decidable (BeforeWrap state label) :=
  inferInstanceAs (Decidable (_ → _))

theorem unwrapped_allocates {history : List (JobIdCounter × (Nat × IdStep))} {final : JobIdCounter}
    (run : Run next start history final) (allowed : Respects BeforeWrap history) :
    Throughout Allocates history final := by
  have sound := run.throughout_of_respects start_sound
    (fun _ label _ sound allowed taken =>
      @step_sound _ _ label.1 label.2 sound (taken_of_next taken) allowed) allowed
  constructor
  · intro taken member
    exact ⟨(sound.1 taken member).distinct, (sound.1 taken member).floors⟩
  · exact ⟨sound.2.distinct, sound.2.floors⟩

/-! ### Two runs -/

/-- Two threads draw an id each while a third one seeds. -/
def race : List (Nat × IdStep) :=
  [(0, .callNext), (2, .callSeedTo 10), (2, .load), (0, .fetchAdd), (2, .compare),
    (2, .compareExchange), (2, .compare), (2, .compareExchange), (1, .callNext), (1, .fetchAdd)]

theorem race_allocates :
    ∃ history final, Run next start history final ∧ history.map Prod.snd = race ∧
      Throughout Allocates history final := by
  have traced := Run.of_trace next start race
    (fun history _ => decide (Respects BeforeWrap history)) (by decide +kernel)
  obtain ⟨history, final, run, labels, passed⟩ := traced
  exact ⟨history, final, run, labels, unwrapped_allocates run (of_decide_eq_true passed)⟩

/-- A seed at the end of the range, and three ids after it. -/
def seededHigh : List (Nat × IdStep) :=
  [(0, .callNext), (0, .fetchAdd), (0, .callSeedTo 18446744073709551615), (0, .load),
    (0, .compare), (0, .compareExchange), (0, .callNext), (0, .fetchAdd), (0, .callNext),
    (0, .fetchAdd), (0, .callNext), (0, .fetchAdd)]

/-- The first id comes again, and it is below the seed. -/
theorem seededHigh_repeats :
    ∃ history final, Run next start history final ∧ history.map Prod.snd = seededHigh ∧
      final.allocated.length < 2 ^ 64 ∧ ¬ (final.allocated.map Allocation.id).Nodup ∧
      ¬ ∀ allocation, allocation ∈ final.allocated → ∀ value, value ∈ allocation.floors →
        value ≤ allocation.id := by
  have traced := Run.of_trace next start seededHigh
    (fun _ final => decide (final.allocated =
      [{ id := 1, floors := [] }, { id := 18446744073709551615, floors := [18446744073709551615] },
        { id := 0, floors := [18446744073709551615] },
        { id := 1, floors := [18446744073709551615] }])) (by decide +kernel)
  obtain ⟨history, final, run, labels, passed⟩ := traced
  refine ⟨history, final, run, labels, ?_⟩
  rw [of_decide_eq_true passed]
  refine ⟨by decide, by decide, ?_⟩
  intro floors
  have low := floors { id := 0, floors := [18446744073709551615] } (by simp) _ List.mem_cons_self
  revert low
  decide

end JobIdCounter

end Mneme.Common
