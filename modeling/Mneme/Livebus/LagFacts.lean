/-
What the lag of a subscriber counts.  A send and the update of its counters are two steps,
and a new handle takes over the counters as they are, so the lag is the number of failures
since the last success only where the sends on a channel are counted one after the other,
through the handle that is registered.
-/

import Mneme.Livebus.ChannelFacts

namespace Mneme.Livebus

open Library

/-- The failures since the last success. -/
def streak (results : List SendResult) : Nat :=
  results.foldl (fun failures result =>
    match result with
    | .ok => 0
    | .full => failures + 1
    | .closed => failures) 0

theorem streak_append (results : List SendResult) (result : SendResult) :
    streak (results ++ [result]) =
      match result with
      | .ok => 0
      | .full => streak results + 1
      | .closed => streak results := by
  unfold streak
  rw [List.foldl_append]
  rfl

namespace Manager

def results (manager : Manager) (place : Nat) : List SendResult :=
  (manager.attemptsOn place).map Attempt.result

def Live (manager : Manager) (id : String) (handle : Nat) (subscriber : Subscriber) : Prop :=
  manager.subscribers.lookup id = some handle ∧ manager.handles[handle]? = some subscriber

/-- What a sweep has sent and not yet counted. -/
def sentBy (manager : Manager) (number : Nat) : Option (Nat × SendResult) :=
  (manager.sweeps[number]?).bind Sweep.sent

structure Uncounted (manager : Manager) (place number handle : Nat) (result : SendResult) :
    Prop where
  sent : manager.sentBy number = some (handle, result)
  reached : ∃ subscriber : Subscriber,
    manager.handles[handle]? = some subscriber ∧ subscriber.tx = place

/-- No send on the channel waits for its counters. -/
def settled (manager : Manager) (place : Nat) : Bool :=
  manager.sweeps.all (fun sweep =>
    match sweep.sent with
    | none => true
    | some (handle, _) =>
        (manager.handles[handle]?).all (fun subscriber => subscriber.tx ≠ place))

/-- A send goes through the registered handle of its subscriber, or the subscriber is gone;
and neither a send nor a change of patterns meets a send that is not yet counted. -/
def careful (manager : Manager) : Action → Bool
  | .visit number =>
      (manager.sweeps[number]?).all (fun sweep =>
        match sweep.todo, sweep.sent with
        | handle :: _, none =>
            (manager.handles[handle]?).all (fun subscriber =>
              !subscriber.matchesTopic sweep.event.topic ||
                ((manager.subscribers.lookup subscriber.id).all (fun current => current = handle) &&
                  manager.settled subscriber.tx))
        | _, _ => true)
  | .updatePatterns id _ =>
      ((manager.subscribers.lookup id).bind (fun handle => manager.handles[handle]?)).all
        (fun existing => manager.settled existing.tx)
  | _ => true

theorem settled_iff (manager : Manager) (place : Nat) :
    manager.settled place = true ↔
      ∀ number handle result, ¬ manager.Uncounted place number handle result := by
  unfold settled
  rw [List.all_eq_true]
  constructor
  · intro quiet number handle result uncounted
    obtain ⟨sent, subscriber, held, there⟩ := uncounted
    obtain ⟨sweep, found, sent⟩ := Option.bind_eq_some_iff.mp sent
    have here := quiet sweep (List.mem_of_getElem? found)
    simp only [sent, held, Option.all_some, decide_eq_true_iff] at here
    exact here there
  · intro quiet sweep member
    obtain ⟨number, found⟩ := List.mem_iff_getElem?.mp member
    cases sent : sweep.sent with
    | none => rfl
    | some pair =>
        obtain ⟨handle, result⟩ := pair
        cases held : manager.handles[handle]? with
        | none => simp only [held, Option.all_none]
        | some subscriber =>
            simp only [held, Option.all_some, decide_eq_true_iff]
            intro there
            apply quiet number handle result
            refine ⟨?_, subscriber, held, there⟩
            unfold sentBy
            rw [found, ← sent]
            rfl

/-! ### The invariant -/

/-- A reason to evict: the receiver is gone, or a full window of failures went by. -/
def Evidence (manager : Manager) (place : Nat) : Prop :=
  (∃ channel : Channel, manager.channels[place]? = some channel ∧ channel.closed = true) ∨
    ∃ front, front <+: manager.results place ∧ backpressureWindow ≤ streak front

/-- The lag of a registered handle, up to a send that waits for its counters. -/
structure LagRight (manager : Manager) (handle : Nat) (subscriber : Subscriber) : Prop where
  waiting : ∀ number other result, manager.Uncounted subscriber.tx number other result →
    other = handle ∧ ∃ front, manager.results subscriber.tx = front ++ [result] ∧
      subscriber.lag = streak front
  settled : manager.settled subscriber.tx = true →
    subscriber.lag = streak (manager.results subscriber.tx)

structure Counted (manager : Manager) : Prop where
  sent : ∀ number handle result, manager.sentBy number = some (handle, result) →
    handle < manager.handles.length
  alone : ∀ place number handle result other handle' result',
    manager.Uncounted place number handle result → manager.Uncounted place other handle' result' →
    number = other
  lags : ∀ id handle subscriber, manager.Live id handle subscriber →
    LagRight manager handle subscriber
  due : ∀ (number : Nat) (sweep : Sweep), manager.sweeps[number]? = some sweep →
    ∀ entry, entry ∈ sweep.toEvict → ∀ handle subscriber, manager.Live entry.1 handle subscriber →
      manager.Evidence subscriber.tx
  evictions : ∀ place, place ∈ manager.evictions → manager.Evidence place

theorem Counted.new : Counted new where
  sent := fun number handle result impossible => by cases impossible
  alone := fun place number handle result other handle' result' impossible => by
    cases impossible.sent
  lags := fun id handle subscriber impossible => by cases impossible.2
  due := fun number sweep impossible => by cases impossible
  evictions := fun place impossible => by cases impossible

/-! ### What one step keeps -/

section Carry

variable {before after : Manager}

theorem results_grow (grows : Grows before after) (place : Nat) :
    before.results place <+: after.results place := by
  unfold results attemptsOn
  exact (grows.attempts.filter _).map _

variable {place handle : Nat}

theorem Evidence.carry (evidence : before.Evidence place)
    (grows : Grows before after) : after.Evidence place := by
  rcases evidence with ⟨channel, found, closed⟩ | ⟨front, initial, long⟩
  · obtain ⟨later, found', kept⟩ := grows.channels place channel found
    exact Or.inl ⟨later, found', kept closed⟩
  · exact Or.inr ⟨front, initial.trans (results_grow grows place), long⟩

theorem results_same (attempts : after.attempts = before.attempts) (place : Nat) :
    after.results place = before.results place := by
  unfold results attemptsOn
  rw [attempts]

variable {result : SendResult}

/-- A send that waited before the step waits on the same channel after it. -/
theorem Uncounted.carry {number : Nat}
    (uncounted : before.Uncounted place number handle result) (grows : Grows before after)
    (sent : after.sentBy number = before.sentBy number) :
    after.Uncounted place number handle result := by
  obtain ⟨waiting, subscriber, held, there⟩ := uncounted
  obtain ⟨later, held', same⟩ := grows.handles handle subscriber held
  exact ⟨sent.trans waiting, later, held', same.2.2.trans there⟩

theorem Uncounted.back {number : Nat}
    (uncounted : after.Uncounted place number handle result) (grows : Grows before after)
    (counted : Counted before) (sent : after.sentBy number = before.sentBy number) :
    before.Uncounted place number handle result := by
  obtain ⟨waiting, later, held, there⟩ := uncounted
  rw [sent] at waiting
  obtain ⟨subscriber, held', same⟩ :=
    grows.handle_before (counted.sent number handle result waiting) held
  exact ⟨waiting, subscriber, held', same.2.2.symm.trans there⟩

/-- The lag is right as long as the sends on the channel are the same. -/
theorem LagRight.carry {subscriber : Subscriber} (right : LagRight before handle subscriber)
    (uncounted : ∀ number other result, after.Uncounted subscriber.tx number other result ↔
      before.Uncounted subscriber.tx number other result)
    (results : after.results subscriber.tx = before.results subscriber.tx) :
    LagRight after handle subscriber where
  waiting := by
    intro number other result waits
    rw [results]
    exact right.waiting number other result ((uncounted number other result).mp waits)
  settled := by
    intro quiet
    rw [results]
    apply right.settled
    rw [settled_iff] at quiet ⊢
    intro number other result waits
    exact quiet number other result ((uncounted number other result).mpr waits)

/-- A step that sends nothing and counts nothing: what is left are the handles it
registers and the evictions. -/
theorem Counted.quiet (counted : Counted before) (grows : Grows before after)
    (sent : ∀ number, after.sentBy number = before.sentBy number)
    (attempts : after.attempts = before.attempts)
    (lags : ∀ id handle subscriber, after.Live id handle subscriber →
      before.Live id handle subscriber ∨ LagRight after handle subscriber)
    (due : ∀ (number : Nat) (sweep : Sweep), after.sweeps[number]? = some sweep →
      ∀ entry, entry ∈ sweep.toEvict → ∀ handle subscriber,
        after.Live entry.1 handle subscriber → after.Evidence subscriber.tx)
    (evictions : ∀ place, place ∈ after.evictions → after.Evidence place) : Counted after where
  sent := by
    intro number handle result waiting
    rw [sent] at waiting
    exact Nat.lt_of_lt_of_le (counted.sent number handle result waiting) grows.handles_length
  alone := by
    intro place number handle result other handle' result' first second
    exact counted.alone place number handle result other handle' result'
      (first.back grows counted (sent number)) (second.back grows counted (sent other))
  lags := by
    intro id handle subscriber live
    rcases lags id handle subscriber live with earlier | right
    · apply (counted.lags id handle subscriber earlier).carry
      · intro number other result
        exact ⟨fun waits => waits.back grows counted (sent number),
          fun waits => waits.carry grows (sent number)⟩
      · exact results_same attempts _
    · exact right
  due := due
  evictions := evictions

/-- The evictions that are due, when the step adds none. -/
theorem Counted.due_carry (counted : Counted before) (grows : Grows before after)
    (sweeps : ∀ (number : Nat) (sweep : Sweep), after.sweeps[number]? = some sweep →
      ∀ entry, entry ∈ sweep.toEvict → ∃ (other : Nat) (old : Sweep),
        before.sweeps[other]? = some old ∧ entry ∈ old.toEvict)
    (live : ∀ id handle subscriber, after.Live id handle subscriber →
      before.Live id handle subscriber)
    (number : Nat) (sweep : Sweep) (found : after.sweeps[number]? = some sweep)
    (entry : String × String) (member : entry ∈ sweep.toEvict) (handle : Nat)
    (subscriber : Subscriber) (here : after.Live entry.1 handle subscriber) :
    after.Evidence subscriber.tx := by
  obtain ⟨other, old, found', member'⟩ := sweeps number sweep found entry member
  exact (counted.due other old found' entry member' handle subscriber
    (live _ _ _ here)).carry grows

end Carry

section Sweeps

variable {manager : Manager}

variable {sweep replaced : Sweep} {number : Nat}

/-- What a sweep has sent, after one sweep was replaced. -/
theorem sentBy_set {after : Manager} (found : manager.sweeps[number]? = some sweep)
    (sweeps : after.sweeps = manager.sweeps.set number replaced) (other : Nat) :
    after.sentBy other = if other = number then replaced.sent else manager.sentBy other := by
  unfold sentBy
  rw [sweeps]
  by_cases here : other = number
  · rw [if_pos here, here, set_here ⟨sweep, found⟩]
    rfl
  · rw [if_neg here, set_other here]

theorem sentBy_kept {after : Manager} (found : manager.sweeps[number]? = some sweep)
    (sweeps : after.sweeps = manager.sweeps.set number replaced)
    (sent : replaced.sent = sweep.sent) (other : Nat) :
    after.sentBy other = manager.sentBy other := by
  rw [sentBy_set found sweeps]
  by_cases here : other = number
  · rw [if_pos here, here, sent]
    unfold sentBy
    rw [found]
    rfl
  · rw [if_neg here]

theorem sentBy_startSweep (event : Event) (guarded : Bool) (order : List String) (number : Nat) :
    (manager.startSweep event guarded order).sentBy number = manager.sentBy number := by
  unfold sentBy startSweep
  by_cases old : number < manager.sweeps.length
  · rw [List.getElem?_append_left old]
  · rw [List.getElem?_eq_none (Nat.le_of_not_lt old)]
    simp only [List.getElem?_append_right (Nat.le_of_not_lt old)]
    cases number - manager.sweeps.length with
    | zero => rfl
    | succ beyond => rfl

/-- The sweeps after one was replaced hold no more evictions than before. -/
theorem due_set
    (found : manager.sweeps[number]? = some sweep) (fewer : replaced.toEvict ⊆ sweep.toEvict)
    (other : Nat) (later : Sweep) (held : (manager.sweeps.set number replaced)[other]? = some later)
    (entry : String × String) (member : entry ∈ later.toEvict) :
    ∃ (place : Nat) (old : Sweep), manager.sweeps[place]? = some old ∧ entry ∈ old.toEvict := by
  rcases set_cases held with ⟨_, rfl⟩ | ⟨_, there⟩
  · exact ⟨number, sweep, found, fewer member⟩
  · exact ⟨other, later, there, member⟩

theorem due_start (event : Event) (guarded : Bool) (order : List String) (other : Nat)
    (later : Sweep) (held : (manager.startSweep event guarded order).sweeps[other]? = some later)
    (entry : String × String) (member : entry ∈ later.toEvict) :
    ∃ (place : Nat) (old : Sweep), manager.sweeps[place]? = some old ∧ entry ∈ old.toEvict := by
  rcases append_cases held with ⟨_, rfl⟩ | ⟨_, there⟩
  · cases member
  · exact ⟨other, later, there, member⟩

end Sweeps

end Manager

end Mneme.Livebus
