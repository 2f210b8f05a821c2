/-
One drain loop of the router.

Every pool accepts: each `dispatch_to_pool` of the loop returns a worker.  The other tasks
call the queue between the steps of the loop, in any way.  The loop ends with the first pop
that finds no job; an id that nobody tracks any more ends it as well as an empty deque.
-/

import Mneme.Supervisor.Encoding
import Mneme.Supervisor.QueueCalls

namespace Mneme.Supervisor

open Common Transition

namespace JobQueue

/-- No job waits for a worker. -/
def Drained (queue : JobQueue) : Prop :=
  ∀ id, id ∈ queue.pending → id ∉ queue.tracked

/-- The front of the deque is an id of no job, and a job waits behind it. -/
def Hides (queue : JobQueue) : Prop :=
  ∃ stale rest, queue.pending = stale :: rest ∧ stale ∉ queue.tracked ∧
    ∃ id, id ∈ rest ∧ id ∈ queue.tracked

variable (queue : JobQueue)

theorem nextPending_some_iff (id : JobId) (job : Job) :
    queue.nextPending.1 = some (id, job) ↔
      queue.pending.head? = some id ∧ (queue.tracked.lookup id).map Tracked.job = some job := by
  cases front : queue.pending with
  | nil =>
      rw [nextPending_nil _ front]
      apply iff_of_false
      · intro popped
        cases popped
      · intro both
        cases both.1
  | cons first rest =>
      rw [nextPending_cons _ _ _ front, List.head?_cons, Option.some.injEq]
      constructor
      · intro popped
        obtain ⟨entry, found, same⟩ := Option.map_eq_some_iff.mp popped
        cases same
        exact ⟨rfl, Option.map_eq_some_iff.mpr ⟨entry, found, rfl⟩⟩
      · intro both
        obtain ⟨entry, found, same⟩ := Option.map_eq_some_iff.mp both.2
        rw [both.1, found, Option.map_some, same]

theorem nextPending_none_iff :
    queue.nextPending.1 = none ↔ ∀ id, queue.pending.head? = some id → id ∉ queue.tracked := by
  cases front : queue.pending with
  | nil =>
      rw [nextPending_nil _ front]
      apply iff_of_true rfl
      intro id first
      cases first
  | cons first rest =>
      rw [nextPending_cons _ _ _ front, List.head?_cons, Option.map_eq_none_iff,
        Finmap.lookup_eq_none]
      constructor
      · intro absent id same
        cases same
        exact absent
      · intro absent
        exact absent first rfl

/-- A pop that finds a job hides none. -/
theorem not_hides_of_some {queue : JobQueue} {id : JobId} {job : Job}
    (popped : queue.nextPending.1 = some (id, job)) : ¬ queue.Hides := by
  intro hides
  obtain ⟨stale, rest, front, absent, _⟩ := hides
  obtain ⟨first, found⟩ := (nextPending_some_iff queue id job).mp popped
  rw [front, List.head?_cons, Option.some.injEq] at first
  obtain ⟨entry, present, _⟩ := Option.map_eq_some_iff.mp found
  rw [first] at absent
  exact absent (Finmap.mem_of_lookup_eq_some present)

/-- A pop that finds no job leaves jobs behind where the front hid them. -/
theorem drained_iff_not_hides {queue : JobQueue} (popped : queue.nextPending.1 = none) :
    queue.nextPending.2.Drained ↔ ¬ queue.Hides := by
  have absent := (nextPending_none_iff queue).mp popped
  unfold Drained
  rw [nextPending_pending, nextPending_tracked]
  constructor
  · intro drained hides
    obtain ⟨stale, rest, front, _, id, inside, tracked⟩ := hides
    rw [front, List.tail_cons] at drained
    exact drained id inside tracked
  · intro clear id inside tracked
    cases front : queue.pending with
    | nil =>
        rw [front] at inside
        exact List.not_mem_nil inside
    | cons stale rest =>
        rw [front] at inside absent
        exact clear ⟨stale, rest, front, absent stale rfl, id, inside, tracked⟩

theorem markAssigned_job (id other : JobId) (worker : String) :
    ((queue.markAssigned id worker).tracked.lookup other).map Tracked.job =
      (queue.tracked.lookup other).map Tracked.job := by
  unfold markAssigned
  cases found : queue.tracked.lookup id with
  | none => rfl
  | some entry =>
      by_cases same : other = id
      · rw [same, found]
        simp only [Finmap.lookup_insert, Option.map_some]
      · simp only [Finmap.lookup_insert_of_ne _ same]

end JobQueue

/-- Where the router stands in its loop. -/
inductive LoopPlace where
  | popping
  | holding (id : JobId) (job : Job)
  | encoded (id : JobId) (line : Json)
  | dispatched (id : JobId) (worker : String)
  | ended

def LoopPlace.isEnded : LoopPlace → Bool
  | .ended => true
  | _ => false

/-- Whether an id is out of the deque and its turn not over. -/
def LoopPlace.popped : LoopPlace → Nat
  | .popping => 0
  | _ => 1

/-- `turn` counts the jobs that the loop has dealt with. -/
structure DrainLoop where
  calls : QueueCalls
  turn : Nat
  place : LoopPlace

inductive DrainStep where
  /-- A call of another task. -/
  | other (call : QueueCall)
  | nextPending
  | encodeForWorker
  /-- `dispatch_to_pool` returned this worker. -/
  | dispatchToPool (worker : String)
  | markAssigned

namespace DrainLoop

def begin (calls : QueueCalls) : DrainLoop :=
  { calls, turn := 0, place := .popping }

/-- `files turn` is the file system that the encoding of that turn reads. -/
def step (files : Nat → Path → Except String String) (loop : DrainLoop) :
    DrainStep → Option DrainLoop
  | .other call =>
      match loop.place with
      | .ended => none
      | _ => (loop.calls.next call).map (fun calls => { loop with calls })
  | .nextPending =>
      match loop.place with
      | .popping =>
          some { loop with
            calls := { loop.calls with queue := loop.calls.queue.nextPending.2 }
            place :=
              match loop.calls.queue.nextPending.1 with
              | none => .ended
              | some (id, job) => .holding id job }
      | _ => none
  | .encodeForWorker =>
      match loop.place with
      | .holding id job =>
          match encodeForWorker (files loop.turn) id job with
          | .ok line => some { loop with place := .encoded id line }
          | .error error =>
              some
                { calls := loop.calls.complete id (System.encodeError error)
                  turn := loop.turn + 1
                  place := .popping }
      | _ => none
  | .dispatchToPool worker =>
      match loop.place with
      | .encoded id _ => some { loop with place := .dispatched id worker }
      | _ => none
  | .markAssigned =>
      match loop.place with
      | .dispatched id worker =>
          some
            { calls :=
                { loop.calls with
                  queue := loop.calls.queue.markAssigned id worker
                  outstanding := loop.calls.outstanding ++ [.markInFlight id worker] }
              turn := loop.turn + 1
              place := .popping }
      | _ => none

/-- What a step can be: the inversion of `step`. -/
inductive Taken (files : Nat → Path → Except String String) (loop : DrainLoop) :
    DrainStep → DrainLoop → Prop
  | other (call : QueueCall) (calls : QueueCalls) (going : loop.place.isEnded = false)
      (called : loop.calls.next call = some calls) :
      Taken files loop (.other call) { loop with calls }
  | found (id : JobId) (job : Job) (place : loop.place = .popping)
      (popped : loop.calls.queue.nextPending.1 = some (id, job)) :
      Taken files loop .nextPending
        { loop with
          calls := { loop.calls with queue := loop.calls.queue.nextPending.2 }
          place := .holding id job }
  | ended (place : loop.place = .popping) (popped : loop.calls.queue.nextPending.1 = none) :
      Taken files loop .nextPending
        { loop with
          calls := { loop.calls with queue := loop.calls.queue.nextPending.2 }
          place := .ended }
  | encoded (id : JobId) (job : Job) (line : Json) (place : loop.place = .holding id job)
      (read : encodeForWorker (files loop.turn) id job = .ok line) :
      Taken files loop .encodeForWorker { loop with place := .encoded id line }
  | refused (id : JobId) (job : Job) (error : String) (place : loop.place = .holding id job)
      (unread : encodeForWorker (files loop.turn) id job = .error error) :
      Taken files loop .encodeForWorker
        { calls := loop.calls.complete id (System.encodeError error)
          turn := loop.turn + 1
          place := .popping }
  | dispatched (worker : String) (id : JobId) (line : Json) (place : loop.place = .encoded id line) :
      Taken files loop (.dispatchToPool worker) { loop with place := .dispatched id worker }
  | marked (id : JobId) (worker : String) (place : loop.place = .dispatched id worker) :
      Taken files loop .markAssigned
        { calls :=
            { loop.calls with
              queue := loop.calls.queue.markAssigned id worker
              outstanding := loop.calls.outstanding ++ [.markInFlight id worker] }
          turn := loop.turn + 1
          place := .popping }

variable {files : Nat → Path → Except String String}

theorem taken_of_step {loop after : DrainLoop}
    {label : DrainStep} (taken : step files loop label = some after) :
    Taken files loop label after := by
  cases label with
  | other call =>
      have going : loop.place.isEnded = false := by
        cases place : loop.place with
        | ended =>
            simp only [step, place] at taken
            cases taken
        | _ => rfl
      have called : (loop.calls.next call).map (fun calls => { loop with calls }) = some after := by
        cases place : loop.place <;> simp only [step, place] at taken
        all_goals first | exact taken | cases taken
      obtain ⟨calls, made, same⟩ := Option.map_eq_some_iff.mp called
      rw [← same]
      exact .other call calls going made
  | nextPending =>
      cases place : loop.place with
      | popping =>
          simp only [step, place, Option.some.injEq] at taken
          rw [← taken]
          cases popped : loop.calls.queue.nextPending.1 with
          | none => exact .ended place popped
          | some held => exact .found held.1 held.2 place popped
      | _ =>
          simp only [step, place] at taken
          cases taken
  | encodeForWorker =>
      cases place : loop.place with
      | holding id job =>
          simp only [step, place] at taken
          cases result : encodeForWorker (files loop.turn) id job with
          | ok line =>
              simp only [result, Option.some.injEq] at taken
              rw [← taken]
              exact .encoded id job line place result
          | error error =>
              simp only [result, Option.some.injEq] at taken
              rw [← taken]
              exact .refused id job error place result
      | _ =>
          simp only [step, place] at taken
          cases taken
  | dispatchToPool worker =>
      cases place : loop.place with
      | encoded id line =>
          simp only [step, place, Option.some.injEq] at taken
          rw [← taken]
          exact .dispatched worker id line place
      | _ =>
          simp only [step, place] at taken
          cases taken
  | markAssigned =>
      cases place : loop.place with
      | dispatched id worker =>
          simp only [step, place, Option.some.injEq] at taken
          rw [← taken]
          exact .marked id worker place
      | _ =>
          simp only [step, place] at taken
          cases taken

/-! ### Whatever the other tasks do -/

/-- No pop of a stale id has a job behind it. -/
def Clear (loop : DrainLoop) (label : DrainStep) : Prop :=
  label = .nextPending → ¬ loop.calls.queue.Hides

variable {history : List (DrainLoop × DrainStep)}

/-- Only the last pop can be unclear. -/
theorem run_clear {calls : QueueCalls} {final : DrainLoop}
    (run : Run (step files) (begin calls) history final) :
    (final.place.isEnded = false → Respects Clear history) ∧
      (final.place.isEnded = true → (final.calls.queue.Drained ↔ Respects Clear history)) := by
  induction run with
  | start =>
      constructor
      · intro _ taken member
        cases member
      · intro impossible
        cases impossible
  | @step history loop after label run taken ih =>
      have going : loop.place.isEnded = false → ¬ label = .nextPending →
          Respects Clear (history ++ [(loop, label)]) := by
        intro goingBefore other
        rw [respects_append_iff]
        exact ⟨ih.1 goingBefore, fun same => absurd same other⟩
      cases taken_of_step taken with
      | other call calls goingBefore called =>
          have clear := going goingBefore DrainStep.noConfusion
          exact ⟨fun _ => clear, fun ended => absurd (goingBefore.symm.trans ended) Bool.noConfusion⟩
      | found id job place popped =>
          have before := ih.1 (by rw [place]; rfl)
          constructor
          · intro _
            rw [respects_append_iff]
            exact ⟨before, fun _ => JobQueue.not_hides_of_some popped⟩
          · intro impossible
            cases impossible
      | ended place popped =>
          have before := ih.1 (by rw [place]; rfl)
          constructor
          · intro impossible
            cases impossible
          · intro _
            rw [respects_append_iff, and_iff_right before]
            refine (JobQueue.drained_iff_not_hides popped).trans ?_
            exact ⟨fun clear _ => clear, fun clear => clear rfl⟩
      | encoded id job line place read =>
          have clear := going (by rw [place]; rfl) DrainStep.noConfusion
          exact ⟨fun _ => clear, fun impossible => Bool.noConfusion impossible⟩
      | refused id job error place unread =>
          have clear := going (by rw [place]; rfl) DrainStep.noConfusion
          exact ⟨fun _ => clear, fun impossible => Bool.noConfusion impossible⟩
      | dispatched worker id line place =>
          have clear := going (by rw [place]; rfl) DrainStep.noConfusion
          exact ⟨fun _ => clear, fun impossible => Bool.noConfusion impossible⟩
      | marked id worker place =>
          have clear := going (by rw [place]; rfl) DrainStep.noConfusion
          exact ⟨fun _ => clear, fun impossible => Bool.noConfusion impossible⟩

/-! ### When nobody else calls -/

section Deque

variable (files : Nat → Path → Except String String) (queue : JobQueue)

/-- The job of this id cannot be encoded in this turn. -/
def Refused (turn : Nat) (id : JobId) : Prop :=
  ∃ entry error, queue.tracked.lookup id = some entry ∧
    encodeForWorker (files turn) id entry.job = .error error

/-- The job of this id was refused at an earlier place of the deque. -/
def Spent (turn : Nat) (id : JobId) : Prop :=
  ∃ earlier, earlier < turn ∧ queue.pending[earlier]? = some id ∧ Refused files queue earlier id

/-- The id at this place of the deque is still that of a job when the loop comes to it. -/
def Live (turn : Nat) : Prop :=
  ∃ id, queue.pending[turn]? = some id ∧ id ∈ queue.tracked ∧ ¬ Spent files queue turn id

/-- No job stands behind a stale id. -/
def LiveFirst : Prop :=
  ∀ early late, early < late → Live files queue late → Live files queue early

/-- What the router knows of the job in its hand. -/
def Held (turn : Nat) : LoopPlace → Prop
  | .popping => True
  | .holding id job =>
      queue.pending[turn]? = some id ∧ (queue.tracked.lookup id).map Tracked.job = some job ∧
        ¬ Spent files queue turn id
  | .encoded id _ => queue.pending[turn]? = some id ∧ Live files queue turn ∧
      ¬ Refused files queue turn id
  | .dispatched id _ => queue.pending[turn]? = some id ∧ Live files queue turn ∧
      ¬ Refused files queue turn id
  | .ended => ¬ Live files queue turn

end Deque

/-- The loop goes through the deque it began with. -/
structure Follows (files : Nat → Path → Except String String) (queue : JobQueue)
    (loop : DrainLoop) : Prop where
  waiting : loop.calls.queue.pending = queue.pending.drop (loop.turn + loop.place.popped)
  spent : ∀ id, Spent files queue loop.turn id → id ∉ loop.calls.queue.tracked
  kept : ∀ id, ¬ Spent files queue loop.turn id →
    (loop.calls.queue.tracked.lookup id).map Tracked.job =
      (queue.tracked.lookup id).map Tracked.job
  live : ∀ early, early < loop.turn → Live files queue early
  held : Held files queue loop.turn loop.place

theorem spent_succ_iff {queue : JobQueue} {turn : Nat}
    {id : JobId} (inHand : queue.pending[turn]? = some id) (other : JobId) :
    Spent files queue (turn + 1) other ↔
      Spent files queue turn other ∨ (other = id ∧ Refused files queue turn id) := by
  constructor
  · intro spent
    obtain ⟨earlier, before, place, refused⟩ := spent
    by_cases last : earlier = turn
    · rw [last, inHand, Option.some.injEq] at place
      rw [last, ← place] at refused
      exact Or.inr ⟨place.symm, refused⟩
    · exact Or.inl ⟨earlier, by omega, place, refused⟩
  · intro either
    cases either with
    | inl spent =>
        obtain ⟨earlier, before, place, refused⟩ := spent
        exact ⟨earlier, by omega, place, refused⟩
    | inr last => exact ⟨turn, by omega, by rw [last.1, inHand], by rw [last.1]; exact last.2⟩

theorem mem_tracked_iff_job (queue : JobQueue) (id : JobId) :
    id ∈ queue.tracked ↔ ((queue.tracked.lookup id).map Tracked.job).isSome = true := by
  rw [Option.isSome_map, Finmap.lookup_isSome]

section Turns

variable {queue : JobQueue} {loop : DrainLoop}

theorem Follows.mem_tracked_iff (follows : Follows files queue loop) (id : JobId) :
    id ∈ loop.calls.queue.tracked ↔ id ∈ queue.tracked ∧ ¬ Spent files queue loop.turn id := by
  by_cases spent : Spent files queue loop.turn id
  · exact iff_of_false (follows.spent id spent) (fun both => both.2 spent)
  · rw [and_iff_left spent, mem_tracked_iff_job, mem_tracked_iff_job, follows.kept id spent]

theorem Follows.live_iff (follows : Follows files queue loop) :
    Live files queue loop.turn ↔
      ∃ id, queue.pending[loop.turn]? = some id ∧ id ∈ loop.calls.queue.tracked := by
  constructor
  · intro live
    obtain ⟨id, place, tracked, unspent⟩ := live
    exact ⟨id, place, (follows.mem_tracked_iff id).mpr ⟨tracked, unspent⟩⟩
  · intro found
    obtain ⟨id, place, tracked⟩ := found
    obtain ⟨before, unspent⟩ := (follows.mem_tracked_iff id).mp tracked
    exact ⟨id, place, before, unspent⟩

theorem live_next (live : ∀ early, early < loop.turn → Live files queue early)
    (last : Live files queue loop.turn) : ∀ early, early < loop.turn + 1 → Live files queue early := by
  intro early before
  by_cases same : early = loop.turn
  · rw [same]
    exact last
  · exact live early (by omega)

theorem popped_pending {later : JobQueue} {n : Nat}
    (waiting : later.pending = queue.pending.drop n) :
    later.nextPending.2.pending = queue.pending.drop (n + 1) := by
  rw [JobQueue.nextPending_pending, waiting, List.tail_drop]

/-- One step of the loop that is nobody else's. -/
theorem follows_step {after : DrainLoop} {label : DrainStep} (follows : Follows files queue loop)
    (alone : ∀ call, label ≠ .other call) (taken : Taken files loop label after) :
    Follows files queue after := by
  have waiting := follows.waiting
  have held := follows.held
  have spent := follows.spent
  have kept := follows.kept
  rw [← JobQueue.nextPending_tracked loop.calls.queue] at spent kept
  cases taken with
  | other call => exact absurd rfl (alone call)
  | found id job place popped =>
      rw [place] at waiting
      obtain ⟨first, job⟩ := (JobQueue.nextPending_some_iff _ _ _).mp popped
      change loop.calls.queue.pending = queue.pending.drop loop.turn at waiting
      rw [waiting, List.head?_drop] at first
      have tracked : id ∈ loop.calls.queue.tracked := by
        rw [mem_tracked_iff_job, job]
        rfl
      have unspent := ((follows.mem_tracked_iff id).mp tracked).2
      exact { follows with
        waiting := popped_pending waiting, spent, kept
        held := ⟨first, (follows.kept id unspent).symm.trans job, unspent⟩ }
  | ended place popped =>
      rw [place] at waiting
      have absent := (JobQueue.nextPending_none_iff _).mp popped
      change loop.calls.queue.pending = queue.pending.drop loop.turn at waiting
      rw [waiting, List.head?_drop] at absent
      refine { follows with waiting := popped_pending waiting, spent, kept, held := ?_ }
      intro live
      obtain ⟨id, first, tracked⟩ := follows.live_iff.mp live
      exact absent id first tracked
  | encoded id job line place read =>
      rw [place] at waiting held
      obtain ⟨first, given, unspent⟩ := held
      refine { follows with waiting := waiting, held := ⟨first, ⟨id, first, ?_, unspent⟩, ?_⟩ }
      · rw [mem_tracked_iff_job, given]
        rfl
      · intro refused
        obtain ⟨entry, error, found, unread⟩ := refused
        rw [found, Option.map_some, Option.some.injEq] at given
        rw [given, read] at unread
        cases unread
  | refused id job error place unread =>
      rw [place] at waiting held
      obtain ⟨first, given, unspent⟩ := held
      obtain ⟨entry, found, same⟩ := Option.map_eq_some_iff.mp given
      have refused : Refused files queue loop.turn id := ⟨entry, error, found, by rw [same, unread]⟩
      have live : Live files queue loop.turn :=
        ⟨id, first, Finmap.mem_of_lookup_eq_some found, unspent⟩
      have gone := JobQueue.complete_tracked loop.calls.queue id (System.encodeError error)
      constructor
      · exact (JobQueue.complete_pending _ _ _).trans waiting
      · intro other spent
        change other ∉ (loop.calls.queue.complete id (System.encodeError error)).2.tracked
        rw [gone, Finmap.mem_erase]
        intro both
        cases (spent_succ_iff first other).mp spent with
        | inl earlier => exact follows.spent other earlier both.2
        | inr last => exact both.1 last.1
      · intro other unspent
        change ((loop.calls.queue.complete id (System.encodeError error)).2.tracked.lookup other).map
          _ = _
        have different : other ≠ id := by
          intro same
          exact unspent ((spent_succ_iff first other).mpr (Or.inr ⟨same, refused⟩))
        rw [gone, Finmap.lookup_erase_ne different]
        exact follows.kept other
          (fun earlier => unspent ((spent_succ_iff first other).mpr (Or.inl earlier)))
      · exact live_next follows.live live
      · trivial
  | dispatched worker id line place =>
      rw [place] at waiting held
      exact { follows with waiting := waiting, held := held }
  | marked id worker place =>
      rw [place] at waiting held
      obtain ⟨first, live, accepted⟩ := held
      have same : ∀ other, Spent files queue (loop.turn + 1) other ↔
          Spent files queue loop.turn other := by
        intro other
        rw [spent_succ_iff first, or_iff_left (fun last => accepted last.2)]
      constructor
      · exact waiting
      · intro other spent tracked
        exact follows.spent other ((same other).mp spent)
          ((JobQueue.mem_markAssigned_tracked _ _ _ _).mp tracked)
      · intro other unspent
        rw [← follows.kept other (fun spent => unspent ((same other).mpr spent))]
        exact JobQueue.markAssigned_job _ _ _ _
      · exact live_next follows.live live
      · trivial

/-- The loop ends at the first place that is not live. -/
theorem ended_drained_iff (follows : Follows files queue loop) (ended : loop.place.isEnded = true) :
    loop.calls.queue.Drained ↔ LiveFirst files queue := by
  have waiting := follows.waiting
  have held := follows.held
  cases place : loop.place with
  | ended =>
      rw [place] at waiting held
      change loop.calls.queue.pending = queue.pending.drop (loop.turn + 1) at waiting
      change ¬ Live files queue loop.turn at held
      constructor
      · intro drained early late order live
        by_cases done : early < loop.turn
        · exact follows.live early done
        · exfalso
          obtain ⟨id, inside, tracked, unspent⟩ := live
          have behind : id ∈ loop.calls.queue.pending := by
            have place : (queue.pending.drop (loop.turn + 1))[late - (loop.turn + 1)]? = some id := by
              rw [List.getElem?_drop, Nat.add_sub_cancel' (by omega), inside]
            rw [waiting]
            exact List.mem_of_getElem? place
          apply drained id behind
          apply (follows.mem_tracked_iff id).mpr
          refine ⟨tracked, ?_⟩
          intro spent
          obtain ⟨earlier, before, found, refused⟩ := spent
          exact unspent ⟨earlier, by omega, found, refused⟩
      · intro liveFirst id behind tracked
        obtain ⟨before, unspent⟩ := (follows.mem_tracked_iff id).mp tracked
        rw [waiting] at behind
        obtain ⟨gap, inside⟩ := List.mem_iff_getElem?.mp behind
        rw [List.getElem?_drop] at inside
        -- The first place of the id behind the end of the loop is live.
        have live : ∀ late, loop.turn < late → queue.pending[late]? = some id →
            ∃ first, loop.turn < first ∧ Live files queue first := by
          intro late
          induction late using Nat.strong_induction_on with
          | h late ih =>
              intro after found
              by_cases spent : Spent files queue late id
              · obtain ⟨earlier, order, again, refused⟩ := spent
                by_cases past : loop.turn < earlier
                · exact ih earlier order past again
                · exfalso
                  by_cases here : earlier = loop.turn
                  · rw [here] at again
                    exact held ⟨id, again, before, unspent⟩
                  · exact unspent ⟨earlier, by omega, again, refused⟩
              · exact ⟨late, after, id, found, before, spent⟩
        obtain ⟨late, after, found⟩ := live _ (by omega) inside
        exact held (liveFirst loop.turn late after found)
  | _ =>
      rw [place] at ended
      cases ended

end Turns

/-- The run takes no step of another task. -/
def Alone (history : List (DrainLoop × DrainStep)) : Prop :=
  Respects (fun _ label => ∀ call, label ≠ .other call) history

theorem run_follows {calls : QueueCalls} {final : DrainLoop}
    (run : Run (step files) (begin calls) history final) (alone : Alone history) :
    Follows files calls.queue final := by
  have start : Follows files calls.queue (begin calls) := by
    constructor
    · rfl
    · intro id spent
      obtain ⟨earlier, before, _⟩ := spent
      cases before
    · intro id _
      rfl
    · intro early before
      cases before
    · trivial
  exact (run.throughout_of_respects start
    (fun _ _ _ follows alone taken => follows_step follows alone (taken_of_step taken)) alone).2

/-- The loop leaves no job behind exactly where no pop of a stale id has a job behind it,
and so, when no other task calls the queue, where no job stands behind a stale id. -/
theorem loop_drained_iff (files : Nat → Path → Except String String) (calls : QueueCalls)
    {history : List (DrainLoop × DrainStep)} {final : DrainLoop}
    (run : Run (step files) (begin calls) history final) (ended : final.place.isEnded = true) :
    (final.calls.queue.Drained ↔ Respects Clear history) ∧
      (Alone history → (final.calls.queue.Drained ↔ LiveFirst files calls.queue)) := by
  constructor
  · exact (run_clear run).2 ended
  · intro alone
    exact ended_drained_iff (run_follows run alone) ended

/-! ### Two queues -/

def notes : Job :=
  .ingest "notes.md" "/shard"

def oneJob : QueueCalls :=
  (QueueCalls.start 4 0 none).submit 1 notes none true

theorem oneJob_drained :
    ∃ history final, Run (step fun _ _ => .error "not found") (begin oneJob) history final ∧
      final.place.isEnded = true ∧ (final.calls.queue.Drained ↔ Respects Clear history) ∧
      (Alone history → (final.calls.queue.Drained ↔
        LiveFirst (fun _ _ => .error "not found") oneJob.queue)) := by
  have traced := Run.of_trace (step fun _ _ => .error "not found") (begin oneJob)
    [.nextPending, .encodeForWorker, .dispatchToPool "md-ingest-worker", .markAssigned, .nextPending]
    (fun _ final => final.place.isEnded) (by decide +kernel)
  obtain ⟨history, final, run, _, ended⟩ := traced
  exact ⟨history, final, run, ended, loop_drained_iff _ _ run ended⟩

/-- Both jobs are submitted, the first one is given to a worker that dies, and the report
that it had sent arrives after its job was requeued. -/
def lateReport : List QueueCall :=
  [.drawId, .submit 1 notes none true, .drawId, .submit 2 notes none true, .nextPending,
    .markAssigned 1 "md-ingest-worker", .requeueWorker "md-ingest-worker" [1],
    .complete 1 (.ok none 5 .null)]

theorem lateReport_hides :
    ∃ before calls history final, Run QueueCalls.next (.start 4 0 none) before calls ∧
      before.map Prod.snd = lateReport ∧
      Run (step fun _ _ => .error "not found") (begin calls) history final ∧ Alone history ∧
      final.place.isEnded = true ∧ ¬ final.calls.queue.Drained := by
  have reached := Run.of_trace QueueCalls.next (.start 4 0 none) lateReport
    (fun _ calls => decide (calls.queue.pending = [1, 2] ∧ 1 ∉ calls.queue.tracked ∧
      2 ∈ calls.queue.tracked)) (by decide +kernel)
  obtain ⟨before, calls, run, labels, passed⟩ := reached
  obtain ⟨waiting, stale, tracked⟩ := of_decide_eq_true passed
  have none : calls.queue.nextPending.1 = none := by
    rw [JobQueue.nextPending_none_iff, waiting]
    intro id first
    cases first
    exact stale
  have taken : step (fun _ _ => .error "not found") (begin calls) .nextPending =
      some { (begin calls) with
        calls := { calls with queue := calls.queue.nextPending.2 }, place := .ended } := by
    simp only [step, begin, none]
  refine ⟨before, calls, _, _, run, labels, Run.start.step taken, ?_, rfl, ?_⟩
  · intro step member call
    cases List.mem_singleton.mp member
    exact DrainStep.noConfusion
  · intro drained
    change calls.queue.nextPending.2.Drained at drained
    apply drained 2
    · rw [JobQueue.nextPending_pending, waiting]
      exact List.mem_cons_self
    · rw [JobQueue.nextPending_tracked]
      exact tracked

end DrainLoop

end Mneme.Supervisor
