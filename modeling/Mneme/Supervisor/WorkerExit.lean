/-
Worker processes under the job queue: dispatch, exit, requeue and restart.

A worker's name outlives its process.  The monitor of a dead process requeues
what the queue has in flight under the name and then asks for a respawn under
the same name, while the router writes a job to a process and records the
assignment in two separate steps.  Here a name is paired with the incarnation
that runs under it, and every dispatch remembers the incarnation it wrote to.
-/

import Mneme.Supervisor.Router

namespace Mneme.Supervisor

open Common Transition

inductive Phase where
  /-- The child has an open stdin. -/
  | running
  /-- The monitor saw the exit and dropped stdin; it has not requeued yet. -/
  | exited
  /-- `requeue_worker` ran; a respawn may follow. -/
  | handled
deriving DecidableEq

structure Process where
  incarnation : Nat
  phase : Phase
deriving DecidableEq

structure Fleet where
  system : System
  processes : Finmap (fun _ : String => Process)
  /-- The process the latest dispatch of a job was written to. -/
  deliveredTo : Finmap (fun _ : JobId => String × Nat)

inductive FleetEvent where
  /-- A step of the queue that no process takes part in. -/
  | queue (event : Event)
  | dispatchOk (worker : String)
  | spawnChild (worker : String)
  | exit (worker : String)
  | requeueWorker (worker : String) (ids : List JobId)

namespace Fleet

def initial (maxPending counter : Nat) : Fleet :=
  { system := .initial maxPending counter
    processes := ∅
    deliveredTo := ∅ }

/-- The exit of this incarnation of the worker has been handled. -/
def exitHandled (state : Fleet) (worker : String) (incarnation : Nat) : Bool :=
  match state.processes.lookup worker with
  | none => false
  | some process =>
      incarnation < process.incarnation ||
        (incarnation == process.incarnation && process.phase == .handled)

def next (state : Fleet) : FleetEvent → Option Fleet
  | .queue (.dispatchOk _) => none
  | .queue (.requeueWorker _ _) => none
  | .queue event =>
      (state.system.next event).map (fun system => { state with system := system })
  | .dispatchOk worker =>
      -- `dispatch_job` succeeds on a child that is running and has a stdin.
      match state.processes.lookup worker, state.system.router with
      | some ⟨incarnation, .running⟩, .holding id _ =>
          some { state with
            system := { state.system with router := .dispatched id worker }
            deliveredTo := state.deliveredTo.insert id (worker, incarnation) }
      | _, _ => none
  | .spawnChild worker =>
      match state.processes.lookup worker with
      | none => some { state with processes := state.processes.insert worker ⟨0, .running⟩ }
      | some ⟨incarnation, .handled⟩ =>
          some { state with
            processes := state.processes.insert worker ⟨incarnation + 1, .running⟩ }
      | _ => none
  | .exit worker =>
      match state.processes.lookup worker with
      | some ⟨incarnation, .running⟩ =>
          some { state with processes := state.processes.insert worker ⟨incarnation, .exited⟩ }
      | _ => none
  | .requeueWorker worker ids =>
      match state.processes.lookup worker with
      | some ⟨incarnation, .exited⟩ =>
          if state.system.queue.RequeueOrder worker ids then
            some { state with
              system := { state.system with queue := state.system.queue.requeueWorker ids }
              processes := state.processes.insert worker ⟨incarnation, .handled⟩ }
          else none
      | _ => none

/-- The inversion of `next`. -/
inductive Taken (state : Fleet) : FleetEvent → Fleet → Prop
  | queue (event : Event) (system : System)
      (noDispatch : ∀ worker, event ≠ .dispatchOk worker)
      (noRequeue : ∀ worker ids, event ≠ .requeueWorker worker ids)
      (step : state.system.next event = some system) :
      Taken state (.queue event) { state with system := system }
  | dispatchOk (worker : String) (incarnation : Nat) (id : JobId) (job : Job)
      (live : state.processes.lookup worker = some ⟨incarnation, .running⟩)
      (router : state.system.router = .holding id job) :
      Taken state (.dispatchOk worker)
        { state with
          system := { state.system with router := .dispatched id worker }
          deliveredTo := state.deliveredTo.insert id (worker, incarnation) }
  | spawnFirst (worker : String) (fresh : state.processes.lookup worker = none) :
      Taken state (.spawnChild worker)
        { state with processes := state.processes.insert worker ⟨0, .running⟩ }
  | respawn (worker : String) (incarnation : Nat)
      (dead : state.processes.lookup worker = some ⟨incarnation, .handled⟩) :
      Taken state (.spawnChild worker)
        { state with processes := state.processes.insert worker ⟨incarnation + 1, .running⟩ }
  | exit (worker : String) (incarnation : Nat)
      (live : state.processes.lookup worker = some ⟨incarnation, .running⟩) :
      Taken state (.exit worker)
        { state with processes := state.processes.insert worker ⟨incarnation, .exited⟩ }
  | requeueWorker (worker : String) (ids : List JobId) (incarnation : Nat)
      (dead : state.processes.lookup worker = some ⟨incarnation, .exited⟩)
      (order : state.system.queue.RequeueOrder worker ids) :
      Taken state (.requeueWorker worker ids)
        { state with
          system := { state.system with queue := state.system.queue.requeueWorker ids }
          processes := state.processes.insert worker ⟨incarnation, .handled⟩ }

variable {state after : Fleet} {event : FleetEvent}

theorem taken_of_next (step : state.next event = some after) : Taken state event after := by
  cases event with
  | queue event =>
      cases event with
      | dispatchOk worker => cases step
      | requeueWorker worker ids => cases step
      | _ =>
          simp only [next] at step
          obtain ⟨system, moved, same⟩ := Option.map_eq_some_iff.mp step
          subst same
          exact .queue _ system (by intros; simp) (by intros; simp) moved
  | dispatchOk worker =>
      simp only [next] at step
      split at step
      · rename_i incarnation id job live router
        cases step
        exact .dispatchOk worker incarnation id job live router
      · cases step
  | spawnChild worker =>
      simp only [next] at step
      split at step
      · rename_i fresh
        cases step
        exact .spawnFirst worker fresh
      · rename_i incarnation dead
        cases step
        exact .respawn worker incarnation dead
      · cases step
  | exit worker =>
      simp only [next] at step
      split at step
      · rename_i incarnation live
        cases step
        exact .exit worker incarnation live
      · cases step
  | requeueWorker worker ids =>
      simp only [next] at step
      split at step
      · rename_i incarnation dead
        split at step
        · rename_i order
          cases step
          exact .requeueWorker worker ids incarnation dead order
        · cases step
      · cases step

/-- Forgetting the processes, every step is a step of the queue's system or none. -/
theorem step_system (step : state.next event = some after) :
    after.system = state.system ∨
      ∃ base, state.system.next base = some after.system := by
  cases taken_of_next step with
  | queue event system noDispatch noRequeue moved => exact Or.inr ⟨event, moved⟩
  | dispatchOk worker incarnation id job live router =>
      refine Or.inr ⟨.dispatchOk worker, ?_⟩
      simp only [System.next, router]
  | spawnFirst worker fresh => exact Or.inl rfl
  | respawn worker incarnation dead => exact Or.inl rfl
  | exit worker incarnation live => exact Or.inl rfl
  | requeueWorker worker ids incarnation dead order =>
      refine Or.inr ⟨.requeueWorker worker ids, ?_⟩
      simp only [System.next, order, if_true]

variable {counter maxPending current : Nat}

theorem reachable_system (reachable : Reachable next (initial maxPending counter) state) :
    Reachable System.next (System.initial maxPending counter) state.system :=
  reachable.simulate Fleet.system rfl (fun _ _ _ step => step_system step)

/-! ### No job stays with a dead process -/

/-- The job is queued again, or in flight at the process it was written to
and that process's exit, if any, is still to be handled. -/
def Settled (state : Fleet) (id : JobId) : Prop :=
  id ∈ state.system.queue.pending ∨
    ∃ worker incarnation,
      state.system.queue.inFlight.lookup id = some worker ∧
      state.deliveredTo.lookup id = some (worker, incarnation) ∧
      state.exitHandled worker incarnation = false

/-- Every uncompleted job whose router steps are done is settled. -/
def NoneStranded (state : Fleet) : Prop :=
  ∀ id, id ∈ state.system.queue.tracked → state.system.router.job? ≠ some id → state.Settled id

/-- An uncompleted job is marked before the exit of the process it was written
to is handled. -/
def MarkedInTime (state : Fleet) : FleetEvent → Prop
  | .queue .markAssigned =>
      ∀ id worker incarnation, state.system.router = .dispatched id worker →
        state.deliveredTo.lookup id = some (worker, incarnation) →
        id ∈ state.system.queue.tracked → state.exitHandled worker incarnation = false
  | _ => True

private structure Sound (state : Fleet) : Prop where
  accounting : System.Accounting state.system
  written : ∀ id worker, state.system.router = .dispatched id worker →
    ∃ incarnation, state.deliveredTo.lookup id = some (worker, incarnation)
  noneStranded : state.NoneStranded

theorem initial_sound (maxPending counter : Nat) : Sound (initial maxPending counter) := by
  refine ⟨System.reachable_accounting Reachable.refl, ?_, ?_⟩
  · intro id worker impossible
    cases impossible
  · intro id member
    exact absurd member Finmap.notMem_empty

theorem exitHandled_insert_ne (state : Fleet) {worker other : String} (process : Process)
    (different : other ≠ worker) (incarnation : Nat) :
    ({ state with processes := state.processes.insert worker process } : Fleet).exitHandled
        other incarnation = state.exitHandled other incarnation := by
  unfold exitHandled
  rw [Finmap.lookup_insert_of_ne _ different]

theorem exitHandled_insert (state : Fleet) (worker : String) (process : Process)
    (incarnation : Nat) :
    ({ state with processes := state.processes.insert worker process } : Fleet).exitHandled
        worker incarnation =
      (incarnation < process.incarnation ||
        (incarnation == process.incarnation && process.phase == .handled)) := by
  unfold exitHandled
  rw [Finmap.lookup_insert]

/-- Starting a process and seeing it exit settle the fate of no incarnation. -/
theorem settled_of_sameHandled {processes : Finmap (fun _ : String => Process)}
    (same : ∀ worker incarnation, state.exitHandled worker incarnation = false →
      ({ state with processes := processes } : Fleet).exitHandled worker incarnation = false)
    {id : JobId} (settled : state.Settled id) :
    ({ state with processes := processes } : Fleet).Settled id := by
  rcases settled with pending | ⟨worker, incarnation, flying, delivered, unhandled⟩
  · exact Or.inl pending
  · exact Or.inr ⟨worker, incarnation, flying, delivered, same worker incarnation unhandled⟩

variable {worker : String}

theorem spawnFirst_handled
    (fresh : state.processes.lookup worker = none) (other : String) (incarnation : Nat)
    (unhandled : state.exitHandled other incarnation = false) :
    ({ state with processes := state.processes.insert worker ⟨0, .running⟩ } : Fleet).exitHandled
      other incarnation = false := by
  by_cases same : other = worker
  · subst same
    rw [exitHandled_insert]
    simp
  · rw [exitHandled_insert_ne _ _ same]
    exact unhandled

theorem respawn_handled (dead : state.processes.lookup worker = some ⟨current, .handled⟩)
    (other : String) (incarnation : Nat) (unhandled : state.exitHandled other incarnation = false) :
    ({ state with processes :=
      state.processes.insert worker ⟨current + 1, .running⟩ } : Fleet).exitHandled
      other incarnation = false := by
  by_cases same : other = worker
  · subst same
    rw [exitHandled_insert]
    unfold exitHandled at unhandled
    rw [dead] at unhandled
    simp only [Bool.or_eq_false_iff, decide_eq_false_iff_not, Bool.and_eq_false_iff,
      beq_eq_false_iff_ne, ne_eq, not_true_eq_false, or_false, reduceCtorEq, not_false_eq_true,
      or_true, and_true] at unhandled ⊢
    omega
  · rw [exitHandled_insert_ne _ _ same]
    exact unhandled

theorem exit_handled (live : state.processes.lookup worker = some ⟨current, .running⟩)
    (other : String) (incarnation : Nat) (unhandled : state.exitHandled other incarnation = false) :
    ({ state with processes :=
      state.processes.insert worker ⟨current, .exited⟩ } : Fleet).exitHandled
      other incarnation = false := by
  by_cases same : other = worker
  · subst same
    rw [exitHandled_insert]
    unfold exitHandled at unhandled
    rw [live] at unhandled
    simpa using unhandled
  · rw [exitHandled_insert_ne _ _ same]
    exact unhandled

variable {system : System}

theorem settled_of_samePlace {id : JobId} (settled : state.Settled id)
    (pending : id ∈ state.system.queue.pending → id ∈ system.queue.pending)
    (flying : system.queue.inFlight.lookup id = state.system.queue.inFlight.lookup id) :
    ({ state with system := system } : Fleet).Settled id := by
  rcases settled with waiting | ⟨worker, incarnation, assigned, delivered, unhandled⟩
  · exact Or.inl (pending waiting)
  · exact Or.inr ⟨worker, incarnation, flying.trans assigned, delivered, unhandled⟩

theorem settled_of_complete {id done : JobId}
    {outcome : JobOutcome} (queue : system.queue = (state.system.queue.complete done outcome).2)
    (settled : id ≠ done → state.Settled id) (tracked : id ∈ system.queue.tracked) :
    ({ state with system := system } : Fleet).Settled id := by
  rw [queue, JobQueue.complete_tracked, Finmap.mem_erase] at tracked
  apply settled_of_samePlace (settled tracked.1)
  · intro waiting
    rw [queue, JobQueue.complete_pending]
    exact waiting
  · rw [queue, JobQueue.complete_inFlight, Finmap.lookup_erase_ne tracked.1]

theorem queue_noneStranded {event : Event} (sound : Sound state)
    (noDispatch : ∀ worker, event ≠ .dispatchOk worker)
    (noRequeue : ∀ worker ids, event ≠ .requeueWorker worker ids)
    (timely : state.MarkedInTime (.queue event)) (step : state.system.next event = some system) :
    ({ state with system := system } : Fleet).NoneStranded := by
  intro id tracked free
  change id ∈ system.queue.tracked at tracked
  change system.router.job? ≠ some id at free
  cases System.taken_of_next step with
  | submit job waker =>
      rcases System.submit_cases state.system job waker with refused | queued
      · rw [refused] at tracked free ⊢
        exact settled_of_samePlace (sound.noneStranded id tracked free) (fun old => old) rfl
      · rw [queued] at tracked free ⊢
        rcases Finmap.mem_insert.mp tracked with new | old
        · left
          rw [new]
          exact List.mem_append_right _ (List.mem_singleton_self _)
        · exact settled_of_samePlace (sound.noneStranded id old free)
            (fun waiting => List.mem_append_left _ waiting) rfl
  | nextPending idle =>
      have wasFree : state.system.router.job? ≠ some id := by
        rw [idle]
        simp [RouterState.job?]
      cases front : state.system.queue.pending with
      | nil =>
          unfold System.nextPending at tracked ⊢
          rw [JobQueue.nextPending_nil _ front] at tracked ⊢
          exact settled_of_samePlace (sound.noneStranded id tracked wasFree) (fun old => old) rfl
      | cons first rest =>
          unfold System.nextPending at tracked free ⊢
          rw [JobQueue.nextPending_cons _ _ _ front] at tracked free ⊢
          change id ∈ state.system.queue.tracked at tracked
          have notFirst : id ≠ first := by
            intro same
            subst same
            obtain ⟨entry, found⟩ := Finmap.mem_iff.mp tracked
            rw [found] at free
            exact free rfl
          apply settled_of_samePlace (sound.noneStranded id tracked wasFree)
          · intro waiting
            rw [front] at waiting
            exact (List.mem_cons.mp waiting).resolve_left notFirst
          · rfl
  | encodeFailed error held job router =>
      have holds : state.system.router.job? = some held := congrArg RouterState.job? router
      apply settled_of_complete rfl _ tracked
      intro different
      rw [System.complete_queue, JobQueue.complete_tracked, Finmap.mem_erase] at tracked
      exact sound.noneStranded id tracked.2 (RouterState.job?_ne holds different)
  | dispatchOk worker held job router => exact absurd rfl (noDispatch worker)
  | markAssigned held worker router =>
      replace tracked := (JobQueue.mem_markAssigned_tracked _ _ _ _).mp tracked
      by_cases same : id = held
      · subst same
        obtain ⟨incarnation, delivered⟩ := sound.written id worker router
        exact Or.inr ⟨worker, incarnation, Finmap.lookup_insert _, delivered,
          timely id worker incarnation router delivered tracked⟩
      · have holds : state.system.router.job? = some held := congrArg RouterState.job? router
        have wasFree := RouterState.job?_ne holds same
        exact settled_of_samePlace (sound.noneStranded id tracked wasFree) (fun old => old)
          (Finmap.lookup_insert_of_ne _ same)
  | returnPending held job router =>
      change id ∈ state.system.queue.tracked at tracked
      by_cases same : id = held
      · subst same
        exact Or.inl ((JobQueue.mem_returnPending_pending _ _ _).mpr (Or.inl ⟨rfl, tracked⟩))
      · have holds : state.system.router.job? = some held := congrArg RouterState.job? router
        have wasFree := RouterState.job?_ne holds same
        apply settled_of_samePlace (sound.noneStranded id tracked wasFree)
        · exact fun waiting => (JobQueue.mem_returnPending_pending _ _ _).mpr (Or.inr waiting)
        · exact Finmap.lookup_erase_ne same
  | workerComplete done outcome =>
      apply settled_of_complete rfl _ tracked
      intro _
      rw [System.complete_queue, JobQueue.complete_tracked, Finmap.mem_erase] at tracked
      exact sound.noneStranded id tracked.2 free
  | requeueWorker worker ids order => exact absurd rfl (noRequeue worker ids)

/-- The monitor's requeue leaves nothing in flight under the name, so handling
the exit strands no marked job. -/
theorem requeue_noneStranded (sound : Sound state)
    {ids : List JobId} (order : state.system.queue.RequeueOrder worker ids) (process : Process) :
    ({ state with
      system := { state.system with queue := state.system.queue.requeueWorker ids }
      processes := state.processes.insert worker process } : Fleet).NoneStranded := by
  intro id tracked free
  replace tracked := (JobQueue.mem_requeueWorker_tracked _ _ _).mp tracked
  rcases sound.noneStranded id tracked free with waiting | ⟨other, incarnation, flying, delivered, unhandled⟩
  · left
    change id ∈ (state.system.queue.requeueWorker ids).pending
    rw [JobQueue.requeueWorker_pending]
    exact List.mem_append_right _ waiting
  · by_cases same : other = worker
    · subst same
      left
      change id ∈ (state.system.queue.requeueWorker ids).pending
      rw [JobQueue.requeueWorker_pending]
      exact List.mem_append_left _ (List.mem_reverse.mpr ((order.mem_iff id).mpr flying))
    · right
      refine ⟨other, incarnation, ?_, delivered, ?_⟩
      · change (state.system.queue.requeueWorker ids).inFlight.lookup id = some other
        rw [JobQueue.requeueWorker_inFlight, if_neg, flying]
        intro walked
        rw [order.mem_iff id, flying] at walked
        exact same (Option.some.inj walked)
      · exact (exitHandled_insert_ne state process same incarnation).trans unhandled

theorem dispatch_noneStranded (sound : Sound state) {held : JobId} {job : Job} (incarnation : Nat)
    (router : state.system.router = .holding held job) :
    ({ state with
      system := { state.system with router := .dispatched held worker }
      deliveredTo := state.deliveredTo.insert held (worker, incarnation) } : Fleet).NoneStranded := by
  intro id tracked free
  have notHeld : id ≠ held := fun same => free (congrArg some same.symm)
  have wasFree := RouterState.job?_ne (congrArg RouterState.job? router) notHeld
  rcases sound.noneStranded id tracked wasFree with waiting | ⟨other, old, flying, delivered, unhandled⟩
  · exact Or.inl waiting
  · exact Or.inr ⟨other, old, flying,
      (Finmap.lookup_insert_of_ne _ notHeld).trans delivered, unhandled⟩

theorem queue_written {event : Event} (noDispatch : ∀ worker, event ≠ .dispatchOk worker)
    (step : state.system.next event = some system) :
    ∀ id worker, system.router = .dispatched id worker →
      state.system.router = .dispatched id worker := by
  intro id worker dispatched
  cases System.taken_of_next step with
  | submit job waker =>
      rcases System.submit_cases state.system job waker with refused | queued
      · rw [refused] at dispatched
        exact dispatched
      · rw [queued] at dispatched
        exact dispatched
  | nextPending idle =>
      unfold System.nextPending at dispatched
      cases popped : state.system.queue.nextPending.1 with
      | none =>
          simp only [popped, reduceCtorEq] at dispatched
      | some pair =>
          simp only [popped, reduceCtorEq] at dispatched
  | encodeFailed error held job router => cases dispatched
  | dispatchOk worker held job router => exact absurd rfl (noDispatch worker)
  | markAssigned held worker router => cases dispatched
  | returnPending held job router => cases dispatched
  | workerComplete done outcome => exact dispatched
  | requeueWorker worker ids order => exact dispatched

theorem step_accounting
    (accounting : System.Accounting state.system) (step : state.next event = some after) :
    System.Accounting after.system := by
  rcases step_system step with same | ⟨base, moved⟩
  · rw [same]
    exact accounting
  · exact System.step_accounting accounting moved

theorem sound_step (sound : Sound state)
    (timely : state.MarkedInTime event) (step : state.next event = some after) : Sound after := by
  have accounting := step_accounting sound.accounting step
  cases taken_of_next step with
  | queue event system noDispatch noRequeue moved =>
      refine ⟨accounting, ?_, queue_noneStranded sound noDispatch noRequeue timely moved⟩
      intro id worker dispatched
      exact sound.written id worker (queue_written noDispatch moved id worker dispatched)
  | dispatchOk worker incarnation id job live router =>
      refine ⟨accounting, ?_, dispatch_noneStranded sound incarnation router⟩
      intro other name dispatched
      cases dispatched
      exact ⟨incarnation, Finmap.lookup_insert _⟩
  | spawnFirst worker fresh =>
      refine ⟨accounting, sound.written, ?_⟩
      intro id tracked free
      exact settled_of_sameHandled (spawnFirst_handled fresh) (sound.noneStranded id tracked free)
  | respawn worker incarnation dead =>
      refine ⟨accounting, sound.written, ?_⟩
      intro id tracked free
      exact settled_of_sameHandled (respawn_handled dead) (sound.noneStranded id tracked free)
  | exit worker incarnation live =>
      refine ⟨accounting, sound.written, ?_⟩
      intro id tracked free
      exact settled_of_sameHandled (exit_handled live) (sound.noneStranded id tracked free)
  | requeueWorker worker ids incarnation dead order =>
      exact ⟨accounting, sound.written, requeue_noneStranded sound order _⟩

theorem markedInTime_of_noneStranded (sound : Sound state) (step : state.next event = some after)
    (noneStranded : after.NoneStranded) : state.MarkedInTime event := by
  have accounting := step_accounting sound.accounting step
  cases taken_of_next step with
  | dispatchOk worker incarnation id job live router => trivial
  | spawnFirst worker fresh => trivial
  | respawn worker incarnation dead => trivial
  | exit worker incarnation live => trivial
  | requeueWorker worker ids incarnation dead order => trivial
  | queue event system noDispatch noRequeue moved =>
      cases System.taken_of_next moved with
      | submit job waker => trivial
      | nextPending idle => trivial
      | encodeFailed error held job router => trivial
      | dispatchOk worker held job router => trivial
      | returnPending held job router => trivial
      | workerComplete done outcome => trivial
      | requeueWorker worker ids order => trivial
      | markAssigned held worker router =>
          intro id name incarnation inHand delivered tracked
          rw [router] at inHand
          cases inHand
          have stillTracked := (JobQueue.mem_markAssigned_tracked _ held held worker).mpr tracked
          have flying : (state.system.queue.markAssigned held worker).inFlight.lookup held =
              some worker := Finmap.lookup_insert _
          rcases noneStranded held stillTracked (by simp [RouterState.job?]) with
            waiting | ⟨other, last, assigned, written, unhandled⟩
          · -- The job was in the router's hand, so it cannot be pending as well.
            have inHand : state.system.router.job? = some held := by
              rw [router]
              rfl
            exact absurd waiting (sound.accounting.held_only tracked inHand).1
          · change (state.system.queue.markAssigned held worker).inFlight.lookup held =
              some other at assigned
            rw [flying] at assigned
            cases assigned
            change state.deliveredTo.lookup held = some (worker, last) at written
            rw [delivered] at written
            cases written
            exact unhandled

/-- A run strands no job with a dead process exactly when every uncompleted
job in it is marked in time. -/
theorem noneStranded_iff_markedInTime {maxPending counter : Nat}
    {history : List (Fleet × FleetEvent)} {final : Fleet}
    (run : Run next (initial maxPending counter) history final) :
    Throughout NoneStranded history final ↔ Respects MarkedInTime history := by
  exact run.throughout_iff_respects (initial_sound maxPending counter)
    (fun _ sound => sound.noneStranded)
    (fun _ _ _ sound timely step => sound_step sound timely step)
    (fun _ _ _ sound step noneStranded => markedInTime_of_noneStranded sound step noneStranded)

/-- The worker dies after its job was marked, and the job is queued again. -/
def markedThenExitTrace : List FleetEvent :=
  [.spawnChild "md-ingest-worker", .queue (.submit (.ingest "notes.md" "shard") none),
    .queue .nextPending, .dispatchOk "md-ingest-worker", .queue .markAssigned,
    .exit "md-ingest-worker", .requeueWorker "md-ingest-worker" [1]]

theorem noneStranded_iff_markedInTime_marked :
    ∃ history final, Run next (initial 16 1) history final ∧
      history.map Prod.snd = markedThenExitTrace ∧
      (Throughout NoneStranded history final ↔ Respects MarkedInTime history) := by
  obtain ⟨history, final, run, labels, _⟩ := Run.of_trace next (initial 16 1) markedThenExitTrace
    (fun _ _ => true) (by decide)
  exact ⟨history, final, run, labels, noneStranded_iff_markedInTime run⟩

/-- The processes only restrict the queue's system: whatever they do, each job it accepted is either
completed, or tracked and in exactly one place. -/
theorem jobs_accounted
    (reachable : Reachable next (initial maxPending counter) state) :
    Reachable System.next (System.initial maxPending counter) state.system ∧
      ∀ id ∈ state.system.accepted.map Prod.fst,
        id ∈ state.system.completed ∧ id ∉ state.system.queue.tracked ∨
          id ∉ state.system.completed ∧ id ∈ state.system.queue.tracked ∧
            state.system.places id = 1 := by
  have moved := reachable_system reachable
  have accounting := System.reachable_accounting moved
  refine ⟨moved, ?_⟩
  intro id accepted
  rcases (accounting.accepted id).mp accepted with tracked | completed
  · exact Or.inr ⟨accounting.apart id tracked, tracked, accounting.placed id tracked⟩
  · exact Or.inl ⟨completed, fun tracked => accounting.apart id tracked completed⟩

theorem jobs_accounted_marked :
    ∃ state, Reachable next (initial 16 1) state ∧ state.system.places 1 = 1 := by
  obtain ⟨history, final, run, _, passed⟩ := Run.of_trace next (initial 16 1) markedThenExitTrace
    (fun _ state => decide (1 ∈ state.system.accepted.map Prod.fst ∧
      1 ∉ state.system.completed)) (by decide)
  obtain ⟨accepted, uncompleted⟩ := of_decide_eq_true passed
  have accounted := (jobs_accounted ⟨history, run⟩).2 1 accepted
  exact ⟨final, ⟨history, run⟩,
    (accounted.resolve_left (fun done => uncompleted done.1)).2.2⟩

/-- The exit is handled, and the worker restarted, between the dispatch and
the mark. -/
def exitBeforeMarkTrace : List FleetEvent :=
  [.spawnChild "md-ingest-worker", .queue (.submit (.ingest "notes.md" "shard") none),
    .queue .nextPending, .dispatchOk "md-ingest-worker", .exit "md-ingest-worker",
    .requeueWorker "md-ingest-worker" [], .spawnChild "md-ingest-worker", .queue .markAssigned]

theorem exit_before_mark_strands :
    ¬ ∀ state, Reachable next (initial 16 1) state → state.NoneStranded := by
  intro always
  obtain ⟨history, final, run, _, passed⟩ := Run.of_trace next (initial 16 1) exitBeforeMarkTrace
    (fun _ state => decide (1 ∈ state.system.queue.tracked ∧
      state.system.router.job? ≠ some 1 ∧ 1 ∉ state.system.queue.pending ∧
      state.deliveredTo.lookup 1 = some ("md-ingest-worker", 0) ∧
      state.exitHandled "md-ingest-worker" 0 = true)) (by decide)
  obtain ⟨tracked, free, notPending, delivered, dead⟩ := of_decide_eq_true passed
  rcases always final ⟨history, run⟩ 1 tracked free with
    waiting | ⟨worker, incarnation, _, written, unhandled⟩
  · exact notPending waiting
  · rw [delivered] at written
    cases written
    rw [dead] at unhandled
    cases unhandled

end Fleet

end Mneme.Supervisor
