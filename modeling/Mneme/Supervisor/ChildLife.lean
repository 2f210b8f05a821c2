/-
Where a child is in its life, and what a step of the manager means for it.

A child waits to be started, has a process with a monitor task, or has a
restart request on its way.  It is at one of these places at a time: a step
moves one child on, or loses it, and no step makes a second copy.
-/

import Mneme.Supervisor.ChildStep

namespace Mneme.Supervisor

open Library Transition

inductive Place where
  /-- On the list of `spawn_all`. -/
  | waiting
  | entering
  /-- Started, its task has not marked it running. -/
  | unmarked
  | watched
  /-- Marked restarting, the request not yet sent. -/
  | marked
  | queued
  | received
  | sleeping
  | respawning
deriving DecidableEq

variable {Name : Type} [DecidableEq Name]

def MonitorTask.place (task : MonitorTask Name) : Option (Name × Place) :=
  match task.phase with
  | .created => some (task.name, .unmarked)
  | .watching | .exited _ | .recorded _ | .stopping | .restarting _ => some (task.name, .watched)
  | .marked _ => some (task.name, .marked)
  | .ended | .dropped => none

def LoopPhase.place : LoopPhase Name → Option (Name × Place)
  | .idle => none
  | .received request | .checked request | .recorded request _ => some (request.name, .received)
  | .sleeping spec _ => some (spec.name, .sleeping)
  | .spawning spec _ .inserting | .spawning spec _ .starting => some (spec.name, .respawning)
  | .spawning _ _ (.registering _) => none

def LoopPhase.spec : LoopPhase Name → Option (ChildSpec Name)
  | .sleeping spec _ | .spawning spec _ _ => some spec
  | _ => none

namespace ChildManager

def bootingPlace (manager : ChildManager Name) : Option (Name × Place) :=
  match manager.booting with
  | some (spec, .inserting) | some (spec, .starting) => some (spec.name, .entering)
  | some (_, .registering _) | none => none

/-- One if the place is taken and passes the test. -/
def tally (test : Name × Place → Bool) : Option (Name × Place) → Nat
  | none => 0
  | some place => if test place then 1 else 0

/-- How many children are at places that pass the test. -/
def placed (manager : ChildManager Name) (test : Name × Place → Bool) : Nat :=
  manager.boot.countP (fun spec => test (spec.name, .waiting)) +
    tally test manager.bootingPlace +
    manager.channel.countP (fun request => test (request.name, .queued)) +
    tally test manager.loop.place +
    manager.tasks.countP (fun task => task.place.any test)

/-- Handles and specs stem from the configuration. -/
structure Known (config : SupervisorConfig Name) (manager : ChildManager Name) : Prop where
  handles : ∀ name handle, manager.handles name = some handle →
    handle.spec ∈ config.children ∧ handle.spec.name = name
  boot : ∀ spec, spec ∈ manager.boot → spec ∈ config.children
  booting : ∀ current, current ∈ manager.booting → current.1 ∈ config.children
  loop : ∀ spec, spec ∈ manager.loop.spec → spec ∈ config.children

variable {config : SupervisorConfig Name} {manager before after : ChildManager Name}

/-! ### Known handles -/

theorem modify_handles_self (manager : ChildManager Name) (name : Name)
    (change : ChildHandle Name → ChildHandle Name) :
    (manager.modify name change).handles name = (manager.handles name).map change :=
  Function.update_self _ _ _

variable {manager : ChildManager Name}

theorem modify_handles_other {name other : Name}
    (different : other ≠ name) (change : ChildHandle Name → ChildHandle Name) :
    (manager.modify name change).handles other = manager.handles other :=
  Function.update_of_ne different _ _

variable {change : ChildHandle Name → ChildHandle Name}

variable {name : Name}

/-- A reading of the handles that the change leaves alone on every handle. -/
theorem map_modify_same {Reading : Type} {read : ChildHandle Name → Reading}
    (kept : ∀ handle, read (change handle) = read handle) (other : Name) :
    ((before.modify name change).handles other).map read = (before.handles other).map read := by
  by_cases same : other = name
  · subst same
    rw [modify_handles_self, Option.map_map]
    congr 1
    funext handle
    exact kept handle
  · rw [modify_handles_other same]

/-- A change of a handle that is not a change of its spec. -/
theorem Known.modify (known : Known config before) (name : Name)
    (kept : ∀ handle, (change handle).spec = handle.spec) :
    Known config (before.modify name change) := by
  refine ⟨?_, known.boot, known.booting, known.loop⟩
  intro other handle found
  by_cases same : other = name
  · subst same
    rw [modify_handles_self] at found
    obtain ⟨old, foundOld, changed⟩ := Option.map_eq_some_iff.mp found
    rw [← changed, kept]
    exact known.handles other old foundOld
  · rw [modify_handles_other same] at found
    exact known.handles other handle found

theorem Known.setStatus (known : Known config before) (name : Name) (status : ChildStatus) :
    Known config (before.setStatus name status) :=
  known.modify name (fun _ => rfl)

variable {effect : MonitorPhase.Effect}

theorem Known.apply (known : Known config before)
    (applied : before.apply name effect = some after) : Known config after := by
  cases effect with
  | nothing =>
      cases applied
      exact known
  | setStatus status =>
      simp only [ChildManager.apply] at applied
      split at applied <;> cases applied
      exact known.setStatus name status
  | recordExit code =>
      simp only [ChildManager.apply] at applied
      split at applied <;> cases applied
      exact known.modify name (fun _ => rfl)
  | send code =>
      cases applied
      exact ⟨known.handles, known.boot, known.booting, known.loop⟩

variable {spec : ChildSpec Name}

theorem Known.insertHandle (known : Known config before)
    (member : spec ∈ config.children) : Known config (before.insertHandle config spec) := by
  unfold ChildManager.insertHandle
  split
  · exact known
  · refine ⟨?_, known.boot, known.booting, known.loop⟩
    intro name handle found
    by_cases same : name = spec.name
    · subst same
      change Function.update before.handles spec.name _ spec.name = some handle at found
      rw [Function.update_self] at found
      cases found
      exact ⟨member, rfl⟩
    · change Function.update before.handles spec.name _ name = some handle at found
      rw [Function.update_of_ne same] at found
      exact known.handles name handle found

omit [DecidableEq Name] in
theorem known_new (config : SupervisorConfig Name) : Known config (new config) := by
  constructor
  · intro name handle impossible
    cases impossible
  · intro spec member
    exact member
  · intro current impossible
    cases impossible
  · intro spec impossible
    cases impossible

omit [DecidableEq Name] in
theorem Known.abort (known : Known config before) (id : TaskId) :
    Known config (before.abort id) := by
  unfold ChildManager.abort
  split
  · exact known
  · split
    · exact ⟨known.handles, known.boot, known.booting, known.loop⟩
    · split
      · exact ⟨known.handles, known.boot, known.booting, known.loop⟩
      · exact known

omit [DecidableEq Name] in
theorem none_known {Item : Type} {allowed : Item → Prop} :
    ∀ item, item ∈ (none : Option Item) → allowed item := by
  intro item impossible
  cases impossible

omit [DecidableEq Name] in
/-- The spec that a phase of the restart loop works on. -/
theorem Known.ofPhase (known : Known config before) {phase : LoopPhase Name}
    (current : before.loop = phase) (works : phase.spec = some spec) : spec ∈ config.children := by
  subst current
  exact known.loop spec works

variable {event : ManagerEvent Name}

theorem Step.known (step : Step config before event after) (known : Known config before) :
    Known config after := by
  cases step with
  | @takeSpec spec rest free first =>
      have children := known.boot
      rw [first] at children
      refine ⟨known.handles, ?_, ?_, known.loop⟩
      · intro other member
        exact children other (List.mem_cons_of_mem spec member)
      · intro current member
        cases member
        exact children spec List.mem_cons_self
  | bootInsert stage =>
      have inserted := known.insertHandle (known.booting _ stage)
      refine ⟨inserted.handles, inserted.boot, ?_, inserted.loop⟩
      intro current member
      cases member
      exact known.booting (_, .inserting) stage
  | bootStart stage =>
      refine ⟨known.handles, known.boot, ?_, known.loop⟩
      intro current member
      cases member
      exact known.booting (_, .starting) stage
  | bootMissing | bootRegister => exact ⟨known.handles, known.boot, none_known, known.loop⟩
  | bootFailed =>
      exact ⟨known.handles, fun _ member => absurd member List.not_mem_nil, none_known, known.loop⟩
  | monitor found held advanced applied =>
      have touched := known.apply applied
      exact ⟨touched.handles, touched.boot, touched.booting, touched.loop⟩
  | receive | ignore | check | unknown | stayDown | loopFailed | loopRegister =>
      exact ⟨known.handles, known.boot, known.booting, none_known⟩
  | @record request handle phase held =>
      have recorded : Known config (before.modify request.name
          (ChildHandle.recordRestart config.defaultRestartPolicy.budgetWindow before.now)) :=
        known.modify _ (fun _ => rfl)
      exact ⟨recorded.handles, recorded.boot, recorded.booting, none_known⟩
  | @refuse request instant handle phase held exceeds =>
      have degraded := known.setStatus request.name .degraded
      exact ⟨degraded.handles, degraded.boot, degraded.booting, none_known⟩
  | @grant request instant handle phase held within =>
      have granted : Known config (before.modify request.name (fun handle =>
          { handle with
            currentBackoff := config.defaultRestartPolicy.nextBackoff handle.currentBackoff })) :=
        known.modify _ (fun _ => rfl)
      refine ⟨granted.handles, granted.boot, granted.booting, ?_⟩
      intro spec member
      cases member
      exact (known.handles _ _ held).1
  | wake phase =>
      refine ⟨known.handles, known.boot, known.booting, ?_⟩
      intro spec member
      cases member
      exact known.ofPhase phase rfl
  | @loopInsert spec grant phase =>
      have member : spec ∈ config.children := known.ofPhase phase rfl
      have inserted := known.insertHandle member
      refine ⟨inserted.handles, inserted.boot, inserted.booting, ?_⟩
      intro other same
      cases same
      exact member
  | loopStart phase =>
      refine ⟨known.handles, known.boot, known.booting, ?_⟩
      intro spec member
      cases member
      exact known.ofPhase phase rfl
  | @mark tasks marked name phase =>
      have stopped := known.setStatus name .stopped
      exact ⟨stopped.handles, stopped.boot, stopped.booting, stopped.loop⟩
  | @abort tasks id phase =>
      have aborted := known.abort id
      exact ⟨aborted.handles, aborted.boot, aborted.booting, aborted.loop⟩
  | poll | giveWay | giveUp | setFlag | drain | lockHandles | unlockHandles | finish | tick =>
      exact ⟨known.handles, known.boot, known.booting, known.loop⟩

/-! ### What a step means for the children -/

/-- A restart that is under way at such a place. -/
def attends : Place → Bool
  | .unmarked | .marked | .queued | .received | .sleeping | .respawning => true
  | .waiting | .entering | .watched => false

/-- The child whose restart the event gives up: the request is dropped because
of the shutdown, the process does not start, or the task is cancelled. -/
def givesUp (manager : ChildManager Name) : ManagerEvent Name → Option Name
  | .giveWay id =>
      match manager.tasks[id]? with
      | none => none
      | some task =>
          if task.aborted then (task.place.filter (fun place => attends place.2)).map Prod.fst
          else none
  | .loop .checkFlag | .loop .wake =>
      if manager.shutdownFlag then manager.loop.place.map Prod.fst else none
  | .loop (.spawn (.start (some _))) => manager.loop.place.map Prod.fst
  | .shutdown (.abort id) =>
      match manager.tasks[id]? with
      | none => none
      | some task =>
          if task.polling then none
          else (task.place.filter (fun place => attends place.2)).map Prod.fst
  | _ => none

/-- How a child moves on: its place and its status, before and after. -/
inductive Fate (flag : Bool) : Place → Option Place → Option ChildStatus → Option ChildStatus → Prop
  | takenUp {status : Option ChildStatus} : Fate flag .waiting (some .entering) status status
  | started {status : Option ChildStatus} : Fate flag .entering (some .unmarked) status status
  | runs {status : Option ChildStatus} : Fate flag .unmarked (some .watched) status (some .running)
  | marks {status : Option ChildStatus} :
      Fate flag .watched (some .marked) status (some .restarting)
  | sends {status : Option ChildStatus} : Fate flag .marked (some .queued) status status
  | arrives {status : Option ChildStatus} : Fate flag .queued (some .received) status status
  | granted {status : Option ChildStatus} : Fate flag .received (some .sleeping) status status
  | wakes {status : Option ChildStatus} (clear : flag = false) :
      Fate flag .sleeping (some .respawning) status status
  | respawned {status : Option ChildStatus} : Fate flag .respawning (some .unmarked) status status
  | stops {status : Option ChildStatus} : Fate flag .watched none status (some .stopped)
  | refused {status : Option ChildStatus} : Fate flag .received none status (some .degraded)

/-- One child's place is exchanged for another. -/
def Shifts (before after : ChildManager Name) (child : Name) (source : Place)
    (target : Option Place) : Prop :=
  ∀ test, after.placed test + tally test (some (child, source)) =
    before.placed test + tally test (target.map (fun place => (child, place)))

inductive Turn (before : ChildManager Name) (event : ManagerEvent Name)
    (after : ChildManager Name) : Prop
  | still (same : ∀ test, after.placed test = before.placed test)
      (status : ∀ name, after.status name = before.status name)
  | appears (child : Name) (same : ∀ test, after.placed test = before.placed test)
      (status : after.status child = some .pending)
      (others : ∀ name, name ≠ child → after.status name = before.status name)
  | moves (child : Name) (source : Place) (target : Option Place)
      (shifts : Shifts before after child source target)
      (fate : Fate before.shutdownFlag source target (before.status child) (after.status child))
      (others : ∀ name, name ≠ child → after.status name = before.status name)
  | lost (child : Name) (source : Place) (shifts : Shifts before after child source none)
      (status : ∀ name, after.status name = before.status name)
      (named : attends source = true → before.status child = some .restarting →
        before.givesUp event = some child)
  | bootEnds (fewer : ∀ test, after.placed test ≤ before.placed test)
      (kept : ∀ test, (∀ name, test (name, Place.waiting) = false) →
        (∀ name, test (name, Place.entering) = false) → after.placed test = before.placed test)
      (status : ∀ name, after.status name = before.status name)
  | silenced (child : Name) (same : ∀ test, after.placed test = before.placed test)
      (status : after.status child ≠ some .running ∧ after.status child ≠ some .restarting ∧
        after.status child ≠ some .degraded)
      (others : ∀ name, name ≠ child → after.status name = before.status name)

omit [DecidableEq Name] in
theorem tally_eq (test : Name × Place → Bool) (place : Option (Name × Place)) :
    tally test place = if place.any test then 1 else 0 := by
  cases place <;> rfl

variable {id : TaskId}

variable {task : MonitorTask Name}

omit [DecidableEq Name] in
theorem countP_set_add {tasks : List (MonitorTask Name)}
    (found : tasks[id]? = some task) (changed : MonitorTask Name) (test : Name × Place → Bool) :
    (tasks.set id changed).countP (fun task => task.place.any test) + tally test task.place =
      tasks.countP (fun task => task.place.any test) + tally test changed.place := by
  obtain ⟨inside, same⟩ := List.getElem?_eq_some_iff.mp found
  rw [List.countP_set inside, same, tally_eq, tally_eq]
  have counted : task.place.any test = true →
      0 < tasks.countP (fun task => task.place.any test) := by
    intro passes
    exact List.countP_pos_iff.mpr ⟨task, List.mem_of_getElem? found, passes⟩
  split
  · next passes =>
      have positive := counted passes
      omega
  · omega

theorem status_modify_self (name : Name) (change : ChildHandle Name → ChildHandle Name) :
    (before.modify name change).status name =
      (before.handles name).map (fun handle => (change handle).status) := by
  unfold status
  rw [modify_handles_self, Option.map_map]
  rfl

theorem status_modify_other {name other : Name} (different : other ≠ name)
    (change : ChildHandle Name → ChildHandle Name) :
    (before.modify name change).status other = before.status other := by
  unfold status
  rw [modify_handles_other different]

/-- A change of a handle that leaves its status alone. -/
theorem status_modify_same
    (kept : ∀ handle, (change handle).status = handle.status) (other : Name) :
    (before.modify name change).status other = before.status other :=
  map_modify_same kept other

variable {handle : ChildHandle Name}

theorem status_setStatus_self (held : before.handles name = some handle) (status : ChildStatus) :
    (before.setStatus name status).status name = some status := by
  unfold setStatus
  rw [status_modify_self, held]
  rfl

theorem status_insertHandle (spec : ChildSpec Name) :
    (∀ name, (before.insertHandle config spec).status name = before.status name) ∨
      ((before.insertHandle config spec).status spec.name = some .pending ∧
        ∀ name, name ≠ spec.name →
          (before.insertHandle config spec).status name = before.status name) := by
  unfold insertHandle
  split
  · exact Or.inl (fun _ => rfl)
  · refine Or.inr ⟨?_, ?_⟩
    · unfold status
      change (Function.update before.handles spec.name _ spec.name).map ChildHandle.status = _
      rw [Function.update_self]
      rfl
    · intro name different
      unfold status
      change (Function.update before.handles spec.name _ name).map ChildHandle.status = _
      rw [Function.update_of_ne different]

omit [DecidableEq Name] in
theorem placed_loop (before : ChildManager Name) (phase : LoopPhase Name)
    (test : Name × Place → Bool) :
    placed { before with loop := phase } test + tally test before.loop.place =
      before.placed test + tally test phase.place := by
  simp only [placed, bootingPlace]
  omega

omit [DecidableEq Name] in
theorem placed_setTask (found : before.tasks[id]? = some task) (changed : MonitorTask Name)
    (test : Name × Place → Bool) :
    (before.setTask id changed).placed test + tally test task.place =
      before.placed test + tally test changed.place := by
  have exchanged := countP_set_add found changed test
  simp only [placed, bootingPlace, setTask]
  omega

variable {task changed : MonitorTask Name}

omit [DecidableEq Name] in
/-- A change of a task that leaves it where it is. -/
theorem placed_setTask_same
    (found : before.tasks[id]? = some task) (same : changed.place = task.place)
    (test : Name × Place → Bool) : (before.setTask id changed).placed test = before.placed test := by
  have exchanged := placed_setTask found changed test
  rw [same] at exchanged
  exact Nat.add_right_cancel exchanged

/-- A task that is no more leaves its place, if it still had one. -/
theorem setTask_dropped_turn (found : before.tasks[id]? = some task) (gone : changed.place = none)
    (named : ∀ child place, task.place = some (child, place) → attends place = true →
      before.givesUp event = some child) : Turn before event (before.setTask id changed) := by
  cases place : task.place with
  | none =>
      exact .still (placed_setTask_same found (gone.trans place.symm)) (fun _ => rfl)
  | some entry =>
      obtain ⟨child, source⟩ := entry
      refine .lost child source ?_ (fun _ => rfl) (fun attended _ => named child source place attended)
      intro test
      have exchanged := placed_setTask found changed test
      rw [place, gone] at exchanged
      exact exchanged

variable {touched : ChildManager Name}

variable {target : Option Place}

omit [DecidableEq Name] in
theorem shifts_setTask {child : Name} {source : Place}
    (same : ∀ test, touched.placed test = before.placed test)
    (found : touched.tasks[id]? = some task) (leaves : task.place = some (child, source))
    (enters : changed.place = target.map (fun place => (child, place))) :
    Shifts before (touched.setTask id changed) child source target := by
  intro test
  have exchanged := placed_setTask found changed test
  rw [leaves, enters, same] at exchanged
  exact exchanged

/-- A monitor sets the status of its child and goes on. -/
theorem setStatus_turn {status : ChildStatus}
    {source : Place} (found : before.tasks[id]? = some task)
    (held : before.handles task.name = some handle)
    (applied : before.apply task.name (.setStatus status) = some touched)
    (leaves : task.place = some (task.name, source))
    (enters : changed.place = target.map (fun place => (task.name, place)))
    (fate : Fate before.shutdownFlag source target (before.status task.name) (some status)) :
    Turn before event (touched.setTask id changed) := by
  simp only [apply] at applied
  split at applied <;> cases applied
  refine .moves task.name source target ?_ ?_ ?_
  · exact shifts_setTask (fun _ => rfl) found leaves enters
  · change Fate _ _ _ _ ((before.setStatus task.name status).status task.name)
    rw [status_setStatus_self held]
    exact fate
  · intro name different
    exact status_modify_other different _

theorem monitor_turn {step : MonitorStep} {phase : MonitorPhase}
    (found : before.tasks[id]? = some task) (held : before.handles task.name = some handle)
    (advanced : task.phase.advance before.shutdownFlag handle.spec.restart step =
      some (phase, effect)) (applied : before.apply task.name effect = some touched) :
    Turn before (.monitor id step) (touched.setTask id { task with phase := phase }) := by
  have watchedStill : ∀ changed : MonitorTask Name, task.place = changed.place →
      Turn before (.monitor id step) (before.setTask id changed) :=
    fun changed same => .still (placed_setTask_same found same.symm) (fun _ => rfl)
  unfold MonitorPhase.advance at advanced
  split at advanced
  · next now =>
      cases advanced
      apply setStatus_turn found held applied _ rfl .runs
      unfold MonitorTask.place
      rw [now]
  · next code now =>
      cases advanced
      cases applied
      apply watchedStill
      unfold MonitorTask.place
      rw [now]
  · next now =>
      cases advanced
      cases applied
      apply setTask_dropped_turn found rfl
      intro child place leaves attended
      unfold MonitorTask.place at leaves
      rw [now] at leaves
      cases leaves
      cases attended
  · next code now =>
      cases advanced
      simp only [apply] at applied
      split at applied <;> cases applied
      refine .still ?_ (status_modify_same (fun _ => rfl))
      apply placed_setTask_same found
      unfold MonitorTask.place
      rw [now]
  · next code now =>
      split at advanced
      · cases advanced
        cases applied
        apply watchedStill
        unfold MonitorTask.place
        rw [now]
      · split at advanced
        · cases advanced
          cases applied
          apply watchedStill
          unfold MonitorTask.place
          rw [now]
        · cases advanced
          cases applied
          apply watchedStill
          unfold MonitorTask.place
          rw [now]
  · next now =>
      cases advanced
      apply setStatus_turn found held applied _ rfl .stops
      unfold MonitorTask.place
      rw [now]
  · next code now =>
      cases advanced
      apply setStatus_turn found held applied _ rfl .marks
      unfold MonitorTask.place
      rw [now]
  · next code now =>
      cases advanced
      cases applied
      refine .moves task.name .marked (some .queued) ?_ .sends (fun _ _ => rfl)
      intro test
      have exchanged := countP_set_add found { task with phase := .ended } test
      have leaves : task.place = some (task.name, .marked) := by
        unfold MonitorTask.place
        rw [now]
      rw [leaves] at exchanged
      simp only [placed, bootingPlace, setTask, List.countP_append, List.countP_singleton, tally,
        MonitorTask.place, Option.map_some] at exchanged ⊢
      omega
  · cases advanced

/-- How far the shutdown is says nothing about the children. -/
theorem Turn.withShutdown (turn : Turn before event after) (phase : ShutdownPhase Name) :
    Turn before event { after with shutdown := phase } := by
  cases turn with
  | still same status => exact .still same status
  | appears child same status others => exact .appears child same status others
  | moves child source target shifts fate others =>
      exact .moves child source target shifts fate others
  | lost child source shifts status named => exact .lost child source shifts status named
  | bootEnds fewer kept status => exact .bootEnds fewer kept status
  | silenced child same status others => exact .silenced child same status others

theorem abort_turn (id : TaskId) : Turn before (.shutdown (.abort id)) (before.abort id) := by
  unfold abort
  cases found : before.tasks[id]? with
  | none => exact .still (fun _ => rfl) (fun _ => rfl)
  | some task =>
      simp only
      by_cases polling : task.polling = true
      · rw [if_pos polling]
        exact .still (placed_setTask_same found rfl) (fun _ => rfl)
      · rw [if_neg polling]
        split
        · apply setTask_dropped_turn found rfl
          intro child place leaves attended
          simp only [givesUp, found, polling, Bool.false_eq_true, if_false, leaves,
            Option.filter_some, attended, if_true, Option.map_some]
        · exact .still (fun _ => rfl) (fun _ => rfl)

theorem Step.turn (step : Step config before event after) (known : Known config before) :
    Turn before event after := by
  cases step with
  | @takeSpec spec rest free first =>
      refine .moves spec.name .waiting (some .entering) ?_ .takenUp (fun _ _ => rfl)
      intro test
      simp only [placed, bootingPlace, free, first, List.countP_cons, tally, Option.map_some]
      omega
  | @bootInsert spec stage =>
      have same : ∀ test, placed { before.insertHandle config spec with
          booting := some (spec, .starting) } test = before.placed test := by
        intro test
        unfold insertHandle
        split
        · simp only [placed, bootingPlace, stage]
        · simp only [placed, bootingPlace, stage]
      rcases @status_insertHandle _ _ config before spec with unchanged | ⟨appeared, others⟩
      · exact .still same unchanged
      · exact .appears spec.name same appeared others
  | @bootStart spec stage =>
      refine .moves spec.name .entering (some .unmarked) ?_ .started (fun _ _ => rfl)
      intro test
      simp only [placed, bootingPlace, stage, List.countP_append, List.countP_singleton,
        MonitorTask.place, Option.any_some, tally, Option.map_some]
      omega
  | @bootMissing spec stage =>
      refine .lost spec.name .entering ?_ (fun _ => rfl) (fun impossible => nomatch impossible)
      intro test
      simp only [placed, bootingPlace, stage, tally, Option.map_none]
      omega
  | @bootFailed spec stage =>
      refine .bootEnds ?_ ?_ (fun _ => rfl)
      · intro test
        simp only [placed, bootingPlace, stage, tally, List.countP_nil]
        omega
      · intro test notWaiting notEntering
        have none : before.boot.countP (fun spec => test (spec.name, .waiting)) = 0 := by
          rw [List.countP_eq_zero]
          intro other _
          rw [notWaiting]
          exact Bool.false_ne_true
        simp only [placed, bootingPlace, stage, tally, List.countP_nil, none, notEntering,
          Bool.false_eq_true, if_false]
  | @bootRegister spec task stage =>
      refine .still ?_ (fun _ => rfl)
      intro test
      simp only [placed, bootingPlace, stage]
  | poll found => exact .still (placed_setTask_same found rfl) (fun _ => rfl)
  | giveWay found => exact .still (placed_setTask_same found rfl) (fun _ => rfl)
  | @giveUp id task found live aborted =>
      apply setTask_dropped_turn found rfl
      intro child place at_ attended
      simp only [givesUp, found, aborted, if_true, at_, Option.filter_some, attended, Option.map_some]
  | monitor found held advanced applied => exact monitor_turn found held advanced applied
  | @receive request rest phase first =>
      refine .moves request.name .queued (some .received) ?_ .arrives (fun _ _ => rfl)
      intro test
      simp only [placed, bootingPlace, phase, first, List.countP_cons, LoopPhase.place, tally,
        Option.map_some]
      omega
  | @ignore request phase flag =>
      refine .lost request.name .received ?_ (fun _ => rfl) ?_
      · intro test
        simp only [placed, bootingPlace, phase, LoopPhase.place, tally, Option.map_none]
        omega
      · intro _ _
        simp only [givesUp, flag, if_true, phase, LoopPhase.place, Option.map_some]
  | @check request phase flag =>
      refine .still ?_ (fun _ => rfl)
      intro test
      simp only [placed, bootingPlace, phase, LoopPhase.place]
  | @unknown request phase absent =>
      refine .lost request.name .received ?_ (fun _ => rfl) ?_
      · intro test
        simp only [placed, bootingPlace, phase, LoopPhase.place, tally, Option.map_none]
        omega
      · intro _ impossible
        simp only [status, absent, Option.map_none, reduceCtorEq] at impossible
  | @record request handle phase held =>
      refine .still ?_ ?_
      · intro test
        simp only [placed, bootingPlace, phase, LoopPhase.place, noteRecorded, modify]
      · exact status_modify_same (fun _ => rfl)
  | @refuse request instant handle phase held exceeds =>
      refine .moves request.name .received none ?_ ?_ ?_
      · intro test
        simp only [placed, bootingPlace, phase, LoopPhase.place, setStatus, modify, tally,
          Option.map_none]
        omega
      · change Fate _ _ _ _ ((before.setStatus request.name .degraded).status request.name)
        rw [status_setStatus_self held]
        exact .refused
      · intro name different
        exact status_modify_other different _
  | @grant request instant handle phase held within =>
      have changed : ∀ name, status (before.modify request.name (fun handle =>
          { handle with
            currentBackoff := config.defaultRestartPolicy.nextBackoff handle.currentBackoff }))
          name = before.status name := status_modify_same (fun _ => rfl)
      have sameName : handle.spec.name = request.name := (known.handles _ _ held).2
      refine .moves request.name .received (some .sleeping) ?_ ?_ (fun name _ => changed name)
      · intro test
        simp only [placed, bootingPlace, phase, LoopPhase.place, noteGranted, modify, tally,
          Option.map_some, sameName]
        omega
      · rw [← changed request.name]
        exact .granted
  | @stayDown spec grant phase flag =>
      refine .lost spec.name .sleeping ?_ (fun _ => rfl) ?_
      · intro test
        simp only [placed, bootingPlace, phase, LoopPhase.place, tally, Option.map_none]
        omega
      · intro _ _
        simp only [givesUp, flag, if_true, phase, LoopPhase.place, Option.map_some]
  | @wake spec grant phase flag =>
      refine .moves spec.name .sleeping (some .respawning) ?_ (.wakes flag) (fun _ _ => rfl)
      intro test
      simp only [placed, bootingPlace, phase, LoopPhase.place, tally, Option.map_some]
      omega
  | @loopInsert spec grant phase =>
      have same : ∀ test, placed { before.insertHandle config spec with
          loop := .spawning spec grant .starting } test = before.placed test := by
        intro test
        unfold insertHandle
        split
        · simp only [placed, bootingPlace, phase, LoopPhase.place]
        · simp only [placed, bootingPlace, phase, LoopPhase.place]
      rcases @status_insertHandle _ _ config before spec with unchanged | ⟨appeared, others⟩
      · exact .still same unchanged
      · exact .appears spec.name same appeared others
  | @loopStart spec grant phase =>
      refine .moves spec.name .respawning (some .unmarked) ?_ .respawned (fun _ _ => rfl)
      intro test
      simp only [placed, bootingPlace, phase, noteRespawned, List.countP_append,
        List.countP_singleton, LoopPhase.place, MonitorTask.place, Option.any_some, tally,
        Option.map_some]
      omega
  | @loopFailed spec grant failure phase =>
      refine .lost spec.name .respawning ?_ (fun _ => rfl) ?_
      · intro test
        simp only [placed, bootingPlace, phase, LoopPhase.place, tally, Option.map_none]
        omega
      · intro _ _
        simp only [givesUp, phase, LoopPhase.place, Option.map_some]
  | @loopRegister spec grant task phase =>
      refine .still ?_ (fun _ => rfl)
      intro test
      simp only [placed, bootingPlace, phase, LoopPhase.place]
  | @mark tasks marked name phase =>
      refine .silenced name (fun _ => rfl) ?_ (fun other different => status_modify_other different _)
      have stopped : status { before.setStatus name .stopped with
          shutdown := .marking tasks (name :: marked) } name =
          (before.handles name).map (fun _ => .stopped) := status_modify_self name _
      rw [stopped]
      have only : ∀ other, other ≠ .stopped →
          (before.handles name).map (fun _ => ChildStatus.stopped) ≠ some other := by
        intro other different same
        obtain ⟨_, _, written⟩ := Option.map_eq_some_iff.mp same
        exact different written.symm
      exact ⟨only _ (by decide), only _ (by decide), only _ (by decide)⟩
  | @abort tasks id phase => exact (abort_turn id).withShutdown _
  | setFlag | drain | lockHandles | unlockHandles | finish | tick =>
      exact .still (fun _ => rfl) (fun _ => rfl)

/-! ### One place at a time -/

def copies (manager : ChildManager Name) (name : Name) : Nat :=
  manager.placed (fun entry => entry.1 = name)

theorem copies_new (config : SupervisorConfig Name) (name : Name) :
    (new config).copies name ≤ 1 := by
  have once := List.nodup_iff_count_le_one.mp config.distinct name
  unfold copies placed
  simp only [new, bootingPlace, LoopPhase.place, tally, List.countP_nil, Nat.add_zero]
  rw [List.count, List.countP_map] at once
  exact once

omit [DecidableEq Name] in
theorem placed_mono {test wider : Name × Place → Bool}
    (implies : ∀ entry, test entry = true → wider entry = true) :
    manager.placed test ≤ manager.placed wider := by
  have one : ∀ place : Option (Name × Place), tally test place ≤ tally wider place := by
    intro place
    cases place with
    | none => exact Nat.le_refl 0
    | some entry =>
        simp only [tally]
        split
        · next passes => rw [if_pos (implies entry passes)]
        · exact Nat.zero_le _
  have boot : manager.boot.countP (fun spec => test (spec.name, .waiting)) ≤
      manager.boot.countP (fun spec => wider (spec.name, .waiting)) :=
    List.countP_mono_left (fun spec _ => implies (spec.name, .waiting))
  have channel : manager.channel.countP (fun request => test (request.name, .queued)) ≤
      manager.channel.countP (fun request => wider (request.name, .queued)) :=
    List.countP_mono_left (fun request _ => implies (request.name, .queued))
  have tasks : manager.tasks.countP (fun task => task.place.any test) ≤
      manager.tasks.countP (fun task => task.place.any wider) := by
    apply List.countP_mono_left
    intro task _ passes
    obtain ⟨entry, place, holds⟩ := (Option.any_eq_true _ _).mp passes
    exact (Option.any_eq_true _ _).mpr ⟨entry, place, implies entry holds⟩
  have booting := one manager.bootingPlace
  have loop := one manager.loop.place
  unfold placed
  omega

theorem Turn.copies_le (turn : Turn before event after) (name : Name) :
    after.copies name ≤ before.copies name := by
  unfold copies
  cases turn with
  | still same => exact Nat.le_of_eq (same _)
  | appears child same => exact Nat.le_of_eq (same _)
  | moves child source target shifts =>
      have shift := shifts (fun entry => entry.1 = name)
      cases target with
      | none =>
          simp only [tally, Option.map_none] at shift
          omega
      | some target =>
          simp only [tally, Option.map_some] at shift
          omega
  | lost child source shifts =>
      have shift := shifts (fun entry => entry.1 = name)
      simp only [tally, Option.map_none] at shift
      omega
  | bootEnds fewer => exact fewer _
  | silenced child same => exact Nat.le_of_eq (same _)

structure Consistent (config : SupervisorConfig Name) (manager : ChildManager Name) : Prop where
  known : Known config manager
  alone : ∀ name, manager.copies name ≤ 1

theorem consistent_new (config : SupervisorConfig Name) : Consistent config (new config) :=
  ⟨known_new config, copies_new config⟩

theorem Consistent.turn (holds : Consistent config before)
    (taken : next config before event = some after) : Turn before event after :=
  (step_of_next taken).turn holds.known

theorem Consistent.next (holds : Consistent config before)
    (taken : next config before event = some after) : Consistent config after := by
  refine ⟨(step_of_next taken).known holds.known, ?_⟩
  intro name
  exact Nat.le_trans ((holds.turn taken).copies_le name) (holds.alone name)

end ChildManager

end Mneme.Supervisor
