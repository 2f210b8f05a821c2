/-
Child specifications, restart policies and runtime handles, and the child manager:
spawning, monitoring, restarting and shutdown.

The boot, the restart loop, the monitor task of every process started and the
shutdown run side by side over the handles, the monitors and the restart
channel.  Each step of the model is the code between two points at which
another of them can act.  Instants and durations are counted in nanoseconds; the backoff
multiplier is an exact rational.
-/

import Mneme.Library.Budget
import Mneme.Library.Run
import Mneme.Supervisor.Control

namespace Mneme.Supervisor

open Library Transition

abbrev Instant := Nat

abbrev Duration := Nat

def asMillis (duration : Duration) : Nat :=
  duration / 1000000

def fromMillis (millis : Nat) : Duration :=
  millis * 1000000

def u64Max : Nat := 18446744073709551615

inductive RestartStrategy where
  | permanent
  | transient
  | temporary
deriving DecidableEq

def RestartStrategy.shouldRestart (exitCode : Int) : RestartStrategy → Bool
  | .permanent => true
  | .transient => exitCode ≠ 0
  | .temporary => false

structure ChildSpec (Name : Type) where
  name : Name
  restart : RestartStrategy
deriving DecidableEq

structure Multiplier where
  numerator : Nat
  denominator : Nat
  positive : 0 < denominator

structure RestartPolicy where
  initialBackoff : Duration
  maxBackoff : Duration
  backoffMultiplier : Multiplier
  maxRestartsPerWindow : UInt32
  budgetWindow : Duration

structure ChildHandle (Name : Type) where
  spec : ChildSpec Name
  status : ChildStatus
  lastExitCode : Option Int
  restartCount : Nat
  restartWindow : List Instant
  currentBackoff : Duration

namespace RestartPolicy

def default : RestartPolicy :=
  { initialBackoff := fromMillis 100
    maxBackoff := fromMillis 10000
    backoffMultiplier := ⟨5, 1, by decide⟩
    maxRestartsPerWindow := 5
    budgetWindow := fromMillis 60000 }

/-- The cap in whole milliseconds, cut to 64 bits. -/
def capMillis (policy : RestartPolicy) : Nat :=
  asMillis policy.maxBackoff % (u64Max + 1)

/-- The backoff of the restart after one that waited `current`. -/
def nextBackoff (policy : RestartPolicy) (current : Duration) : Duration :=
  let next := min (asMillis current * policy.backoffMultiplier.numerator /
    policy.backoffMultiplier.denominator) u64Max
  let capped := min next policy.capMillis
  fromMillis (max capped 1)

/-- Whole milliseconds within the cap, or a single one. -/
def Whole (policy : RestartPolicy) (duration : Duration) : Prop :=
  ∃ millis, duration = fromMillis millis ∧ millis ≤ max policy.capMillis 1

variable {policy : RestartPolicy}

theorem capMillis_le (policy : RestartPolicy) : policy.capMillis ≤ u64Max :=
  Nat.le_of_lt_succ (Nat.mod_lt _ (Nat.succ_pos u64Max))

theorem fromMillis_capMillis_le (policy : RestartPolicy) :
    fromMillis policy.capMillis ≤ policy.maxBackoff := by
  have cut : policy.capMillis ≤ asMillis policy.maxBackoff := Nat.mod_le _ _
  exact Nat.le_trans (Nat.mul_le_mul_right 1000000 cut) (Nat.div_mul_le_self _ _)

theorem asMillis_fromMillis (millis : Nat) : asMillis (fromMillis millis) = millis :=
  Nat.mul_div_cancel millis (Nat.succ_pos 999999)

theorem nextBackoff_whole (policy : RestartPolicy) (current : Duration) :
    policy.Whole (policy.nextBackoff current) := by
  refine ⟨_, rfl, ?_⟩
  exact max_le_max (Nat.min_le_right _ _) (Nat.le_refl 1)

theorem Whole.le {duration : Duration} (whole : policy.Whole duration) :
    duration ≤ max policy.maxBackoff (fromMillis 1) := by
  obtain ⟨millis, rfl, within⟩ := whole
  rcases le_max_iff.mp within with belowCap | single
  · apply le_max_of_le_left
    exact Nat.le_trans (Nat.mul_le_mul_right 1000000 belowCap) (fromMillis_capMillis_le policy)
  · exact le_max_of_le_right (Nat.mul_le_mul_right 1000000 single)

/-- A multiplier of at least one never shrinks a backoff that is whole. -/
theorem Whole.le_nextBackoff {current : Duration} (whole : policy.Whole current)
    (grows : policy.backoffMultiplier.denominator ≤ policy.backoffMultiplier.numerator) :
    current ≤ policy.nextBackoff current := by
  obtain ⟨millis, rfl, within⟩ := whole
  have longer : millis ≤ millis * policy.backoffMultiplier.numerator /
      policy.backoffMultiplier.denominator := by
    rw [Nat.le_div_iff_mul_le policy.backoffMultiplier.positive]
    exact Nat.mul_le_mul_left millis grows
  have cap := capMillis_le policy
  have positive : 1 ≤ u64Max := by decide
  unfold nextBackoff
  rw [asMillis_fromMillis]
  apply Nat.mul_le_mul_right
  omega

end RestartPolicy

namespace ChildHandle

variable {Name : Type}

def new (spec : ChildSpec Name) (initialBackoff : Duration) : ChildHandle Name :=
  { spec
    status := .pending
    lastExitCode := none
    restartCount := 0
    restartWindow := []
    currentBackoff := initialBackoff }

def recordRestart (window : Duration) (now : Instant) (handle : ChildHandle Name) :
    ChildHandle Name :=
  { handle with
    restartWindow := prune window now (handle.restartWindow ++ [now])
    restartCount := min (handle.restartCount + 1) u64Max }

/-- The count is cut to 32 bits. -/
def restartsInWindow (window : Duration) (now : Instant) (handle : ChildHandle Name) : UInt32 :=
  UInt32.ofNat (recent window now handle.restartWindow)

end ChildHandle

/-! ### The manager -/

structure SupervisorConfig (Name : Type) where
  defaultRestartPolicy : RestartPolicy
  children : List (ChildSpec Name)
  distinct : (children.map ChildSpec.name).Nodup

structure RestartRequest (Name : Type) where
  name : Name
  exitCode : Int
  queuedAt : Instant
deriving DecidableEq

abbrev TaskId := Nat

inductive MonitorPhase where
  /-- The process runs, its handle does not say so yet. -/
  | created
  | watching
  | exited (code : Int)
  | recorded (code : Int)
  | stopping
  | restarting (code : Int)
  /-- The handle says restarting, the request is not sent yet. -/
  | marked (code : Int)
  | ended
  | dropped
deriving DecidableEq

/-- An aborted task goes on until it next gives way. -/
structure MonitorTask (Name : Type) where
  name : Name
  phase : MonitorPhase
  polling : Bool
  aborted : Bool
deriving DecidableEq

/-- What a restart request that passed the budget was given. -/
structure Grant extends Admission where
  delay : Duration

inductive SpawnStage where
  | inserting
  | starting
  | registering (task : TaskId)
deriving DecidableEq

inductive LoopPhase (Name : Type) where
  | idle
  | received (request : RestartRequest Name)
  | checked (request : RestartRequest Name)
  /-- The handle is locked and the restart recorded, but not weighed. -/
  | recorded (request : RestartRequest Name) (instant : Instant)
  | sleeping (spec : ChildSpec Name) (grant : Grant)
  | spawning (spec : ChildSpec Name) (grant : Grant) (stage : SpawnStage)

inductive ShutdownPhase (Name : Type) where
  | notCalled
  | flagged
  | drained (tasks : List TaskId)
  | marking (tasks : List TaskId) (marked : List Name)
  | aborting (tasks : List TaskId)
  | returned
deriving DecidableEq

/-- History of a child: the restarts recorded, those that passed the budget and
those that started a process. -/
structure RestartHistory where
  recorded : List Instant
  granted : List Grant
  respawned : List Grant

structure ChildManager (Name : Type) where
  handles : Name → Option (ChildHandle Name)
  monitors : Name → Option TaskId
  channel : List (RestartRequest Name)
  tasks : List (MonitorTask Name)
  /-- The children `spawn_all` has not taken up yet, and the one it spawns. -/
  boot : List (ChildSpec Name)
  booting : Option (ChildSpec Name × SpawnStage)
  loop : LoopPhase Name
  shutdown : ShutdownPhase Name
  now : Instant
  history : Name → RestartHistory

inductive SpawnFailure where
  /-- Not found or permission denied. -/
  | missing
  | other

inductive SpawnStep where
  | insert
  | start (failure : Option SpawnFailure)
  | register

inductive MonitorStep where
  | markRunning
  | exit (code : Int)
  | waitFailed
  | record
  | decide
  | markStopped
  | markRestarting
  | send

inductive LoopStep where
  | receive
  | checkFlag
  | record
  | weigh
  | wake
  | spawn (step : SpawnStep)

inductive ShutdownStep (Name : Type) where
  | setFlag
  | drain
  | lockHandles
  | mark (name : Name)
  | unlockHandles
  | abort (task : TaskId)
  | finish

inductive ManagerEvent (Name : Type) where
  | takeSpec
  | boot (step : SpawnStep)
  | poll (task : TaskId)
  | giveWay (task : TaskId)
  | monitor (task : TaskId) (step : MonitorStep)
  | loop (step : LoopStep)
  | shutdown (step : ShutdownStep Name)
  | tick (elapsed : Duration)

variable {Name : Type} [DecidableEq Name]

namespace MonitorPhase

/-- The task can still act on the child. -/
def live : MonitorPhase → Bool
  | .ended | .dropped => false
  | _ => true

inductive Effect where
  | nothing
  | setStatus (status : ChildStatus)
  | recordExit (code : Int)
  | send (code : Int)

def advance (shutdownFlag : Bool) (strategy : RestartStrategy) :
    MonitorPhase → MonitorStep → Option (MonitorPhase × Effect)
  | .created, .markRunning => some (.watching, .setStatus .running)
  | .watching, .exit code => some (.exited code, .nothing)
  | .watching, .waitFailed => some (.ended, .nothing)
  | .exited code, .record => some (.recorded code, .recordExit code)
  | .recorded code, .decide =>
      if shutdownFlag then some (.stopping, .nothing)
      else if strategy.shouldRestart code then some (.restarting code, .nothing)
      else some (.stopping, .nothing)
  | .stopping, .markStopped => some (.ended, .setStatus .stopped)
  | .restarting code, .markRestarting => some (.marked code, .setStatus .restarting)
  | .marked code, .send => some (.ended, .send code)
  | _, _ => none

end MonitorPhase

namespace LoopPhase

/-- The child whose handle the loop has locked. -/
def locked : LoopPhase Name → Option Name
  | .recorded request _ => some request.name
  | _ => none

/-- The grant that may still lead to a respawn. -/
def grant : LoopPhase Name → Option (Name × Grant)
  | .sleeping spec grant | .spawning spec grant .inserting | .spawning spec grant .starting =>
      some (spec.name, grant)
  | _ => none

end LoopPhase

namespace ChildManager

def new (config : SupervisorConfig Name) : ChildManager Name :=
  { handles := fun _ => none
    monitors := fun _ => none
    channel := []
    tasks := []
    boot := config.children
    booting := none
    loop := .idle
    shutdown := .notCalled
    now := 0
    history := fun _ => ⟨[], [], []⟩ }

def shutdownFlag (manager : ChildManager Name) : Bool :=
  manager.shutdown ≠ .notCalled

def status (manager : ChildManager Name) (name : Name) : Option ChildStatus :=
  (manager.handles name).map ChildHandle.status

/-- The handles map is locked for reading while shutdown goes through it. -/
def handlesLocked (manager : ChildManager Name) : Bool :=
  match manager.shutdown with
  | .marking _ _ => true
  | _ => false

def modify (manager : ChildManager Name) (name : Name)
    (change : ChildHandle Name → ChildHandle Name) : ChildManager Name :=
  { manager with
    handles := Function.update manager.handles name ((manager.handles name).map change) }

def setStatus (manager : ChildManager Name) (name : Name) (status : ChildStatus) :
    ChildManager Name :=
  manager.modify name (fun handle => { handle with status := status })

/-! ### Spawning a child -/

inductive SpawnOutcome where
  | inserted
  | started (task : TaskId)
  | registered
  | failed (failure : SpawnFailure)

def insertHandle (config : SupervisorConfig Name) (manager : ChildManager Name)
    (spec : ChildSpec Name) : ChildManager Name :=
  match manager.handles spec.name with
  | some _ => manager
  | none =>
      { manager with
        handles := Function.update manager.handles spec.name
          (some (.new spec config.defaultRestartPolicy.initialBackoff)) }

/-- The next part of `spawn_child`. -/
def spawnChild (config : SupervisorConfig Name) (manager : ChildManager Name)
    (spec : ChildSpec Name) : SpawnStage → SpawnStep → Option (ChildManager Name × SpawnOutcome)
  | .inserting, .insert =>
      if manager.handlesLocked then none
      else some (manager.insertHandle config spec, .inserted)
  | .starting, .start none =>
      some ({ manager with tasks := manager.tasks ++ [⟨spec.name, .created, false, false⟩] },
        .started manager.tasks.length)
  | .starting, .start (some failure) => some (manager, .failed failure)
  | .registering task, .register =>
      some ({ manager with monitors := Function.update manager.monitors spec.name (some task) },
        .registered)
  | _, _ => none

def takeSpec (manager : ChildManager Name) : Option (ChildManager Name) :=
  match manager.booting, manager.boot with
  | none, spec :: rest => some { manager with boot := rest, booting := some (spec, .inserting) }
  | _, _ => none

/-- `spawn_all` skips a child whose binary is missing and gives up on any other
failure. -/
def bootStep (config : SupervisorConfig Name) (manager : ChildManager Name) (step : SpawnStep) :
    Option (ChildManager Name) :=
  match manager.booting with
  | none => none
  | some (spec, stage) =>
      match manager.spawnChild config spec stage step with
      | none => none
      | some (after, .inserted) => some { after with booting := some (spec, .starting) }
      | some (after, .started task) => some { after with booting := some (spec, .registering task) }
      | some (after, .registered) => some { after with booting := none }
      | some (after, .failed .missing) => some { after with booting := none }
      | some (after, .failed .other) => some { after with booting := none, boot := [] }

/-! ### The monitor tasks -/

def setTask (manager : ChildManager Name) (id : TaskId) (task : MonitorTask Name) :
    ChildManager Name :=
  { manager with tasks := manager.tasks.set id task }

def poll (manager : ChildManager Name) (id : TaskId) : Option (ChildManager Name) :=
  match manager.tasks[id]? with
  | none => none
  | some task =>
      if task.phase.live && !task.polling then
        some (manager.setTask id { task with polling := true })
      else none

def giveWay (manager : ChildManager Name) (id : TaskId) : Option (ChildManager Name) :=
  match manager.tasks[id]? with
  | none => none
  | some task =>
      if task.phase.live && task.polling then
        some (manager.setTask id
          { task with
            polling := false
            phase := if task.aborted then .dropped else task.phase })
      else none

/-- An effect on the handle waits for its lock. -/
def apply (manager : ChildManager Name) (name : Name) :
    MonitorPhase.Effect → Option (ChildManager Name)
  | .nothing => some manager
  | .setStatus status =>
      if manager.loop.locked = some name then none else some (manager.setStatus name status)
  | .recordExit code =>
      if manager.loop.locked = some name then none
      else some (manager.modify name (fun handle => { handle with lastExitCode := some code }))
  | .send code =>
      some { manager with channel := manager.channel ++ [⟨name, code, manager.now⟩] }

def monitorStep (manager : ChildManager Name) (id : TaskId) (step : MonitorStep) :
    Option (ChildManager Name) :=
  match manager.tasks[id]? with
  | none => none
  | some task =>
      if task.polling then
        match manager.handles task.name with
        | none => none
        | some handle =>
            match task.phase.advance manager.shutdownFlag handle.spec.restart step with
            | none => none
            | some (phase, effect) =>
                (manager.apply task.name effect).map
                  (fun after => after.setTask id { task with phase := phase })
      else none

/-! ### The restart loop -/

def noteRecorded (manager : ChildManager Name) (name : Name) (instant : Instant) :
    ChildManager Name :=
  { manager with
    history := Function.update manager.history name
      { manager.history name with recorded := (manager.history name).recorded ++ [instant] } }

def noteGranted (manager : ChildManager Name) (name : Name) (grant : Grant) :
    ChildManager Name :=
  { manager with
    history := Function.update manager.history name
      { manager.history name with granted := (manager.history name).granted ++ [grant] } }

def noteRespawned (manager : ChildManager Name) (name : Name) (grant : Grant) :
    ChildManager Name :=
  { manager with
    history := Function.update manager.history name
      { manager.history name with respawned := (manager.history name).respawned ++ [grant] } }

/-- The first half of the section under the handle's lock. -/
def recordRestart (config : SupervisorConfig Name) (manager : ChildManager Name)
    (request : RestartRequest Name) : ChildManager Name :=
  match manager.handles request.name with
  | none => { manager with loop := .idle }
  | some _ =>
      { (manager.modify request.name
            (ChildHandle.recordRestart config.defaultRestartPolicy.budgetWindow manager.now)
          ).noteRecorded request.name manager.now with
        loop := .recorded request manager.now }

/-- The second half: the clock is read again. -/
def weigh (config : SupervisorConfig Name) (manager : ChildManager Name)
    (request : RestartRequest Name) (instant : Instant) : Option (ChildManager Name) :=
  match manager.handles request.name with
  | none => none
  | some handle =>
      let policy := config.defaultRestartPolicy
      if handle.restartsInWindow policy.budgetWindow manager.now > policy.maxRestartsPerWindow then
        some { manager.setStatus request.name .degraded with loop := .idle }
      else
        let grant : Grant := ⟨⟨instant, manager.now⟩, handle.currentBackoff⟩
        some
          { (manager.modify request.name (fun handle =>
                { handle with currentBackoff := policy.nextBackoff handle.currentBackoff })
              ).noteGranted request.name grant with
            loop := .sleeping handle.spec grant }

def loopSpawn (config : SupervisorConfig Name) (manager : ChildManager Name)
    (spec : ChildSpec Name) (grant : Grant) (stage : SpawnStage) (step : SpawnStep) :
    Option (ChildManager Name) :=
  match manager.spawnChild config spec stage step with
  | none => none
  | some (after, .inserted) => some { after with loop := .spawning spec grant .starting }
  | some (after, .started task) =>
      some { after.noteRespawned spec.name grant with
        loop := .spawning spec grant (.registering task) }
  | some (after, .registered) => some { after with loop := .idle }
  | some (after, .failed _) => some { after with loop := .idle }

def loopStep (config : SupervisorConfig Name) (manager : ChildManager Name) (step : LoopStep) :
    Option (ChildManager Name) :=
  match manager.loop, step with
  | .idle, .receive =>
      match manager.channel with
      | [] => none
      | request :: rest => some { manager with channel := rest, loop := .received request }
  | .received request, .checkFlag =>
      if manager.shutdownFlag then some { manager with loop := .idle }
      else some { manager with loop := .checked request }
  | .checked request, .record => some (manager.recordRestart config request)
  | .recorded request instant, .weigh => manager.weigh config request instant
  | .sleeping spec grant, .wake =>
      if manager.now < grant.weighed + grant.delay then none
      else if manager.shutdownFlag then some { manager with loop := .idle }
      else some { manager with loop := .spawning spec grant .inserting }
  | .spawning spec grant stage, .spawn step => manager.loopSpawn config spec grant stage step
  | _, _ => none

/-! ### Shutdown -/

def abort (manager : ChildManager Name) (id : TaskId) : ChildManager Name :=
  match manager.tasks[id]? with
  | none => manager
  | some task =>
      if task.polling then manager.setTask id { task with aborted := true }
      else if task.phase.live then manager.setTask id { task with phase := .dropped }
      else manager

def shutdownStep (config : SupervisorConfig Name) (manager : ChildManager Name)
    (step : ShutdownStep Name) : Option (ChildManager Name) :=
  match manager.shutdown, step with
  | .notCalled, .setFlag => some { manager with shutdown := .flagged }
  | .flagged, .drain =>
      some { manager with
        monitors := fun _ => none
        shutdown := .drained
          (config.children.filterMap (fun spec => manager.monitors spec.name)) }
  | .drained tasks, .lockHandles => some { manager with shutdown := .marking tasks [] }
  | .marking tasks marked, .mark name =>
      if name ∈ marked || (manager.handles name).isNone || manager.loop.locked = some name then none
      else
        some { manager.setStatus name .stopped with
          shutdown := .marking tasks (name :: marked) }
  | .marking tasks marked, .unlockHandles =>
      if config.children.all
          (fun spec => (manager.handles spec.name).isNone || spec.name ∈ marked) then
        some { manager with shutdown := .aborting tasks }
      else none
  | .aborting tasks, .abort task =>
      if task ∈ tasks then
        some { manager.abort task with shutdown := .aborting (tasks.erase task) }
      else none
  | .aborting [], .finish => some { manager with shutdown := .returned }
  | _, _ => none

def next (config : SupervisorConfig Name) (manager : ChildManager Name) :
    ManagerEvent Name → Option (ChildManager Name)
  | .takeSpec => manager.takeSpec
  | .boot step => manager.bootStep config step
  | .poll task => manager.poll task
  | .giveWay task => manager.giveWay task
  | .monitor task step => manager.monitorStep task step
  | .loop step => manager.loopStep config step
  | .shutdown step => manager.shutdownStep config step
  | .tick elapsed => some { manager with now := manager.now + elapsed }

end ChildManager

end Mneme.Supervisor
