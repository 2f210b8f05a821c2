/-
The steps of the child manager, one case for each thing that can happen.
-/

import Mneme.Supervisor.ChildManager

namespace Mneme.Supervisor

open Library Transition

namespace ChildManager

variable {Name : Type} [DecidableEq Name]

/-- What an event that is taken in `before` leads to. -/
inductive Step (config : SupervisorConfig Name) (before : ChildManager Name) :
    ManagerEvent Name → ChildManager Name → Prop
  | takeSpec {spec : ChildSpec Name} {rest : List (ChildSpec Name)}
      (free : before.booting = none) (first : before.boot = spec :: rest) :
      Step config before .takeSpec { before with boot := rest, booting := some (spec, .inserting) }
  | bootInsert {spec : ChildSpec Name} (stage : before.booting = some (spec, .inserting)) :
      Step config before (.boot .insert)
        { before.insertHandle config spec with booting := some (spec, .starting) }
  | bootStart {spec : ChildSpec Name} (stage : before.booting = some (spec, .starting)) :
      Step config before (.boot (.start none))
        { before with
          tasks := before.tasks ++ [⟨spec.name, .created, false, false⟩]
          booting := some (spec, .registering before.tasks.length) }
  | bootMissing {spec : ChildSpec Name} (stage : before.booting = some (spec, .starting)) :
      Step config before (.boot (.start (some .missing))) { before with booting := none }
  | bootFailed {spec : ChildSpec Name} (stage : before.booting = some (spec, .starting)) :
      Step config before (.boot (.start (some .other)))
        { before with booting := none, boot := [] }
  | bootRegister {spec : ChildSpec Name} {task : TaskId}
      (stage : before.booting = some (spec, .registering task)) :
      Step config before (.boot .register)
        { before with
          monitors := Function.update before.monitors spec.name (some task)
          booting := none }
  | poll {id : TaskId} {task : MonitorTask Name} (found : before.tasks[id]? = some task) :
      Step config before (.poll id) (before.setTask id { task with polling := true })
  | giveWay {id : TaskId} {task : MonitorTask Name} (found : before.tasks[id]? = some task)
      (kept : task.aborted = false) :
      Step config before (.giveWay id) (before.setTask id { task with polling := false })
  | giveUp {id : TaskId} {task : MonitorTask Name} (found : before.tasks[id]? = some task)
      (live : task.phase.live = true) (aborted : task.aborted = true) :
      Step config before (.giveWay id)
        (before.setTask id { task with polling := false, phase := .dropped })
  | monitor {id : TaskId} {task : MonitorTask Name} {handle : ChildHandle Name}
      {step : MonitorStep} {phase : MonitorPhase} {effect : MonitorPhase.Effect}
      {touched : ChildManager Name} (found : before.tasks[id]? = some task)
      (held : before.handles task.name = some handle)
      (advanced : task.phase.advance before.shutdownFlag handle.spec.restart step =
        some (phase, effect))
      (applied : before.apply task.name effect = some touched) :
      Step config before (.monitor id step) (touched.setTask id { task with phase := phase })
  | receive {request : RestartRequest Name} {rest : List (RestartRequest Name)}
      (phase : before.loop = .idle) (first : before.channel = request :: rest) :
      Step config before (.loop .receive)
        { before with channel := rest, loop := .received request }
  | ignore {request : RestartRequest Name} (phase : before.loop = .received request)
      (flag : before.shutdownFlag = true) :
      Step config before (.loop .checkFlag) { before with loop := .idle }
  | check {request : RestartRequest Name} (phase : before.loop = .received request)
      (flag : before.shutdownFlag = false) :
      Step config before (.loop .checkFlag) { before with loop := .checked request }
  | unknown {request : RestartRequest Name} (phase : before.loop = .checked request)
      (absent : before.handles request.name = none) :
      Step config before (.loop .record) { before with loop := .idle }
  | record {request : RestartRequest Name} {handle : ChildHandle Name}
      (phase : before.loop = .checked request)
      (held : before.handles request.name = some handle) :
      Step config before (.loop .record)
        { (before.modify request.name
              (ChildHandle.recordRestart config.defaultRestartPolicy.budgetWindow before.now)
            ).noteRecorded request.name before.now with
          loop := .recorded request before.now }
  | refuse {request : RestartRequest Name} {instant : Instant} {handle : ChildHandle Name}
      (phase : before.loop = .recorded request instant)
      (held : before.handles request.name = some handle)
      (exceeds : config.defaultRestartPolicy.maxRestartsPerWindow <
        handle.restartsInWindow config.defaultRestartPolicy.budgetWindow before.now) :
      Step config before (.loop .weigh)
        { before.setStatus request.name .degraded with loop := .idle }
  | grant {request : RestartRequest Name} {instant : Instant} {handle : ChildHandle Name}
      (phase : before.loop = .recorded request instant)
      (held : before.handles request.name = some handle)
      (within : ¬ config.defaultRestartPolicy.maxRestartsPerWindow <
        handle.restartsInWindow config.defaultRestartPolicy.budgetWindow before.now) :
      Step config before (.loop .weigh)
        { (before.modify request.name (fun handle =>
              { handle with
                currentBackoff := config.defaultRestartPolicy.nextBackoff handle.currentBackoff })
            ).noteGranted request.name ⟨⟨instant, before.now⟩, handle.currentBackoff⟩ with
          loop := .sleeping handle.spec ⟨⟨instant, before.now⟩, handle.currentBackoff⟩ }
  | stayDown {spec : ChildSpec Name} {grant : Grant} (phase : before.loop = .sleeping spec grant)
      (flag : before.shutdownFlag = true) :
      Step config before (.loop .wake) { before with loop := .idle }
  | wake {spec : ChildSpec Name} {grant : Grant} (phase : before.loop = .sleeping spec grant)
      (flag : before.shutdownFlag = false) :
      Step config before (.loop .wake) { before with loop := .spawning spec grant .inserting }
  | loopInsert {spec : ChildSpec Name} {grant : Grant}
      (phase : before.loop = .spawning spec grant .inserting) :
      Step config before (.loop (.spawn .insert))
        { before.insertHandle config spec with loop := .spawning spec grant .starting }
  | loopStart {spec : ChildSpec Name} {grant : Grant}
      (phase : before.loop = .spawning spec grant .starting) :
      Step config before (.loop (.spawn (.start none)))
        { noteRespawned
            { before with tasks := before.tasks ++ [⟨spec.name, .created, false, false⟩] }
            spec.name grant with
          loop := .spawning spec grant (.registering before.tasks.length) }
  | loopFailed {spec : ChildSpec Name} {grant : Grant} {failure : SpawnFailure}
      (phase : before.loop = .spawning spec grant .starting) :
      Step config before (.loop (.spawn (.start (some failure)))) { before with loop := .idle }
  | loopRegister {spec : ChildSpec Name} {grant : Grant} {task : TaskId}
      (phase : before.loop = .spawning spec grant (.registering task)) :
      Step config before (.loop (.spawn .register))
        { before with
          monitors := Function.update before.monitors spec.name (some task)
          loop := .idle }
  | setFlag (phase : before.shutdown = .notCalled) :
      Step config before (.shutdown .setFlag) { before with shutdown := .flagged }
  | drain (phase : before.shutdown = .flagged) :
      Step config before (.shutdown .drain)
        { before with
          monitors := fun _ => none
          shutdown := .drained
            (config.children.filterMap (fun spec => before.monitors spec.name)) }
  | lockHandles {tasks : List TaskId} (phase : before.shutdown = .drained tasks) :
      Step config before (.shutdown .lockHandles) { before with shutdown := .marking tasks [] }
  | mark {tasks : List TaskId} {marked : List Name} {name : Name}
      (phase : before.shutdown = .marking tasks marked) :
      Step config before (.shutdown (.mark name))
        { before.setStatus name .stopped with shutdown := .marking tasks (name :: marked) }
  | unlockHandles {tasks : List TaskId} {marked : List Name}
      (phase : before.shutdown = .marking tasks marked)
      (all : ∀ spec, spec ∈ config.children → before.handles spec.name = none ∨
        spec.name ∈ marked) :
      Step config before (.shutdown .unlockHandles) { before with shutdown := .aborting tasks }
  | abort {tasks : List TaskId} {id : TaskId} (phase : before.shutdown = .aborting tasks) :
      Step config before (.shutdown (.abort id))
        { before.abort id with shutdown := .aborting (tasks.erase id) }
  | finish (phase : before.shutdown = .aborting []) :
      Step config before (.shutdown .finish) { before with shutdown := .returned }
  | tick (elapsed : Duration) :
      Step config before (.tick elapsed) { before with now := before.now + elapsed }

variable {config : SupervisorConfig Name} {before after : ChildManager Name}

theorem step_of_bootStep {step : SpawnStep} (taken : before.bootStep config step = some after) :
    Step config before (.boot step) after := by
  unfold bootStep at taken
  cases booting : before.booting with
  | none =>
      rw [booting] at taken
      cases taken
  | some current =>
      obtain ⟨spec, stage⟩ := current
      rw [booting] at taken
      cases stage with
      | inserting =>
          cases step with
          | insert =>
              simp only [spawnChild] at taken
              cases locked : before.handlesLocked with
              | true => simp only [locked, if_true, reduceCtorEq] at taken
              | false =>
                  simp only [locked, Bool.false_eq_true, if_false] at taken
                  cases taken
                  exact .bootInsert booting
          | start failure => cases failure <;> cases taken
          | register => cases taken
      | starting =>
          cases step with
          | insert => cases taken
          | start failure =>
              cases failure with
              | none =>
                  cases taken
                  exact .bootStart booting
              | some failure =>
                  cases failure with
                  | missing =>
                      cases taken
                      exact .bootMissing booting
                  | other =>
                      cases taken
                      exact .bootFailed booting
          | register => cases taken
      | registering task =>
          cases step with
          | insert => cases taken
          | start failure => cases failure <;> cases taken
          | register =>
              cases taken
              exact .bootRegister booting

theorem step_of_loopSpawn {spec : ChildSpec Name} {grant : Grant} {stage : SpawnStage}
    {step : SpawnStep} (phase : before.loop = .spawning spec grant stage)
    (taken : before.loopSpawn config spec grant stage step = some after) :
    Step config before (.loop (.spawn step)) after := by
  unfold loopSpawn at taken
  cases stage with
  | inserting =>
      cases step with
      | insert =>
          simp only [spawnChild] at taken
          cases locked : before.handlesLocked with
          | true => simp only [locked, if_true, reduceCtorEq] at taken
          | false =>
              simp only [locked, Bool.false_eq_true, if_false] at taken
              cases taken
              exact .loopInsert phase
      | start failure => cases failure <;> cases taken
      | register => cases taken
  | starting =>
      cases step with
      | insert => cases taken
      | start failure =>
          cases failure with
          | none =>
              cases taken
              exact .loopStart phase
          | some failure =>
              cases taken
              exact .loopFailed phase
      | register => cases taken
  | registering task =>
      cases step with
      | insert => cases taken
      | start failure => cases failure <;> cases taken
      | register =>
          cases taken
          exact .loopRegister phase

theorem step_of_weigh {request : RestartRequest Name} {instant : Instant}
    (phase : before.loop = .recorded request instant)
    (taken : before.weigh config request instant = some after) :
    Step config before (.loop .weigh) after := by
  unfold weigh at taken
  cases held : before.handles request.name with
  | none =>
      rw [held] at taken
      cases taken
  | some handle =>
      simp only [held] at taken
      split at taken
      · next exceeds =>
          cases taken
          exact .refuse phase held exceeds
      · next within =>
          cases taken
          exact .grant phase held within

theorem step_of_loopStep {step : LoopStep} (taken : before.loopStep config step = some after) :
    Step config before (.loop step) after := by
  unfold loopStep at taken
  split at taken
  · next phase =>
      split at taken
      · cases taken
      · next request rest first =>
          cases taken
          exact .receive phase first
  · next request phase =>
      cases flag : before.shutdownFlag with
      | true =>
          rw [flag] at taken
          cases taken
          exact .ignore phase flag
      | false =>
          rw [flag] at taken
          cases taken
          exact .check phase flag
  · next request phase =>
      cases taken
      unfold recordRestart
      cases held : before.handles request.name with
      | none => exact .unknown phase held
      | some handle => exact .record phase held
  · next request instant phase => exact step_of_weigh phase taken
  · next spec grant phase =>
      split at taken
      · cases taken
      · cases flag : before.shutdownFlag with
        | true =>
            rw [flag] at taken
            cases taken
            exact .stayDown phase flag
        | false =>
            rw [flag] at taken
            cases taken
            exact .wake phase flag
  · next spec grant stage step phase => exact step_of_loopSpawn phase taken
  · cases taken

theorem step_of_giveWay {id : TaskId} (taken : before.giveWay id = some after) :
    Step config before (.giveWay id) after := by
  unfold giveWay at taken
  cases found : before.tasks[id]? with
  | none =>
      rw [found] at taken
      cases taken
  | some task =>
      simp only [found] at taken
      split at taken
      · next both =>
          cases taken
          by_cases aborted : task.aborted = true
          · rw [if_pos aborted]
            exact .giveUp found (Bool.and_eq_true_iff.mp both).1 aborted
          · rw [if_neg aborted]
            exact .giveWay found (Bool.eq_false_iff.mpr aborted)
      · cases taken

theorem step_of_monitorStep {id : TaskId} {step : MonitorStep}
    (taken : before.monitorStep id step = some after) :
    Step config before (.monitor id step) after := by
  unfold monitorStep at taken
  cases found : before.tasks[id]? with
  | none =>
      rw [found] at taken
      cases taken
  | some task =>
      simp only [found] at taken
      split at taken
      · split at taken
        · cases taken
        · next handle held =>
            split at taken
            · cases taken
            · next phase effect advanced =>
                obtain ⟨touched, applied, same⟩ := Option.map_eq_some_iff.mp taken
                cases same
                exact .monitor found held advanced applied
      · cases taken

theorem step_of_shutdownStep {step : ShutdownStep Name}
    (taken : before.shutdownStep config step = some after) :
    Step config before (.shutdown step) after := by
  unfold shutdownStep at taken
  split at taken
  · next phase =>
      cases taken
      exact .setFlag phase
  · next phase =>
      cases taken
      exact .drain phase
  · next tasks phase =>
      cases taken
      exact .lockHandles phase
  · next tasks marked name phase =>
      split at taken
      · cases taken
      · cases taken
        exact .mark phase
  · next tasks marked phase =>
      split at taken
      · next all =>
          cases taken
          apply Step.unlockHandles phase
          intro spec member
          have one := List.all_eq_true.mp all spec member
          rw [Bool.or_eq_true, Option.isNone_iff_eq_none, decide_eq_true_iff] at one
          exact one
      · cases taken
  · next tasks id phase =>
      split at taken
      · cases taken
        exact .abort phase
      · cases taken
  · next phase =>
      cases taken
      exact .finish phase
  · cases taken

/-- Every event that is taken is one of the cases. -/
theorem step_of_next {event : ManagerEvent Name} (taken : next config before event = some after) :
    Step config before event after := by
  cases event with
  | takeSpec =>
      change before.takeSpec = some after at taken
      unfold takeSpec at taken
      split at taken
      · next spec rest free first =>
          cases taken
          exact .takeSpec free first
      · cases taken
  | boot step => exact step_of_bootStep taken
  | poll id =>
      change before.poll id = some after at taken
      unfold poll at taken
      cases found : before.tasks[id]? with
      | none =>
          rw [found] at taken
          cases taken
      | some task =>
          simp only [found] at taken
          split at taken
          · cases taken
            exact .poll found
          · cases taken
  | giveWay id => exact step_of_giveWay taken
  | monitor id step => exact step_of_monitorStep taken
  | loop step => exact step_of_loopStep taken
  | shutdown step => exact step_of_shutdownStep taken
  | tick elapsed =>
      cases taken
      exact .tick elapsed

end ChildManager

end Mneme.Supervisor
