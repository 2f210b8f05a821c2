/-
When shutdown is final.

`shutdown_all` sets the flag, marks every child stopped and aborts the monitor
tasks it found.  A respawn that is past its last look at the flag, or a process
whose task has not marked it running yet, still marks its child running later.
-/

import Mneme.Supervisor.ChildLife

namespace Mneme.Supervisor

open Library Transition

namespace ChildManager

variable {Name : Type} [DecidableEq Name]

/-- Nothing stops a child at such a place from being marked running. -/
def spawns : Place → Bool
  | .waiting | .entering | .unmarked | .respawning => true
  | .watched | .marked | .queued | .received | .sleeping => false

def spawning (manager : ChildManager Name) (name : Name) : Nat :=
  manager.placed (fun entry => entry.1 = name && spawns entry.2)

/-- Shutdown marks a child while no spawn of it is under way, and ends its pass
over the children while none is. -/
def CarefulShutdown (manager : ChildManager Name) : ManagerEvent Name → Prop
  | .shutdown (.mark name) => manager.spawning name = 0
  | .shutdown .unlockHandles => manager.placed (fun entry => spawns entry.2) = 0
  | _ => True

instance (manager : ChildManager Name) (event : ManagerEvent Name) :
    Decidable (manager.CarefulShutdown event) :=
  match event with
  | .shutdown (.mark name) => inferInstanceAs (Decidable (manager.spawning name = 0))
  | .shutdown .unlockHandles => inferInstanceAs
      (Decidable (manager.placed (fun entry => spawns entry.2) = 0))
  | .shutdown .setFlag | .shutdown .drain | .shutdown .lockHandles | .shutdown (.abort _)
  | .shutdown .finish | .takeSpec | .boot _ | .poll _ | .giveWay _ | .monitor _ _ | .loop _
  | .tick _ => isTrue trivial

/-- Once shutdown has returned, no child is running. -/
def Final (manager : ChildManager Name) : Prop :=
  manager.shutdown = .returned → ∀ name, manager.status name ≠ some .running

/-- The children shutdown is done with. -/
def settled (manager : ChildManager Name) (name : Name) : Prop :=
  match manager.shutdown with
  | .notCalled | .flagged | .drained _ => False
  | .marking _ marked => name ∈ marked
  | .aborting _ | .returned => True

def Quiet (manager : ChildManager Name) (name : Name) : Prop :=
  manager.spawning name = 0 ∧ manager.status name ≠ some .running

variable {config : SupervisorConfig Name} {before after : ChildManager Name}

variable {target : Option Place}

theorem Shifts.spawning {child : Name} {source : Place}
    (shifts : Shifts before after child source target) (name : Name) :
    after.spawning name + tally (fun entry => entry.1 = name && spawns entry.2)
        (some (child, source)) =
      before.spawning name + tally (fun entry => entry.1 = name && spawns entry.2)
        (target.map (fun place => (child, place))) :=
  shifts _

/-- A child that moves on with the flag set was quiet neither before nor is
running after, or stays quiet. -/
theorem quiet_of_moves {child : Name} {source : Place}
    (shifts : Shifts before after child source target)
    (fate : Fate before.shutdownFlag source target (before.status child) (after.status child))
    (flag : before.shutdownFlag = true) (quiet : before.Quiet child) : after.Quiet child := by
  obtain ⟨idle, stopped⟩ := quiet
  have shift := shifts.spawning child
  unfold Quiet
  generalize before.status child = earlier at fate stopped
  generalize after.status child = later at fate ⊢
  cases fate with
  | takenUp | started | respawned =>
      simp only [tally, spawns, Option.map_some, decide_true, Bool.and_self, if_true] at shift
      exact ⟨by omega, stopped⟩
  | sends | arrives | granted =>
      simp only [tally, spawns, Option.map_some, Bool.and_false, Bool.false_eq_true,
        if_false] at shift
      exact ⟨by omega, stopped⟩
  | wakes clear =>
      rw [flag] at clear
      cases clear
  | runs =>
      simp only [tally, spawns, Option.map_some, decide_true, Bool.and_self, Bool.and_false,
        Bool.false_eq_true, if_true, if_false] at shift
      omega
  | marks =>
      simp only [tally, spawns, Option.map_some, Bool.and_false, Bool.false_eq_true,
        if_false] at shift
      exact ⟨by omega, by decide⟩
  | stops | refused =>
      simp only [tally, spawns, Option.map_none, Bool.and_false, Bool.false_eq_true,
        if_false] at shift
      exact ⟨by omega, by decide⟩

variable {event : ManagerEvent Name}

variable {name : Name}

/-- With the flag set, a child that is quiet stays so. -/
theorem Turn.quiet (turn : Turn before event after)
    (flag : before.shutdownFlag = true) (quiet : before.Quiet name) : after.Quiet name := by
  obtain ⟨idle, stopped⟩ := quiet
  cases turn with
  | still same status =>
      unfold Quiet
      rw [status]
      exact ⟨(same _).trans idle, stopped⟩
  | appears child same status others =>
      refine ⟨(same _).trans idle, ?_⟩
      by_cases self : name = child
      · rw [self, status]
        decide
      · rw [others name self]
        exact stopped
  | silenced child same status others =>
      refine ⟨(same _).trans idle, ?_⟩
      by_cases self : name = child
      · rw [self]
        exact status.1
      · rw [others name self]
        exact stopped
  | bootEnds fewer kept status =>
      have less : after.spawning name ≤ before.spawning name := fewer _
      unfold Quiet
      rw [status]
      exact ⟨by omega, stopped⟩
  | lost child source shifts status =>
      have shift := shifts.spawning name
      unfold Quiet
      rw [status]
      simp only [tally, Option.map_none] at shift
      exact ⟨by omega, stopped⟩
  | moves child source target shifts fate others =>
      by_cases self : name = child
      · subst self
        exact quiet_of_moves shifts fate flag ⟨idle, stopped⟩
      · have shift := shifts.spawning name
        have different : ¬ child = name := fun same => self same.symm
        have elsewhere : ∀ place, tally (fun entry => entry.1 = name && spawns entry.2)
            (some (child, place)) = 0 := by
          intro place
          simp only [tally, different, decide_false, Bool.false_and, Bool.false_eq_true, if_false]
        unfold Quiet
        rw [others name self]
        refine ⟨?_, stopped⟩
        cases target with
        | none =>
            rw [elsewhere, Option.map_none, tally] at shift
            omega
        | some target =>
            rw [elsewhere, Option.map_some, elsewhere] at shift
            omega

theorem flag_of_settled (settled : before.settled name) : before.shutdownFlag = true := by
  unfold ChildManager.settled at settled
  unfold shutdownFlag
  split at settled
  · cases settled
  · cases settled
  · cases settled
  · next phase =>
      rw [phase]
      rfl
  · next phase =>
      rw [phase]
      rfl
  · next phase =>
      rw [phase]
      rfl

/-- Only shutdown itself gets it further. -/
theorem Step.shutdown_same (step : Step config before event after)
    (other : ∀ part, event ≠ .shutdown part) : after.shutdown = before.shutdown := by
  cases step with
  | bootInsert | loopInsert =>
      simp only [insertHandle]
      split <;> rfl
  | @monitor id task handle step phase effect touched found held advanced applied =>
      cases effect with
      | nothing | send =>
          cases applied
          rfl
      | setStatus | recordExit =>
          simp only [apply] at applied
          split at applied <;> cases applied
          rfl
  | setFlag | drain | lockHandles | mark | unlockHandles | abort | finish =>
      exact absurd rfl (other _)
  | _ => rfl

structure Settling (config : SupervisorConfig Name) (manager : ChildManager Name) : Prop where
  consistent : Consistent config manager
  quiet : ∀ name, manager.settled name → manager.Quiet name

theorem settling_new (config : SupervisorConfig Name) : Settling config (new config) :=
  ⟨consistent_new config, fun _ impossible => impossible.elim⟩

theorem Settling.final {manager : ChildManager Name} (settling : Settling config manager) :
    manager.Final := by
  intro returned name
  have settled : manager.settled name := by
    unfold ChildManager.settled
    rw [returned]
    exact trivial
  exact (settling.quiet name settled).2

/-- A step of another part of the manager while the child is settled. -/
theorem Settling.quiet_other (settling : Settling config before)
    (taken : next config before event = some after) (other : ∀ part, event ≠ .shutdown part)
    (settled : after.settled name) : after.Quiet name := by
  have same := (step_of_next taken).shutdown_same other
  unfold ChildManager.settled at settled
  rw [same] at settled
  have settledBefore : before.settled name := settled
  exact (settling.consistent.turn taken).quiet (flag_of_settled settledBefore)
    (settling.quiet name settledBefore)

/-- A step of shutdown. -/
theorem Settling.quiet_shutdown (settling : Settling config before) {part : ShutdownStep Name}
    (step : Step config before (.shutdown part) after)
    (careful : before.CarefulShutdown (.shutdown part))
    (settled : after.settled name) : after.Quiet name := by
  have turn := step.turn settling.consistent.known
  have kept : before.settled name → after.Quiet name := by
    intro settledBefore
    exact turn.quiet (flag_of_settled settledBefore) (settling.quiet name settledBefore)
  cases step with
  | setFlag | drain => exact absurd settled not_false
  | lockHandles => exact absurd settled List.not_mem_nil
  | @mark tasks marked child phase =>
      by_cases self : name = child
      · subst self
        refine ⟨careful, ?_⟩
        have stopped : (before.setStatus name .stopped).status name =
            (before.handles name).map (fun _ => .stopped) := status_modify_self name _
        intro impossible
        obtain ⟨_, _, wrong⟩ := Option.map_eq_some_iff.mp (stopped.symm.trans impossible)
        cases wrong
      · apply kept
        unfold ChildManager.settled
        rw [phase]
        rcases List.mem_cons.mp settled with same | earlier
        · exact absurd same self
        · exact earlier
  | @unlockHandles tasks marked phase all =>
      refine ⟨?_, ?_⟩
      · have none := careful
        have fewer : before.spawning name ≤ before.placed (fun entry => spawns entry.2) :=
          placed_mono (fun entry both => (Bool.and_eq_true_iff.mp both).2)
        have zero : before.spawning name = 0 := by
          unfold CarefulShutdown at none
          omega
        exact zero
      · change before.status name ≠ some .running
        unfold status
        cases held : before.handles name with
        | none => exact fun impossible => nomatch impossible
        | some handle =>
            -- every child with a handle has been marked by now
            obtain ⟨member, named⟩ := settling.consistent.known.handles name handle held
            have marked : name ∈ marked := by
              rcases all handle.spec member with absent | marked
              · rw [named, held] at absent
                cases absent
              · rw [named] at marked
                exact marked
            have settledBefore : before.settled name := by
              unfold ChildManager.settled
              rw [phase]
              exact marked
            have stopped := (settling.quiet name settledBefore).2
            unfold status at stopped
            rw [held] at stopped
            exact stopped
  | abort phase =>
      apply kept
      unfold ChildManager.settled
      rw [phase]
      exact trivial
  | finish phase =>
      apply kept
      unfold ChildManager.settled
      rw [phase]
      exact trivial

theorem Settling.next (settling : Settling config before)
    (careful : before.CarefulShutdown event) (taken : next config before event = some after) :
    Settling config after := by
  refine ⟨settling.consistent.next taken, ?_⟩
  intro name settled
  cases event with
  | shutdown part => exact settling.quiet_shutdown (step_of_next taken) careful settled
  | takeSpec | boot | poll | giveWay | monitor | loop | tick =>
      exact settling.quiet_other taken (fun part impossible => nomatch impossible) settled

/-- Shutdown is final as long as it marks no child that is being spawned. -/
theorem final_of_careful (config : SupervisorConfig Name)
    {history : List (ChildManager Name × ManagerEvent Name)} {final : ChildManager Name}
    (run : Run (next config) (new config) history final)
    (careful : Respects CarefulShutdown history) : Throughout Final history final := by
  have held := run.throughout_of_respects (settling_new config)
    (fun manager event after settling allowed taken => settling.next allowed taken) careful
  exact ⟨fun taken member => (held.1 taken member).final, held.2.final⟩

end ChildManager

def oneWorker : SupervisorConfig Nat :=
  { defaultRestartPolicy := .default
    children := [⟨0, .permanent⟩]
    distinct := by decide }

def bootWorker : List (ManagerEvent Nat) :=
  [.takeSpec, .boot .insert, .boot (.start none), .boot .register]

/-- The process of the task ends, up to the loop's look at the flag. -/
def crash (task : TaskId) : List (ManagerEvent Nat) :=
  [.poll task, .monitor task .markRunning, .monitor task (.exit 1), .monitor task .record,
    .monitor task .decide, .monitor task .markRestarting, .monitor task .send,
    .loop .receive, .loop .checkFlag]

def respawn : List (ManagerEvent Nat) :=
  [.loop .wake, .loop (.spawn .insert), .loop (.spawn (.start none)), .loop (.spawn .register)]

/-- The first crash of the worker, up to the end of its backoff. -/
def crashedOnce : List (ManagerEvent Nat) :=
  bootWorker ++ crash 0 ++ [.loop .record, .loop .weigh, .tick (fromMillis 100)]

def wholeShutdown : List (ManagerEvent Nat) :=
  [.shutdown .setFlag, .shutdown .drain, .shutdown .lockHandles, .shutdown (.mark 0),
    .shutdown .unlockHandles, .shutdown (.abort 0), .shutdown .finish]

namespace ChildManager

/-- Shutdown comes while the respawn sleeps; it wakes up and stays down. -/
theorem final_of_careful_asleep :
    ∃ history final, Run (next oneWorker) (new oneWorker) history final ∧
      final.shutdown = .returned ∧ final.status 0 = some .stopped ∧
      Throughout Final history final := by
  obtain ⟨history, final, run, _, tested⟩ := Run.of_trace (next oneWorker) (new oneWorker)
    (crashedOnce ++ wholeShutdown ++ [.loop .wake])
    (fun history final => Respects CarefulShutdown history ∧ final.shutdown = .returned ∧
      final.status 0 = some .stopped) (by decide)
  obtain ⟨careful, returned, stopped⟩ := of_decide_eq_true tested
  exact ⟨history, final, run, returned, stopped, final_of_careful oneWorker run careful⟩

/-- The respawn has looked at the flag when shutdown begins, starts its process
after the monitors are drained, and its task marks the child running. -/
theorem respawn_outlives_shutdown :
    ∃ history final, Run (next oneWorker) (new oneWorker) history final ∧
      history.map Prod.snd = crashedOnce ++ [.loop .wake] ++ wholeShutdown ++ respawn.tail ++
        [.poll 1, .monitor 1 .markRunning] ∧
      final.shutdown = .returned ∧ final.status 0 = some .running ∧ ¬ Final final := by
  obtain ⟨history, final, run, labels, tested⟩ := Run.of_trace (next oneWorker) (new oneWorker)
    (crashedOnce ++ [.loop .wake] ++ wholeShutdown ++ respawn.tail ++
      [.poll 1, .monitor 1 .markRunning])
    (fun _ final => final.shutdown = .returned ∧ final.status 0 = some .running) (by decide)
  obtain ⟨returned, running⟩ := of_decide_eq_true tested
  exact ⟨history, final, run, labels, returned, running, fun isFinal => isFinal returned 0 running⟩

end ChildManager

end Mneme.Supervisor
