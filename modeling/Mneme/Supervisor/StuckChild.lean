/-
When a child that says restarting is being restarted.

The status is in the handle, the request in the channel or in the hands of the
restart loop.  They agree in every run in which no step gives up a restart:
above all, in which no respawn fails to start its process.
-/

import Mneme.Supervisor.ShutdownFinal

namespace Mneme.Supervisor

open Library Transition

namespace ChildManager

variable {Name : Type} [DecidableEq Name]

/-- The restarts of a child that are under way: its request is about to be
sent, queued or in the loop's hands, up to the task of the new process. -/
def attended (manager : ChildManager Name) (name : Name) : Nat :=
  manager.placed (fun entry => entry.1 = name && attends entry.2)

def NoneStuck (manager : ChildManager Name) : Prop :=
  ∀ name, manager.status name = some .restarting → 0 < manager.attended name

/-- The step does not give up the restart of a child that says restarting. -/
def KeepsRestart (manager : ChildManager Name) (event : ManagerEvent Name) : Prop :=
  (manager.givesUp event).all (fun name => manager.status name ≠ some .restarting) = true

instance (manager : ChildManager Name) (event : ManagerEvent Name) :
    Decidable (manager.KeepsRestart event) :=
  inferInstanceAs (Decidable (_ = true))

variable {config : SupervisorConfig Name} {before after : ChildManager Name}

variable {source : Place} {child : Name}

variable {target : Option Place}

theorem Shifts.attended (shifts : Shifts before after child source target) (name : Name) :
    after.attended name + tally (fun entry => entry.1 = name && attends entry.2)
        (some (child, source)) =
      before.attended name + tally (fun entry => entry.1 = name && attends entry.2)
        (target.map (fun place => (child, place))) :=
  shifts _

theorem attended_elsewhere {child name : Name} (different : child ≠ name) (place : Place) :
    tally (fun entry => entry.1 = name && attends entry.2) (some (child, place)) = 0 := by
  simp only [tally, different, decide_false, Bool.false_and, Bool.false_eq_true, if_false]

/-- A child that moves on is restarting afterwards only if its restart is
under way at its new place. -/
theorem attended_of_moves (shifts : Shifts before after child source target)
    (fate : Fate before.shutdownFlag source target (before.status child) (after.status child))
    (held : before.status child = some .restarting → 0 < before.attended child)
    (restarting : after.status child = some .restarting) : 0 < after.attended child := by
  have shift := shifts.attended child
  generalize before.status child = earlier at fate held
  generalize after.status child = later at fate restarting
  cases fate with
  | runs | stops | refused => cases restarting
  | takenUp =>
      simp only [tally, attends, Option.map_some, Bool.and_false, Bool.false_eq_true,
        if_false] at shift
      have positive := held restarting
      omega
  | marks | started =>
      simp only [tally, attends, Option.map_some, decide_true, Bool.and_self, Bool.and_false,
        Bool.false_eq_true, if_true, if_false] at shift
      omega
  | sends | arrives | granted | wakes | respawned =>
      simp only [tally, attends, Option.map_some, decide_true, Bool.and_self, if_true] at shift
      have positive := held restarting
      omega

variable {event : ManagerEvent Name}

theorem Turn.noneStuck (turn : Turn before event after)
    (held : before.NoneStuck) (keeps : before.KeepsRestart event) : after.NoneStuck := by
  intro name restarting
  cases turn with
  | still same status =>
      rw [status] at restarting
      exact Nat.lt_of_lt_of_eq (held name restarting) (same _).symm
  | appears child same status others =>
      by_cases self : name = child
      · rw [self, status] at restarting
        cases restarting
      · rw [others name self] at restarting
        exact Nat.lt_of_lt_of_eq (held name restarting) (same _).symm
  | silenced child same status others =>
      by_cases self : name = child
      · rw [self] at restarting
        exact absurd restarting status.2.1
      · rw [others name self] at restarting
        exact Nat.lt_of_lt_of_eq (held name restarting) (same _).symm
  | bootEnds fewer kept status =>
      rw [status] at restarting
      have same : after.attended name = before.attended name :=
        kept _ (fun _ => Bool.and_false _) (fun _ => Bool.and_false _)
      rw [same]
      exact held name restarting
  | lost child source shifts status named =>
      rw [status] at restarting
      have positive := held name restarting
      have shift := shifts.attended name
      rw [Option.map_none, tally] at shift
      by_cases self : child = name
      · subst self
        cases attended : attends source with
        | true =>
            have given := named attended restarting
            unfold KeepsRestart at keeps
            rw [given, Option.all_some, restarting] at keeps
            simp at keeps
        | false =>
            simp only [tally, attended, Bool.and_false, Bool.false_eq_true, if_false] at shift
            omega
      · rw [attended_elsewhere self] at shift
        omega
  | moves child source target shifts fate others =>
      by_cases self : name = child
      · subst self
        exact attended_of_moves shifts fate (held name) restarting
      · rw [others name self] at restarting
        have positive := held name restarting
        have shift := shifts.attended name
        have different : child ≠ name := fun same => self same.symm
        rw [attended_elsewhere different] at shift
        omega

omit [DecidableEq Name] in
/-- The restart loop lets go of the child in its hands. -/
theorem shifts_idle (leaves : before.loop.place = some (child, source)) :
    Shifts before { before with loop := .idle } child source none := by
  intro test
  have exchanged := placed_loop before .idle test
  rw [leaves] at exchanged
  exact exchanged

omit [DecidableEq Name] in
theorem place_of_filtered {place : Option (Name × Place)} {name : Name}
    (filtered : (place.filter (fun place => attends place.2)).map Prod.fst = some name) :
    ∃ source, place = some (name, source) := by
  obtain ⟨⟨child, source⟩, kept, same⟩ := Option.map_eq_some_iff.mp filtered
  cases same
  exact ⟨source, (Option.filter_eq_some_iff.mp kept).1⟩

/-- What is given up is lost, and the child's status stays what it is. -/
theorem Step.givesUp (step : Step config before event after)
    {name : Name} (given : before.givesUp event = some name) :
    (∃ source, Shifts before after name source none) ∧
      after.status name = before.status name := by
  cases step with
  | @giveWay id task found kept =>
      simp only [ChildManager.givesUp, found, kept, Bool.false_eq_true, if_false,
        reduceCtorEq] at given
  | @giveUp id task found live aborted =>
      simp only [ChildManager.givesUp, found, aborted, if_true] at given
      obtain ⟨source, leaves⟩ := place_of_filtered given
      exact ⟨⟨source, shifts_setTask (fun _ => rfl) found leaves rfl⟩, rfl⟩
  | @ignore request phase flag =>
      simp only [ChildManager.givesUp, flag, if_true, phase, LoopPhase.place, Option.map_some,
        Option.some.injEq] at given
      subst given
      refine ⟨⟨.received, shifts_idle ?_⟩, rfl⟩
      rw [phase]
      rfl
  | check phase flag =>
      simp only [ChildManager.givesUp, flag, Bool.false_eq_true, if_false, reduceCtorEq] at given
  | @stayDown spec grant phase flag =>
      simp only [ChildManager.givesUp, flag, if_true, phase, LoopPhase.place, Option.map_some,
        Option.some.injEq] at given
      subst given
      refine ⟨⟨.sleeping, shifts_idle ?_⟩, rfl⟩
      rw [phase]
      rfl
  | wake phase flag =>
      simp only [ChildManager.givesUp, flag, Bool.false_eq_true, if_false, reduceCtorEq] at given
  | @loopFailed spec grant failure phase =>
      simp only [ChildManager.givesUp, phase, LoopPhase.place, Option.map_some,
        Option.some.injEq] at given
      subst given
      refine ⟨⟨.respawning, shifts_idle ?_⟩, rfl⟩
      rw [phase]
      rfl
  | @abort tasks id phase =>
      simp only [ChildManager.givesUp] at given
      unfold ChildManager.abort
      cases found : before.tasks[id]? with
      | none =>
          rw [found] at given
          cases given
      | some task =>
          simp only [found] at given ⊢
          by_cases polling : task.polling = true
          · rw [if_pos polling] at given
            cases given
          · rw [if_neg polling] at given ⊢
            obtain ⟨source, leaves⟩ := place_of_filtered given
            have live : task.phase.live = true := by
              cases now : task.phase with
              | ended | dropped =>
                  unfold MonitorTask.place at leaves
                  rw [now] at leaves
                  cases leaves
              | _ => rfl
            rw [if_pos live]
            exact ⟨⟨source, shifts_setTask (fun _ => rfl) found leaves rfl⟩, rfl⟩
  | _ => cases given

/-- Giving up the restart of a child that says restarting leaves it stuck. -/
theorem keeps_of_noneStuck (holds : Consistent config before)
    (taken : next config before event = some after) (noneStuck : after.NoneStuck) :
    before.KeepsRestart event := by
  unfold KeepsRestart
  cases given : before.givesUp event with
  | none => rfl
  | some name =>
      rw [Option.all_some, decide_eq_true_iff]
      intro restarting
      obtain ⟨⟨source, shifts⟩, status⟩ := (step_of_next taken).givesUp given
      have alone := holds.alone name
      have shift := shifts (fun entry => entry.1 = name)
      simp only [tally, Option.map_none, decide_true, if_true] at shift
      have fewer : after.attended name ≤ after.copies name :=
        placed_mono (fun entry both => (Bool.and_eq_true_iff.mp both).1)
      have positive := noneStuck name (status.trans restarting)
      unfold copies at alone fewer
      omega

structure Unstuck (config : SupervisorConfig Name) (manager : ChildManager Name) : Prop where
  consistent : Consistent config manager
  noneStuck : manager.NoneStuck

theorem unstuck_new (config : SupervisorConfig Name) : Unstuck config (new config) :=
  ⟨consistent_new config, fun _ impossible => nomatch impossible⟩

/-- In a run, every child that says restarting is being restarted exactly when
no step gives up such a restart. -/
theorem noneStuck_iff (config : SupervisorConfig Name)
    {history : List (ChildManager Name × ManagerEvent Name)} {final : ChildManager Name}
    (run : Run (next config) (new config) history final) :
    Throughout NoneStuck history final ↔ Respects KeepsRestart history := by
  apply run.throughout_iff_respects (unstuck_new config)
  · intro manager unstuck
    exact unstuck.noneStuck
  · intro manager event after unstuck keeps taken
    exact ⟨unstuck.consistent.next taken,
      (unstuck.consistent.turn taken).noneStuck unstuck.noneStuck keeps⟩
  · intro manager event after unstuck taken noneStuck
    exact keeps_of_noneStuck unstuck.consistent taken noneStuck

/-- A crash and a respawn that starts its process. -/
theorem noneStuck_iff_respawned :
    ∃ history final, Run (next oneWorker) (new oneWorker) history final ∧
      final.status 0 = some .running ∧ Throughout NoneStuck history final := by
  obtain ⟨history, final, run, _, tested⟩ := Run.of_trace (next oneWorker) (new oneWorker)
    (crashedOnce ++ respawn ++ [.poll 1, .monitor 1 .markRunning])
    (fun history final => Respects KeepsRestart history ∧ final.status 0 = some .running)
    (by decide)
  obtain ⟨keeps, running⟩ := of_decide_eq_true tested
  exact ⟨history, final, run, running, (noneStuck_iff oneWorker run).mpr keeps⟩

/-- The respawn fails to start its process: no request is left, and the child
says restarting for good. -/
theorem failed_respawn_is_stuck :
    ∃ history final, Run (next oneWorker) (new oneWorker) history final ∧
      history.map Prod.snd = crashedOnce ++ [.loop .wake, .loop (.spawn .insert),
        .loop (.spawn (.start (some .other)))] ∧
      final.status 0 = some .restarting ∧ final.copies 0 = 0 ∧ ¬ NoneStuck final := by
  obtain ⟨history, final, run, labels, tested⟩ := Run.of_trace (next oneWorker) (new oneWorker)
    (crashedOnce ++ [.loop .wake, .loop (.spawn .insert), .loop (.spawn (.start (some .other)))])
    (fun _ final => final.status 0 = some .restarting ∧ final.copies 0 = 0 ∧
      final.attended 0 = 0) (by decide)
  obtain ⟨restarting, none, unattended⟩ := of_decide_eq_true tested
  refine ⟨history, final, run, labels, restarting, none, ?_⟩
  intro noneStuck
  exact absurd (noneStuck 0 restarting) (by rw [unattended]; exact Nat.lt_irrefl 0)

end ChildManager

end Mneme.Supervisor
