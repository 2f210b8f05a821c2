/-
The delivery discipline of the subscriber manager over whole runs.  Deliveries keep it
however the steps mix; evictions keep it in the runs whose sends go through registered
handles and are counted one after the other.
-/

import Mneme.Livebus.CountedSteps

namespace Mneme.Livebus

open Library Transition

/-- What reached a channel: what its receiver drained, and what waits for it. -/
def Channel.arrived (channel : Channel) : List Message :=
  channel.received ++ channel.queue

namespace Manager

/-- The first sweep was over when the second began. -/
def Before (manager : Manager) (first second : Nat) : Prop :=
  first < second ∧
    ∀ sweep : Sweep, manager.sweeps[second]? = some sweep → first ∉ sweep.overlaps

structure Disciplined (manager : Manager) : Prop where
  once : ∀ (place : Nat) (channel : Channel), manager.channels[place]? = some channel →
    (channel.arrived.map Message.sweep).Nodup
  order : ∀ (place : Nat) (channel : Channel), manager.channels[place]? = some channel →
    channel.arrived.Pairwise (fun first second =>
      ¬ manager.Before second.sweep first.sweep)
  /-- What arrives was dispatched, and matches the patterns of the subscriber. -/
  wanted : ∀ (place : Nat) (channel : Channel), manager.channels[place]? = some channel →
    ∀ message, message ∈ channel.arrived →
      ∃ (sweep : Sweep) (handle : Nat) (subscriber : Subscriber),
        manager.sweeps[message.sweep]? = some sweep ∧ message.event = sweep.event ∧
          handle ∈ sweep.snapshot ∧ manager.handles[handle]? = some subscriber ∧
          subscriber.tx = place ∧ subscriber.matchesTopic sweep.event.topic = true
  /-- What does not arrive found the channel full, or its receiver is gone. -/
  missed : ∀ (number : Nat) (sweep : Sweep), manager.sweeps[number]? = some sweep →
    ∀ handle, handle ∈ sweep.snapshot → handle ∉ sweep.todo → ∀ subscriber : Subscriber,
      manager.handles[handle]? = some subscriber →
      subscriber.matchesTopic sweep.event.topic = true → ∀ channel : Channel,
        manager.channels[subscriber.tx]? = some channel →
        channel.closed = true ∨ { sweep := number, event := sweep.event } ∈ channel.arrived ∨
          ∃ attempt, attempt ∈ manager.attempts ∧ attempt.sweep = number ∧
            attempt.channel = subscriber.tx ∧ attempt.result = .full ∧
            backpressureWindow ≤ attempt.queued
  /-- The lag of a subscriber counts its failures since its last success. -/
  lag : ∀ id handle subscriber, manager.Live id handle subscriber →
    manager.settled subscriber.tx = true →
    subscriber.lag = streak (manager.results subscriber.tx)
  evicted : ∀ place, place ∈ manager.evictions → manager.Evidence place

/-- The event whose dispatch a step begins. -/
def begun (manager : Manager) : Action → Option Event
  | .dispatch event _ => some event
  | .post number _ => (manager.sweeps[number]?).bind Sweep.posting
  | _ => none

/-- Every dispatch of the run took all the subscribers registered then, with the patterns
that they had then. -/
def Covers (history : List (Manager × Action)) (final : Manager) : Prop :=
  ∀ taken, taken ∈ history → ∀ event, taken.1.begun taken.2 = some event →
    ∃ sweep : Sweep, final.sweeps[taken.1.sweeps.length]? = some sweep ∧ sweep.event = event ∧
      ∀ id handle subscriber, taken.1.Live id handle subscriber → handle ∈ sweep.snapshot ∧
        ∃ later : Subscriber, final.handles[handle]? = some later ∧ later.SameAs subscriber

/-! ### Deliveries -/

variable {manager : Manager}

theorem arrived_accepted {place : Nat} {channel : Channel}
    (sound : ChannelSound manager place channel) : channel.arrived <+: manager.accepted place := by
  unfold Channel.arrived
  cases closed : channel.closed with
  | false =>
      rw [sound.held closed]
  | true =>
      obtain ⟨empty, drained⟩ := sound.gone closed
      rw [empty, List.append_nil]
      exact drained

theorem mem_accepted {place : Nat} {message : Message} (member : message ∈ manager.accepted place) :
    ∃ attempt, attempt ∈ manager.attempts ∧ attempt.channel = place ∧
      attempt.message = message := by
  obtain ⟨attempt, kept, same⟩ := List.mem_map.mp member
  obtain ⟨here, _⟩ := List.mem_filter.mp kept
  obtain ⟨member, there⟩ := List.mem_filter.mp here
  exact ⟨attempt, member, of_decide_eq_true there, same⟩

/-- The messages of a channel stand in the order of their attempts. -/
theorem accepted_ordered (sound : Sound manager) (place : Nat) :
    (manager.accepted place).Pairwise (fun first second =>
      first.sweep ≠ second.sweep ∧ manager.Follows first.sweep second.sweep) := by
  unfold accepted attemptsOn
  rw [List.pairwise_map]
  have sublist : ((manager.attempts.filter (fun attempt => attempt.channel = place)).filter
      (fun attempt => attempt.result = .ok)).Sublist manager.attempts :=
    List.filter_sublist.trans List.filter_sublist
  apply List.Pairwise.imp_of_mem _ (sound.ordered.sublist sublist)
  intro first second firstIn secondIn both
  have here := of_decide_eq_true (List.mem_filter.mp (List.mem_filter.mp firstIn).1).2
  have there := of_decide_eq_true (List.mem_filter.mp (List.mem_filter.mp secondIn).1).2
  exact ⟨both.1 (here.trans there.symm), both.2⟩

theorem not_before_of_follows {first second : Nat} (follows : manager.Follows first second) :
    ¬ manager.Before second first := by
  intro before
  rcases follows with below | ⟨sweep, found, overlapped⟩
  · have above := before.1
    omega
  · exact before.2 sweep found overlapped

theorem Sound.missed (sound : Sound manager) {number : Nat} {sweep : Sweep}
    (found : manager.sweeps[number]? = some sweep) {handle : Nat} (member : handle ∈ sweep.snapshot)
    (passed : handle ∉ sweep.todo) {subscriber : Subscriber}
    (held : manager.handles[handle]? = some subscriber)
    (wanted : subscriber.matchesTopic sweep.event.topic = true) {channel : Channel}
    (reached : manager.channels[subscriber.tx]? = some channel) :
    channel.closed = true ∨ { sweep := number, event := sweep.event } ∈ channel.arrived ∨
      ∃ attempt, attempt ∈ manager.attempts ∧ attempt.sweep = number ∧
        attempt.channel = subscriber.tx ∧ attempt.result = .full ∧
        backpressureWindow ≤ attempt.queued := by
  obtain ⟨attempt, made, own, there⟩ :=
    (sound.sweeps number sweep found).tried handle member passed subscriber held wanted
  have known := sound.attempts attempt made
  cases closed : channel.closed with
  | true => exact Or.inl rfl
  | false =>
      refine Or.inr ?_
      cases result : attempt.result with
      | ok =>
          left
          unfold Channel.arrived
          rw [(sound.channels _ channel reached).held closed]
          unfold accepted
          obtain ⟨origin, _, _, found', event, _⟩ := known.origin
          rw [own, found] at found'
          cases found'
          refine List.mem_map.mpr ⟨attempt, ?_, ?_⟩
          · exact List.mem_filter.mpr
              ⟨List.mem_filter.mpr ⟨made, decide_eq_true there⟩, decide_eq_true result⟩
          · unfold Attempt.message
            rw [own, event]
      | full => exact Or.inr ⟨attempt, made, own, there, result, known.full result⟩
      | closed =>
          obtain ⟨gone, there', shut⟩ := known.channel
          rw [there, reached] at there'
          cases there'
          rw [shut result] at closed
          cases closed

theorem disciplined_of_counted (sound : Sound manager) (counted : Counted manager) :
    Disciplined manager where
  once := by
    intro place channel found
    have initial := (arrived_accepted (sound.channels place channel found)).sublist
    apply List.Nodup.sublist (initial.map Message.sweep)
    rw [List.Nodup, List.pairwise_map]
    apply (accepted_ordered sound place).imp
    intro first second both
    exact both.1
  order := by
    intro place channel found
    have initial := (arrived_accepted (sound.channels place channel found)).sublist
    apply ((accepted_ordered sound place).sublist initial).imp
    intro first second both
    exact not_before_of_follows both.2
  wanted := by
    intro place channel found message member
    obtain ⟨attempt, made, there, same⟩ :=
      mem_accepted ((arrived_accepted (sound.channels place channel found)).subset member)
    obtain ⟨sweep, handle, subscriber, rest⟩ := (sound.attempts attempt made).origin
    rw [← same, ← there]
    exact ⟨sweep, handle, subscriber, rest⟩
  missed := fun _ _ found _ member passed _ held wanted _ reached =>
    sound.missed found member passed held wanted reached
  lag := fun id handle subscriber live settled =>
    (counted.lags id handle subscriber live).settled settled
  evicted := counted.evictions

/-! ### Runs -/

variable {history : List (Manager × Action)}

theorem disciplined_throughout {final : Manager} (run : Run step new history final)
    (respected : Respects (fun manager action => manager.careful action = true) history) :
    Throughout Disciplined history final := by
  have preserved : ∀ (manager : Manager) (action : Action) (after : Manager),
      Sound manager ∧ Counted manager → manager.careful action = true →
      manager.step action = some after → Sound after ∧ Counted after := by
    intro manager action after both careful taken
    have change := change_of_step taken
    exact ⟨both.1.step change, both.2.step both.1 careful change⟩
  have kept := run.throughout_of_respects ⟨Sound.new, Counted.new⟩ preserved respected
  exact ⟨fun taken member => disciplined_of_counted (kept.1 taken member).1 (kept.1 taken member).2,
    disciplined_of_counted kept.2.1 kept.2.2⟩

theorem begun_start (manager : Manager) (event : Event) (guarded : Bool) {order : List String}
    (ordered : manager.MapOrder order) :
    ∃ sweep : Sweep,
      (manager.startSweep event guarded order).sweeps[manager.sweeps.length]? = some sweep ∧
      sweep.event = event ∧
      ∀ id handle, manager.subscribers.lookup id = some handle → handle ∈ sweep.snapshot := by
  refine ⟨_, append_last, rfl, ?_⟩
  intro id handle live
  refine List.mem_filterMap.mpr ⟨id, ?_, live⟩
  rw [← List.mem_toFinset, ordered.2, Finmap.mem_keys]
  exact Finmap.mem_of_lookup_eq_some live

/-- The sweep that a dispatch begins. -/
theorem begun_step {manager after : Manager} {action : Action} {event : Event}
    (begins : manager.begun action = some event) (taken : manager.step action = some after) :
    ∃ sweep : Sweep, after.sweeps[manager.sweeps.length]? = some sweep ∧ sweep.event = event ∧
      ∀ id handle, manager.subscribers.lookup id = some handle → handle ∈ sweep.snapshot := by
  cases action with
  | dispatch dispatched order =>
      cases begins
      simp only [step] at taken
      split at taken
      · rename_i ordered
        cases taken
        exact begun_start manager event false ordered
      · cases taken
  | post number order =>
      simp only [step] at taken
      split at taken
      · rename_i ordered
        obtain ⟨sweep, found, waiting⟩ := Option.bind_eq_some_iff.mp begins
        unfold post at taken
        rw [found, Option.bind_eq_bind, Option.bind_some, waiting] at taken
        cases taken
        have new := begun_start { manager with
          sweeps := manager.sweeps.set number { sweep with
            posting := none
            notice := some manager.sweeps.length } } event true ordered
        simp only [List.length_set] at new
        exact new
      · cases taken
  | register patterns => cases begins
  | updatePatterns id patterns => cases begins
  | unregister id => cases begins
  | visit number => cases begins
  | count number => cases begins
  | evict number now => cases begins
  | recv channel => cases begins
  | drop channel => cases begins

theorem covers_run {final : Manager} (run : Run step new history final) : Covers history final := by
  induction run with
  | start =>
      intro taken impossible
      cases impossible
  | @step history state after label _ taken ih =>
      have grows := (change_of_step taken).grows
      intro each member event begins
      rcases List.mem_append.mp member with earlier | last
      · obtain ⟨sweep, found, same, all⟩ := ih each earlier event begins
        obtain ⟨later, found', continued⟩ := grows.sweeps _ sweep found
        refine ⟨later, found', continued.event.trans same, ?_⟩
        intro id handle subscriber live
        obtain ⟨inside, kept, held, sameAs⟩ := all id handle subscriber live
        obtain ⟨kept', held', sameAs'⟩ := grows.handles handle kept held
        rw [continued.snapshot]
        exact ⟨inside, kept', held', sameAs'.1.trans sameAs.1, sameAs'.2.1.trans sameAs.2.1,
          sameAs'.2.2.trans sameAs.2.2⟩
      · rw [List.mem_singleton] at last
        rw [last] at begins ⊢
        obtain ⟨sweep, found, same, all⟩ := begun_step begins taken
        refine ⟨sweep, found, same, ?_⟩
        intro id handle subscriber live
        exact ⟨all id handle live.1, grows.handles handle subscriber live.2⟩

theorem careful_run_disciplined {history : List (Manager × Action)} {final : Manager}
    (run : Run step new history final)
    (respected : Respects (fun manager action => manager.careful action = true) history) :
    Throughout Disciplined history final ∧ Covers history final :=
  ⟨disciplined_throughout run respected, covers_run run⟩

/-! ### Two runs -/

def notice : Event :=
  { topic := "a", timestamp := 0, sessionId := none, projectHash := none, payload := .null }

/-- One dispatch to one subscriber. -/
def delivery (number : Nat) : List Action :=
  [.dispatch notice ["sub-1"], .visit number, .count number]

/-- The patterns change between two dispatches. -/
def changing : List Action :=
  [.register ["#"]] ++ delivery 0 ++ [.updatePatterns "sub-1" ["a"], .recv 0] ++ delivery 1 ++
    [.updatePatterns "sub-1" ["b"]] ++ [.dispatch notice ["sub-1"], .visit 2]

theorem changing_disciplined :
    ∃ history final, Run step new history final ∧ history.map Prod.snd = changing ∧
      Throughout Disciplined history final ∧ Covers history final := by
  have traced := Run.of_trace step new changing
    (fun history _ => decide (Respects (fun manager action => manager.careful action = true) history))
    (by decide +kernel)
  obtain ⟨history, final, run, labels, careful⟩ := traced
  have respected := of_decide_eq_true careful
  exact ⟨history, final, run, labels, careful_run_disciplined run respected⟩

/-- The patterns change while a dispatch holds the old handle: the next dispatch reaches the
subscriber, and the old handle still evicts it. -/
def swapped : List Action :=
  [.register ["#"]] ++ (List.range 99).flatMap delivery ++
    [.dispatch notice ["sub-1"], .updatePatterns "sub-1" ["#"], .recv 0] ++ delivery 100 ++
    [.visit 99, .count 99, .evict 99 0]

theorem swapped_evicted :
    ∃ history final, Run step new history final ∧ history.map Prod.snd = swapped ∧
      final.evictions = [0] ∧ ¬ Disciplined final := by
  obtain ⟨history, final, run, labels, tested⟩ :=
    Run.of_trace step new swapped
      (fun _ final => decide (final.evictions = [0]) &&
        (final.channels[0]?).all (fun channel => !channel.closed) &&
        (final.results 0).inits.all (fun front => streak front < backpressureWindow))
      (by decide +kernel)
  simp only [Bool.and_eq_true, decide_eq_true_iff] at tested
  obtain ⟨⟨evicted, served⟩, short⟩ := tested
  refine ⟨history, final, run, labels, evicted, ?_⟩
  intro disciplined
  rcases disciplined.evicted 0 (by rw [evicted]; exact .head _) with
    ⟨channel, found, closed⟩ | ⟨front, initial, long⟩
  · rw [found, Option.all_some, closed] at served
    cases served
  · have bound := (List.all_eq_true.mp short) front (List.mem_inits _ _ |>.mpr initial)
    rw [decide_eq_true_iff] at bound
    omega

end Manager

end Mneme.Livebus
