/-
What one step of the subscriber manager can do, and what no step takes back: handles keep
their channels and patterns, sweeps their snapshots, and the past stays.
-/

import Mneme.Library.Cells
import Mneme.Livebus.Subscribers

namespace Mneme.Livebus

open Library

namespace Manager

/-! ### Every step -/

/-- The steps, with what each found and what it leaves. -/
inductive Change (manager : Manager) : Action → Manager → Prop
  | refused (action : Action) : Change manager action manager
  | registered (patterns : List String) :
      Change manager (.register patterns)
        { manager with
          nextId := manager.nextId + 1
          channels := manager.channels ++ [Channel.new]
          handles := manager.handles ++ [{
            id := subscriberId manager.nextId
            patterns
            tx := manager.channels.length
            lag := 0
            delivered := 0 }]
          subscribers :=
            manager.subscribers.insert (subscriberId manager.nextId) manager.handles.length }
  | repatterned {id : String} {patterns : List String} {handle : Nat} {existing : Subscriber}
      (live : manager.subscribers.lookup id = some handle)
      (held : manager.handles[handle]? = some existing) :
      Change manager (.updatePatterns id patterns)
        { manager with
          handles := manager.handles ++ [{ existing with patterns }]
          subscribers := manager.subscribers.insert id manager.handles.length }
  | removed (id : String) :
      Change manager (.unregister id)
        { manager with subscribers := manager.subscribers.erase id }
  | started {event : Event} {order : List String} (ordered : manager.MapOrder order) :
      Change manager (.dispatch event order) (manager.startSweep event false order)
  | passed {number handle : Nat} {sweep : Sweep} {rest : List Nat} {subscriber : Subscriber}
      (found : manager.sweeps[number]? = some sweep) (next : sweep.todo = handle :: rest)
      (idle : sweep.sent = none) (held : manager.handles[handle]? = some subscriber)
      (unwanted : subscriber.matchesTopic sweep.event.topic = false) :
      Change manager (.visit number)
        { manager with sweeps := manager.sweeps.set number { sweep with todo := rest } }
  | tried {number handle : Nat} {sweep : Sweep} {rest : List Nat} {subscriber : Subscriber}
      {channel : Channel} (found : manager.sweeps[number]? = some sweep)
      (next : sweep.todo = handle :: rest) (idle : sweep.sent = none)
      (held : manager.handles[handle]? = some subscriber)
      (wanted : subscriber.matchesTopic sweep.event.topic = true)
      (reached : manager.channels[subscriber.tx]? = some channel) :
      Change manager (.visit number)
        { manager with
          channels := manager.channels.set subscriber.tx
            (channel.trySend { sweep := number, event := sweep.event }).2
          sweeps := manager.sweeps.set number { sweep with
            todo := rest
            sent := some (handle, (channel.trySend { sweep := number, event := sweep.event }).1) }
          attempts := manager.attempts ++ [{
            sweep := number
            event := sweep.event
            channel := subscriber.tx
            queued := channel.queue.length
            result := (channel.trySend { sweep := number, event := sweep.event }).1 }] }
  | accounted {number handle : Nat} {sweep : Sweep} {result : SendResult} {subscriber : Subscriber}
      (found : manager.sweeps[number]? = some sweep) (sent : sweep.sent = some (handle, result))
      (held : manager.handles[handle]? = some subscriber) :
      Change manager (.count number)
        { manager with
          handles := manager.handles.set handle (counted subscriber sweep.guarded result).1
          sweeps := manager.sweeps.set number { sweep with
            sent := none
            toEvict := sweep.toEvict ++ (counted subscriber sweep.guarded result).2 } }
  | dismissed {number : Nat} {now : Int} {sweep : Sweep} {first : String × String}
      {rest : List (String × String)} (found : manager.sweeps[number]? = some sweep)
      (due : sweep.toEvict = first :: rest) :
      Change manager (.evict number now)
        { manager with sweeps := manager.sweeps.set number { sweep with toEvict := rest } }
  | evicted {number handle : Nat} {now : Int} {sweep : Sweep} {id reason : String}
      {rest : List (String × String)} {subscriber : Subscriber}
      (found : manager.sweeps[number]? = some sweep) (due : sweep.toEvict = (id, reason) :: rest)
      (live : manager.subscribers.lookup id = some handle)
      (held : manager.handles[handle]? = some subscriber) :
      Change manager (.evict number now)
        { manager with
          subscribers := manager.subscribers.erase id
          evicted := manager.evicted + 1
          evictions := manager.evictions ++ [subscriber.tx]
          sweeps := manager.sweeps.set number { sweep with
            toEvict := rest
            posting := some (evictionNotice reason id (manager.evicted + 1) now) } }
  | posted {number : Nat} {order : List String} {sweep : Sweep} {event : Event}
      (ordered : manager.MapOrder order) (found : manager.sweeps[number]? = some sweep)
      (waiting : sweep.posting = some event) :
      Change manager (.post number order)
        (({ manager with
          sweeps := manager.sweeps.set number { sweep with
            posting := none
            notice := some manager.sweeps.length } } : Manager).startSweep event true order)
  | drained (channel : Nat) :
      Change manager (.recv channel)
        { manager with channels := manager.channels.modify channel Channel.recv }
  | dropped (channel : Nat) :
      Change manager (.drop channel)
        { manager with channels := manager.channels.modify channel Channel.drop }

theorem change_of_register (manager : Manager) (patterns : List String) :
    Change manager (.register patterns) (manager.register patterns).2 := by
  unfold register
  split
  · exact .refused _
  · exact .registered patterns

theorem change_of_updatePatterns (manager : Manager) (id : String) (patterns : List String) :
    Change manager (.updatePatterns id patterns) (manager.updatePatterns id patterns).2 := by
  unfold updatePatterns
  split
  · exact .refused _
  · split
    · exact .refused _
    · rename_i existing found
      obtain ⟨handle, live, held⟩ := Option.bind_eq_some_iff.mp found
      exact .repatterned live held

variable {manager after : Manager}

variable {number : Nat}

theorem change_of_visit (visited : manager.visit number = some after) :
    Change manager (.visit number) after := by
  unfold visit at visited
  obtain ⟨sweep, found, visited⟩ := Option.bind_eq_some_iff.mp visited
  split at visited
  · rename_i handle rest next idle
    obtain ⟨subscriber, held, visited⟩ := Option.bind_eq_some_iff.mp visited
    split at visited
    · rename_i wanted
      obtain ⟨channel, reached, visited⟩ := Option.bind_eq_some_iff.mp visited
      cases visited
      exact .tried found next idle held wanted reached
    · rename_i unwanted
      cases visited
      exact .passed found next idle held (Bool.not_eq_true _ ▸ unwanted)
  · cases visited

theorem change_of_count (done : manager.count number = some after) :
    Change manager (.count number) after := by
  unfold count at done
  obtain ⟨sweep, found, done⟩ := Option.bind_eq_some_iff.mp done
  obtain ⟨⟨handle, result⟩, sent, done⟩ := Option.bind_eq_some_iff.mp done
  obtain ⟨subscriber, held, done⟩ := Option.bind_eq_some_iff.mp done
  cases done
  exact .accounted found sent held

theorem change_of_evict {now : Int} (done : manager.evict number now = some after) :
    Change manager (.evict number now) after := by
  unfold evict at done
  obtain ⟨sweep, found, done⟩ := Option.bind_eq_some_iff.mp done
  split at done
  · split at done
    · cases done
    · rename_i id reason rest due
      split at done
      · cases done
        exact .dismissed found due
      · rename_i subscriber live
        obtain ⟨handle, live, held⟩ := Option.bind_eq_some_iff.mp live
        cases done
        exact .evicted found due live held
  · cases done

theorem change_of_post {order : List String}
    (ordered : manager.MapOrder order) (done : manager.post number order = some after) :
    Change manager (.post number order) after := by
  unfold post at done
  obtain ⟨sweep, found, done⟩ := Option.bind_eq_some_iff.mp done
  obtain ⟨event, waiting, done⟩ := Option.bind_eq_some_iff.mp done
  cases done
  exact .posted ordered found waiting

theorem change_of_step {action : Action} (taken : manager.step action = some after) :
    Change manager action after := by
  cases action with
  | register patterns =>
      cases taken
      exact change_of_register manager patterns
  | updatePatterns id patterns =>
      cases taken
      exact change_of_updatePatterns manager id patterns
  | unregister id =>
      cases taken
      exact .removed id
  | dispatch event order =>
      simp only [step] at taken
      split at taken
      · rename_i ordered
        cases taken
        exact .started ordered
      · cases taken
  | visit number => exact change_of_visit taken
  | count number => exact change_of_count taken
  | evict number now => exact change_of_evict taken
  | post number order =>
      simp only [step] at taken
      split at taken
      · rename_i ordered
        exact change_of_post ordered taken
      · cases taken
  | recv channel =>
      cases taken
      exact .drained channel
  | drop channel =>
      cases taken
      exact .dropped channel

end Manager

end Mneme.Livebus

namespace Mneme.Livebus

open Library

/-- The same handle with other counters. -/
def Subscriber.SameAs (after before : Subscriber) : Prop :=
  after.id = before.id ∧ after.patterns = before.patterns ∧ after.tx = before.tx

structure Sweep.Continues (after before : Sweep) : Prop where
  event : after.event = before.event
  guarded : after.guarded = before.guarded
  snapshot : after.snapshot = before.snapshot
  overlaps : after.overlaps = before.overlaps
  underWay : after.underWay = true → before.underWay = true

namespace Manager

structure Grows (before after : Manager) : Prop where
  handles : ∀ (handle : Nat) (subscriber : Subscriber), before.handles[handle]? = some subscriber →
    ∃ later : Subscriber, after.handles[handle]? = some later ∧ later.SameAs subscriber
  sweeps : ∀ (number : Nat) (sweep : Sweep), before.sweeps[number]? = some sweep →
    ∃ later : Sweep, after.sweeps[number]? = some later ∧ later.Continues sweep
  channels : ∀ (place : Nat) (channel : Channel), before.channels[place]? = some channel →
    ∃ later : Channel, after.channels[place]? = some later ∧ (channel.closed = true → later.closed = true)
  attempts : before.attempts <+: after.attempts

theorem sameAs_refl (subscriber : Subscriber) : subscriber.SameAs subscriber :=
  ⟨rfl, rfl, rfl⟩

theorem continues_refl (sweep : Sweep) : sweep.Continues sweep :=
  ⟨rfl, rfl, rfl, rfl, id⟩

theorem counted_sameAs (subscriber : Subscriber) (guarded : Bool) (result : SendResult) :
    (counted subscriber guarded result).1.SameAs subscriber := by
  cases result with
  | ok => exact ⟨rfl, rfl, rfl⟩
  | full => exact ⟨rfl, rfl, rfl⟩
  | closed => exact ⟨rfl, rfl, rfl⟩

theorem trySend_closed {channel : Channel} {message : Message} (closed : channel.closed = true) :
    (channel.trySend message).2.closed = true := by
  unfold Channel.trySend
  rw [if_pos closed]
  exact closed

theorem recv_closed (channel : Channel) : channel.recv.closed = channel.closed := by
  unfold Channel.recv
  cases channel.queue with
  | nil => rfl
  | cons message rest => rfl

section Frames

variable {manager : Manager}

theorem handles_kept {more : List Subscriber} (handle : Nat) (subscriber : Subscriber)
    (found : manager.handles[handle]? = some subscriber) :
    ∃ later, (manager.handles ++ more)[handle]? = some later ∧ later.SameAs subscriber := by
  refine ⟨subscriber, ?_, sameAs_refl _⟩
  rw [List.getElem?_append_left (cell_bound found), found]

theorem channels_kept (place : Nat) (channel : Channel)
    (found : manager.channels[place]? = some channel) :
    ∃ later, manager.channels[place]? = some later ∧
      (channel.closed = true → later.closed = true) :=
  ⟨channel, found, id⟩

theorem sweeps_kept (number : Nat) (sweep : Sweep) (found : manager.sweeps[number]? = some sweep) :
    ∃ later, manager.sweeps[number]? = some later ∧ later.Continues sweep :=
  ⟨sweep, found, continues_refl _⟩

theorem sweeps_set {number : Nat} {sweep replaced : Sweep}
    (present : manager.sweeps[number]? = some sweep) (continued : replaced.Continues sweep)
    (other : Nat) (held : Sweep) (found : manager.sweeps[other]? = some held) :
    ∃ later, (manager.sweeps.set number replaced)[other]? = some later ∧ later.Continues held := by
  by_cases here : other = number
  · rw [here] at found ⊢
    rw [present] at found
    cases found
    exact ⟨replaced, set_here ⟨sweep, present⟩, continued⟩
  · exact ⟨held, by rw [set_other here, found], continues_refl _⟩

theorem channels_modify {place : Nat} {change : Channel → Channel}
    (kept : ∀ channel : Channel, channel.closed = true → (change channel).closed = true)
    (other : Nat) (held : Channel) (found : manager.channels[other]? = some held) :
    ∃ later, (manager.channels.modify place change)[other]? = some later ∧
      (held.closed = true → later.closed = true) := by
  rw [List.getElem?_modify, found]
  refine ⟨_, rfl, ?_⟩
  intro closed
  split
  · exact kept held closed
  · exact closed

theorem grows_startSweep (event : Event) (guarded : Bool) (order : List String) :
    Grows manager (manager.startSweep event guarded order) where
  handles := fun _ subscriber found => ⟨subscriber, found, sameAs_refl _⟩
  sweeps := fun _ sweep found => ⟨sweep, append_here found, continues_refl _⟩
  channels := channels_kept
  attempts := List.prefix_refl _

theorem Grows.trans {between after : Manager} (first : Grows manager between)
    (second : Grows between after) : Grows manager after where
  handles := by
    intro handle subscriber found
    obtain ⟨later, held, same⟩ := first.handles handle subscriber found
    obtain ⟨last, held', same'⟩ := second.handles handle later held
    exact ⟨last, held', same'.1.trans same.1, same'.2.1.trans same.2.1, same'.2.2.trans same.2.2⟩
  sweeps := by
    intro number sweep found
    obtain ⟨later, held, continued⟩ := first.sweeps number sweep found
    obtain ⟨last, held', continued'⟩ := second.sweeps number later held
    exact ⟨last, held', continued'.event.trans continued.event,
      continued'.guarded.trans continued.guarded, continued'.snapshot.trans continued.snapshot,
      continued'.overlaps.trans continued.overlaps,
      fun open_ => continued.underWay (continued'.underWay open_)⟩
  channels := by
    intro place channel found
    obtain ⟨later, held, closed⟩ := first.channels place channel found
    obtain ⟨last, held', closed'⟩ := second.channels place later held
    exact ⟨last, held', fun gone => closed' (closed gone)⟩
  attempts := first.attempts.trans second.attempts

end Frames

theorem underWay_of_todo {sweep : Sweep} {handle : Nat} {rest : List Nat}
    (next : sweep.todo = handle :: rest) : sweep.underWay = true := by
  unfold Sweep.underWay
  rw [next]
  rfl

theorem underWay_of_sent {sweep : Sweep} {sent : Nat × SendResult}
    (pending : sweep.sent = some sent) : sweep.underWay = true := by
  unfold Sweep.underWay
  rw [pending]
  exact Bool.or_true _

theorem Change.grows {manager after : Manager} {action : Action}
    (change : Change manager action after) : Grows manager after := by
  have handlesSame : ∀ (handle : Nat) (subscriber : Subscriber),
      manager.handles[handle]? = some subscriber →
      ∃ later : Subscriber, manager.handles[handle]? = some later ∧ later.SameAs subscriber :=
    fun _ subscriber found => ⟨subscriber, found, sameAs_refl _⟩
  cases change with
  | refused => exact ⟨handlesSame, sweeps_kept, channels_kept, List.prefix_refl _⟩
  | registered patterns =>
      exact ⟨handles_kept, sweeps_kept, fun place channel found => ⟨channel, append_here found, id⟩,
        List.prefix_refl _⟩
  | repatterned live held => exact ⟨handles_kept, sweeps_kept, channels_kept, List.prefix_refl _⟩
  | removed id => exact ⟨handlesSame, sweeps_kept, channels_kept, List.prefix_refl _⟩
  | @started event order ordered => exact grows_startSweep event false order
  | passed found next idle held unwanted =>
      exact ⟨handlesSame, sweeps_set found ⟨rfl, rfl, rfl, rfl, fun _ => underWay_of_todo next⟩,
        channels_kept, List.prefix_refl _⟩
  | @tried number handle sweep rest subscriber channel found next idle held wanted reached =>
      refine ⟨handlesSame, sweeps_set found ⟨rfl, rfl, rfl, rfl, fun _ => underWay_of_todo next⟩,
        ?_, List.prefix_append _ _⟩
      intro place other there
      by_cases here : place = subscriber.tx
      · rw [here, reached] at there
        cases there
        rw [here]
        exact ⟨_, set_here ⟨channel, reached⟩, trySend_closed⟩
      · exact ⟨other, by rw [set_other here, there], id⟩
  | @accounted number handle sweep result subscriber found sent held =>
      refine ⟨?_, sweeps_set found ⟨rfl, rfl, rfl, rfl, fun _ => underWay_of_sent sent⟩,
        channels_kept, List.prefix_refl _⟩
      intro other kept there
      by_cases here : other = handle
      · rw [here, held] at there
        cases there
        rw [here]
        exact ⟨_, set_here ⟨subscriber, held⟩, counted_sameAs _ _ _⟩
      · exact ⟨kept, by rw [set_other here, there], sameAs_refl _⟩
  | dismissed found due =>
      exact ⟨handlesSame, sweeps_set found ⟨rfl, rfl, rfl, rfl, id⟩, channels_kept,
        List.prefix_refl _⟩
  | evicted found due live held =>
      exact ⟨handlesSame, sweeps_set found ⟨rfl, rfl, rfl, rfl, id⟩, channels_kept,
        List.prefix_refl _⟩
  | @posted number order sweep event ordered found waiting =>
      have noted : Grows manager { manager with
          sweeps := manager.sweeps.set number { sweep with
            posting := none
            notice := some manager.sweeps.length } } :=
        ⟨handlesSame, sweeps_set found ⟨rfl, rfl, rfl, rfl, id⟩, channels_kept, List.prefix_refl _⟩
      exact noted.trans (grows_startSweep event true order)
  | drained channel =>
      exact ⟨handlesSame, sweeps_kept,
        channels_modify (fun channel closed => by rw [recv_closed, closed]), List.prefix_refl _⟩
  | dropped channel =>
      exact ⟨handlesSame, sweeps_kept, channels_modify (fun channel _ => rfl), List.prefix_refl _⟩

namespace Grows

variable {before after : Manager} (grows : Grows before after)

include grows

theorem handles_length : before.handles.length ≤ after.handles.length := by
  by_contra fewer
  have bound : after.handles.length < before.handles.length := Nat.lt_of_not_le fewer
  obtain ⟨later, held, _⟩ := grows.handles _ _ (List.getElem?_eq_getElem bound)
  exact Nat.lt_irrefl _ (cell_bound held)

theorem channels_length : before.channels.length ≤ after.channels.length := by
  by_contra fewer
  have bound : after.channels.length < before.channels.length := Nat.lt_of_not_le fewer
  obtain ⟨later, held, _⟩ := grows.channels _ _ (List.getElem?_eq_getElem bound)
  exact Nat.lt_irrefl _ (cell_bound held)

/-- An old handle as it was. -/
theorem handle_before {handle : Nat} {later : Subscriber} (old : handle < before.handles.length)
    (held : after.handles[handle]? = some later) :
    ∃ subscriber, before.handles[handle]? = some subscriber ∧ later.SameAs subscriber := by
  have found := List.getElem?_eq_getElem old
  obtain ⟨same, there, kept⟩ := grows.handles _ _ found
  rw [held] at there
  cases there
  exact ⟨_, found, kept⟩

theorem sweep_before {number : Nat} {later : Sweep} (old : number < before.sweeps.length)
    (held : after.sweeps[number]? = some later) :
    ∃ sweep, before.sweeps[number]? = some sweep ∧ later.Continues sweep := by
  have found := List.getElem?_eq_getElem old
  obtain ⟨same, there, kept⟩ := grows.sweeps _ _ found
  rw [held] at there
  cases there
  exact ⟨_, found, kept⟩

end Grows

end Manager

end Mneme.Livebus
