/-
What holds of the channels however the steps mix: a channel holds what was accepted for
it, in the order in which it was sent, and that order is the order of the dispatches.
-/

import Mneme.Livebus.SubscriberFacts

namespace Mneme.Livebus

open Library

def Attempt.message (attempt : Attempt) : Message :=
  { sweep := attempt.sweep, event := attempt.event }

namespace Manager

/-- The attempts on one channel. -/
def attemptsOn (manager : Manager) (place : Nat) : List Attempt :=
  manager.attempts.filter (fun attempt => attempt.channel = place)

def accepted (manager : Manager) (place : Nat) : List Message :=
  ((manager.attemptsOn place).filter (fun attempt => attempt.result = .ok)).map Attempt.message

structure AttemptSound (manager : Manager) (attempt : Attempt) : Prop where
  origin : ∃ (sweep : Sweep) (handle : Nat) (subscriber : Subscriber),
    manager.sweeps[attempt.sweep]? = some sweep ∧ attempt.event = sweep.event ∧
      handle ∈ sweep.snapshot ∧ manager.handles[handle]? = some subscriber ∧
      subscriber.tx = attempt.channel ∧ subscriber.matchesTopic sweep.event.topic = true
  channel : ∃ channel : Channel, manager.channels[attempt.channel]? = some channel ∧
    (attempt.result = .closed → channel.closed = true)
  accepted : attempt.result = .ok → attempt.queued < backpressureWindow
  full : attempt.result = .full → backpressureWindow ≤ attempt.queued

/-- The first of two sweeps is not behind the second, unless the second was under way when
the first began. -/
def Follows (manager : Manager) (first second : Nat) : Prop :=
  first ≤ second ∨ ∃ sweep : Sweep, manager.sweeps[first]? = some sweep ∧ second ∈ sweep.overlaps

def InOrder (manager : Manager) (first second : Attempt) : Prop :=
  (first.channel = second.channel → first.sweep ≠ second.sweep) ∧
    manager.Follows first.sweep second.sweep

structure ChannelSound (manager : Manager) (place : Nat) (channel : Channel) : Prop where
  held : channel.closed = false → channel.received ++ channel.queue = manager.accepted place
  gone : channel.closed = true → channel.queue = [] ∧ channel.received <+: manager.accepted place

structure Sound (manager : Manager) : Prop where
  registered : Registered manager
  sweeps : SweepsSound manager
  attempts : ∀ attempt, attempt ∈ manager.attempts → AttemptSound manager attempt
  ordered : manager.attempts.Pairwise manager.InOrder
  channels : ∀ (place : Nat) (channel : Channel), manager.channels[place]? = some channel →
    ChannelSound manager place channel

variable {manager : Manager}

theorem Sound.fresh (sound : Sound manager) (attempt : Attempt)
    (member : attempt ∈ manager.attempts) : attempt.sweep < manager.sweeps.length := by
  obtain ⟨sweep, _, _, found, _⟩ := (sound.attempts attempt member).origin
  exact cell_bound found

theorem Sound.new : Sound new where
  registered := Registered.new
  sweeps := fun number sweep impossible => by cases impossible
  attempts := fun attempt impossible => by cases impossible
  ordered := .nil
  channels := fun place channel impossible => by cases impossible

/-! ### One send -/

theorem trySend_result (channel : Channel) (message : Message) :
    ((channel.trySend message).1 = .closed → channel.closed = true) ∧
      ((channel.trySend message).1 = .ok →
        channel.queue.length < backpressureWindow) ∧
      ((channel.trySend message).1 = .full → backpressureWindow ≤ channel.queue.length) := by
  unfold Channel.trySend
  by_cases closed : channel.closed = true
  · rw [if_pos closed]
    exact ⟨fun _ => closed, fun impossible => (by cases impossible), fun impossible => (by cases impossible)⟩
  · rw [if_neg closed]
    by_cases full : backpressureWindow ≤ channel.queue.length
    · rw [if_pos full]
      exact ⟨fun impossible => (by cases impossible), fun impossible => (by cases impossible), fun _ => full⟩
    · rw [if_neg full]
      exact ⟨fun impossible => (by cases impossible), fun _ => Nat.lt_of_not_le full,
        fun impossible => (by cases impossible)⟩

/-- What a send leaves in the channel. -/
theorem trySend_contents (channel : Channel) (message : Message) :
    (channel.trySend message).2.closed = channel.closed ∧
      (channel.trySend message).2.received = channel.received ∧
      (channel.trySend message).2.queue =
        channel.queue ++ (if (channel.trySend message).1 = .ok then [message] else []) := by
  unfold Channel.trySend
  by_cases closed : channel.closed = true
  · rw [if_pos closed]
    exact ⟨rfl, rfl, (List.append_nil _).symm⟩
  · rw [if_neg closed]
    by_cases full : backpressureWindow ≤ channel.queue.length
    · rw [if_pos full]
      exact ⟨rfl, rfl, (List.append_nil _).symm⟩
    · rw [if_neg full]
      exact ⟨rfl, rfl, rfl⟩

/-! ### Attempts -/

section Carry

variable {before after : Manager}

theorem AttemptSound.carry {attempt : Attempt} (sound : AttemptSound before attempt)
    (grows : Grows before after) : AttemptSound after attempt where
  origin := by
    obtain ⟨sweep, handle, subscriber, found, event, member, held, there, wanted⟩ := sound.origin
    obtain ⟨later, found', continued⟩ := grows.sweeps _ _ found
    obtain ⟨kept, held', same⟩ := grows.handles _ _ held
    refine ⟨later, handle, kept, found', by rw [event, continued.event], ?_, held', ?_, ?_⟩
    · rw [continued.snapshot]
      exact member
    · rw [same.2.2, there]
    · rw [same.matchesTopic, continued.event]
      exact wanted
  channel := by
    obtain ⟨channel, found, closed⟩ := sound.channel
    obtain ⟨later, found', kept⟩ := grows.channels _ _ found
    exact ⟨later, found', fun result => kept (closed result)⟩
  accepted := sound.accepted
  full := sound.full

theorem Follows.carry {first second : Nat} (follows : before.Follows first second)
    (grows : Grows before after) : after.Follows first second := by
  rcases follows with below | ⟨sweep, found, overlapped⟩
  · exact Or.inl below
  · obtain ⟨later, found', continued⟩ := grows.sweeps _ _ found
    refine Or.inr ⟨later, found', ?_⟩
    rw [continued.overlaps]
    exact overlapped

theorem inOrder_carry (ordered : before.attempts.Pairwise before.InOrder)
    (grows : Grows before after) : before.attempts.Pairwise after.InOrder :=
  ordered.imp (fun both => ⟨both.1, both.2.carry grows⟩)

theorem accepted_same (attempts : after.attempts = before.attempts) (place : Nat) :
    after.accepted place = before.accepted place := by
  unfold accepted attemptsOn
  rw [attempts]

theorem ChannelSound.same {place : Nat} {channel : Channel}
    (sound : ChannelSound before place channel) (attempts : after.attempts = before.attempts) :
    ChannelSound after place channel where
  held := fun closed => (sound.held closed).trans (accepted_same attempts place).symm
  gone := fun closed => by
    rw [accepted_same attempts place]
    exact sound.gone closed

/-- A step that tries no channel and changes none. -/
theorem Sound.quiet (sound : Sound before) (grows : Grows before after)
    (registered : Registered after) (sweeps : SweepsSound after)
    (attempts : after.attempts = before.attempts) (channels : after.channels = before.channels) :
    Sound after where
  registered := registered
  sweeps := sweeps
  attempts := by
    intro attempt member
    rw [attempts] at member
    exact (sound.attempts attempt member).carry grows
  ordered := by
    rw [attempts]
    exact inOrder_carry sound.ordered grows
  channels := by
    intro place channel found
    rw [channels] at found
    exact (sound.channels place channel found).same attempts

/-- A step of a receiver. -/
theorem Sound.receiver {change : Channel → Channel} {manager : Manager} {place : Nat}
    (sound : Sound manager)
    (grows : Grows manager { manager with channels := manager.channels.modify place change })
    (registered :
      Registered { manager with channels := manager.channels.modify place change })
    (sweeps : SweepsSound { manager with channels := manager.channels.modify place change })
    (changed : ∀ channel : Channel, ChannelSound manager place channel →
      ChannelSound manager place (change channel)) :
    Sound { manager with channels := manager.channels.modify place change } where
  registered := registered
  sweeps := sweeps
  attempts := fun attempt member => (sound.attempts attempt member).carry grows
  ordered := by
    have kept := inOrder_carry sound.ordered grows
    exact kept
  channels := by
    intro other channel found
    obtain ⟨old, was, same⟩ := modify_cases found
    have here := sound.channels other old was
    by_cases chosen : other = place
    · rw [if_pos chosen] at same
      rw [same]
      rw [chosen] at here ⊢
      exact (changed old here).same rfl
    · rw [if_neg chosen] at same
      rw [same]
      exact here.same rfl

end Carry

variable {channel : Channel}

variable {place : Nat}

theorem ChannelSound.recv
    (sound : ChannelSound manager place channel) : ChannelSound manager place channel.recv := by
  unfold Channel.recv
  cases waiting : channel.queue with
  | nil => exact sound
  | cons message rest =>
      constructor
      · intro closed
        rw [← sound.held closed, waiting, List.append_assoc]
        rfl
      · intro closed
        rw [(sound.gone closed).1] at waiting
        cases waiting

theorem ChannelSound.drop
    (sound : ChannelSound manager place channel) : ChannelSound manager place channel.drop := by
  constructor
  · intro impossible
    cases impossible
  · intro _
    refine ⟨rfl, ?_⟩
    change channel.received <+: _
    cases closed : channel.closed with
    | true => exact (sound.gone closed).2
    | false =>
        rw [← sound.held closed]
        exact List.prefix_append _ _

/-! ### Every step -/

/-- The attempts on a channel after one more attempt. -/
theorem attemptsOn_append (manager : Manager) (attempt : Attempt) (after : Manager)
    (attempts : after.attempts = manager.attempts ++ [attempt]) (place : Nat) :
    after.attemptsOn place =
      manager.attemptsOn place ++ (if attempt.channel = place then [attempt] else []) := by
  unfold attemptsOn
  rw [attempts, List.filter_append, List.filter_singleton]
  by_cases here : attempt.channel = place
  · rw [if_pos here, decide_eq_true here, cond_true]
  · rw [if_neg here, decide_eq_false here, cond_false]

theorem accepted_append (manager : Manager) (attempt : Attempt) (after : Manager)
    (attempts : after.attempts = manager.attempts ++ [attempt]) (place : Nat) :
    after.accepted place = manager.accepted place ++
      (if attempt.channel = place ∧ attempt.result = .ok then [attempt.message] else []) := by
  unfold accepted
  rw [attemptsOn_append manager attempt after attempts, List.filter_append, List.map_append]
  congr 1
  by_cases here : attempt.channel = place
  · by_cases ok : attempt.result = .ok
    · rw [if_pos here, if_pos ⟨here, ok⟩, List.filter_singleton, decide_eq_true ok]
      rfl
    · rw [if_pos here, if_neg (fun both => ok both.2), List.filter_singleton, decide_eq_false ok]
      rfl
  · rw [if_neg here, if_neg (fun both => here both.1)]
    rfl

variable {manager after : Manager}

variable {attempt : Attempt}

/-- A channel after a send to it. -/
theorem ChannelSound.sent (sound : ChannelSound manager place channel)
    (attempts : after.attempts = manager.attempts ++ [attempt]) (here : attempt.channel = place)
    (result : attempt.result = (channel.trySend attempt.message).1) :
    ChannelSound after place (channel.trySend attempt.message).2 := by
  obtain ⟨closedSame, received, queue⟩ := trySend_contents channel attempt.message
  rw [← result] at queue
  constructor
  · intro open_
    rw [closedSame] at open_
    rw [received, queue, ← List.append_assoc, sound.held open_,
      accepted_append manager attempt after attempts]
    by_cases ok : attempt.result = .ok
    · rw [if_pos ok, if_pos ⟨here, ok⟩]
    · rw [if_neg ok, if_neg (fun both => ok both.2)]
  · intro closed
    rw [closedSame] at closed
    have refused : attempt.result ≠ .ok := by
      rw [result]
      unfold Channel.trySend
      rw [if_pos closed]
      exact fun impossible => by cases impossible
    rw [received, queue, accepted_append manager attempt after attempts, if_neg refused,
      if_neg (fun both => refused both.2), List.append_nil, List.append_nil]
    exact sound.gone closed

theorem ChannelSound.elsewhere (sound : ChannelSound manager place channel)
    (attempts : after.attempts = manager.attempts ++ [attempt])
    (apart : attempt.channel ≠ place) : ChannelSound after place channel := by
  have same : after.accepted place = manager.accepted place := by
    rw [accepted_append manager attempt after attempts, if_neg (fun both => apart both.1),
      List.append_nil]
  constructor
  · intro open_
    rw [same]
    exact sound.held open_
  · intro closed
    rw [same]
    exact sound.gone closed

variable {subscriber : Subscriber}

variable {handle number : Nat}

/-- A sweep's next attempt comes after those made already. -/
theorem Sound.attempted (sound : Sound manager) {sweep : Sweep} {rest : List Nat}
    (found : manager.sweeps[number]? = some sweep) (next : sweep.todo = handle :: rest)
    (held : manager.handles[handle]? = some subscriber) (earlier : Attempt)
    (member : earlier ∈ manager.attempts) :
    (earlier.channel = subscriber.tx → earlier.sweep ≠ number) ∧
      manager.Follows earlier.sweep number := by
  have here := sound.sweeps number sweep found
  constructor
  · intro there own
    exact here.untried earlier member own handle (by rw [next]; exact .head _) subscriber held
      there.symm
  · by_cases below : earlier.sweep ≤ number
    · exact Or.inl below
    · obtain ⟨later, _, _, found', _⟩ := (sound.attempts earlier member).origin
      refine Or.inr ⟨later, found', ?_⟩
      exact (sound.sweeps _ later found').overlapped number sweep (Nat.lt_of_not_le below) found
        (underWay_of_todo next)

theorem Sound.tried (sound : Sound manager) {sweep : Sweep} {rest : List Nat}
    (found : manager.sweeps[number]? = some sweep)
    (next : sweep.todo = handle :: rest) (held : manager.handles[handle]? = some subscriber)
    (wanted : subscriber.matchesTopic sweep.event.topic = true)
    (reached : manager.channels[subscriber.tx]? = some channel) (tried : attempt = {
      sweep := number
      event := sweep.event
      channel := subscriber.tx
      queued := channel.queue.length
      result := (channel.trySend { sweep := number, event := sweep.event }).1 })
    (grows : Grows manager after) (registered : Registered after) (sweeps : SweepsSound after)
    (attempts : after.attempts = manager.attempts ++ [attempt])
    (channels : after.channels = manager.channels.set subscriber.tx
      (channel.trySend { sweep := number, event := sweep.event }).2) : Sound after := by
  have message : attempt.message = { sweep := number, event := sweep.event } := by
    rw [tried]
    rfl
  obtain ⟨closed, ok, full⟩ := trySend_result channel { sweep := number, event := sweep.event }
  refine ⟨registered, sweeps, ?_, ?_, ?_⟩
  · intro each member
    rw [attempts] at member
    rcases List.mem_append.mp member with earlier | new
    · exact (sound.attempts each earlier).carry grows
    · rw [List.mem_singleton] at new
      rw [new, tried]
      have here : AttemptSound manager {
          sweep := number
          event := sweep.event
          channel := subscriber.tx
          queued := channel.queue.length
          result := (channel.trySend { sweep := number, event := sweep.event }).1 } :=
        ⟨⟨sweep, handle, subscriber, found, rfl,
            (sound.sweeps number sweep found).suffix.subset (by rw [next]; exact .head _), held,
            rfl, wanted⟩,
          ⟨channel, reached, closed⟩, ok, full⟩
      exact here.carry grows
  · rw [attempts, List.pairwise_append]
    refine ⟨inOrder_carry sound.ordered grows, List.pairwise_singleton _ _, ?_⟩
    intro earlier member new last
    rw [List.mem_singleton] at last
    rw [last, tried]
    obtain ⟨apart, follows⟩ := sound.attempted found next held earlier member
    exact ⟨apart, follows.carry grows⟩
  · intro place other there
    rw [channels] at there
    rcases set_cases there with ⟨rfl, rfl⟩ | ⟨apart, there⟩
    · have sent := (sound.channels _ channel reached).sent attempts (by rw [tried])
        (by rw [message, tried])
      rw [message] at sent
      exact sent
    · exact (sound.channels place other there).elsewhere attempts
        (by rw [tried]; exact fun same => apart same.symm)

theorem Sound.step {action : Action} (sound : Sound manager)
    (change : Change manager action after) : Sound after := by
  have grows := change.grows
  have registered := sound.registered.step change
  have sweeps := sound.sweeps.step sound.registered sound.fresh change
  cases change with
  | refused => exact sound
  | registered patterns =>
      have ordered := inOrder_carry sound.ordered grows
      refine ⟨registered, sweeps, fun attempt member => (sound.attempts attempt member).carry grows,
        ordered, ?_⟩
      intro place channel found
      rcases append_cases found with ⟨rfl, rfl⟩ | ⟨_, found⟩
      · have none : manager.accepted manager.channels.length = [] := by
          unfold accepted attemptsOn
          rw [List.filter_filter, List.map_eq_nil_iff, List.filter_eq_nil_iff]
          intro attempt member both
          obtain ⟨_, there, _⟩ := (sound.attempts attempt member).channel
          have bound := cell_bound there
          rw [Bool.and_eq_true, decide_eq_true_iff, decide_eq_true_iff] at both
          omega
        constructor
        · intro _
          exact none.symm
        · intro impossible
          cases impossible
      · exact (sound.channels place channel found).same rfl
  | repatterned live held => exact sound.quiet grows registered sweeps rfl rfl
  | removed id => exact sound.quiet grows registered sweeps rfl rfl
  | started ordered => exact sound.quiet grows registered sweeps rfl rfl
  | passed found next idle held unwanted => exact sound.quiet grows registered sweeps rfl rfl
  | tried found next idle held wanted reached =>
      exact sound.tried found next held wanted reached rfl grows registered sweeps rfl rfl
  | accounted found sent held => exact sound.quiet grows registered sweeps rfl rfl
  | dismissed found due => exact sound.quiet grows registered sweeps rfl rfl
  | evicted found due live held => exact sound.quiet grows registered sweeps rfl rfl
  | posted ordered found waiting => exact sound.quiet grows registered sweeps rfl rfl
  | drained channel => exact sound.receiver grows registered sweeps (fun _ => ChannelSound.recv)
  | dropped channel => exact sound.receiver grows registered sweeps (fun _ => ChannelSound.drop)

end Manager

end Mneme.Livebus
