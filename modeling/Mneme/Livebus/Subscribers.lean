/-
The subscriber registry and its deliveries, one atomic operation a step.

A registry maps ids to handles, which are never changed but for their counters; replacing
the patterns of a subscriber makes a new handle on the same channel.  A dispatch takes a
snapshot of the handles and then sends through one after the other, each send and each
update of the counters a step of its own, so the steps of several dispatches mix.  The
raw broadcast bus is left out.

What a state knows of its past (`attempts`, `evictions`, and the fields marked so) is read
by no operation.
-/

import Mathlib.Data.Finmap
import Mneme.Library.Run
import Mneme.Livebus.Topic

namespace Mneme.Livebus

def backpressureWindow : Nat := 50

/-! ### Channels -/

/-- An event on its way, with the place of its dispatch among all of them. -/
structure Message where
  sweep : Nat
  event : Event

inductive SendResult where
  | ok
  | full
  | closed
deriving DecidableEq

structure Channel where
  queue : List Message
  closed : Bool
  /-- History: what the receiver has drained. -/
  received : List Message

namespace Channel

def new : Channel :=
  { queue := [], closed := false, received := [] }

def trySend (channel : Channel) (message : Message) : SendResult × Channel :=
  if channel.closed then (.closed, channel)
  else if backpressureWindow ≤ channel.queue.length then (.full, channel)
  else (.ok, { channel with queue := channel.queue ++ [message] })

def recv (channel : Channel) : Channel :=
  match channel.queue with
  | [] => channel
  | message :: rest =>
      { channel with queue := rest, received := channel.received ++ [message] }

/-- The receiver is gone, and what it had not drained with it. -/
def drop (channel : Channel) : Channel :=
  { channel with queue := [], closed := true }

end Channel

/-! ### State -/

structure Subscriber where
  id : String
  patterns : List String
  tx : Nat
  lag : Nat
  delivered : Nat

def Subscriber.matchesTopic (subscriber : Subscriber) (topic : String) : Bool :=
  topicMatchesAny subscriber.patterns topic

/-- One pass over the subscribers, of `dispatch` or, guarded, of `dispatch_internal`. -/
structure Sweep where
  event : Event
  guarded : Bool
  /-- History: the handles of the snapshot. -/
  snapshot : List Nat
  /-- History: the sweeps under way when the snapshot was taken. -/
  overlaps : List Nat
  todo : List Nat
  /-- The handle just sent through, before its counters are updated. -/
  sent : Option (Nat × SendResult)
  toEvict : List (String × String)
  /-- The notice of an eviction, before its own snapshot. -/
  posting : Option Event
  /-- The sweep of the last notice. -/
  notice : Option Nat

def Sweep.underWay (sweep : Sweep) : Bool :=
  !sweep.todo.isEmpty || sweep.sent.isSome

/-- History: one call of `try_send`, and how many messages it found in the channel. -/
structure Attempt where
  sweep : Nat
  event : Event
  channel : Nat
  queued : Nat
  result : SendResult

structure Manager where
  subscribers : Finmap (fun _ : String => Nat)
  handles : List Subscriber
  channels : List Channel
  nextId : Nat
  evicted : Nat
  sweeps : List Sweep
  attempts : List Attempt
  /-- History: the channels of the evicted subscribers. -/
  evictions : List Nat

namespace Manager

def new : Manager :=
  { subscribers := ∅, handles := [], channels := [], nextId := 1, evicted := 0, sweeps := []
    attempts := [], evictions := [] }

/-! ### The registry -/

def subscriberId (number : Nat) : String :=
  "sub-" ++ toString number

def register (manager : Manager) (patterns : List String) :
    Except LivebusError (String × Nat) × Manager :=
  match validatePatterns patterns with
  | .error error => (.error error, manager)
  | .ok () =>
      let id := subscriberId manager.nextId
      let tx := manager.channels.length
      (.ok (id, tx),
        { manager with
          nextId := manager.nextId + 1
          channels := manager.channels ++ [Channel.new]
          handles := manager.handles ++ [{ id, patterns, tx, lag := 0, delivered := 0 }]
          subscribers := manager.subscribers.insert id manager.handles.length })

def updatePatterns (manager : Manager) (id : String) (patterns : List String) :
    Except LivebusError Unit × Manager :=
  match validatePatterns patterns with
  | .error error => (.error error, manager)
  | .ok () =>
      match (manager.subscribers.lookup id).bind (fun handle => manager.handles[handle]?) with
      | none => (.error (.subscriberEvicted id "subscriber not found"), manager)
      | some existing =>
          (.ok (),
            { manager with
              handles := manager.handles ++ [{ existing with patterns }]
              subscribers := manager.subscribers.insert id manager.handles.length })

def unregister (manager : Manager) (id : String) : Manager :=
  { manager with subscribers := manager.subscribers.erase id }

/-! ### Sweeps -/

/-- The sweeps under way. -/
def openSweeps (manager : Manager) : List Nat :=
  (List.range manager.sweeps.length).filter (fun sweep =>
    (manager.sweeps[sweep]?).any Sweep.underWay)

/-- The snapshot, in the order in which the map gives its ids. -/
def startSweep (manager : Manager) (event : Event) (guarded : Bool) (order : List String) : Manager :=
  let snapshot := order.filterMap manager.subscribers.lookup
  { manager with
    sweeps := manager.sweeps ++ [{
      event, guarded, snapshot
      overlaps := manager.openSweeps
      todo := snapshot
      sent := none
      toEvict := []
      posting := none
      notice := none }] }

/-- The next handle of a sweep: passed over, or sent through. -/
def visit (manager : Manager) (number : Nat) : Option Manager := do
  let sweep ← manager.sweeps[number]?
  match sweep.todo, sweep.sent with
  | handle :: rest, none =>
      let subscriber ← manager.handles[handle]?
      if subscriber.matchesTopic sweep.event.topic then
        let channel ← manager.channels[subscriber.tx]?
        let (result, after) := channel.trySend { sweep := number, event := sweep.event }
        return { manager with
          channels := manager.channels.set subscriber.tx after
          sweeps := manager.sweeps.set number { sweep with
            todo := rest
            sent := some (handle, result) }
          attempts := manager.attempts ++ [{
            sweep := number
            event := sweep.event
            channel := subscriber.tx
            queued := channel.queue.length
            result }] }
      else
        return { manager with sweeps := manager.sweeps.set number { sweep with todo := rest } }
  | _, _ => none

/-- The counters of a handle after a send, and the reason to evict it. -/
def counted (subscriber : Subscriber) (guarded : Bool) :
    SendResult → Subscriber × List (String × String)
  | .ok => ({ subscriber with lag := 0, delivered := subscriber.delivered + 1 }, [])
  | .full =>
      ({ subscriber with lag := subscriber.lag + 1 },
        if !guarded ∧ backpressureWindow ≤ subscriber.lag + 1 then
          [(subscriber.id, "lag " ++ toString (subscriber.lag + 1) ++ " >= backpressure window " ++
            toString backpressureWindow)]
        else [])
  | .closed => (subscriber, if guarded then [] else [(subscriber.id, "channel closed")])

def count (manager : Manager) (number : Nat) : Option Manager := do
  let sweep ← manager.sweeps[number]?
  let (handle, result) ← sweep.sent
  let subscriber ← manager.handles[handle]?
  let (after, reasons) := counted subscriber sweep.guarded result
  return { manager with
    handles := manager.handles.set handle after
    sweeps := manager.sweeps.set number { sweep with
      sent := none
      toEvict := sweep.toEvict ++ reasons } }

/-- The sweep has passed over its snapshot, and so has the notice of its last eviction. -/
def mayEvict (manager : Manager) (sweep : Sweep) : Bool :=
  !sweep.underWay && sweep.posting.isNone &&
    !((sweep.notice.bind (fun notice => manager.sweeps[notice]?)).any Sweep.underWay)

/-- The next eviction of a sweep; nothing is posted when the subscriber is gone already. -/
def evict (manager : Manager) (number : Nat) (now : Int) : Option Manager := do
  let sweep ← manager.sweeps[number]?
  if manager.mayEvict sweep then
    match sweep.toEvict with
    | [] => none
    | (id, reason) :: rest =>
        match (manager.subscribers.lookup id).bind (fun handle => manager.handles[handle]?) with
        | none =>
            some { manager with
              sweeps := manager.sweeps.set number { sweep with toEvict := rest } }
        | some subscriber =>
            some { manager with
              subscribers := manager.subscribers.erase id
              evicted := manager.evicted + 1
              evictions := manager.evictions ++ [subscriber.tx]
              sweeps := manager.sweeps.set number { sweep with
                toEvict := rest
                posting := some (evictionNotice reason id (manager.evicted + 1) now) } }
  else none

/-- The snapshot of a notice. -/
def post (manager : Manager) (number : Nat) (order : List String) : Option Manager := do
  let sweep ← manager.sweeps[number]?
  let event ← sweep.posting
  let waiting := { manager with
    sweeps := manager.sweeps.set number { sweep with
      posting := none
      notice := some manager.sweeps.length } }
  return waiting.startSweep event true order

/-- An order in which the map may give its ids. -/
def MapOrder (manager : Manager) (order : List String) : Prop :=
  order.Nodup ∧ order.toFinset = manager.subscribers.keys

instance (manager : Manager) (order : List String) : Decidable (manager.MapOrder order) :=
  inferInstanceAs (Decidable (_ ∧ _))

/-! ### Steps -/

inductive Action where
  | register (patterns : List String)
  | updatePatterns (id : String) (patterns : List String)
  | unregister (id : String)
  | dispatch (event : Event) (order : List String)
  | visit (sweep : Nat)
  | count (sweep : Nat)
  | evict (sweep : Nat) (now : Int)
  | post (sweep : Nat) (order : List String)
  | recv (channel : Nat)
  | drop (channel : Nat)

def step (manager : Manager) : Action → Option Manager
  | .register patterns => some (manager.register patterns).2
  | .updatePatterns id patterns => some (manager.updatePatterns id patterns).2
  | .unregister id => some (manager.unregister id)
  | .dispatch event order =>
      if manager.MapOrder order then some (manager.startSweep event false order) else none
  | .visit sweep => manager.visit sweep
  | .count sweep => manager.count sweep
  | .evict sweep now => manager.evict sweep now
  | .post sweep order => if manager.MapOrder order then manager.post sweep order else none
  | .recv channel => some { manager with channels := manager.channels.modify channel Channel.recv }
  | .drop channel => some { manager with channels := manager.channels.modify channel Channel.drop }

end Manager

end Mneme.Livebus
