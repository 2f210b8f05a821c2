/-
The editor's live-bus client: its request, its reconnect timer and its back-off, under the
callbacks of any connection in any order and number.

Connections and timers are known by their numbers.  Callbacks come from connections that were
made, and those of a response from one that was accepted; timers fire while they are pending.
Listeners do not call the client back.
-/

import Mneme.Library.Run
import Mneme.Vscode.SseClient

namespace Mneme.Vscode

open Transition

inductive ClientEvent where
  | connected
  | disconnected (reason : String)
  | live (event : LiveEvent)

structure LiveBusClient where
  request : Option Nat
  response : Option Nat
  reconnectTimer : Option Nat
  backoffMs : Nat
  disposed : Bool
  decoder : Decoder
  /-- The connections made so far, the last one with the highest number. -/
  connections : Nat
  /-- The connections with handlers on their response. -/
  answered : List Nat
  /-- The pending timers with their delays. -/
  timers : List (Nat × Nat)
  nextTimer : Nat
  /-- History: `start` was called, and neither `stop` nor `dispose` since. -/
  started : Bool
  /-- History: what was emitted, with the connection whose callback did it. -/
  emitted : List (Nat × ClientEvent)
  /-- History: connections destroyed by a callback, after the connection of that callback. -/
  tornDown : List (Nat × Nat)

namespace LiveBusClient

def new : LiveBusClient :=
  { request := none
    response := none
    reconnectTimer := none
    backoffMs := 1000
    disposed := false
    decoder := .new
    connections := 0
    answered := []
    timers := []
    nextTimer := 0
    started := false
    emitted := []
    tornDown := [] }

def start (client : LiveBusClient) : LiveBusClient :=
  if client.disposed then client
  else if client.request.isSome then client
  else { client with
    request := some client.connections
    connections := client.connections + 1 }

def stop (client : LiveBusClient) : LiveBusClient :=
  { client with
    timers := client.timers.filter (fun timer => some timer.1 ≠ client.reconnectTimer)
    reconnectTimer := none
    response := none
    request := none
    decoder := client.decoder.stop }

def emit (client : LiveBusClient) (connection : Nat) (event : ClientEvent) : LiveBusClient :=
  { client with emitted := client.emitted ++ [(connection, event)] }

def scheduleReconnect (client : LiveBusClient) : LiveBusClient :=
  if client.disposed then client
  else { client with
    backoffMs := min 30000 (client.backoffMs * 2)
    reconnectTimer := some client.nextTimer
    timers := client.timers ++ [(client.nextTimer, client.backoffMs)]
    nextTimer := client.nextTimer + 1 }

def tear (client : LiveBusClient) (connection : Nat) : LiveBusClient :=
  { client with
    tornDown := client.tornDown ++
      (client.response.toList ++ client.request.toList).map (Prod.mk connection) }

def onClose (client : LiveBusClient) (connection : Nat) (reason : String) : LiveBusClient :=
  if client.disposed then client
  else (((client.emit connection (.disconnected reason)).tear connection).stop).scheduleReconnect

def onResponse (client : LiveBusClient) (connection : Nat) (statusCode : Option Nat) :
    LiveBusClient :=
  if client.disposed then client
  else if statusCode ≠ some 200 then
    client.onClose connection ("http " ++ (statusCode.map toString).getD "unknown")
  else
    { client with
      response := some connection
      backoffMs := 1000
      answered := client.answered ++ [connection] }.emit connection .connected

def onChunk (jsonParse : List Char → Option Json) (client : LiveBusClient) (connection : Nat)
    (chunk : List Char) : LiveBusClient :=
  let read := client.decoder.onChunk jsonParse chunk
  { client with
    decoder := read.1
    emitted := client.emitted ++ read.2.map (fun event => (connection, .live event)) }

/-- The callback of the timer. -/
def fire (client : LiveBusClient) (timer : Nat) : LiveBusClient :=
  { client with
    timers := client.timers.filter (fun pending => pending.1 ≠ timer)
    reconnectTimer := none }.start

end LiveBusClient

/-! ### Steps -/

inductive ClientStep where
  | start
  | stop
  | dispose
  | response (connection : Nat) (statusCode : Option Nat)
  | requestError (connection : Nat) (message : String)
  | requestClose (connection : Nat)
  | data (connection : Nat) (chunk : List Char)
  | responseEnd (connection : Nat)
  | responseError (connection : Nat) (message : String)
  | fire (timer : Nat)
deriving DecidableEq

def next (jsonParse : List Char → Option Json) (client : LiveBusClient) :
    ClientStep → Option LiveBusClient
  | .start => some { client.start with started := true }
  | .stop => some { client.stop with started := false }
  | .dispose => some { { client with disposed := true }.stop with started := false }
  | .response connection statusCode =>
      if connection < client.connections then some (client.onResponse connection statusCode)
      else none
  | .requestError connection message =>
      if connection < client.connections then some (client.onClose connection message) else none
  | .requestClose connection =>
      if connection < client.connections then some (client.onClose connection "request closed")
      else none
  | .data connection chunk =>
      if connection ∈ client.answered then some (client.onChunk jsonParse connection chunk)
      else none
  | .responseEnd connection =>
      if connection ∈ client.answered then some (client.onClose connection "stream ended")
      else none
  | .responseError connection message =>
      if connection ∈ client.answered then some (client.onClose connection message) else none
  | .fire timer =>
      if timer ∈ client.timers.map Prod.fst then some (client.fire timer) else none

/-- The connection that a callback reports as lost. -/
def loses : ClientStep → Option Nat
  | .response connection statusCode => if statusCode = some 200 then none else some connection
  | .requestError connection _ => some connection
  | .requestClose connection => some connection
  | .responseEnd connection => some connection
  | .responseError connection _ => some connection
  | _ => none

/-- What a step can do. -/
inductive Effect (client : LiveBusClient) (step : ClientStep) : LiveBusClient → Prop where
  | started (quiet : loses step = none) : Effect client step { client.start with started := true }
  | stopped (quiet : loses step = none) : Effect client step { client.stop with started := false }
  | disposed (quiet : loses step = none) :
      Effect client step { { client with disposed := true }.stop with started := false }
  | ignored (ended : client.disposed = true) : Effect client step client
  | lost (connection : Nat) (reason : String) (reports : loses step = some connection)
      (open_ : client.disposed = false) : Effect client step (client.onClose connection reason)
  | accepted (connection : Nat) (quiet : loses step = none)
      (made : connection < client.connections) :
      Effect client step ({ client with
        response := some connection
        backoffMs := 1000
        answered := client.answered ++ [connection] }.emit connection .connected)
  | read (decoder : Decoder) (connection : Nat) (events : List LiveEvent)
      (quiet : loses step = none) :
      Effect client step { client with
        decoder
        emitted := client.emitted ++ events.map (fun event => (connection, .live event)) }
  | fired (timer : Nat) (quiet : loses step = none)
      (pending : timer ∈ client.timers.map Prod.fst) : Effect client step (client.fire timer)

variable {jsonParse : List Char → Option Json} {client after : LiveBusClient} {step : ClientStep}

theorem effect_of_onClose {connection : Nat} (reason : String)
    (reports : loses step = some connection) :
    Effect client step (client.onClose connection reason) := by
  cases open_ : client.disposed with
  | true =>
      rw [LiveBusClient.onClose, if_pos open_]
      exact .ignored open_
  | false => exact .lost connection reason reports open_

theorem effect_of_next (taken : next jsonParse client step = some after) :
    Effect client step after := by
  cases step with
  | start =>
      cases taken
      exact .started rfl
  | stop =>
      cases taken
      exact .stopped rfl
  | dispose =>
      cases taken
      exact .disposed rfl
  | response connection statusCode =>
      obtain ⟨made, same⟩ := Option.ite_none_right_eq_some.mp taken
      cases same
      unfold LiveBusClient.onResponse
      split
      · rename_i ended
        exact .ignored ended
      · split
        · rename_i refused
          exact effect_of_onClose _ (if_neg refused)
        · rename_i accepted
          exact .accepted connection (if_pos (not_not.mp accepted)) made
  | requestError connection message =>
      obtain ⟨_, same⟩ := Option.ite_none_right_eq_some.mp taken
      cases same
      exact effect_of_onClose message rfl
  | requestClose connection =>
      obtain ⟨_, same⟩ := Option.ite_none_right_eq_some.mp taken
      cases same
      exact effect_of_onClose _ rfl
  | data connection chunk =>
      obtain ⟨_, same⟩ := Option.ite_none_right_eq_some.mp taken
      cases same
      exact .read _ connection _ rfl
  | responseEnd connection =>
      obtain ⟨_, same⟩ := Option.ite_none_right_eq_some.mp taken
      cases same
      exact effect_of_onClose _ rfl
  | responseError connection message =>
      obtain ⟨_, same⟩ := Option.ite_none_right_eq_some.mp taken
      cases same
      exact effect_of_onClose message rfl
  | fire timer =>
      obtain ⟨pending, same⟩ := Option.ite_none_right_eq_some.mp taken
      cases same
      exact .fired timer rfl pending

/-! ### What the emitted events tell -/

/-- The connections of the 'disconnected' events. -/
def disconnectedBy (emitted : List (Nat × ClientEvent)) : List Nat :=
  emitted.filterMap (fun entry =>
    match entry.2 with
    | .disconnected _ => some entry.1
    | _ => none)

/-- Doubled by each 'disconnected' event, up to the cap, and reset by each 'connected' event. -/
def backoffOf (emitted : List (Nat × ClientEvent)) : Nat :=
  emitted.foldl (fun backoffMs entry =>
    match entry.2 with
    | .connected => 1000
    | .disconnected _ => min 30000 (backoffMs * 2)
    | .live _ => backoffMs) 1000

theorem disconnectedBy_live (connection : Nat) (events : List LiveEvent) :
    disconnectedBy (events.map (fun event => (connection, ClientEvent.live event))) = [] := by
  rw [disconnectedBy, List.filterMap_eq_nil_iff]
  intro entry member
  obtain ⟨event, _, rfl⟩ := List.mem_map.mp member
  rfl

theorem backoffOf_live (emitted : List (Nat × ClientEvent)) (connection : Nat)
    (events : List LiveEvent) :
    backoffOf (emitted ++ events.map (fun event => (connection, .live event))) =
      backoffOf emitted := by
  rw [backoffOf, List.foldl_append, List.foldl_map]
  exact List.foldl_fixed' (fun _ => rfl) events

/-- The connections reported as lost to a client that was not disposed. -/
def lost (history : List (LiveBusClient × ClientStep)) : List Nat :=
  history.filterMap (fun taken => if taken.1.disposed then none else loses taken.2)

/-- What holds when these connections were lost. -/
structure Sound (lost : List Nat) (client : LiveBusClient) : Prop where
  current : ∀ connection, client.request = some connection →
    connection + 1 = client.connections ∧ connection ∉ lost
  bounded : ∀ connection ∈ lost, connection < client.connections
  once : lost.Nodup
  responded : ∀ connection, client.response = some connection → connection < client.connections
  counted : disconnectedBy client.emitted = lost
  backoff : client.backoffMs = backoffOf client.emitted
  own : ∀ torn ∈ client.tornDown, torn.2 ≤ torn.1
  timers : client.timers.map Prod.fst = client.reconnectTimer.toList

/-- A client that runs has a request or waits to make one. -/
def Alive (client : LiveBusClient) : Prop :=
  client.started = true → client.disposed = false →
    client.request ≠ none ∨ client.reconnectTimer ≠ none

section Sound

variable {lost : List Nat}

theorem Sound.new : Sound [] .new where
  current := nofun
  bounded := nofun
  once := List.nodup_nil
  responded := nofun
  counted := rfl
  backoff := rfl
  own := nofun
  timers := rfl

/-- A new connection has the highest number. -/
theorem Sound.start (sound : Sound lost client) : Sound lost client.start := by
  unfold LiveBusClient.start
  split
  · exact sound
  · split
    · exact sound
    · refine { sound with current := ?_, bounded := ?_, responded := ?_ }
      · intro connection new
        cases new
        exact ⟨rfl, fun member => Nat.lt_irrefl _ (sound.bounded _ member)⟩
      · intro connection member
        exact Nat.lt_succ_of_lt (sound.bounded connection member)
      · intro connection responds
        exact Nat.lt_succ_of_lt (sound.responded connection responds)

theorem alive_of_start (client : LiveBusClient) (running : client.start.disposed = false) :
    client.start.request ≠ none := by
  unfold LiveBusClient.start at running ⊢
  split at running
  · rename_i ended
    rw [running] at ended
    cases ended
  · rw [if_neg ‹_›]
    split
    · rename_i there
      exact Option.isSome_iff_ne_none.mp there
    · exact Option.some_ne_none _

theorem timers_of_stop (sound : Sound lost client) : client.stop.timers = [] := by
  rw [LiveBusClient.stop, List.filter_eq_nil_iff]
  intro timer member
  have known : timer.1 ∈ client.reconnectTimer.toList :=
    sound.timers ▸ List.mem_map_of_mem member
  rw [Option.mem_toList.mp known]
  simp

theorem Sound.stop (sound : Sound lost client) : Sound lost client.stop where
  current := nofun
  bounded := sound.bounded
  once := sound.once
  responded := nofun
  counted := sound.counted
  backoff := sound.backoff
  own := sound.own
  timers := by
    rw [timers_of_stop sound]
    rfl

theorem Sound.fire (sound : Sound lost client) {timer : Nat}
    (pending : timer ∈ client.timers.map Prod.fst) : Sound lost (client.fire timer) := by
  apply Sound.start
  refine { sound with timers := ?_ }
  rw [sound.timers] at pending
  have only : ∀ other ∈ client.timers, other.1 = timer := by
    intro other member
    have known : other.1 ∈ client.reconnectTimer.toList :=
      sound.timers ▸ List.mem_map_of_mem member
    have first := Option.mem_toList.mp known
    have second := Option.mem_toList.mp pending
    rw [first] at second
    exact Option.some.inj second
  have none_left : client.timers.filter (fun other => other.1 ≠ timer) = [] := by
    rw [List.filter_eq_nil_iff]
    intro other member
    simp [only other member]
  change (client.timers.filter (fun other => other.1 ≠ timer)).map Prod.fst = []
  rw [none_left]
  rfl

theorem onClose_open (connection : Nat) (reason : String) (open_ : client.disposed = false) :
    client.onClose connection reason = { client with
      timers := client.stop.timers ++ [(client.nextTimer, client.backoffMs)]
      reconnectTimer := some client.nextTimer
      nextTimer := client.nextTimer + 1
      response := none
      request := none
      decoder := client.decoder.stop
      backoffMs := min 30000 (client.backoffMs * 2)
      emitted := client.emitted ++ [(connection, .disconnected reason)]
      tornDown := client.tornDown ++
        (client.response.toList ++ client.request.toList).map (Prod.mk connection) } := by
  have running : ∀ ended other : LiveBusClient,
      (if client.disposed then ended else other) = other := by
    intro ended other
    rw [open_]
    rfl
  rw [LiveBusClient.onClose, running]
  exact running _ _

/-- One event and one doubling for the connection that the client has. -/
theorem Sound.onClose (sound : Sound lost client) {connection : Nat} (reason : String)
    (open_ : client.disposed = false) (current : client.request = some connection) :
    Sound (lost ++ [connection]) (client.onClose connection reason) := by
  have ⟨last, fresh⟩ := sound.current connection current
  rw [onClose_open connection reason open_, timers_of_stop sound]
  exact {
    current := nofun
    bounded := by
      intro other member
      rcases List.mem_append.mp member with earlier | same
      · exact sound.bounded other earlier
      · rw [List.mem_singleton.mp same]
        change connection < client.connections
        omega
    once := List.Nodup.append sound.once (List.nodup_singleton connection)
      (List.disjoint_singleton.mpr fresh)
    responded := nofun
    counted := by
      change disconnectedBy (client.emitted ++ _) = _
      rw [disconnectedBy, List.filterMap_append]
      exact congrArg (· ++ [connection]) sound.counted
    backoff := by
      change min 30000 (client.backoffMs * 2) = backoffOf (client.emitted ++ _)
      rw [backoffOf, List.foldl_append, sound.backoff]
      rfl
    own := by
      intro torn member
      rcases List.mem_append.mp member with earlier | now
      · exact sound.own torn earlier
      · obtain ⟨victim, there, rfl⟩ := List.mem_map.mp now
        change victim ≤ connection
        rcases List.mem_append.mp there with responds | requested
        · have made := sound.responded victim (Option.mem_toList.mp responds)
          omega
        · rw [Option.mem_toList, current] at requested
          rw [Option.some.inj requested]
    timers := rfl }

theorem Sound.accepted (sound : Sound lost client) {connection : Nat}
    (made : connection < client.connections) :
    Sound lost ({ client with
      response := some connection
      backoffMs := 1000
      answered := client.answered ++ [connection] }.emit connection .connected) :=
  { sound with
    responded := by
      intro other same
      cases same
      exact made
    counted := by
      change disconnectedBy (client.emitted ++ _) = _
      rw [disconnectedBy, List.filterMap_append]
      exact (List.append_nil _).trans sound.counted
    backoff := by
      change 1000 = backoffOf (client.emitted ++ _)
      rw [backoffOf, List.foldl_append]
      rfl }

theorem Sound.read (sound : Sound lost client) (decoder : Decoder) (connection : Nat)
    (events : List LiveEvent) :
    Sound lost { client with
      decoder
      emitted := client.emitted ++ events.map (fun event => (connection, .live event)) } :=
  { sound with
    counted := by
      change disconnectedBy (client.emitted ++ _) = _
      rw [disconnectedBy, List.filterMap_append]
      change disconnectedBy _ ++ disconnectedBy _ = _
      rw [disconnectedBy_live, List.append_nil, sound.counted]
    backoff := by
      change client.backoffMs = backoffOf (client.emitted ++ _)
      rw [backoffOf_live, sound.backoff] }

end Sound

/-- A callback that reports a loss comes from the connection that the client has. -/
def OnTime (client : LiveBusClient) (step : ClientStep) : Prop :=
  ∀ connection ∈ loses step, client.disposed = true ∨ client.request = some connection

instance (client : LiveBusClient) (step : ClientStep) : Decidable (OnTime client step) :=
  inferInstanceAs (Decidable (∀ connection ∈ loses step, _))

/-! ### Runs -/

theorem lost_append (history : List (LiveBusClient × ClientStep)) (client : LiveBusClient)
    (step : ClientStep) :
    lost (history ++ [(client, step)]) =
      lost history ++ (if client.disposed then [] else (loses step).toList) := by
  rw [lost, List.filterMap_append]
  congr 1
  cases ended : client.disposed <;> cases reports : loses step <;> simp [ended, reports]

theorem sound_of_run {history : List (LiveBusClient × ClientStep)}
    (run : Run (next jsonParse) .new history client) (onTime : Respects OnTime history) :
    Sound (lost history) client ∧ Alive client := by
  induction run with
  | start => exact ⟨Sound.new, nofun⟩
  | @step history client after step run taken ih =>
      obtain ⟨before, now⟩ := (respects_append_iff OnTime history client step).mp onTime
      obtain ⟨sound, alive⟩ := ih before
      rw [lost_append]
      have quiet : loses step = none → lost history ++
          (if client.disposed then [] else (loses step).toList) = lost history := by
        intro none
        rw [none, Option.toList_none, ite_self, List.append_nil]
      cases effect_of_next taken with
      | started none =>
          rw [quiet none]
          refine ⟨{ sound.start with }, fun _ running => Or.inl (alive_of_start client running)⟩
      | stopped none =>
          rw [quiet none]
          exact ⟨{ sound.stop with }, nofun⟩
      | disposed none =>
          rw [quiet none]
          have gone : Sound (lost history) { client with disposed := true } := { sound with }
          exact ⟨{ gone.stop with }, nofun⟩
      | ignored ended =>
          rw [if_pos ended, List.append_nil]
          exact ⟨sound, alive⟩
      | lost connection reason reports open_ =>
          have current : client.request = some connection :=
            (now connection reports).resolve_left (by rw [open_]; nofun)
          rw [if_neg (by rw [open_]; nofun), reports]
          refine ⟨sound.onClose reason open_ current, fun _ _ => Or.inr ?_⟩
          rw [onClose_open connection reason open_]
          exact Option.some_ne_none _
      | accepted connection none made =>
          rw [quiet none]
          exact ⟨sound.accepted made, alive⟩
      | read decoder connection events none =>
          rw [quiet none]
          exact ⟨sound.read decoder connection events, alive⟩
      | fired timer none pending =>
          rw [quiet none]
          exact ⟨sound.fire pending, fun _ running => Or.inl (alive_of_start _ running)⟩

structure Disciplined (lost : List Nat) (client : LiveBusClient) : Prop where
  once : ∀ connection, (disconnectedBy client.emitted).count connection =
    if connection ∈ lost then 1 else 0
  backoff : client.backoffMs = backoffOf client.emitted
  own : ∀ torn ∈ client.tornDown, ¬ torn.1 < torn.2
  alive : client.started = true → client.disposed = false →
    (∃ connection, client.request = some connection ∧ connection ∉ lost) ∨
      client.timers.length = 1
  single : client.timers.length ≤ 1

/-- As long as each connection reports its loss once, and while the client still has it, every
loss is one event and one doubling, and the client has a request or waits to make one. -/
theorem disciplined_of_onTime (jsonParse : List Char → Option Json)
    (history : List (LiveBusClient × ClientStep)) (client : LiveBusClient)
    (run : Run (next jsonParse) .new history client) (onTime : Respects OnTime history) :
    Disciplined (lost history) client := by
  obtain ⟨sound, alive⟩ := sound_of_run run onTime
  have timers : client.timers.length = client.reconnectTimer.toList.length := by
    rw [← sound.timers, List.length_map]
  exact {
    once := by
      intro connection
      rw [sound.counted]
      exact sound.once.count
    backoff := sound.backoff
    own := fun torn member => Nat.not_lt.mpr (sound.own torn member)
    alive := by
      intro started running
      rcases alive started running with requested | waits
      · obtain ⟨connection, current⟩ := Option.ne_none_iff_exists'.mp requested
        exact Or.inl ⟨connection, current, (sound.current connection current).2⟩
      · obtain ⟨timer, current⟩ := Option.ne_none_iff_exists'.mp waits
        rw [timers, current]
        exact Or.inr rfl
    single := by
      rw [timers]
      cases client.reconnectTimer <;> simp }

/-- Two connections after one another, the second one refused, and the timer that follows. -/
def twoLosses : List ClientStep :=
  [.start, .response 0 (some 200), .responseEnd 0, .fire 0, .requestError 1 "ECONNREFUSED"]

theorem twoLosses_disciplined :
    ∃ history client, Run (next (fun _ => none)) .new history client ∧
      history.map Prod.snd = twoLosses ∧ Disciplined (lost history) client := by
  obtain ⟨history, client, run, labels, onTime⟩ := Run.of_trace (next (fun _ => none)) .new
    twoLosses (fun history _ => decide (Respects OnTime history)) (by decide)
  exact ⟨history, client, run, labels,
    disciplined_of_onTime _ history client run (of_decide_eq_true onTime)⟩

/-- An error with the close that follows it: when the close comes late, it takes the next
connection with it. -/
def lateClose : List ClientStep :=
  [.start, .requestError 0 "ECONNREFUSED", .fire 0, .requestClose 0]

theorem lateClose_undisciplined :
    ∃ history client, Run (next (fun _ => none)) .new history client ∧
      history.map Prod.snd = lateClose ∧ client.backoffMs = 4000 ∧
      disconnectedBy client.emitted = [0, 0] ∧ (0, 1) ∈ client.tornDown := by
  have executed : execute (next (fun _ => none)) .new lateClose = some (_, _) := rfl
  exact ⟨_, _, Run.of_execute executed, rfl, rfl, rfl, List.mem_cons_of_mem _ List.mem_cons_self⟩

end Mneme.Vscode
