/-
The inject calls of one project.

A single call looks its idempotency key up, sends its write to the writer task
of the layer, waits for the reply and then records the key; a batch sends one
command for each layer and does nothing with its key.  Every step is one state
change, and the calls interleave freely.  A call that times out leaves a
command it has already sent in the queue.
-/

import Mathlib.Tactic.Cases
import Mneme.Library.Run
import Mneme.Store.Batch

namespace Mneme.Store

open Common Library Transition

structure InjectOptions where
  idempotencyKey : Option String := none
  emitEvent : Bool := true
  audit : Bool := true
  timeoutMs : Option Nat := some 5000

inductive Action where
  | insert
  | upsert
  | update
  | delete

def Action.text : Action → String
  | .insert => "insert"
  | .upsert => "upsert"
  | .update => "update"
  | .delete => "delete"

/-- A call of `insert`, `upsert`, `update` or `delete`, or of `batch_inject`,
whose layers are visited in some order. -/
inductive Request where
  | single (action : Action) (layer : DbLayer) (statement : Statement) (opts : InjectOptions)
  | batch (ops : List InjectOp) (order : List DbLayer) (opts : InjectOptions)

namespace Request

def opts : Request → InjectOptions
  | .single _ _ _ opts => opts
  | .batch _ _ opts => opts

def key (request : Request) : Option String :=
  request.opts.idempotencyKey

/-- The layers the call writes to, in the order in which it does. -/
def layers : Request → List DbLayer
  | .single _ layer _ _ => [layer]
  | .batch _ order _ => order

def WellFormed : Request → Prop
  | .single .. => True
  | .batch ops order _ =>
      order.Perm ((Database.byLayer (ops.map InjectOp.write)).map Prod.fst)

instance (request : Request) : Decidable request.WellFormed :=
  match request with
  | .single .. => isTrue trivial
  | .batch ops order _ =>
      inferInstanceAs (Decidable (order.Perm
        ((Database.byLayer (ops.map InjectOp.write)).map Prod.fst)))

end Request

/-- A row of `audit_log` but for its id, its time and the previous hash. -/
structure AuditRow where
  actor : String
  action : String
  layer : DbLayer
  target : String
  newValueHash : String
deriving DecidableEq

/-- The three writes of a call: its data, layer by layer, the audit row and the
row that records its key. -/
inductive Stage where
  | data (layer : DbLayer) (rest : List DbLayer)
  | audit
  | record
deriving DecidableEq

def Stage.layer : Stage → DbLayer
  | .data layer _ => layer
  | .audit => .audit
  | .record => .audit

abbrev Reply := Except DbError Unit

inductive Phase where
  | looking
  | sending (stage : Stage)
  /-- The command is sent; its reply, once there is one. -/
  | awaiting (stage : Stage) (reply : Option Reply)
  | returned (result : Reply)

abbrev CallId := Nat

structure Call where
  request : Request
  phase : Phase

structure Command where
  call : CallId
  stage : Stage
  inserts : List AuditRow

/-- Data rows are written by the statements of the request. -/
def Command.write? (command : Command) : Option (CallId × DbLayer) :=
  match command.stage with
  | .data layer _ => some (command.call, layer)
  | _ => none

/-- The head of a layer's queue and what stays queued. -/
def takeFirst (layer : DbLayer) : List Command → Option (Command × List Command)
  | [] => none
  | command :: rest =>
      if command.stage.layer = layer then some (command, rest)
      else (takeFirst layer rest).map (fun taken => (taken.1, command :: taken.2))

/-- `queue` holds the commands of all writer tasks in the order of sending.
`applied` is history: the data writes executed so far. -/
structure Injector where
  auditLog : List AuditRow
  queue : List Command
  calls : CallId → Option Call
  applied : List (CallId × DbLayer)

inductive Event where
  | start (call : CallId) (request : Request)
  /-- The lookup may fail, which counts as finding nothing. -/
  | lookup (call : CallId) (succeeded : Bool)
  /-- The writer's channel may be closed. -/
  | send (call : CallId) (accepted : Bool)
  /-- The writer task of a layer executes its next command; `rows` is what a
  data statement on the audit layer makes of `audit_log`. -/
  | execute (layer : DbLayer) (outcome : Reply) (rows : List AuditRow)
  | receive (call : CallId)
  | timeout (call : CallId)

namespace Request

def firstPhase (request : Request) : Phase :=
  match request with
  | .single _ layer _ opts =>
      match opts.idempotencyKey with
      | some _ => .looking
      | none => .sending (.data layer [])
  | .batch _ order _ =>
      match order with
      | [] => .returned (.ok ())
      | layer :: rest => .sending (.data layer rest)

/-- After a lookup that found no record. -/
def writePhase (request : Request) : Phase :=
  match request.layers with
  | [] => .returned (.ok ())
  | layer :: rest => .sending (.data layer rest)

def recordPhase (request : Request) : Phase :=
  match request.key with
  | some _ => .sending .record
  | none => .returned (.ok ())

/-- What a call does with the reply to one of its writes.  Only a batch has
further layers, and the outcomes of the audit and record writes are ignored. -/
def resume (request : Request) : Stage → Reply → Phase
  | .data _ _, .error error => .returned (.error error)
  | .data _ (layer :: later), .ok () => .sending (.data layer later)
  | .data _ [], .ok () =>
      match request with
      | .single _ _ _ opts => if opts.audit then .sending .audit else request.recordPhase
      | .batch .. => .returned (.ok ())
  | .audit, _ => request.recordPhase
  | .record, _ => .returned (.ok ())

/-- `digest` is the hash of the serialised parameters. -/
def inserts (digest : List Json → String) (request : Request) : Stage → List AuditRow
  | .data _ _ => []
  | .audit =>
      match request with
      | .single action layer statement opts =>
          [⟨"inject", action.text, layer, opts.idempotencyKey.getD "", digest statement.2⟩]
      | .batch .. => []
  | .record =>
      match request with
      | .single action layer _ opts =>
          opts.idempotencyKey.toList.map (fun key =>
            ⟨"idempotency", action.text, layer, key, "done"⟩)
      | .batch .. => []

def timeoutMs : Request → Option Nat
  | .single _ _ _ opts => opts.timeoutMs
  | .batch .. => none

end Request

namespace Injector

def empty : Injector :=
  { auditLog := [], queue := [], calls := fun _ => none, applied := [] }

/-- `actor = 'idempotency' AND target = ?1` -/
def recorded (state : Injector) (key : String) : Bool :=
  state.auditLog.any (fun row => row.actor = "idempotency" ∧ row.target = key)

def setCall (state : Injector) (call : CallId) (request : Request) (phase : Phase) : Injector :=
  { state with calls := Function.update state.calls call (some ⟨request, phase⟩) }

/-- The reply goes to the call that waits for this command; a call that has
timed out has dropped the receiver. -/
def deliver (state : Injector) (command : Command) (outcome : Reply) : CallId → Option Call :=
  match state.calls command.call with
  | some ⟨request, .awaiting stage none⟩ =>
      if stage = command.stage then
        Function.update state.calls command.call
          (some ⟨request, .awaiting stage (some outcome)⟩)
      else state.calls
  | _ => state.calls

def perform (state : Injector) (command : Command) (rest : List Command) (outcome : Reply)
    (rows : List AuditRow) : Injector :=
  { auditLog :=
      match outcome, command.stage with
      | .error _, _ => state.auditLog
      | .ok (), .data .audit _ => rows
      | .ok (), _ => state.auditLog ++ command.inserts
    queue := rest
    calls := state.deliver command outcome
    applied :=
      match outcome with
      | .error _ => state.applied
      | .ok () => state.applied ++ command.write?.toList }

def channelClosed : DbError :=
  .sqlite "writer channel closed: channel closed"

def next (digest : List Json → String) (state : Injector) : Event → Option Injector
  | .start call request =>
      if (state.calls call).isNone ∧ request.WellFormed then
        some (state.setCall call request request.firstPhase)
      else none
  | .lookup call succeeded =>
      match state.calls call with
      | some ⟨request, .looking⟩ =>
          match request.key with
          | some key =>
              if succeeded && state.recorded key then
                some (state.setCall call request (.returned (.ok ())))
              else some (state.setCall call request request.writePhase)
          | none => none
      | _ => none
  | .send call accepted =>
      match state.calls call with
      | some ⟨request, .sending stage⟩ =>
          if accepted then
            some { state.setCall call request (.awaiting stage none) with
              queue := state.queue ++ [⟨call, stage, request.inserts digest stage⟩] }
          else some (state.setCall call request (request.resume stage (.error channelClosed)))
      | _ => none
  | .execute layer outcome rows =>
      match takeFirst layer state.queue with
      | some (command, rest) => some (state.perform command rest outcome rows)
      | none => none
  | .receive call =>
      match state.calls call with
      | some ⟨request, .awaiting stage (some reply)⟩ =>
          some (state.setCall call request (request.resume stage reply))
      | _ => none
  | .timeout call =>
      match state.calls call with
      | some ⟨request, .sending (.data _ _)⟩ =>
          request.timeoutMs.map (fun limit =>
            state.setCall call request (.returned (.error (.timeout limit))))
      | some ⟨request, .awaiting (.data _ _) _⟩ =>
          request.timeoutMs.map (fun limit =>
            state.setCall call request (.returned (.error (.timeout limit))))
      | _ => none

/-- What a step can be: the inversion of `next`. -/
inductive Taken (digest : List Json → String) (state : Injector) : Event → Injector → Prop
  | start (call : CallId) (request : Request) :
      state.calls call = none → request.WellFormed →
      Taken digest state (.start call request) (state.setCall call request request.firstPhase)
  | found (call : CallId) (request : Request) (key : String) :
      state.calls call = some ⟨request, .looking⟩ → request.key = some key →
      state.recorded key = true →
      Taken digest state (.lookup call true) (state.setCall call request (.returned (.ok ())))
  | missed (call : CallId) (request : Request) (key : String) (succeeded : Bool) :
      state.calls call = some ⟨request, .looking⟩ → request.key = some key →
      (succeeded && state.recorded key) = false →
      Taken digest state (.lookup call succeeded) (state.setCall call request request.writePhase)
  | sent (call : CallId) (request : Request) (stage : Stage) :
      state.calls call = some ⟨request, .sending stage⟩ →
      Taken digest state (.send call true)
        { state.setCall call request (.awaiting stage none) with
          queue := state.queue ++ [⟨call, stage, request.inserts digest stage⟩] }
  | refused (call : CallId) (request : Request) (stage : Stage) :
      state.calls call = some ⟨request, .sending stage⟩ →
      Taken digest state (.send call false)
        (state.setCall call request (request.resume stage (.error channelClosed)))
  | execute (layer : DbLayer) (outcome : Reply) (rows : List AuditRow) (command : Command)
      (rest : List Command) :
      takeFirst layer state.queue = some (command, rest) →
      Taken digest state (.execute layer outcome rows) (state.perform command rest outcome rows)
  | receive (call : CallId) (request : Request) (stage : Stage) (reply : Reply) :
      state.calls call = some ⟨request, .awaiting stage (some reply)⟩ →
      Taken digest state (.receive call)
        (state.setCall call request (request.resume stage reply))
  | timeout (call : CallId) (request : Request) (phase : Phase) (limit : Nat) :
      state.calls call = some ⟨request, phase⟩ →
      Taken digest state (.timeout call)
        (state.setCall call request (.returned (.error (.timeout limit))))

theorem taken_of_next {digest : List Json → String} {state after : Injector} {event : Event}
    (step : state.next digest event = some after) : Taken digest state event after := by
  cases event with
  | start call request =>
      simp only [next, Option.isNone_iff_eq_none] at step
      split at step
      · next guard =>
          cases step
          exact Taken.start call request guard.1 guard.2
      · cases step
  | lookup call succeeded =>
      simp only [next] at step
      split at step
      · next request found =>
          split at step
          · next key named =>
              split at step
              · next hit =>
                  rw [Bool.and_eq_true] at hit
                  obtain ⟨rfl, recorded⟩ := hit
                  cases step
                  exact Taken.found call request key found named recorded
              · next miss =>
                  cases step
                  exact Taken.missed call request key succeeded found named
                    (Bool.eq_false_iff.mpr miss)
          · cases step
      · cases step
  | send call accepted =>
      simp only [next] at step
      split at step
      · next request stage found =>
          cases accepted with
          | true =>
              cases step
              exact Taken.sent call request stage found
          | false =>
              cases step
              exact Taken.refused call request stage found
      · cases step
  | execute layer outcome rows =>
      simp only [next] at step
      split at step
      · next command rest taken =>
          cases step
          exact Taken.execute layer outcome rows command rest taken
      · cases step
  | receive call =>
      simp only [next] at step
      split at step
      · next request stage reply found =>
          cases step
          exact Taken.receive call request stage reply found
      · cases step
  | timeout call =>
      simp only [next] at step
      split at step
      · next request layer rest found =>
          obtain ⟨limit, _, rfl⟩ := Option.map_eq_some_iff.mp step
          exact Taken.timeout call request _ limit found
      · next request layer rest reply found =>
          obtain ⟨limit, _, rfl⟩ := Option.map_eq_some_iff.mp step
          exact Taken.timeout call request _ limit found
      · cases step

end Injector

end Mneme.Store
