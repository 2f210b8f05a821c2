/-
What idempotency keys achieve.

A call is engaged for its key from the moment it has decided to write until its
writes are sent, and further while one of them is queued or applied.  Deciding
is the only step that engages a call, so a key is safe exactly as long as every
call that decides to write is alone with its key.
-/

import Mathlib.Data.List.Count
import Mneme.Store.Inject

namespace Mneme.Store

open Common Library Transition

/-- The layers this call will still send writes to. -/
def Phase.toSend : Phase → List DbLayer
  | .sending (.data layer rest) => layer :: rest
  | .awaiting (.data _ rest) _ => rest
  | _ => []

/-- The call whose decision to write a step may be. -/
def Event.decider? : Event → Option CallId
  | .start call _ => some call
  | .lookup call _ => some call
  | _ => none

namespace Injector

def KeyedBy (state : Injector) (key : String) (call : CallId) : Prop :=
  ∃ current, state.calls call = some current ∧ current.request.key = some key

/-- The data writes in the queues. -/
def queued (state : Injector) : List (CallId × DbLayer) :=
  state.queue.filterMap Command.write?

/-- The call is past its lookup with writes left to send, or one of its writes
is queued, or one has been applied. -/
def Engaged (state : Injector) (call : CallId) : Prop :=
  (∃ current, state.calls call = some current ∧ current.phase.toSend ≠ []) ∨
    (∃ layer, (call, layer) ∈ state.queued) ∨ ∃ layer, (call, layer) ∈ state.applied

/-- No other call is engaged for the key. -/
def Alone (state : Injector) (key : String) (call : CallId) : Prop :=
  ∀ other, state.KeyedBy key other → state.Engaged other → other = call

/-- A call decides to write only while it is alone with its key, and the data
statements add no idempotency rows of their own. -/
def Careful (state : Injector) : Event → Prop
  | .start call (.batch _ order opts) =>
      ∀ key, opts.idempotencyKey = some key → order ≠ [] → state.Alone key call
  | .lookup call succeeded =>
      ∀ request key, state.calls call = some ⟨request, .looking⟩ → request.key = some key →
        (succeeded && state.recorded key) = false → state.Alone key call
  | .execute layer outcome rows =>
      ∀ command later rest, takeFirst layer state.queue = some (command, later) →
        command.stage = .data .audit rest → outcome = .ok () →
          ∀ row, row ∈ rows → row.actor = "idempotency" → row ∈ state.auditLog
  | _ => True

def Observed (state : Injector) (key : String) : Prop :=
  ∃ entry, entry ∈ state.applied ∧ state.KeyedBy key entry.1

/-- What the keys promise. -/
structure Idempotent (state : Injector) : Prop where
  oneCall : ∀ key first second, first ∈ state.applied → second ∈ state.applied →
    state.KeyedBy key first.1 → state.KeyedBy key second.1 → first.1 = second.1
  once : state.applied.Nodup
  single : ∀ call action layer statement opts key,
    state.calls call = some ⟨.single action layer statement opts, .returned (.ok ())⟩ →
      opts.idempotencyKey = some key → state.Observed key
  batch : ∀ call ops order opts,
    state.calls call = some ⟨.batch ops order opts, .returned (.ok ())⟩ →
      ∀ layer, layer ∈ order → (call, layer) ∈ state.applied

/-! ### The requests of the calls never change -/

theorem setCall_self (state : Injector) (call : CallId) (request : Request) (phase : Phase) :
    (state.setCall call request phase).calls call = some ⟨request, phase⟩ :=
  Function.update_self _ _ _

variable {other : CallId}

theorem setCall_other (state : Injector) {call : CallId} (different : other ≠ call)
    (request : Request) (phase : Phase) :
    (state.setCall call request phase).calls other = state.calls other :=
  Function.update_of_ne different _ _

/-- A reply only turns the phase of the call that waits for it. -/
theorem deliver_cases (state : Injector) (command : Command) (outcome : Reply) (call : CallId) :
    state.deliver command outcome call = state.calls call ∨
      (call = command.call ∧ ∃ request,
        state.calls call = some ⟨request, .awaiting command.stage none⟩ ∧
        state.deliver command outcome call =
          some ⟨request, .awaiting command.stage (some outcome)⟩) := by
  have whole : state.deliver command outcome = state.calls ∨ ∃ request,
      state.calls command.call = some ⟨request, .awaiting command.stage none⟩ ∧
        state.deliver command outcome = Function.update state.calls command.call
          (some ⟨request, .awaiting command.stage (some outcome)⟩) := by
    unfold deliver
    split
    · next request stage found =>
        split
        · next same =>
            subst same
            exact Or.inr ⟨request, found, rfl⟩
        · exact Or.inl rfl
    · exact Or.inl rfl
  rcases whole with kept | ⟨request, found, delivered⟩
  · exact Or.inl (congrFun kept call)
  · rw [delivered]
    by_cases here : call = command.call
    · subst here
      exact Or.inr ⟨rfl, request, found, Function.update_self _ _ _⟩
    · exact Or.inl (Function.update_of_ne here _ _)

variable {command : Command}

variable {rest : List Command}

theorem takeFirst_perm {layer : DbLayer} {queue : List Command}
    (taken : takeFirst layer queue = some (command, rest)) : queue.Perm (command :: rest) := by
  induction queue generalizing rest with
  | nil => cases taken
  | cons head tail ih =>
      unfold takeFirst at taken
      split at taken
      · cases taken
        exact List.Perm.refl _
      · obtain ⟨⟨found, others⟩, later, same⟩ := Option.map_eq_some_iff.mp taken
        cases same
        exact ((ih later).cons head).trans (List.Perm.swap _ _ _)

variable {state : Injector}

/-- Where a row of the log after a command comes from. -/
theorem perform_auditLog {outcome : Reply} {rows : List AuditRow} {row : AuditRow}
    (member : row ∈ (state.perform command rest outcome rows).auditLog) :
    row ∈ state.auditLog ∨
      (outcome = .ok () ∧ ∃ later, command.stage = .data .audit later ∧ row ∈ rows) ∨
      row ∈ command.inserts := by
  unfold perform at member
  cases outcome with
  | error error => exact Or.inl member
  | ok done =>
      dsimp only at member
      split at member
      · next impossible => cases impossible
      · next stage => exact Or.inr (Or.inl ⟨rfl, _, stage, member⟩)
      · exact (List.mem_append.mp member).imp_right Or.inr

variable {digest : List Json → String} {after : Injector} {call : CallId} {event : Event}

variable {current : Call}

/-- The phase of at most one call changes in a step, and its request stays. -/
theorem step_request (step : state.next digest event = some after)
    (known : state.calls call = some current) :
    ∃ phase, after.calls call = some ⟨current.request, phase⟩ := by
  have settled : ∀ target request phase,
      (state.calls target = none ∨ ∃ before, state.calls target = some ⟨request, before⟩) →
        ∃ later, (state.setCall target request phase).calls call =
          some ⟨current.request, later⟩ := by
    intro target request phase origin
    by_cases same : call = target
    · subst same
      rcases origin with absent | ⟨before, found⟩
      · rw [known] at absent
        cases absent
      · rw [known] at found
        cases found
        exact ⟨phase, setCall_self _ _ _ _⟩
    · rw [setCall_other _ same, known]
      exact ⟨current.phase, rfl⟩
  cases taken_of_next step with
  | start target request absent => exact settled _ _ _ (Or.inl absent)
  | found target request key found => exact settled _ _ _ (Or.inr ⟨_, found⟩)
  | missed target request key succeeded found => exact settled _ _ _ (Or.inr ⟨_, found⟩)
  | sent target request stage found => exact settled _ _ _ (Or.inr ⟨_, found⟩)
  | refused target request stage found => exact settled _ _ _ (Or.inr ⟨_, found⟩)
  | execute layer outcome rows command rest taken =>
      rcases deliver_cases state command outcome call with kept | ⟨_, request, found, delivered⟩
      · refine ⟨current.phase, ?_⟩
        change state.deliver command outcome call = _
        rw [kept, known]
      · rw [known] at found
        cases found
        exact ⟨_, delivered⟩
  | receive target request stage reply found => exact settled _ _ _ (Or.inr ⟨_, found⟩)
  | timeout target request phase limit found => exact settled _ _ _ (Or.inr ⟨_, found⟩)

variable {key : String}

theorem step_keyedBy (step : state.next digest event = some after)
    (keyed : state.KeyedBy key call) : after.KeyedBy key call := by
  obtain ⟨current, known, named⟩ := keyed
  obtain ⟨phase, later⟩ := step_request step known
  exact ⟨_, later, named⟩

theorem step_applied (step : state.next digest event = some after) {entry : CallId × DbLayer}
    (member : entry ∈ state.applied) : entry ∈ after.applied := by
  cases taken_of_next step with
  | execute layer outcome rows command rest taken =>
      cases outcome with
      | error error => exact member
      | ok done => exact List.mem_append_left _ member
  | _ => exact member

theorem step_observed (step : state.next digest event = some after)
    (observed : state.Observed key) : after.Observed key := by
  obtain ⟨entry, member, keyed⟩ := observed
  exact ⟨entry, step_applied step member, step_keyedBy step keyed⟩

/-! ### What a call still has to write -/

variable (request : Request)

@[simp]
theorem writePhase_toSend : request.writePhase.toSend = request.layers := by
  unfold Request.writePhase
  split
  · next none => rw [none]; rfl
  · next layer rest layers => rw [layers]; rfl

@[simp]
theorem recordPhase_toSend : request.recordPhase.toSend = [] := by
  unfold Request.recordPhase
  split <;> rfl

variable (stage : Stage)

/-- A reply leaves at most the layers that come after the one it is for. -/
theorem resume_toSend (reply : Reply) :
    (request.resume stage reply).toSend = [] ∨
      (request.resume stage reply).toSend = (Phase.awaiting stage (some reply)).toSend := by
  cases stage with
  | data layer rest =>
      cases reply with
      | error error => exact Or.inl rfl
      | ok done =>
          cases rest with
          | cons next later => exact Or.inr rfl
          | nil =>
              left
              cases request with
              | batch ops order opts => rfl
              | single action layer statement opts =>
                  change (if opts.audit then Phase.sending .audit
                    else Request.recordPhase _).toSend = []
                  split
                  · rfl
                  · exact recordPhase_toSend _
  | audit => exact Or.inl (recordPhase_toSend request)
  | record => exact Or.inl rfl

theorem refused_toSend (error : DbError) :
    (request.resume stage (.error error)).toSend = [] := by
  cases stage with
  | data layer rest => rfl
  | audit => exact recordPhase_toSend request
  | record => rfl

/-- The layers of the writes a call may yet send. -/
def budget (current : Call) : List DbLayer :=
  match current.phase with
  | .looking => current.request.layers
  | phase => phase.toSend

theorem budget_eq_toSend (decided : current.phase ≠ .looking) :
    budget current = current.phase.toSend := by
  unfold budget
  split
  · next looking => exact absurd looking decided
  · rfl

theorem recordPhase_ne_looking : request.recordPhase ≠ .looking := by
  unfold Request.recordPhase
  split <;> exact fun impossible => nomatch impossible

theorem writePhase_ne_looking : request.writePhase ≠ .looking := by
  unfold Request.writePhase
  split <;> exact fun impossible => nomatch impossible

theorem resume_ne_looking (reply : Reply) :
    request.resume stage reply ≠ .looking := by
  unfold Request.resume
  split
  · exact fun impossible => nomatch impossible
  · exact fun impossible => nomatch impossible
  · split
    · split
      · exact fun impossible => nomatch impossible
      · exact recordPhase_ne_looking _
    · exact fun impossible => nomatch impossible
  · exact recordPhase_ne_looking request
  · exact fun impossible => nomatch impossible

theorem budget_firstPhase : budget ⟨request, request.firstPhase⟩ = request.layers := by
  cases request with
  | single action layer statement opts =>
      cases named : opts.idempotencyKey with
      | none => simp only [budget, Request.firstPhase, named, Phase.toSend, Request.layers]
      | some key => simp only [budget, Request.firstPhase, named]
  | batch ops order opts =>
      cases order with
      | nil => rfl
      | cons layer rest => rfl

variable {request : Request}

theorem layers_nodup (formed : request.WellFormed) : request.layers.Nodup := by
  cases request with
  | single action layer statement opts => exact List.nodup_singleton layer
  | batch ops order opts =>
      exact (List.Perm.nodup_iff formed).mpr (Database.byLayer_keys_nodup _)

/-! ### Every write is executed at most once -/

theorem filterMap_singleton (command : Command) :
    [command].filterMap Command.write? = command.write?.toList := by
  cases written : command.write? with
  | none => rw [List.filterMap_cons_none written]; rfl
  | some value => rw [List.filterMap_cons_some written]; rfl

/-- A call nobody started has no writes; every other write is still to be sent,
queued or applied, once. -/
structure Accounted (state : Injector) : Prop where
  known : ∀ call, state.calls call = none →
    ∀ layer, (call, layer) ∉ state.applied ∧ (call, layer) ∉ state.queued
  once : ∀ call current, state.calls call = some current → ∀ layer,
    state.applied.count (call, layer) + state.queued.count (call, layer) +
      (budget current).count layer ≤ 1

variable {before phase : Phase}

/-- A step that only turns one call's phase, to one with no more to send. -/
theorem setCall_accounted (accounted : Accounted state)
    (found : state.calls call = some ⟨request, before⟩)
    (less : ∀ layer, (budget ⟨request, phase⟩).count layer ≤
      (budget ⟨request, before⟩).count layer) : Accounted (state.setCall call request phase) := by
  constructor
  · intro other absent
    apply accounted.known other
    by_cases same : other = call
    · subst same
      rw [setCall_self] at absent
      cases absent
    · rwa [setCall_other _ same] at absent
  · intro other current present layer
    by_cases same : other = call
    · subst same
      rw [setCall_self] at present
      cases present
      have once := accounted.once other _ found layer
      have lower := less layer
      change state.applied.count _ + state.queued.count _ + _ ≤ 1
      omega
    · rw [setCall_other _ same] at present
      exact accounted.once other current present layer

theorem start_accounted (accounted : Accounted state)
    (absent : state.calls call = none) (formed : request.WellFormed) :
    Accounted (state.setCall call request request.firstPhase) := by
  constructor
  · intro other missing
    apply accounted.known other
    by_cases same : other = call
    · rw [same]
      exact absent
    · rwa [setCall_other _ same] at missing
  · intro other current present layer
    by_cases same : other = call
    · subst same
      rw [setCall_self] at present
      cases present
      obtain ⟨notApplied, notQueued⟩ := accounted.known other absent layer
      have noneApplied := List.count_eq_zero.mpr notApplied
      have noneQueued := List.count_eq_zero.mpr notQueued
      have single := List.nodup_iff_count_le_one.mp (layers_nodup formed) layer
      rw [budget_firstPhase]
      change state.applied.count _ + state.queued.count _ + _ ≤ 1
      omega
    · rw [setCall_other _ same] at present
      exact accounted.once other current present layer

variable {stage : Stage}

theorem sent_accounted (accounted : Accounted state) (inserts : List AuditRow)
    (found : state.calls call = some ⟨request, .sending stage⟩) :
    Accounted { state.setCall call request (.awaiting stage none) with
      queue := state.queue ++ [⟨call, stage, inserts⟩] } := by
  have moved : ∀ layer, (Command.write? ⟨call, stage, inserts⟩).toList.count (call, layer) +
      (budget ⟨request, .awaiting stage none⟩).count layer =
        (budget ⟨request, .sending stage⟩).count layer := by
    intro layer
    cases stage with
    | audit => rfl
    | record => rfl
    | data first rest =>
        change [(call, first)].count (call, layer) + rest.count layer =
          (first :: rest).count layer
        by_cases same : first = layer
        · subst same
          rw [List.count_singleton_self, List.count_cons_self, Nat.add_comm]
        · have apart : (call, layer) ∉ [(call, first)] := by
            intro member
            exact same (congrArg Prod.snd (List.mem_singleton.mp member)).symm
          rw [List.count_eq_zero.mpr apart, List.count_cons_of_ne same, Nat.zero_add]
  have grown : ∀ entry, List.count entry
      ((state.queue ++ [Command.mk call stage inserts]).filterMap Command.write?) =
        state.queued.count entry +
          (Command.write? ⟨call, stage, inserts⟩).toList.count entry := by
    intro entry
    rw [List.filterMap_append, List.count_append, filterMap_singleton]
    rfl
  have owner : ∀ other layer, other ≠ call →
      (Command.write? ⟨call, stage, inserts⟩).toList.count (other, layer) = 0 := by
    intro other layer different
    cases stage with
    | audit => rfl
    | record => rfl
    | data first rest =>
        apply List.count_eq_zero.mpr
        intro member
        exact different (congrArg Prod.fst (List.mem_singleton.mp member))
  constructor
  · intro other absent layer
    by_cases same : other = call
    · subst same
      change (state.setCall other request _).calls other = none at absent
      rw [setCall_self] at absent
      cases absent
    · change (state.setCall call request _).calls other = none at absent
      rw [setCall_other _ same] at absent
      obtain ⟨notApplied, notQueued⟩ := accounted.known other absent layer
      refine ⟨notApplied, ?_⟩
      apply List.count_eq_zero.mp
      have none := List.count_eq_zero.mpr notQueued
      rw [queued, grown, none, owner other layer same]
  · intro other current present layer
    rw [queued, grown]
    change state.applied.count _ + _ + _ ≤ 1
    by_cases same : other = call
    · subst same
      change (state.setCall other request _).calls other = some current at present
      rw [setCall_self] at present
      cases present
      have once := accounted.once other _ found layer
      have sum := moved layer
      omega
    · change (state.setCall call request _).calls other = some current at present
      rw [setCall_other _ same] at present
      have once := accounted.once other current present layer
      rw [owner other layer same]
      omega

theorem perform_accounted (accounted : Accounted state) {layer : DbLayer}
    (outcome : Reply) (rows : List AuditRow)
    (taken : takeFirst layer state.queue = some (command, rest)) :
    Accounted (state.perform command rest outcome rows) := by
  have split : ∀ entry, state.queued.count entry =
      command.write?.toList.count entry + (rest.filterMap Command.write?).count entry := by
    intro entry
    rw [queued, ((takeFirst_perm taken).filterMap Command.write?).count_eq, ← filterMap_singleton,
      ← List.count_append, ← List.filterMap_append]
    rfl
  have moved : ∀ entry, (state.perform command rest outcome rows).applied.count entry +
      (rest.filterMap Command.write?).count entry ≤
        state.applied.count entry + state.queued.count entry := by
    intro entry
    have sum := split entry
    cases outcome with
    | error error =>
        change state.applied.count entry + _ ≤ _
        omega
    | ok done =>
        change (state.applied ++ command.write?.toList).count entry + _ ≤ _
        rw [List.count_append]
        omega
  constructor
  · intro call absent target
    change state.deliver command outcome call = none at absent
    rcases deliver_cases state command outcome call with kept | ⟨_, request, found, delivered⟩
    · rw [kept] at absent
      obtain ⟨notApplied, notQueued⟩ := accounted.known call absent target
      have noneApplied := List.count_eq_zero.mpr notApplied
      have noneQueued := List.count_eq_zero.mpr notQueued
      have sum := moved (call, target)
      constructor
      · apply List.count_eq_zero.mp
        omega
      · apply List.count_eq_zero.mp
        change (rest.filterMap Command.write?).count _ = 0
        omega
    · rw [delivered] at absent
      cases absent
  · intro call current present target
    change state.deliver command outcome call = some current at present
    have sum := moved (call, target)
    change _ + (rest.filterMap Command.write?).count _ + _ ≤ 1
    rcases deliver_cases state command outcome call with kept | ⟨_, request, found, delivered⟩
    · rw [kept] at present
      have once := accounted.once call current present target
      omega
    · rw [delivered] at present
      cases present
      have once := accounted.once call _ found target
      have same : budget ⟨request, .awaiting command.stage (some outcome)⟩ =
          budget ⟨request, .awaiting command.stage none⟩ := by
        cases command.stage <;> rfl
      rw [same]
      omega

theorem step_accounted (accounted : Accounted state) (step : state.next digest event = some after) :
    Accounted after := by
  cases taken_of_next step with
  | start call request absent formed => exact start_accounted accounted absent formed
  | found call request key found =>
      exact setCall_accounted accounted found (fun layer => Nat.zero_le _)
  | missed call request key succeeded found =>
      apply setCall_accounted accounted found
      intro layer
      rw [budget_eq_toSend (writePhase_ne_looking request), writePhase_toSend]
      exact Nat.le_refl _
  | sent call request stage found => exact sent_accounted accounted _ found
  | refused call request stage found =>
      apply setCall_accounted accounted found
      intro layer
      rw [budget_eq_toSend (resume_ne_looking _ _ _), refused_toSend]
      exact Nat.zero_le _
  | execute layer outcome rows command rest taken =>
      exact perform_accounted accounted outcome rows taken
  | receive call request stage reply found =>
      apply setCall_accounted accounted found
      intro layer
      rw [budget_eq_toSend (resume_ne_looking _ _ _)]
      rcases resume_toSend request stage reply with nothing | same
      · rw [nothing]
        exact Nat.zero_le _
      · rw [same]
        exact Nat.le_refl _
  | timeout call request phase limit found =>
      exact setCall_accounted accounted found (fun layer => Nat.zero_le _)

/-! ### What a call and a record row tell is true -/

/-- The layers whose write the call does not know to be applied. -/
def unwritten : Phase → List DbLayer
  | .sending (.data layer rest) => layer :: rest
  | .awaiting (.data _ rest) (some (.ok ())) => rest
  | .awaiting (.data layer rest) _ => layer :: rest
  | _ => []

/-- All of the call's writes are applied but the ones it still works on. -/
def Progressed (state : Injector) (call : CallId) (current : Call) : Prop :=
  ∀ layer, layer ∈ current.request.layers →
    layer ∈ unwritten current.phase ∨ (call, layer) ∈ state.applied

def Settled (state : Injector) (call : CallId) (current : Call) : Prop :=
  match current.phase, current.request with
  | .looking, .single .. => True
  | .looking, .batch .. => False
  | .returned (.error _), _ => True
  | .returned (.ok ()), .single _ _ _ opts =>
      ∀ key, opts.idempotencyKey = some key → state.Observed key
  | _, _ => state.Progressed call current

structure Truthful (state : Injector) : Prop where
  settled : ∀ call current, state.calls call = some current → state.Settled call current
  rows : ∀ row, row ∈ state.auditLog → row.actor = "idempotency" → state.Observed row.target
  inserts : ∀ command, command ∈ state.queue → ∀ row, row ∈ command.inserts →
    row.actor = "idempotency" → state.Observed row.target

theorem Settled.step (taken : state.next digest event = some after)
    (settled : state.Settled call current) : after.Settled call current := by
  have progressed : state.Progressed call current → after.Progressed call current := by
    intro before layer member
    exact (before layer member).imp_right (fun applied => step_applied taken applied)
  unfold Settled at settled ⊢
  split at settled
  · trivial
  · exact settled
  · trivial
  · intro key named
    exact step_observed taken (settled key named)
  · exact progressed settled

/-- A call that has everything applied may go on, or return. -/
theorem settled_of_applied {phase : Phase}
    (known : ∃ before, state.calls call = some ⟨request, before⟩) (decided : phase ≠ .looking)
    (applied : ∀ layer, layer ∈ request.layers → (call, layer) ∈ state.applied) :
    state.Settled call ⟨request, phase⟩ := by
  have progressed : state.Progressed call ⟨request, phase⟩ :=
    fun layer member => Or.inr (applied layer member)
  cases phase with
  | looking => exact absurd rfl decided
  | sending stage => exact progressed
  | awaiting stage reply => exact progressed
  | returned result =>
      cases result with
      | error error => trivial
      | ok done =>
          cases request with
          | batch ops order opts => exact progressed
          | single action layer statement opts =>
              intro key named
              obtain ⟨before, found⟩ := known
              exact ⟨(call, layer), applied layer (List.mem_singleton_self _), _, found, named⟩

theorem settled_resume {reply : Reply} (known : ∃ before, state.calls call = some ⟨request, before⟩)
    (progressed : state.Progressed call ⟨request, .awaiting stage (some reply)⟩) :
    state.Settled call ⟨request, request.resume stage reply⟩ := by
  have finished : unwritten (.awaiting stage (some reply)) = [] →
      state.Settled call ⟨request, request.resume stage reply⟩ := by
    intro nothing
    apply settled_of_applied known (resume_ne_looking request stage reply)
    intro layer member
    apply (progressed layer member).resolve_left
    rw [nothing]
    exact List.not_mem_nil
  cases stage with
  | audit => exact finished rfl
  | record => exact finished rfl
  | data layer rest =>
      cases reply with
      | error error => trivial
      | ok done =>
          cases rest with
          | nil => exact finished rfl
          | cons next later => exact progressed

theorem settled_firstPhase (state : Injector) (call : CallId) (request : Request) :
    state.Settled call ⟨request, request.firstPhase⟩ := by
  cases request with
  | single action layer statement opts =>
      cases named : opts.idempotencyKey with
      | some key =>
          simp only [Settled, Request.firstPhase, named]
      | none =>
          simp only [Settled, Request.firstPhase, named]
          exact fun target member => Or.inl member
  | batch ops order opts =>
      cases order with
      | nil => exact fun target member => absurd member List.not_mem_nil
      | cons layer rest => exact fun target member => Or.inl member

/-- The row that records a key is inserted by a call whose write is applied. -/
theorem settled_inserts (found : state.calls call = some ⟨request, .sending stage⟩)
    (settled : state.Settled call ⟨request, .sending stage⟩) :
    ∀ row, row ∈ request.inserts digest stage → row.actor = "idempotency" →
      state.Observed row.target := by
  intro row member acts
  cases stage with
  | data layer rest => exact absurd member List.not_mem_nil
  | audit =>
      cases request with
      | batch ops order opts => exact absurd member List.not_mem_nil
      | single action layer statement opts =>
          have different : ¬ "inject" = "idempotency" := by
            decide
          rw [List.mem_singleton.mp member] at acts
          exact absurd acts different
  | record =>
      cases request with
      | batch ops order opts => exact absurd member List.not_mem_nil
      | single action layer statement opts =>
          obtain ⟨key, named, same⟩ := List.mem_map.mp member
          have applied := (settled layer (List.mem_singleton_self layer)).resolve_left
            List.not_mem_nil
          rw [← same]
          exact ⟨(call, layer), applied, _, found, Option.mem_toList.mp named⟩

/-- A step that turns one call's phase and writes nothing. -/
theorem setCall_truthful (truthful : Truthful state) {phase : Phase}
    (keeps : ∀ other current, state.Settled other current →
      (state.setCall call request phase).Settled other current)
    (observes : ∀ key, state.Observed key → (state.setCall call request phase).Observed key)
    (settled : (state.setCall call request phase).Settled call ⟨request, phase⟩) :
    Truthful (state.setCall call request phase) := by
  constructor
  · intro other current present
    by_cases same : other = call
    · subst same
      rw [setCall_self] at present
      cases present
      exact settled
    · rw [setCall_other _ same] at present
      exact keeps other current (truthful.settled other current present)
  · intro row member acts
    exact observes _ (truthful.rows row member acts)
  · intro command member row inserted acts
    exact observes _ (truthful.inserts command member row inserted acts)

theorem step_truthful (truthful : Truthful state) (careful : state.Careful event)
    (step : state.next digest event = some after) : Truthful after := by
  have keeps : ∀ other current, state.Settled other current → after.Settled other current :=
    fun _ _ settled => settled.step step
  have observes : ∀ key, state.Observed key → after.Observed key :=
    fun _ observed => step_observed step observed
  cases taken_of_next step with
  | start call request absent formed =>
      exact setCall_truthful truthful keeps observes (settled_firstPhase _ _ _)
  | found call request key found named recorded =>
      apply setCall_truthful truthful keeps observes
      have alone := truthful.settled call _ found
      cases request with
      | batch ops order opts => exact alone.elim
      | single action layer statement opts =>
          intro other same
          obtain ⟨row, member, matched⟩ := List.any_eq_true.mp recorded
          obtain ⟨acts, target⟩ := of_decide_eq_true matched
          have equal : key = other := Option.some.inj (named.symm.trans same)
          rw [← equal, ← target]
          exact observes _ (truthful.rows row member acts)
  | missed call request key succeeded found named miss =>
      apply setCall_truthful truthful keeps observes
      have alone := truthful.settled call _ found
      cases request with
      | batch ops order opts => exact alone.elim
      | single action layer statement opts => exact fun target member => Or.inl member
  | sent call request stage found =>
      have before := truthful.settled call _ found
      have waiting : state.Settled call ⟨request, .awaiting stage none⟩ := by
        cases stage <;> exact before
      refine ⟨?_, fun row member acts => observes _ (truthful.rows row member acts), ?_⟩
      · intro other current present
        change (state.setCall call request _).calls other = some current at present
        by_cases same : other = call
        · subst same
          rw [setCall_self] at present
          cases present
          exact keeps _ _ waiting
        · rw [setCall_other _ same] at present
          exact keeps _ _ (truthful.settled other current present)
      · intro command member row inserted acts
        rcases List.mem_append.mp member with old | new
        · exact observes _ (truthful.inserts command old row inserted acts)
        · rw [List.mem_singleton.mp new] at inserted
          exact observes _ (settled_inserts found before row inserted acts)
  | refused call request stage found =>
      apply setCall_truthful truthful keeps observes
      have before := truthful.settled call _ found
      have failed : state.Progressed call
          ⟨request, .awaiting stage (some (.error channelClosed))⟩ := by
        cases stage <;> exact before
      exact keeps _ _ (settled_resume ⟨_, found⟩ failed)
  | execute layer outcome rows command rest taken =>
      have queued : command ∈ state.queue :=
        (takeFirst_perm taken).mem_iff.mpr List.mem_cons_self
      refine ⟨?_, ?_, ?_⟩
      · intro call current present
        change state.deliver command outcome call = some current at present
        rcases deliver_cases state command outcome call with
          kept | ⟨same, request, found, delivered⟩
        · rw [kept] at present
          exact keeps _ _ (truthful.settled call current present)
        · rw [delivered] at present
          cases present
          have before := truthful.settled call _ found
          have progressed : state.Progressed call ⟨request, .awaiting command.stage none⟩ := by
            cases stage : command.stage <;> rw [stage] at before <;> exact before
          intro target member
          rcases progressed target member with missing | applied
          · cases stage : command.stage with
            | audit =>
                rw [stage] at missing
                exact absurd missing List.not_mem_nil
            | record =>
                rw [stage] at missing
                exact absurd missing List.not_mem_nil
            | data first later =>
                rw [stage] at missing
                cases outcome with
                | error error => exact Or.inl missing
                | ok done =>
                    rcases List.mem_cons.mp missing with here | further
                    · right
                      apply List.mem_append_right
                      rw [Option.mem_toList, Command.write?, stage, here, same]
                    · exact Or.inl further
          · exact Or.inr (step_applied step applied)
      · intro row member acts
        rcases perform_auditLog member with old | ⟨done, later, stage, written⟩ | inserted
        · exact observes _ (truthful.rows row old acts)
        · have old := careful command rest later taken stage done row written acts
          exact observes _ (truthful.rows row old acts)
        · exact observes _ (truthful.inserts command queued row inserted acts)
      · intro other member row inserted acts
        have old : other ∈ state.queue :=
          (takeFirst_perm taken).mem_iff.mpr (List.mem_cons_of_mem _ member)
        exact observes _ (truthful.inserts other old row inserted acts)
  | receive call request stage reply found =>
      apply setCall_truthful truthful keeps observes
      have before := truthful.settled call _ found
      have progressed : state.Progressed call ⟨request, .awaiting stage (some reply)⟩ := by
        cases stage <;> exact before
      exact keeps _ _ (settled_resume ⟨_, found⟩ progressed)
  | timeout call request phase limit found =>
      exact setCall_truthful truthful keeps observes trivial

/-! ### One call for each key -/

def Exclusive (state : Injector) : Prop :=
  ∀ key first second, state.KeyedBy key first → state.KeyedBy key second →
    state.Engaged first → state.Engaged second → first = second

theorem keyedBy_setCall (found : state.calls call = some ⟨request, before⟩)
    (keyed : (state.setCall call request phase).KeyedBy key other) : state.KeyedBy key other := by
  obtain ⟨current, present, named⟩ := keyed
  by_cases same : other = call
  · subst same
    rw [setCall_self] at present
    cases present
    exact ⟨_, found, named⟩
  · rw [setCall_other _ same] at present
    exact ⟨_, present, named⟩

/-- A step that leaves a call no more to send engages nobody. -/
theorem engaged_setCall (found : state.calls call = some ⟨request, before⟩)
    (less : phase.toSend ≠ [] → before.toSend ≠ [])
    (engaged : (state.setCall call request phase).Engaged other) : state.Engaged other := by
  rcases engaged with ⟨current, present, sends⟩ | written
  · by_cases same : other = call
    · subst same
      rw [setCall_self] at present
      cases present
      exact Or.inl ⟨_, found, less sends⟩
    · rw [setCall_other _ same] at present
      exact Or.inl ⟨_, present, sends⟩
  · exact Or.inr written

/-- Whoever is engaged after a step was engaged before it, or has just decided
to write, alone with its key. -/
theorem step_engaged (accounted : Accounted state) (careful : state.Careful event)
    (step : state.next digest event = some after)
    (keyed : after.KeyedBy key call) (engaged : after.Engaged call) :
    (state.KeyedBy key call ∧ state.Engaged call) ∨
      (event.decider? = some call ∧ state.Alone key call) := by
  cases taken_of_next step with
  | start target request absent formed =>
      by_cases same : call = target
      · subst same
        obtain ⟨current, present, named⟩ := keyed
        rw [setCall_self] at present
        cases present
        rcases engaged with ⟨current, present, sends⟩ | ⟨layer, queued⟩ | ⟨layer, applied⟩
        · rw [setCall_self] at present
          cases present
          cases request with
          | single action layer statement opts =>
              change opts.idempotencyKey = some key at named
              simp only [Request.firstPhase, named] at sends
              exact absurd rfl sends
          | batch ops order opts =>
              refine Or.inr ⟨rfl, careful key named ?_⟩
              intro empty
              rw [empty] at sends
              exact sends rfl
        · exact absurd queued (accounted.known call absent layer).2
        · exact absurd applied (accounted.known call absent layer).1
      · left
        constructor
        · obtain ⟨current, present, named⟩ := keyed
          rw [setCall_other _ same] at present
          exact ⟨current, present, named⟩
        · rcases engaged with ⟨current, present, sends⟩ | written
          · rw [setCall_other _ same] at present
            exact Or.inl ⟨current, present, sends⟩
          · exact Or.inr written
  | found target request other present named recorded =>
      exact Or.inl ⟨keyedBy_setCall present keyed,
        engaged_setCall present (fun sends => absurd rfl sends) engaged⟩
  | missed target request other succeeded present named miss =>
      by_cases same : call = target
      · subst same
        obtain ⟨current, shown, asked⟩ := keyedBy_setCall present keyed
        rw [present] at shown
        cases shown
        have equal : other = key := Option.some.inj (named.symm.trans asked)
        subst equal
        exact Or.inr ⟨rfl, careful request other present named miss⟩
      · left
        refine ⟨keyedBy_setCall present keyed, ?_⟩
        rcases engaged with ⟨current, shown, sends⟩ | written
        · rw [setCall_other _ same] at shown
          exact Or.inl ⟨current, shown, sends⟩
        · exact Or.inr written
  | sent target request stage present =>
      left
      refine ⟨keyedBy_setCall present keyed, ?_⟩
      rcases engaged with waiting | ⟨layer, queued⟩ | applied
      · have less : (Phase.awaiting stage none).toSend ≠ [] →
            (Phase.sending stage).toSend ≠ [] := by
          intro sends
          cases stage with
          | data first rest => exact List.cons_ne_nil first rest
          | audit => exact absurd rfl sends
          | record => exact absurd rfl sends
        exact engaged_setCall present less (Or.inl waiting)
      · rw [Injector.queued, List.filterMap_append, List.mem_append] at queued
        rcases queued with old | new
        · exact Or.inr (Or.inl ⟨layer, old⟩)
        · rw [filterMap_singleton, Option.mem_toList] at new
          cases stage with
          | audit => cases new
          | record => cases new
          | data first rest =>
              cases new
              exact Or.inl ⟨_, present, List.cons_ne_nil layer rest⟩
      · exact Or.inr (Or.inr applied)
  | refused target request stage present =>
      refine Or.inl ⟨keyedBy_setCall present keyed, engaged_setCall present ?_ engaged⟩
      intro sends
      rw [refused_toSend] at sends
      exact absurd rfl sends
  | execute layer outcome rows command rest taken =>
      left
      constructor
      · obtain ⟨current, present, named⟩ := keyed
        change state.deliver command outcome call = some current at present
        rcases deliver_cases state command outcome call with
          kept | ⟨same, request, found, delivered⟩
        · rw [kept] at present
          exact ⟨current, present, named⟩
        · rw [delivered] at present
          cases present
          exact ⟨_, found, named⟩
      · have queued : ∀ target, target ∈ command.write?.toList ++ rest.filterMap Command.write? →
            target ∈ state.queued := by
          intro target member
          rw [← filterMap_singleton, ← List.filterMap_append] at member
          exact ((takeFirst_perm taken).filterMap Command.write?).mem_iff.mpr member
        rcases engaged with ⟨current, present, sends⟩ | ⟨target, waiting⟩ | ⟨target, applied⟩
        · change state.deliver command outcome call = some current at present
          rcases deliver_cases state command outcome call with
            kept | ⟨same, request, found, delivered⟩
          · rw [kept] at present
            exact Or.inl ⟨current, present, sends⟩
          · rw [delivered] at present
            cases present
            refine Or.inl ⟨_, found, ?_⟩
            cases stage : command.stage <;> rw [stage] at sends <;> exact sends
        · exact Or.inr (Or.inl ⟨target, queued _ (List.mem_append_right _ waiting)⟩)
        · cases outcome with
          | error error => exact Or.inr (Or.inr ⟨target, applied⟩)
          | ok done =>
              rcases List.mem_append.mp applied with old | new
              · exact Or.inr (Or.inr ⟨target, old⟩)
              · exact Or.inr (Or.inl ⟨target, queued _ (List.mem_append_left _ new)⟩)
  | receive target request stage reply present =>
      refine Or.inl ⟨keyedBy_setCall present keyed, engaged_setCall present ?_ engaged⟩
      intro sends
      rcases resume_toSend request stage reply with nothing | same
      · exact absurd nothing sends
      · rwa [same] at sends
  | timeout target request phase limit present =>
      exact Or.inl ⟨keyedBy_setCall present keyed,
        engaged_setCall present (fun sends => absurd rfl sends) engaged⟩

theorem step_exclusive
    (accounted : Accounted state) (exclusive : Exclusive state) (careful : state.Careful event)
    (step : state.next digest event = some after) : Exclusive after := by
  intro key first second firstKeyed secondKeyed firstEngaged secondEngaged
  rcases step_engaged accounted careful step firstKeyed firstEngaged with
    ⟨firstKeyed, firstEngaged⟩ | ⟨firstDecides, firstAlone⟩
  · rcases step_engaged accounted careful step secondKeyed secondEngaged with
      ⟨secondKeyed, secondEngaged⟩ | ⟨_, secondAlone⟩
    · exact exclusive key first second firstKeyed secondKeyed firstEngaged secondEngaged
    · exact secondAlone first firstKeyed firstEngaged
  · rcases step_engaged accounted careful step secondKeyed secondEngaged with
      ⟨secondKeyed, secondEngaged⟩ | ⟨secondDecides, _⟩
    · exact (firstAlone second secondKeyed secondEngaged).symm
    · rw [firstDecides] at secondDecides
      exact Option.some.inj secondDecides

/-! ### Whole runs -/

structure Consistent (state : Injector) : Prop where
  accounted : Accounted state
  truthful : Truthful state
  exclusive : Exclusive state

theorem empty_consistent : Consistent empty := by
  refine ⟨⟨?_, ?_⟩, ⟨?_, ?_, ?_⟩, ?_⟩
  · exact fun call absent layer => ⟨List.not_mem_nil, List.not_mem_nil⟩
  · intro call current present
    cases present
  · intro call current present
    cases present
  · exact fun row member => absurd member List.not_mem_nil
  · exact fun command member => absurd member List.not_mem_nil
  · rintro key first second ⟨current, present, _⟩
    cases present

theorem idempotent_of_consistent (consistent : Consistent state) : Idempotent state := by
  obtain ⟨accounted, truthful, exclusive⟩ := consistent
  constructor
  · intro key first second inFirst inSecond firstKeyed secondKeyed
    exact exclusive key first.1 second.1 firstKeyed secondKeyed
      (Or.inr (Or.inr ⟨first.2, inFirst⟩)) (Or.inr (Or.inr ⟨second.2, inSecond⟩))
  · apply List.nodup_iff_count_le_one.mpr
    rintro ⟨call, layer⟩
    cases found : state.calls call with
    | none =>
        rw [List.count_eq_zero.mpr (accounted.known call found layer).1]
        exact Nat.zero_le 1
    | some current =>
        have once := accounted.once call current found layer
        omega
  · intro call action layer statement opts key present named
    exact truthful.settled call _ present key named
  · intro call ops order opts present layer member
    exact (truthful.settled call _ present layer member).resolve_left List.not_mem_nil

/-- As long as every call that decides to write is alone with its key, each
key's write is applied at most once and every Ok tells the truth. -/
theorem idempotent_of_careful {digest : List Json → String}
    {history : List (Injector × Event)} {final : Injector}
    (run : Run (next digest) empty history final) (careful : Respects Careful history) :
    Throughout Idempotent history final := by
  have held := run.throughout_of_respects empty_consistent
    (fun state event after consistent allowed step =>
      ⟨step_accounted consistent.accounted step,
        step_truthful consistent.truthful allowed step,
        step_exclusive consistent.accounted consistent.exclusive allowed step⟩) careful
  exact ⟨fun taken member => idempotent_of_consistent (held.1 taken member),
    idempotent_of_consistent held.2⟩

def keyedInsert : Request :=
  .single .insert .graph ("INSERT INTO nodes", []) { idempotencyKey := some "import-1" }

theorem idempotent_of_careful_insert :
    ∃ history final, Run (next (fun _ => "")) empty history final ∧
      history.map Prod.snd = [.start 0 keyedInsert, .lookup 0 true, .send 0 true,
        .execute .graph (.ok ()) []] ∧
      final.applied = [(0, .graph)] ∧ Throughout Idempotent history final := by
  let started := empty.setCall 0 keyedInsert keyedInsert.firstPhase
  let decided := started.setCall 0 keyedInsert keyedInsert.writePhase
  let command : Command := ⟨0, .data .graph [], []⟩
  let sent : Injector :=
    { decided.setCall 0 keyedInsert (.awaiting (.data .graph []) none) with queue := [command] }
  have start : next (fun _ => "") empty (.start 0 keyedInsert) = some started := rfl
  have lookup : next (fun _ => "") started (.lookup 0 true) = some decided := rfl
  have send : next (fun _ => "") decided (.send 0 true) = some sent := rfl
  have execute : next (fun _ => "") sent (.execute .graph (.ok ()) []) =
      some (sent.perform command [] (.ok ()) []) := rfl
  have alone : started.Alone "import-1" 0 := by
    rintro other ⟨current, present, _⟩ _
    by_contra different
    change (empty.setCall 0 keyedInsert _).calls other = _ at present
    rw [setCall_other _ different] at present
    cases present
  have careful : Respects Careful ((([] ++ [(empty, Event.start 0 keyedInsert)]) ++
      [(started, .lookup 0 true)]) ++ [(decided, .send 0 true)] ++
      [(sent, .execute .graph (.ok ()) [])]) := by
    refine (respects_append_iff _ _ _ _).mpr ⟨(respects_append_iff _ _ _ _).mpr
      ⟨(respects_append_iff _ _ _ _).mpr ⟨(respects_append_iff _ _ _ _).mpr
        ⟨fun taken member => absurd member List.not_mem_nil, trivial⟩, ?_⟩, trivial⟩, ?_⟩
    · intro request key present named _
      cases present
      cases named
      exact alone
    · intro _ _ _ _ _ _ row member
      exact absurd member List.not_mem_nil
  have run := (((Run.start.step start).step lookup).step send).step execute
  exact ⟨_, _, run, rfl, rfl, idempotent_of_careful run careful⟩

/-- The first call times out with its write in the queue; its retry finds no
record of the key and sends the write again. -/
theorem timed_out_retry_applies_twice :
    ∃ history final, Run (next (fun _ => "")) empty history final ∧
      history.map Prod.snd = [.start 0 keyedInsert, .lookup 0 true, .send 0 true, .timeout 0,
        .start 1 keyedInsert, .lookup 1 true, .send 1 true,
        .execute .graph (.ok ()) [], .execute .graph (.ok ()) []] ∧
      final.applied = [(0, .graph), (1, .graph)] ∧ ¬ Idempotent final := by
  obtain ⟨history, final, run, labels, tested⟩ := Run.of_trace (next (fun _ => "")) empty
    [.start 0 keyedInsert, .lookup 0 true, .send 0 true, .timeout 0, .start 1 keyedInsert,
      .lookup 1 true, .send 1 true, .execute .graph (.ok ()) [], .execute .graph (.ok ()) []]
    (fun _ final => final.applied = [(0, .graph), (1, .graph)] ∧
      (final.calls 0).bind (fun current => current.request.key) = some "import-1" ∧
      (final.calls 1).bind (fun current => current.request.key) = some "import-1") (by decide)
  obtain ⟨both, firstKey, secondKey⟩ := of_decide_eq_true tested
  refine ⟨history, final, run, labels, both, ?_⟩
  intro idempotent
  obtain ⟨first, firstKnown, firstNamed⟩ := Option.bind_eq_some_iff.mp firstKey
  obtain ⟨second, secondKnown, secondNamed⟩ := Option.bind_eq_some_iff.mp secondKey
  have same := idempotent.oneCall "import-1" (0, .graph) (1, .graph)
    (by rw [both]; exact List.mem_cons_self)
    (by rw [both]; exact List.mem_cons_of_mem _ List.mem_cons_self)
    ⟨first, firstKnown, firstNamed⟩ ⟨second, secondKnown, secondNamed⟩
  cases same

end Injector

end Mneme.Store
