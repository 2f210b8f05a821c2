/-
The restart budget and the backoff of a child.

The loop records a request at one reading of the clock and weighs it at a later
one, both under the lock of the handle.  The books of a child relate what its
handle remembers to the requests recorded, granted and respawned so far.
-/

import Mneme.Supervisor.ShutdownFinal

namespace Mneme.Supervisor

open Library Transition

/-! ### The backoffs -/

/-- The backoffs the restarts so far waited, and the one the next will wait. -/
inductive Backoffs (policy : RestartPolicy) : List Duration → Duration → Prop
  | initial : Backoffs policy [] policy.initialBackoff
  | restart {delays : List Duration} {current : Duration} :
      Backoffs policy delays current →
      Backoffs policy (delays ++ [current]) (policy.nextBackoff current)

namespace Backoffs

variable {policy : RestartPolicy} {delays : List Duration} {current : Duration}

theorem initial_or_whole (backoffs : Backoffs policy delays current) :
    (delays = [] ∧ current = policy.initialBackoff) ∨ policy.Whole current := by
  cases backoffs with
  | initial => exact Or.inl ⟨rfl, rfl⟩
  | restart earlier => exact Or.inr (policy.nextBackoff_whole _)

theorem current_le (backoffs : Backoffs policy delays current) :
    current ≤ max policy.initialBackoff (max policy.maxBackoff (fromMillis 1)) := by
  rcases backoffs.initial_or_whole with ⟨_, same⟩ | whole
  · rw [same]
    exact le_max_left _ _
  · exact le_max_of_le_right whole.le

theorem le_current (backoffs : Backoffs policy delays current)
    (grows : policy.backoffMultiplier.denominator ≤ policy.backoffMultiplier.numerator) :
    ∀ delay, delay ∈ delays.tail → delay ≤ current := by
  induction backoffs with
  | initial =>
      intro delay impossible
      cases impossible
  | @restart delays current earlier ih =>
      intro delay member
      cases delays with
      | nil => cases member
      | cons first rest =>
          have whole : policy.Whole current := by
            rcases earlier.initial_or_whole with ⟨impossible, _⟩ | whole
            · cases impossible
            · exact whole
          have step := whole.le_nextBackoff grows
          rcases List.mem_append.mp member with before | last
          · exact Nat.le_trans (ih delay before) step
          · rw [List.mem_singleton.mp last]
            exact step

/-- From the second restart on the backoff never falls. -/
theorem growing (backoffs : Backoffs policy delays current)
    (grows : policy.backoffMultiplier.denominator ≤ policy.backoffMultiplier.numerator) :
    (delays ++ [current]).tail.Pairwise (fun earlier later => earlier ≤ later) := by
  induction backoffs with
  | initial => exact List.Pairwise.nil
  | @restart delays current earlier ih =>
      rw [List.tail_append_of_ne_nil (List.append_ne_nil_of_right_ne_nil _ (List.cons_ne_nil _ _)),
        List.pairwise_append]
      refine ⟨ih, List.pairwise_singleton _ _, ?_⟩
      intro delay member last same
      rw [List.mem_singleton.mp same]
      exact (restart earlier).le_current grows delay member

/-- Nor does it fall at the first one when the initial backoff is a whole
number of milliseconds within the cap. -/
theorem growing_all (backoffs : Backoffs policy delays current)
    (grows : policy.backoffMultiplier.denominator ≤ policy.backoffMultiplier.numerator)
    (whole : policy.Whole policy.initialBackoff) :
    (delays ++ [current]).Pairwise (fun earlier later => earlier ≤ later) := by
  induction backoffs with
  | initial => exact List.pairwise_singleton _ _
  | @restart delays current earlier ih =>
      have wholeHere : policy.Whole current := by
        rcases earlier.initial_or_whole with ⟨_, same⟩ | whole
        · rw [same]
          exact whole
        · exact whole
      have step := wholeHere.le_nextBackoff grows
      have below := List.pairwise_append.mp ih
      rw [List.pairwise_append]
      refine ⟨ih, List.pairwise_singleton _ _, ?_⟩
      intro delay member last same
      rw [List.mem_singleton.mp same]
      rcases List.mem_append.mp member with before | final
      · exact Nat.le_trans (below.2.2 delay before current (List.mem_singleton_self _)) step
      · rw [List.mem_singleton.mp final]
        exact step

end Backoffs

/-! ### The books of one child -/

/-- What of a child the budget is about: its window and backoff once it has a
handle, its history, whether it may still be restarted, the request recorded
but not weighed, and the grant not yet turned into a process. -/
structure Account where
  ledger : Option (List Instant × Duration)
  history : RestartHistory
  active : Prop
  unweighed : List Instant
  pending : List Grant

/-- The largest value of the type of `max_restarts_per_window`. -/
def u32Max : Nat := 4294967295

structure Books (policy : RestartPolicy) (now : Instant) (account : Account) : Prop where
  remembers : ∀ window backoff, account.ledger = some (window, backoff) →
    ∀ later, now ≤ later →
      recent policy.budgetWindow later window =
        recent policy.budgetWindow later account.history.recorded
  past : ∀ grant, grant ∈ account.history.granted → grant.weighed ≤ now
  matched : account.active → account.history.recorded =
    account.history.granted.map (fun grant => grant.recorded) ++ account.unweighed
  budgeted : policy.maxRestartsPerWindow.toNat < u32Max →
    Budgeted policy.budgetWindow policy.maxRestartsPerWindow.toNat
      (account.history.granted.map Grant.toAdmission)
  respawned : (account.history.respawned ++ account.pending).Sublist account.history.granted
  backoffs : ∀ window backoff, account.ledger = some (window, backoff) →
    Backoffs policy (account.history.granted.map Grant.delay) backoff
  fresh : account.ledger = none → account.history.recorded = [] ∧ account.history.granted = []

namespace Books

variable {policy : RestartPolicy} {now : Instant} {account : Account}

variable {changed : Account}

/-- A step that neither records nor weighs for the child, and starts no process
from its grant. -/
theorem quiet (books : Books policy now account) {later : Instant}
    (after : now ≤ later) (ledger : changed.ledger = account.ledger)
    (history : changed.history = account.history) (active : changed.active → account.active)
    (unweighed : changed.active → changed.unweighed = account.unweighed)
    (pending : changed.pending.Sublist account.pending) : Books policy later changed := by
  refine ⟨?_, ?_, ?_, ?_, ?_, ?_, ?_⟩
  · intro window backoff held further reached
    rw [history]
    exact books.remembers window backoff (ledger ▸ held) further (Nat.le_trans after reached)
  · intro grant member
    rw [history] at member
    exact Nat.le_trans (books.past grant member) after
  · intro alive
    rw [history, unweighed alive]
    exact books.matched (active alive)
  · rw [history]
    exact books.budgeted
  · rw [history]
    exact ((List.Sublist.refl _).append pending).trans books.respawned
  · rw [ledger, history]
    exact books.backoffs
  · rw [ledger, history]
    exact books.fresh

theorem insert (books : Books policy now account)
    (absent : account.ledger = none) (ledger : changed.ledger = some ([], policy.initialBackoff))
    (history : changed.history = account.history) (active : changed.active → account.active)
    (unweighed : changed.unweighed = account.unweighed)
    (pending : changed.pending = account.pending) : Books policy now changed := by
  obtain ⟨noneRecorded, noneGranted⟩ := books.fresh absent
  refine ⟨?_, ?_, ?_, ?_, ?_, ?_, ?_⟩
  · intro window backoff held further reached
    cases ledger.symm.trans held
    rw [history, noneRecorded]
  · rw [history]
    exact books.past
  · intro alive
    rw [history, unweighed]
    exact books.matched (active alive)
  · rw [history]
    exact books.budgeted
  · rw [history, pending]
    exact books.respawned
  · intro window backoff held
    cases ledger.symm.trans held
    rw [history, noneGranted]
    exact .initial
  · intro impossible
    cases ledger.symm.trans impossible

variable {window : List Instant} {backoff : Duration}

theorem record (books : Books policy now account) (held : account.ledger = some (window, backoff))
    (alive : account.active) (weighed : account.unweighed = []) (ledger : changed.ledger =
      some (prune policy.budgetWindow now (window ++ [now]), backoff)) (history : changed.history =
      { account.history with recorded := account.history.recorded ++ [now] })
    (unweighed : changed.unweighed = [now])
    (pending : changed.pending.Sublist account.pending) : Books policy now changed := by
  have matched := books.matched alive
  rw [weighed, List.append_nil] at matched
  refine ⟨?_, ?_, ?_, ?_, ?_, ?_, ?_⟩
  · intro remembered current same further reached
    cases ledger.symm.trans same
    rw [history, recent_prune _ reached, recent_append, recent_append,
      books.remembers window backoff held further reached]
  · rw [history]
    exact books.past
  · intro _
    rw [history, unweighed, matched]
  · rw [history]
    exact books.budgeted
  · rw [history]
    exact ((List.Sublist.refl _).append pending).trans books.respawned
  · intro remembered current same
    cases ledger.symm.trans same
    rw [history]
    exact books.backoffs window backoff held
  · intro impossible
    cases ledger.symm.trans impossible

/-- Before the request that is being weighed, at most the limit were in reach. -/
theorem recent_granted_le (books : Books policy now account)
    (small : policy.maxRestartsPerWindow.toNat < u32Max) :
    recent policy.budgetWindow now
        (account.history.granted.map (fun grant => grant.recorded)) ≤
      policy.maxRestartsPerWindow.toNat := by
  have budgeted := books.budgeted small
  have past := books.past
  revert budgeted past
  generalize account.history.granted = granted
  intro budgeted past
  rcases List.eq_nil_or_concat granted with rfl | ⟨earlier, last, rfl⟩
  · exact Nat.zero_le _
  · rw [List.concat_eq_append] at budgeted past ⊢
    rw [List.map_append] at budgeted
    have within := budgeted (earlier.map Grant.toAdmission) last.toAdmission [] rfl
    have before : last.weighed ≤ now :=
      past last (List.mem_append_right _ (List.mem_singleton_self _))
    rw [List.map_append, List.map_map] at within
    rw [List.map_append]
    exact Nat.le_trans (recent_anti _ before) within

/-- A granted request was within the budget, its count not having wrapped. -/
theorem within_of_granted (books : Books policy now account)
    {instant : Instant} (held : account.ledger = some (window, backoff))
    (alive : account.active) (waiting : account.unweighed = [instant])
    (small : policy.maxRestartsPerWindow.toNat < u32Max) (granted : ¬ policy.maxRestartsPerWindow <
      UInt32.ofNat (recent policy.budgetWindow now window)) :
    recent policy.budgetWindow now
        (account.history.granted.map (fun grant => grant.recorded) ++ [instant]) ≤
      policy.maxRestartsPerWindow.toNat := by
  have matched := books.matched alive
  rw [waiting] at matched
  have counted := books.remembers window backoff held now (Nat.le_refl _)
  rw [matched] at counted
  have one : recent policy.budgetWindow now [instant] ≤ 1 := by
    unfold recent
    exact List.countP_le_length
  have bound := books.recent_granted_le small
  have split := recent_append policy.budgetWindow now
    (account.history.granted.map (fun grant => grant.recorded)) [instant]
  have exact_ : (UInt32.ofNat (recent policy.budgetWindow now window)).toNat =
      recent policy.budgetWindow now window := by
    rw [UInt32.toNat_ofNat']
    apply Nat.mod_eq_of_lt
    unfold u32Max at small
    omega
  rw [UInt32.lt_iff_toNat_lt, exact_] at granted
  omega

theorem grant (books : Books policy now account)
    {instant : Instant} (held : account.ledger = some (window, backoff))
    (alive : account.active) (waiting : account.unweighed = [instant]) (free : account.pending = [])
    (granted : ¬ policy.maxRestartsPerWindow <
      UInt32.ofNat (recent policy.budgetWindow now window))
    (ledger : changed.ledger = some (window, policy.nextBackoff backoff))
    (history : changed.history =
      { account.history with
        granted := account.history.granted ++ [⟨⟨instant, now⟩, backoff⟩] })
    (unweighed : changed.unweighed = [])
    (pending : changed.pending = [⟨⟨instant, now⟩, backoff⟩]) : Books policy now changed := by
  refine ⟨?_, ?_, ?_, ?_, ?_, ?_, ?_⟩
  · intro remembered current same further reached
    cases ledger.symm.trans same
    rw [history]
    exact books.remembers window backoff held further reached
  · intro earlier member
    rw [history] at member
    rcases List.mem_append.mp member with before | last
    · exact books.past earlier before
    · rw [List.mem_singleton.mp last]
  · intro _
    have matched := books.matched alive
    rw [waiting] at matched
    rw [history, unweighed, List.map_append, List.append_nil]
    exact matched
  · intro small
    rw [history, List.map_append]
    apply (books.budgeted small).append
    rw [List.map_append, List.map_map]
    exact books.within_of_granted held alive waiting small granted
  · have all := books.respawned
    rw [free, List.append_nil] at all
    rw [history, pending]
    exact all.append (List.Sublist.refl _)
  · intro remembered current same
    cases ledger.symm.trans same
    rw [history, List.map_append]
    exact (books.backoffs window backoff held).restart
  · intro impossible
    cases ledger.symm.trans impossible

theorem respawn (books : Books policy now account) {grant : Grant}
    (waiting : account.pending = [grant]) (ledger : changed.ledger = account.ledger)
    (history : changed.history =
      { account.history with respawned := account.history.respawned ++ [grant] })
    (active : changed.active → account.active) (unweighed : changed.unweighed = account.unweighed)
    (pending : changed.pending = []) : Books policy now changed := by
  refine ⟨?_, ?_, ?_, ?_, ?_, ?_, ?_⟩
  · rw [ledger, history]
    exact books.remembers
  · rw [history]
    exact books.past
  · intro alive
    rw [history, unweighed]
    exact books.matched (active alive)
  · rw [history]
    exact books.budgeted
  · have all := books.respawned
    rw [waiting] at all
    rw [history, pending, List.append_nil]
    exact all
  · rw [ledger, history]
    exact books.backoffs
  · rw [ledger, history]
    exact books.fresh

end Books

/-! ### The books of every child -/

namespace ChildManager

variable {Name : Type} [DecidableEq Name]

def ledger (manager : ChildManager Name) (name : Name) : Option (List Instant × Duration) :=
  (manager.handles name).map (fun handle => (handle.restartWindow, handle.currentBackoff))

def unweighed (manager : ChildManager Name) (name : Name) : List Instant :=
  match manager.loop with
  | .recorded request instant => if request.name = name then [instant] else []
  | _ => []

def pending (manager : ChildManager Name) (name : Name) : List Grant :=
  match manager.loop.grant with
  | some (child, grant) => if child = name then [grant] else []
  | none => []

def account (manager : ChildManager Name) (name : Name) : Account :=
  { ledger := manager.ledger name
    history := manager.history name
    active := 0 < manager.copies name
    unweighed := manager.unweighed name
    pending := manager.pending name }

variable {config : SupervisorConfig Name} {before after : ChildManager Name} {name : Name}

variable {handle : ChildHandle Name}

omit [DecidableEq Name] in
theorem ledger_of_held (held : before.handles name = some handle) :
    before.ledger name = some (handle.restartWindow, handle.currentBackoff) := by
  unfold ledger
  rw [held]
  rfl

theorem ledger_modify_self (held : before.handles name = some handle)
    (change : ChildHandle Name → ChildHandle Name) :
    (before.modify name change).ledger name =
      some ((change handle).restartWindow, (change handle).currentBackoff) := by
  apply ledger_of_held
  rw [modify_handles_self, held, Option.map_some]

theorem ledger_modify_other {other : Name} (different : other ≠ name)
    (change : ChildHandle Name → ChildHandle Name) :
    (before.modify name change).ledger other = before.ledger other := by
  unfold ledger
  rw [modify_handles_other different]

variable {child : Name}

theorem ledger_modify_same {change : ChildHandle Name → ChildHandle Name}
    (kept : ∀ handle, (change handle).restartWindow = handle.restartWindow ∧
      (change handle).currentBackoff = handle.currentBackoff) (name : Name) :
    (before.modify child change).ledger name = before.ledger name := by
  apply map_modify_same
  intro handle
  rw [(kept handle).1, (kept handle).2]

theorem ledger_setStatus (child : Name) (status : ChildStatus) (name : Name) :
    (before.setStatus child status).ledger name = before.ledger name := by
  apply ledger_modify_same
  intro handle
  exact ⟨rfl, rfl⟩

/-- What a step that is about neither the window nor the backoff of a child
leaves alone. -/
structure Beside (before after : ChildManager Name) (name : Name) : Prop where
  now : before.now ≤ after.now
  ledger : after.ledger name = before.ledger name
  history : after.history name = before.history name
  unweighed : 0 < after.copies name → after.unweighed name = before.unweighed name
  pending : (after.pending name).Sublist (before.pending name)

theorem Beside.of_same (now : before.now ≤ after.now)
    (ledger : after.ledger name = before.ledger name)
    (history : after.history = before.history) (loop : after.loop = before.loop) :
    Beside before after name := by
  refine ⟨now, ledger, congrFun history name, ?_, ?_⟩
  · intro _
    unfold ChildManager.unweighed
    rw [loop]
  · unfold ChildManager.pending
    rw [loop]

variable {manager : ChildManager Name}

theorem unweighed_of_unlocked (unlocked : manager.loop.locked = none) (name : Name) :
    manager.unweighed name = [] := by
  unfold unweighed
  split
  · next request instant recorded =>
      rw [recorded] at unlocked
      cases unlocked
  · rfl

/-- The loop holds no lock and gets no new grant. -/
theorem Beside.of_loop (now : before.now ≤ after.now)
    (ledger : after.ledger name = before.ledger name) (history : after.history = before.history)
    (unlocked : before.loop.locked = none) (free : after.loop.locked = none)
    (grants : after.loop.grant = none ∨ after.loop.grant = before.loop.grant) :
    Beside before after name := by
  refine ⟨now, ledger, congrFun history name, ?_, ?_⟩
  · intro _
    rw [unweighed_of_unlocked unlocked, unweighed_of_unlocked free]
  · unfold ChildManager.pending
    rcases grants with none | same
    · simp only [none]
      exact List.nil_sublist _
    · simp only [same]
      exact List.Sublist.refl _

theorem books_beside (books : Books config.defaultRestartPolicy before.now (before.account name))
    (fewer : after.copies name ≤ before.copies name) (beside : Beside before after name) :
    Books config.defaultRestartPolicy after.now (after.account name) :=
  books.quiet beside.now beside.ledger beside.history
    (fun alive => Nat.lt_of_lt_of_le alive fewer) beside.unweighed beside.pending

theorem apply_keeps_books {effect : MonitorPhase.Effect}
    (applied : before.apply child effect = some after) (name : Name) :
    after.ledger name = before.ledger name ∧ after.history = before.history ∧
      after.now = before.now ∧ after.loop = before.loop := by
  cases effect with
  | nothing | send =>
      cases applied
      exact ⟨rfl, rfl, rfl, rfl⟩
  | setStatus status =>
      simp only [apply] at applied
      split at applied <;> cases applied
      exact ⟨ledger_setStatus child status name, rfl, rfl, rfl⟩
  | recordExit code =>
      simp only [apply] at applied
      split at applied <;> cases applied
      refine ⟨ledger_modify_same ?_ name, rfl, rfl, rfl⟩
      intro handle
      exact ⟨rfl, rfl⟩

omit [DecidableEq Name] in
theorem abort_keeps_books (id : TaskId) (name : Name) :
    (before.abort id).ledger name = before.ledger name ∧
      (before.abort id).history = before.history ∧ (before.abort id).now = before.now ∧
      (before.abort id).loop = before.loop := by
  unfold abort
  split
  · exact ⟨rfl, rfl, rfl, rfl⟩
  · split
    · exact ⟨rfl, rfl, rfl, rfl⟩
    · split <;> exact ⟨rfl, rfl, rfl, rfl⟩

/-- The loop has the child in its hands. -/
theorem active_of_place {place : Place} (held : before.loop.place = some (name, place)) :
    0 < before.copies name := by
  unfold copies placed
  rw [held]
  simp only [tally, decide_true, if_true]
  omega

/-- A new handle starts with an empty window and the initial backoff. -/
theorem insertHandle_books (spec : ChildSpec Name)
    (books : Books config.defaultRestartPolicy before.now (before.account name))
    {after : ChildManager Name} (fewer : after.copies name ≤ before.copies name)
    (handles : after.handles = (before.insertHandle config spec).handles)
    (now : after.now = before.now) (history : after.history = before.history)
    (unweighed : after.unweighed name = before.unweighed name)
    (pending : after.pending name = before.pending name) :
    Books config.defaultRestartPolicy after.now (after.account name) := by
  have beside : after.ledger name = before.ledger name → Beside before after name := by
    intro ledger
    refine ⟨Nat.le_of_eq now.symm, ledger, congrFun history name, fun _ => unweighed, ?_⟩
    rw [pending]
  have alive : 0 < after.copies name → 0 < before.copies name :=
    fun positive => Nat.lt_of_lt_of_le positive fewer
  unfold insertHandle at handles
  cases held : before.handles spec.name with
  | some handle =>
      rw [held] at handles
      apply books_beside books fewer
      apply beside
      unfold ledger
      rw [handles]
  | none =>
      rw [held] at handles
      change after.handles = Function.update before.handles spec.name _ at handles
      by_cases self : name = spec.name
      · subst self
        rw [now]
        refine books.insert ?_ ?_ (congrFun history _) alive unweighed pending
        · change before.ledger spec.name = none
          unfold ledger
          rw [held]
          rfl
        · change after.ledger spec.name = _
          unfold ledger
          rw [handles, Function.update_self]
          rfl
      · apply books_beside books fewer
        apply beside
        unfold ledger
        rw [handles, Function.update_of_ne self]

theorem insertHandle_rest (spec : ChildSpec Name) :
    (before.insertHandle config spec).now = before.now ∧
      (before.insertHandle config spec).history = before.history ∧
      (before.insertHandle config spec).loop = before.loop := by
  unfold insertHandle
  split <;> exact ⟨rfl, rfl, rfl⟩

variable {request : RestartRequest Name}

variable {instant : Instant}

theorem unweighed_recorded (phase : manager.loop = .recorded request instant) (name : Name) :
    manager.unweighed name = if request.name = name then [instant] else [] := by
  unfold unweighed
  rw [phase]

omit [DecidableEq Name] in
theorem locked_checked (phase : before.loop = .checked request) : before.loop.locked = none := by
  rw [phase]
  rfl

theorem record_books
    (phase : before.loop = .checked request) (held : before.handles request.name = some handle)
    (books : Books config.defaultRestartPolicy before.now (before.account name)) (fewer : copies
        { (before.modify request.name
              (ChildHandle.recordRestart config.defaultRestartPolicy.budgetWindow before.now)
            ).noteRecorded request.name before.now with
          loop := .recorded request before.now } name ≤ before.copies name) :
    Books config.defaultRestartPolicy before.now (account
      { (before.modify request.name
            (ChildHandle.recordRestart config.defaultRestartPolicy.budgetWindow before.now)
          ).noteRecorded request.name before.now with
        loop := .recorded request before.now } name) := by
  by_cases self : request.name = name
  · subst self
    have place : before.loop.place = some (request.name, .received) := by
      rw [phase]
      rfl
    refine books.record (ledger_of_held held) (active_of_place place) ?_ ?_ ?_ ?_ ?_
    · exact unweighed_of_unlocked (locked_checked phase) _
    · exact ledger_modify_self held _
    · exact Function.update_self _ _ _
    · exact if_pos rfl
    · exact List.nil_sublist _
  · have different : name ≠ request.name := fun same => self same.symm
    refine books_beside books fewer ⟨Nat.le_refl _, ?_, ?_, ?_, List.nil_sublist _⟩
    · exact ledger_modify_other different _
    · exact Function.update_of_ne different _ _
    · intro _
      rw [unweighed_of_unlocked (locked_checked phase)]
      exact if_neg self

/-- A child whose request is refused is at no place any more. -/
theorem refuse_books (phase : before.loop = .recorded request instant)
    (books : Books config.defaultRestartPolicy before.now (before.account name))
    (alone : before.copies name ≤ 1) :
    Books config.defaultRestartPolicy before.now (account
      { before.setStatus request.name .degraded with loop := .idle } name) := by
  have leaves : tally (fun entry => entry.1 = name) before.loop.place =
      if request.name = name then 1 else 0 := by
    rw [phase]
    simp only [LoopPhase.place, tally, decide_eq_true_eq]
  have exchanged : copies { before.setStatus request.name .degraded with loop := .idle } name +
      tally (fun entry => entry.1 = name) before.loop.place = before.copies name :=
    placed_loop (before.setStatus request.name .degraded) .idle (fun entry => entry.1 = name)
  rw [leaves] at exchanged
  have fewer : copies { before.setStatus request.name .degraded with loop := .idle } name ≤
      before.copies name := by
    omega
  refine books_beside books fewer ⟨Nat.le_refl _, ?_, rfl, ?_, List.nil_sublist _⟩
  · exact ledger_setStatus request.name .degraded name
  · intro alive
    rw [unweighed_recorded phase]
    by_cases self : request.name = name
    · rw [if_pos self] at exchanged
      omega
    · rw [if_neg self]
      rfl

theorem grant_books (phase : before.loop = .recorded request instant)
    (held : before.handles request.name = some handle) (named : handle.spec.name = request.name)
    (within : ¬ config.defaultRestartPolicy.maxRestartsPerWindow <
      handle.restartsInWindow config.defaultRestartPolicy.budgetWindow before.now)
    (books : Books config.defaultRestartPolicy before.now (before.account name)) (fewer : copies
        { (before.modify request.name (fun handle =>
              { handle with
                currentBackoff := config.defaultRestartPolicy.nextBackoff handle.currentBackoff })
            ).noteGranted request.name ⟨⟨instant, before.now⟩, handle.currentBackoff⟩ with
          loop := .sleeping handle.spec ⟨⟨instant, before.now⟩, handle.currentBackoff⟩ } name ≤
      before.copies name) :
    Books config.defaultRestartPolicy before.now (account
      { (before.modify request.name (fun handle =>
            { handle with
              currentBackoff := config.defaultRestartPolicy.nextBackoff handle.currentBackoff })
          ).noteGranted request.name ⟨⟨instant, before.now⟩, handle.currentBackoff⟩ with
        loop := .sleeping handle.spec ⟨⟨instant, before.now⟩, handle.currentBackoff⟩ } name) := by
  have waiting := unweighed_recorded phase name
  have free : before.pending name = [] := by
    unfold pending
    rw [phase]
    rfl
  by_cases self : request.name = name
  · subst self
    have place : before.loop.place = some (request.name, .received) := by
      rw [phase]
      rfl
    rw [if_pos rfl] at waiting
    refine books.grant (ledger_of_held held) (active_of_place place) waiting free within ?_ ?_ rfl ?_
    · exact ledger_modify_self held _
    · exact Function.update_self _ _ _
    · exact if_pos named
  · have different : name ≠ request.name := fun same => self same.symm
    rw [if_neg self] at waiting
    refine books_beside books fewer ⟨Nat.le_refl _, ?_, ?_, ?_, ?_⟩
    · exact ledger_modify_other different _
    · exact Function.update_of_ne different _ _
    · intro _
      rw [waiting]
      rfl
    · rw [free]
      have none : ¬ handle.spec.name = name := by
        rw [named]
        exact self
      refine List.sublist_nil.mpr ?_
      exact if_neg none

theorem loopStart_books {spec : ChildSpec Name} {grant : Grant}
    (phase : before.loop = .spawning spec grant .starting)
    (books : Books config.defaultRestartPolicy before.now (before.account name)) (fewer : copies
        { noteRespawned
            { before with tasks := before.tasks ++ [⟨spec.name, .created, false, false⟩] }
            spec.name grant with
          loop := .spawning spec grant (.registering before.tasks.length) } name ≤
      before.copies name) :
    Books config.defaultRestartPolicy before.now (account
      { noteRespawned
          { before with tasks := before.tasks ++ [⟨spec.name, .created, false, false⟩] }
          spec.name grant with
        loop := .spawning spec grant (.registering before.tasks.length) } name) := by
  have unlocked : before.loop.locked = none := by
    rw [phase]
    rfl
  have waiting : before.pending name = if spec.name = name then [grant] else [] := by
    unfold pending
    rw [phase]
    rfl
  by_cases self : spec.name = name
  · subst self
    rw [if_pos rfl] at waiting
    refine books.respawn waiting rfl ?_ ?_ ?_ rfl
    · exact Function.update_self _ _ _
    · exact fun alive => Nat.lt_of_lt_of_le alive fewer
    · exact (unweighed_of_unlocked unlocked _).symm
  · have different : name ≠ spec.name := fun same => self same.symm
    refine books_beside books fewer ⟨Nat.le_refl _, rfl, ?_, ?_, List.nil_sublist _⟩
    · exact Function.update_of_ne different _ _
    · intro _
      exact (unweighed_of_unlocked unlocked _).symm

variable {event : ManagerEvent Name}

theorem Step.books (step : Step config before event after) (consistent : Consistent config before)
    (books : Books config.defaultRestartPolicy before.now (before.account name)) :
    Books config.defaultRestartPolicy after.now (after.account name) := by
  have fewer : after.copies name ≤ before.copies name :=
    (step.turn consistent.known).copies_le name
  cases step with
  | takeSpec | bootStart | bootMissing | bootFailed | bootRegister | poll | giveWay | giveUp
  | setFlag | drain | lockHandles | unlockHandles | finish =>
      exact books_beside books fewer (.of_same (Nat.le_refl _) rfl rfl rfl)
  | tick elapsed => exact books_beside books fewer (.of_same (Nat.le_add_right _ _) rfl rfl rfl)
  | @bootInsert spec stage =>
      obtain ⟨now, history, loop⟩ := @insertHandle_rest _ _ config before spec
      refine insertHandle_books spec books fewer rfl now history ?_ ?_
      · simp only [unweighed, loop]
      · simp only [pending, loop]
  | monitor found held advanced applied =>
      obtain ⟨ledger, history, now, loop⟩ := apply_keeps_books applied name
      exact books_beside books fewer (.of_same (Nat.le_of_eq now.symm) ledger history loop)
  | abort =>
      obtain ⟨ledger, history, now, loop⟩ := abort_keeps_books _ name
      exact books_beside books fewer (.of_same (Nat.le_of_eq now.symm) ledger history loop)
  | mark =>
      exact books_beside books fewer
        (.of_same (Nat.le_refl _) (ledger_setStatus _ .stopped name) rfl rfl)
  | receive phase | ignore phase | check phase | unknown phase | stayDown phase
  | loopFailed phase | loopRegister phase =>
      refine books_beside books fewer (.of_loop (Nat.le_refl _) rfl rfl ?_ rfl (Or.inl rfl))
      rw [phase]
      rfl
  | wake phase =>
      refine books_beside books fewer (.of_loop (Nat.le_refl _) rfl rfl ?_ rfl (Or.inr ?_))
      · rw [phase]
        rfl
      · rw [phase]
        rfl
  | @loopInsert spec grant phase =>
      obtain ⟨now, history, _⟩ := @insertHandle_rest _ _ config before spec
      refine insertHandle_books spec books fewer rfl now history ?_ ?_
      · simp only [unweighed, phase]
      · simp only [pending, phase, LoopPhase.grant]
  | record phase held => exact record_books phase held books fewer
  | refuse phase => exact refuse_books phase books (consistent.alone name)
  | grant phase held within =>
      exact grant_books phase held (consistent.known.handles _ _ held).2 within books fewer
  | loopStart phase => exact loopStart_books phase books fewer

/-! ### Degraded children -/

/-- A child that is degraded afterwards was so before, or has just been refused. -/
theorem Turn.degraded (turn : Turn before event after) (alone : before.copies name ≤ 1)
    (held : before.status name = some .degraded → before.copies name = 0)
    (degraded : after.status name = some .degraded) : after.copies name = 0 := by
  have fewer := turn.copies_le name
  have unchanged : after.status name = before.status name → after.copies name = 0 := by
    intro same
    rw [same] at degraded
    have none := held degraded
    omega
  cases turn with
  | still same status => exact unchanged (status name)
  | lost child source shifts status => exact unchanged (status name)
  | bootEnds fewer kept status => exact unchanged (status name)
  | appears child same status others =>
      by_cases self : name = child
      · rw [self, status] at degraded
        cases degraded
      · exact unchanged (others name self)
  | silenced child same status others =>
      by_cases self : name = child
      · rw [self] at degraded
        exact absurd degraded status.2.2
      · exact unchanged (others name self)
  | moves child source target shifts fate others =>
      by_cases self : name = child
      · subst self
        have shift := shifts (fun entry => entry.1 = name)
        change after.copies name + _ = before.copies name + _ at shift
        generalize before.status name = earlier at fate unchanged
        generalize after.status name = later at fate degraded unchanged
        cases fate with
        | runs | marks | stops => cases degraded
        | refused =>
            simp only [tally, Option.map_none, decide_true, if_true] at shift
            omega
        | takenUp | started | sends | arrives | granted | wakes | respawned => exact unchanged rfl
      · exact unchanged (others name self)

theorem respawned_update {history : Name → RestartHistory}
    (change : RestartHistory → RestartHistory)
    (same : (change (history child)).respawned = (history child).respawned) (name : Name) :
    (Function.update history child (change (history child)) name).respawned =
      (history name).respawned := by
  by_cases self : name = child
  · subst self
    rw [Function.update_self, same]
  · rw [Function.update_of_ne self]

/-- A child that is at no place gets no process. -/
theorem Step.respawned_same (step : Step config before event after)
    (idle : before.copies name = 0) :
    (after.history name).respawned = (before.history name).respawned := by
  cases step with
  | @bootInsert spec | @loopInsert spec =>
      have history := (@insertHandle_rest _ _ config before spec).2.1
      exact congrArg RestartHistory.respawned (congrFun history name)
  | monitor found held advanced applied =>
      have history := (apply_keeps_books applied name).2.1
      exact congrArg RestartHistory.respawned (congrFun history name)
  | @abort tasks id phase =>
      have history := (@abort_keeps_books _ before id name).2.1
      exact congrArg RestartHistory.respawned (congrFun history name)
  | record =>
      exact respawned_update
        (fun history => { history with recorded := history.recorded ++ [before.now] }) rfl name
  | @grant request instant handle =>
      exact respawned_update
        (fun history => { history with
          granted := history.granted ++ [⟨⟨instant, before.now⟩, handle.currentBackoff⟩] })
        rfl name
  | @loopStart spec grant phase =>
      change (Function.update before.history spec.name _ name).respawned = _
      by_cases self : name = spec.name
      · subst self
        have place : before.loop.place = some (spec.name, .respawning) := by
          rw [phase]
          rfl
        have active := active_of_place place
        omega
      · rw [Function.update_of_ne self]
  | _ => rfl

theorem respawned_of_run (consistent : Consistent config before) (idle : before.copies name = 0)
    {later : List (ChildManager Name × ManagerEvent Name)}
    (run : Run (next config) before later after) :
    (after.history name).respawned = (before.history name).respawned := by
  have both : Consistent config after ∧ after.copies name = 0 ∧
      (after.history name).respawned = (before.history name).respawned := by
    induction run with
    | start => exact ⟨consistent, idle, rfl⟩
    | step _ taken ih =>
        obtain ⟨consistentHere, idleHere, same⟩ := ih
        have fewer := (consistentHere.turn taken).copies_le name
        refine ⟨consistentHere.next taken, by omega, ?_⟩
        rw [(step_of_next taken).respawned_same idleHere, same]
  exact both.2.2

/-! ### What the budget keeps -/

structure Accounted (config : SupervisorConfig Name) (manager : ChildManager Name) : Prop where
  consistent : Consistent config manager
  books : ∀ name, Books config.defaultRestartPolicy manager.now (manager.account name)
  degraded : ∀ name, manager.status name = some .degraded → manager.copies name = 0

theorem accounted_new (config : SupervisorConfig Name) : Accounted config (new config) := by
  refine ⟨consistent_new config, ?_, fun name impossible => nomatch impossible⟩
  intro name
  constructor
  · intro window backoff impossible
    cases impossible
  · intro grant impossible
    cases impossible
  · intro _
    rfl
  · intro _
    exact budgeted_nil _ _
  · exact List.Sublist.refl _
  · intro window backoff impossible
    cases impossible
  · intro _
    exact ⟨rfl, rfl⟩

theorem Accounted.next (accounted : Accounted config before)
    (taken : next config before event = some after) : Accounted config after := by
  refine ⟨accounted.consistent.next taken, ?_, ?_⟩
  · intro name
    exact (step_of_next taken).books accounted.consistent (accounted.books name)
  · intro name
    exact (accounted.consistent.turn taken).degraded (accounted.consistent.alone name)
      (accounted.degraded name)

/-- The successive values of the child's `current_backoff`. -/
def backoffs (manager : ChildManager Name) (name : Name) (handle : ChildHandle Name) :
    List Duration :=
  (manager.history name).granted.map Grant.delay ++ [handle.currentBackoff]

structure KeepsBudget (config : SupervisorConfig Name) (manager : ChildManager Name) : Prop where
  window : config.defaultRestartPolicy.maxRestartsPerWindow.toNat < u32Max →
    ∀ name start, ((manager.history name).respawned.map Grant.toAdmission).countP
      (Admission.inside config.defaultRestartPolicy.budgetWindow start) ≤
        config.defaultRestartPolicy.maxRestartsPerWindow.toNat
  degraded : ∀ name, manager.status name = some .degraded →
    ∀ later final, Run (next config) manager later final →
      (final.history name).respawned = (manager.history name).respawned
  bounded : ∀ name handle, manager.handles name = some handle →
    handle.currentBackoff ≤ max config.defaultRestartPolicy.initialBackoff
      (max config.defaultRestartPolicy.maxBackoff (fromMillis 1))
  growing : config.defaultRestartPolicy.backoffMultiplier.denominator ≤
      config.defaultRestartPolicy.backoffMultiplier.numerator →
    ∀ name handle, manager.handles name = some handle →
      (manager.backoffs name handle).tail.Pairwise (fun earlier later => earlier ≤ later)
  growingAll : config.defaultRestartPolicy.backoffMultiplier.denominator ≤
      config.defaultRestartPolicy.backoffMultiplier.numerator →
    config.defaultRestartPolicy.Whole config.defaultRestartPolicy.initialBackoff →
    ∀ name handle, manager.handles name = some handle →
      (manager.backoffs name handle).Pairwise (fun earlier later => earlier ≤ later)

theorem Accounted.backoffs (accounted : Accounted config manager)
    (held : manager.handles name = some handle) :
    Backoffs config.defaultRestartPolicy ((manager.history name).granted.map Grant.delay)
      handle.currentBackoff :=
  (accounted.books name).backoffs handle.restartWindow _ (ledger_of_held held)

theorem Accounted.keepsBudget (accounted : Accounted config manager) :
    KeepsBudget config manager where
  window := by
    intro small name start
    have books := accounted.books name
    have started : (manager.history name).respawned.Sublist (manager.history name).granted :=
      (List.sublist_append_left _ _).trans books.respawned
    exact Nat.le_trans (started.map Grant.toAdmission).countP_le
      ((books.budgeted small).inside_le start)
  degraded := by
    intro name degraded later final run
    exact respawned_of_run accounted.consistent (accounted.degraded name degraded) run
  bounded := by
    intro name handle held
    exact (accounted.backoffs held).current_le
  growing := by
    intro grows name handle held
    exact (accounted.backoffs held).growing grows
  growingAll := by
    intro grows whole name handle held
    exact (accounted.backoffs held).growing_all grows whole

/-- In every reachable state the restarts of every child were within the
budget, and its backoff is bounded and has grown. -/
theorem keepsBudget_of_reachable (config : SupervisorConfig Name) {manager : ChildManager Name}
    (reachable : Reachable (next config) (new config) manager) : KeepsBudget config manager := by
  have accounted : Accounted config manager := by
    refine reachable.invariant (accounted_new config) ?_
    intro before event after accounted taken
    exact accounted.next taken
  exact accounted.keepsBudget

/-- A worker that has been restarted once. -/
theorem keepsBudget_of_reachable_restarted :
    ∃ manager, Reachable (next oneWorker) (new oneWorker) manager ∧
      (manager.history 0).respawned.length = 1 ∧ KeepsBudget oneWorker manager := by
  obtain ⟨history, manager, run, _, tested⟩ := Run.of_trace (next oneWorker) (new oneWorker)
    (crashedOnce ++ respawn)
    (fun _ final => (final.history 0).respawned.length = 1) (by decide)
  have reachable : Reachable (next oneWorker) (new oneWorker) manager := ⟨history, run⟩
  exact ⟨manager, reachable, of_decide_eq_true tested,
    keepsBudget_of_reachable oneWorker reachable⟩

end ChildManager

/-- One restart in five milliseconds; the initial backoff is above the cap. -/
def oneRestart : SupervisorConfig Nat :=
  { oneWorker with
    defaultRestartPolicy :=
      { RestartPolicy.default with
        initialBackoff := fromMillis 2
        maxBackoff := fromMillis 1
        maxRestartsPerWindow := .ofNat 1
        budgetWindow := fromMillis 5 } }

def noBackoff : SupervisorConfig Nat :=
  { oneRestart with
    defaultRestartPolicy :=
      { oneRestart.defaultRestartPolicy with initialBackoff := 0, maxBackoff := 0 } }

namespace ChildManager

/-- The second request is recorded at the very end of the window and weighed
one nanosecond later, when the first is out of reach.  The backoff falls from
above the cap to the cap, and rises above a cap of zero. -/
theorem two_readings_let_one_more_in :
    (∃ history final, Run (next oneRestart) (new oneRestart) history final ∧
      (final.history 0).respawned.map (fun grant => grant.recorded) = [0, fromMillis 5] ∧
      ∃ handle, final.handles 0 = some handle ∧
        ¬ (final.backoffs 0 handle).Pairwise (fun earlier later => earlier ≤ later)) ∧
    (∃ history final, Run (next noBackoff) (new noBackoff) history final ∧
      ∃ handle, final.handles 0 = some handle ∧
        max noBackoff.defaultRestartPolicy.initialBackoff
          noBackoff.defaultRestartPolicy.maxBackoff < handle.currentBackoff) ∧
    ∀ (window : Duration) (now : Instant) (handle : ChildHandle Nat),
      ¬ UInt32.ofNat u32Max < handle.restartsInWindow window now := by
  refine ⟨?_, ?_, ?_⟩
  · obtain ⟨history, final, run, _, tested⟩ := Run.of_trace (next oneRestart) (new oneRestart)
      (bootWorker ++ crash 0 ++ [.loop .record, .loop .weigh, .tick (fromMillis 2)] ++ respawn ++
        crash 1 ++ [.tick (fromMillis 3), .loop .record, .tick 1, .loop .weigh,
          .tick (fromMillis 1)] ++ respawn)
      (fun _ final =>
        (final.history 0).respawned.map (fun grant => grant.recorded) = [0, fromMillis 5] ∧
          (final.handles 0).map (final.backoffs 0) =
            some [fromMillis 2, fromMillis 1, fromMillis 1]) (by decide)
    obtain ⟨respawned, backoffs⟩ := of_decide_eq_true tested
    obtain ⟨handle, held, falling⟩ := Option.map_eq_some_iff.mp backoffs
    refine ⟨history, final, run, respawned, handle, held, ?_⟩
    rw [falling]
    decide
  · obtain ⟨history, final, run, _, tested⟩ := Run.of_trace (next noBackoff) (new noBackoff)
      (bootWorker ++ crash 0 ++ [.loop .record, .loop .weigh])
      (fun _ final => (final.handles 0).map ChildHandle.currentBackoff = some (fromMillis 1))
      (by decide)
    obtain ⟨handle, held, risen⟩ := Option.map_eq_some_iff.mp (of_decide_eq_true tested)
    refine ⟨history, final, run, handle, held, ?_⟩
    rw [risen]
    decide
  · intro window now handle
    rw [UInt32.lt_iff_toNat_lt]
    have bound := (handle.restartsInWindow window now).toNat_lt
    have largest : (UInt32.ofNat u32Max).toNat = 4294967295 := rfl
    omega

end ChildManager

end Mneme.Supervisor
