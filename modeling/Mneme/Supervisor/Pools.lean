/-
Which worker of a pool gets the next job.

The router and the IPC server hand out jobs at the same time.  A call lists the children
whose name begins with that of the pool, in order, and then tries one after the other; the
other tasks change the handles between its steps.
-/

import Mathlib.Data.Finset.Sort
import Mathlib.Data.String.Basic
import Mneme.Library.Run
import Mneme.Supervisor.Control

namespace Mneme.Supervisor

open Transition

def ChildStatus.debug : ChildStatus → String
  | .pending => "Pending"
  | .running => "Running"
  | .restarting => "Restarting"
  | .degraded => "Degraded"
  | .stopped => "Stopped"

/-- The stdin of a worker; `broken` is the error of writing to it. -/
structure ChildStdin where
  written : String
  broken : Option String
deriving DecidableEq

structure PoolHandle where
  status : ChildStatus
  stdin : Option ChildStdin
deriving DecidableEq

inductive DispatchError where
  | other (message : String)
  | io (message : String)
deriving DecidableEq

abbrev PoolHandles := Finmap (fun _ : String => PoolHandle)

namespace Pools

/-- The payload with the newline that ends it. -/
def line (payload : String) : String :=
  if payload.toList.getLast? = some '\n' then payload else payload ++ "\n"

def dispatchJob (handles : PoolHandles) (name payload : String) :
    Except DispatchError PoolHandles :=
  match handles.lookup name with
  | none => .error (.other s!"unknown child: {name}")
  | some handle =>
      if handle.status = .running then
        match handle.stdin with
        | none => .error (.other s!"child '{name}' has no stdin")
        | some stdin =>
            match stdin.broken with
            | some message => .error (.io message)
            | none =>
                .ok (handles.insert name
                  { handle with
                    stdin := some { stdin with written := stdin.written ++ line payload } })
      else .error (.other s!"child '{name}' not running (status {handle.status.debug})")

/-- The children of a pool. -/
def members (handles : PoolHandles) (pool : String) : Finset String :=
  handles.keys.filter (fun name => pool.toList.isPrefixOf name.toList = true)

def candidates (handles : PoolHandles) (pool : String) : List String :=
  (members handles pool).sort

end Pools

/-- A call of `dispatch_to_pool` that has not returned. -/
structure PoolCall where
  pool : String
  payload : String
  listed : Nat
  untried : List String

/-- `received` is history: the pool of each job that was handed out, and its worker. -/
structure Pools where
  handles : PoolHandles
  inFlight : List PoolCall
  failures : List DispatchError
  received : List (String × String)

inductive PoolStep where
  | dispatchToPool (pool payload : String)
  /-- One turn of the loop of a call, or its end. -/
  | attempt (call : Nat)
  /-- What any other task does to the handles. -/
  | others (handles : PoolHandles)

def PoolStep.asks (pool : String) : PoolStep → Bool
  | .dispatchToPool asked _ => decide (asked = pool)
  | _ => false

namespace Pools

def start (handles : PoolHandles) : Pools :=
  { handles, inFlight := [], failures := [], received := [] }

def next (state : Pools) : PoolStep → Option Pools
  | .dispatchToPool pool payload =>
      let untried := candidates state.handles pool
      some { state with
        inFlight := state.inFlight ++ [{ pool, payload, listed := untried.length, untried }] }
  | .attempt position =>
      match state.inFlight[position]? with
      | none => none
      | some call =>
          match call.untried with
          | [] =>
              some { state with
                inFlight := state.inFlight.eraseIdx position
                failures := state.failures ++
                  [.other (s!"no worker matching prefix '{call.pool}' is accepting jobs " ++
                    s!"({call.listed} candidates)")] }
          | name :: rest =>
              match dispatchJob state.handles name call.payload with
              | .ok handles =>
                  some { state with
                    handles
                    inFlight := state.inFlight.eraseIdx position
                    received := state.received ++ [(call.pool, name)] }
              | .error _ =>
                  some { state with
                    inFlight := state.inFlight.set position { call with untried := rest } }
  | .others handles => some { state with handles }

/-- What a step can be: the inversion of `next`. -/
inductive Taken (state : Pools) : PoolStep → Pools → Prop
  | dispatchToPool (pool payload : String) :
      Taken state (.dispatchToPool pool payload)
        { state with
          inFlight := state.inFlight ++
            [{ pool, payload, listed := (candidates state.handles pool).length
               untried := candidates state.handles pool }] }
  | failed (position : Nat) (call : PoolCall) (error : DispatchError)
      (place : state.inFlight[position]? = some call) (none : call.untried = []) :
      Taken state (.attempt position)
        { state with
          inFlight := state.inFlight.eraseIdx position
          failures := state.failures ++ [error] }
  | accepted (position : Nat) (call : PoolCall) (name : String) (rest : List String)
      (handles : PoolHandles) (place : state.inFlight[position]? = some call)
      (first : call.untried = name :: rest)
      (sent : dispatchJob state.handles name call.payload = .ok handles) :
      Taken state (.attempt position)
        { state with
          handles
          inFlight := state.inFlight.eraseIdx position
          received := state.received ++ [(call.pool, name)] }
  | refused (position : Nat) (call : PoolCall) (name : String) (rest : List String)
      (error : DispatchError) (place : state.inFlight[position]? = some call)
      (first : call.untried = name :: rest)
      (unsent : dispatchJob state.handles name call.payload = .error error) :
      Taken state (.attempt position)
        { state with inFlight := state.inFlight.set position { call with untried := rest } }
  | others (handles : PoolHandles) : Taken state (.others handles) { state with handles }

variable {state after : Pools} {label : PoolStep}

theorem taken_of_next (taken : state.next label = some after) : Taken state label after := by
  cases label with
  | dispatchToPool pool payload =>
      cases taken
      exact .dispatchToPool pool payload
  | others handles =>
      cases taken
      exact .others handles
  | attempt position =>
      simp only [next] at taken
      cases place : state.inFlight[position]? with
      | none =>
          rw [place] at taken
          cases taken
      | some call =>
          simp only [place] at taken
          cases untried : call.untried with
          | nil =>
              simp only [untried, Option.some.injEq] at taken
              rw [← taken]
              exact .failed position call _ place untried
          | cons name rest =>
              simp only [untried] at taken
              cases sent : dispatchJob state.handles name call.payload with
              | ok handles =>
                  simp only [sent, Option.some.injEq] at taken
                  rw [← taken]
                  exact .accepted position call name rest handles place untried sent
              | error error =>
                  simp only [sent, Option.some.injEq] at taken
                  rw [← taken]
                  exact .refused position call name rest error place untried sent

/-! ### A pool whose workers keep accepting -/

/-- A job sent to this child arrives. -/
def Accepts (handles : PoolHandles) (name : String) : Prop :=
  ∃ handle stdin, handles.lookup name = some handle ∧ handle.status = .running ∧
    handle.stdin = some stdin ∧ stdin.broken = none

/-- These are the workers of the pool, and all of them accept. -/
def Accepting (pool : String) (names : Finset String) (state : Pools) : Prop :=
  members state.handles pool = names ∧ ∀ name, name ∈ names → Accepts state.handles name

instance (handles : PoolHandles) (name : String) : Decidable (Accepts handles name) :=
  decidable_of_iff ((handles.lookup name).any (fun handle =>
      decide (handle.status = .running) &&
        handle.stdin.any (fun stdin => decide (stdin.broken = none))) = true) (by
    unfold Accepts
    simp only [Option.any_eq_true, Bool.and_eq_true, decide_eq_true_eq]
    constructor
    · intro test
      obtain ⟨handle, found, running, stdin, attached, working⟩ := test
      exact ⟨handle, stdin, found, running, attached, working⟩
    · intro accepts
      obtain ⟨handle, stdin, found, running, attached, working⟩ := accepts
      exact ⟨handle, found, running, stdin, attached, working⟩)

instance (pool : String) (names : Finset String) (state : Pools) :
    Decidable (Accepting pool names state) :=
  inferInstanceAs (Decidable (_ ∧ ∀ name, name ∈ names → Accepts state.handles name))

/-- The workers that the jobs of a pool went to. -/
def served (state : Pools) (pool : String) : List String :=
  (state.received.filter (fun entry => decide (entry.1 = pool))).map Prod.snd

/-- No worker of the pool got two jobs more than another one. -/
def Balanced (names : Finset String) (workers : List String) : Prop :=
  ∀ more, more ∈ names → ∀ fewer, fewer ∈ names → workers.count more ≤ workers.count fewer + 1

variable {handles : PoolHandles}

theorem dispatchJob_of_accepts {name : String} (accepts : Accepts handles name) (payload : String) :
    ∃ after, dispatchJob handles name payload = .ok after := by
  obtain ⟨handle, stdin, found, running, attached, working⟩ := accepts
  simp only [dispatchJob, found, running, if_true, attached, working]
  exact ⟨_, rfl⟩

/-- Every call of the pool still has all of its workers to try, and every job of the pool
went to the first of them. -/
structure FirstServed (pool : String) (names : Finset String) (state : Pools) : Prop where
  untried : ∀ call, call ∈ state.inFlight → call.pool = pool → call.untried = names.sort
  first : ∀ entry, entry ∈ state.received → entry.1 = pool → names.sort.head? = some entry.2

variable {names : Finset String}

variable {pool : String}

theorem firstServed_step (firstServed : FirstServed pool names state)
    (accepting : Accepting pool names state) (taken : Taken state label after) :
    FirstServed pool names after := by
  cases taken with
  | dispatchToPool asked payload =>
      refine { firstServed with untried := ?_ }
      intro call member same
      cases List.mem_append.mp member with
      | inl old => exact firstServed.untried call old same
      | inr new =>
          rw [List.mem_singleton.mp new] at same ⊢
          change candidates state.handles asked = names.sort
          change asked = pool at same
          unfold candidates
          rw [same, accepting.1]
  | failed position call error place none =>
      refine { firstServed with untried := ?_ }
      intro other member same
      exact firstServed.untried other (List.mem_of_mem_eraseIdx member) same
  | accepted position call name rest handles place first sent =>
      constructor
      · intro other member same
        exact firstServed.untried other (List.mem_of_mem_eraseIdx member) same
      · intro entry member same
        cases List.mem_append.mp member with
        | inl old => exact firstServed.first entry old same
        | inr new =>
            rw [List.mem_singleton.mp new] at same ⊢
            have listed := firstServed.untried call (List.mem_of_getElem? place) same
            rw [← listed, first]
            rfl
  | refused position call name rest error place first unsent =>
      refine { firstServed with untried := ?_ }
      intro other member same
      cases List.mem_or_eq_of_mem_set member with
      | inl old => exact firstServed.untried other old same
      | inr changed =>
          -- A worker of the pool does not refuse.
          exfalso
          rw [changed] at same
          have listed := firstServed.untried call (List.mem_of_getElem? place) same
          have inside : name ∈ names := by
            rw [← Finset.mem_sort (· ≤ ·), ← listed, first]
            exact List.mem_cons_self
          obtain ⟨handles, sent⟩ := dispatchJob_of_accepts (accepting.2 name inside) call.payload
          rw [sent] at unsent
          cases unsent
  | others handles => exact { firstServed with }

theorem start_firstServed (pool : String) (names : Finset String) (handles : PoolHandles) :
    FirstServed pool names (start handles) := by
  constructor
  · intro call member
    cases member
  · intro entry member
    cases member

/-- The calls of a pool that have not returned. -/
def unreturned (state : Pools) (pool : String) : Nat :=
  state.inFlight.countP (fun call => decide (call.pool = pool))

/-- The calls of a pool that a run makes. -/
def calls (history : List (Pools × PoolStep)) (pool : String) : Nat :=
  history.countP (fun taken => taken.2.asks pool)

theorem served_length (state : Pools) (pool : String) :
    (state.served pool).length = state.received.countP (fun entry => decide (entry.1 = pool)) := by
  unfold served
  rw [List.length_map, List.countP_eq_length_filter]

theorem countP_eraseIdx {α : Type} {items : List α} {position : Nat} {item : α}
    (place : items[position]? = some item) (test : α → Bool) :
    (items.eraseIdx position).countP test + (if test item then 1 else 0) = items.countP test := by
  obtain ⟨within, same⟩ := List.getElem?_eq_some_iff.mp place
  have whole := (List.getElem_cons_eraseIdx_perm within).countP_eq test
  rw [List.countP_cons, same] at whole
  exact whole

theorem countP_set {α : Type} {items : List α} {position : Nat} {item other : α}
    (place : items[position]? = some item) {test : α → Bool} (alike : test other = test item) :
    (items.set position other).countP test = items.countP test := by
  obtain ⟨within, same⟩ := List.getElem?_eq_some_iff.mp place
  have changed := (List.set_perm_cons_eraseIdx within other).countP_eq test
  rw [changed, List.countP_cons, alike]
  exact countP_eraseIdx place test

/-- A call that returns has handed out its job. -/
theorem conserved_step (filled : names.Nonempty) (firstServed : FirstServed pool names state)
    (taken : Taken state label after) :
    (after.served pool).length + after.unreturned pool =
      (state.served pool).length + state.unreturned pool + (if label.asks pool then 1 else 0) := by
  rw [served_length, served_length]
  unfold unreturned
  cases taken with
  | dispatchToPool asked payload =>
      rw [List.countP_append, List.countP_singleton]
      exact (Nat.add_assoc _ _ _).symm
  | failed position call error place none =>
      have other : decide (call.pool = pool) = false := by
        apply decide_eq_false
        intro same
        have listed := firstServed.untried call (List.mem_of_getElem? place) same
        rw [none] at listed
        obtain ⟨name, inside⟩ := filled
        rw [← Finset.mem_sort (· ≤ ·), ← listed] at inside
        cases inside
      have counted := countP_eraseIdx place (fun call => decide (call.pool = pool))
      rw [other] at counted
      change _ = _ + _ + 0
      rw [← counted]
      rfl
  | accepted position call name rest handles place first sent =>
      have counted := countP_eraseIdx place (fun call => decide (call.pool = pool))
      change (state.received ++ [(call.pool, name)]).countP _ +
        (state.inFlight.eraseIdx position).countP _ = _ + _ + 0
      rw [List.countP_append, List.countP_singleton, ← counted]
      dsimp only
      omega
  | refused position call name rest error place first unsent =>
      change state.received.countP _ + (state.inFlight.set position _).countP _ = _ + _ + 0
      have kept := @countP_set _ state.inFlight position call { call with untried := rest } place
        (fun call => decide (call.pool = pool)) rfl
      rw [kept]
      rfl
  | others handles => rfl

theorem run_served {history : List (Pools × PoolStep)} {final : Pools}
    (run : Run next (start handles) history final)
    (accepting : Throughout (Accepting pool names) history final) :
    FirstServed pool names final ∧
      (names.Nonempty → (final.served pool).length + final.unreturned pool = calls history pool) := by
  induction run with
  | start => exact ⟨start_firstServed pool names handles, fun _ => rfl⟩
  | @step history state after label run taken ih =>
      obtain ⟨before, _⟩ := (throughout_append_iff _ _ _ _ _).mp accepting
      obtain ⟨firstServed, counted⟩ := ih before
      have stepped := taken_of_next taken
      refine ⟨firstServed_step firstServed before.2 stepped, ?_⟩
      intro filled
      rw [conserved_step filled firstServed stepped, counted filled]
      unfold calls
      rw [List.countP_append, List.countP_singleton]

/-! ### Balance -/

theorem balanced_iff {workers : List String} {first : String}
    (inside : first ∈ names) (all : ∀ worker, worker ∈ workers → worker = first) :
    Balanced names workers ↔ names.card ≤ 1 ∨ workers.length ≤ 1 := by
  have whole : workers.count first = workers.length :=
    List.count_eq_length.mpr (fun worker member => (all worker member).symm)
  constructor
  · intro balanced
    by_cases single : names.card ≤ 1
    · exact Or.inl single
    · obtain ⟨other, member, different⟩ := Finset.exists_mem_ne (Nat.lt_of_not_le single) first
      have unserved : workers.count other = 0 := by
        apply List.count_eq_zero.mpr
        intro got
        exact different (all other got)
      have apart := balanced first inside other member
      rw [whole, unserved] at apart
      exact Or.inr apart
  · intro few more memberMore fewer memberFewer
    cases few with
    | inl single =>
        rw [Finset.card_le_one.mp single more memberMore fewer memberFewer]
        exact Nat.le_succ _
    | inr short =>
        have bound : workers.count more ≤ workers.length := List.count_le_length
        omega

theorem sort_cons_of_nonempty (filled : names.Nonempty) :
    ∃ first rest, names.sort = first :: rest ∧ first ∈ names := by
  cases sorted : names.sort with
  | nil =>
      obtain ⟨name, inside⟩ := filled
      rw [← Finset.mem_sort (· ≤ ·), sorted] at inside
      cases inside
  | cons first rest =>
      refine ⟨first, rest, rfl, ?_⟩
      rw [← Finset.mem_sort (· ≤ ·), sorted]
      exact List.mem_cons_self

theorem FirstServed.balanced_iff {state : Pools}
    (firstServed : FirstServed pool names state) (filled : names.Nonempty) :
    Balanced names (state.served pool) ↔ names.card ≤ 1 ∨ (state.served pool).length ≤ 1 := by
  obtain ⟨first, rest, sorted, inside⟩ := sort_cons_of_nonempty filled
  apply Pools.balanced_iff inside
  intro worker member
  obtain ⟨entry, kept, same⟩ := List.mem_map.mp member
  obtain ⟨received, asked⟩ := List.mem_filter.mp kept
  have head := firstServed.first entry received (of_decide_eq_true asked)
  rw [sorted, List.head?_cons, Option.some.injEq] at head
  rw [← same, head]

/-- The jobs of a pool whose workers all keep accepting are spread evenly exactly where the
pool has one worker or one call has returned. -/
theorem served_balanced_iff {pool : String} {names : Finset String} {handles : PoolHandles}
    {history : List (Pools × PoolStep)} {final : Pools}
    (run : Run next (start handles) history final)
    (accepting : Throughout (Accepting pool names) history final) :
    Balanced names (final.served pool) ↔
      names.card ≤ 1 ∨ calls history pool ≤ final.unreturned pool + 1 := by
  obtain ⟨firstServed, counted⟩ := run_served run accepting
  cases names.eq_empty_or_nonempty with
  | inl empty =>
      apply iff_of_true
      · intro more member
        rw [empty] at member
        cases member
      · rw [empty]
        exact Or.inl (Nat.zero_le 1)
  | inr filled =>
      have total := counted filled
      rw [firstServed.balanced_iff filled]
      apply or_congr_right
      omega

/-! ### Two workers -/

theorem dispatchJob_keeps {after : PoolHandles} {name payload : String}
    (sent : dispatchJob handles name payload = .ok after) (accepts : Accepts handles name) :
    (∀ pool, members after pool = members handles pool) ∧
      ∀ other, Accepts handles other → Accepts after other := by
  obtain ⟨handle, stdin, found, running, attached, working⟩ := accepts
  simp only [dispatchJob, found, running, if_true, attached, working, Except.ok.injEq] at sent
  rw [← sent]
  constructor
  · intro pool
    unfold members
    congr 1
    ext other
    rw [Finmap.mem_keys, Finmap.mem_keys, Finmap.mem_insert, or_iff_right_iff_imp]
    intro same
    rw [same]
    exact Finmap.mem_of_lookup_eq_some found
  · intro other accepts
    by_cases same : other = name
    · rw [same]
      exact ⟨_, _, Finmap.lookup_insert _, rfl, rfl, rfl⟩
    · obtain ⟨otherHandle, otherStdin, otherFound, rest⟩ := accepts
      exact ⟨otherHandle, otherStdin, (Finmap.lookup_insert_of_ne _ same).trans otherFound, rest⟩

/-- A call of a pool that accepts returns after one attempt. -/
theorem call_returns {state : Pools} (idle : state.inFlight = []) (filled : names.Nonempty)
    (accepting : Accepting pool names state) (payload : String) :
    ∃ history after, Run next state history after ∧
      history.map Prod.snd = [.dispatchToPool pool payload, .attempt 0] ∧
      after.inFlight = [] ∧ Throughout (Accepting pool names) history after := by
  have listed : candidates state.handles pool = names.sort := by
    unfold candidates
    rw [accepting.1]
  obtain ⟨first, rest, sorted, inside⟩ := sort_cons_of_nonempty filled
  have accepts := accepting.2 first inside
  obtain ⟨handles, sent⟩ := dispatchJob_of_accepts accepts payload
  obtain ⟨same, kept⟩ := dispatchJob_keeps sent accepts
  have called : next state (.dispatchToPool pool payload) =
      some { state with
        inFlight := [{ pool, payload, listed := (first :: rest).length
                       untried := first :: rest }] } := by
    simp only [next, idle, listed, sorted, List.nil_append]
  have returned : next
      { state with
        inFlight := [{ pool, payload, listed := (first :: rest).length
                       untried := first :: rest }] } (.attempt 0) =
      some { state with
        handles, inFlight := [], received := state.received ++ [(pool, first)] } := by
    simp only [next, List.getElem?_cons_zero, sent, List.eraseIdx_cons_zero]
  refine ⟨_, _, (Run.start.step called).step returned, rfl, rfl, ?_, ?_⟩
  · intro taken member
    cases List.mem_append.mp member with
    | inl before =>
        rw [List.nil_append, List.mem_singleton] at before
        rw [before]
        exact accepting
    | inr last =>
        rw [List.mem_singleton.mp last]
        exact accepting
  · exact ⟨(same pool).trans accepting.1, fun name member => kept name (accepting.2 name member)⟩

def ready : PoolHandle :=
  { status := .running, stdin := some { written := "", broken := none } }

def twoParsers : PoolHandles :=
  ((∅ : PoolHandles).insert "parser-worker-0" ready).insert "parser-worker-1" ready

def parserNames : Finset String :=
  {"parser-worker-0", "parser-worker-1"}

theorem twoParsers_accepting : Accepting "parser-worker-" parserNames (start twoParsers) := by
  decide +kernel

theorem oneCall_balanced :
    ∃ history final, Run next (start twoParsers) history final ∧
      Throughout (Accepting "parser-worker-" parserNames) history final ∧
      (Balanced parserNames (final.served "parser-worker-") ↔
        parserNames.card ≤ 1 ∨
          calls history "parser-worker-" ≤ final.unreturned "parser-worker-" + 1) := by
  obtain ⟨history, final, run, _, _, accepting⟩ :=
    call_returns rfl ⟨"parser-worker-0", by decide⟩ twoParsers_accepting "{}"
  exact ⟨history, final, run, accepting, served_balanced_iff run accepting⟩

/-- Both jobs go to the first worker. -/
theorem twoCalls_unbalanced :
    ∃ history final, Run next (start twoParsers) history final ∧
      Throughout (Accepting "parser-worker-" parserNames) history final ∧
      history.map Prod.snd = [.dispatchToPool "parser-worker-" "1", .attempt 0,
        .dispatchToPool "parser-worker-" "2", .attempt 0] ∧
      ¬ Balanced parserNames (final.served "parser-worker-") := by
  have filled : parserNames.Nonempty := ⟨"parser-worker-0", by decide⟩
  obtain ⟨early, between, first, earlyLabels, idle, earlyAccepting⟩ :=
    call_returns rfl filled twoParsers_accepting "1"
  obtain ⟨late, final, second, lateLabels, settled, lateAccepting⟩ :=
    call_returns idle filled earlyAccepting.2 "2"
  have accepting : Throughout (Accepting "parser-worker-" parserNames) (early ++ late) final := by
    refine ⟨?_, lateAccepting.2⟩
    intro taken member
    cases List.mem_append.mp member with
    | inl before => exact earlyAccepting.1 taken before
    | inr after => exact lateAccepting.1 taken after
  have labels : (early ++ late).map Prod.snd = [.dispatchToPool "parser-worker-" "1", .attempt 0,
      .dispatchToPool "parser-worker-" "2", .attempt 0] := by
    rw [List.map_append, earlyLabels, lateLabels]
    rfl
  have run := first.append second
  obtain ⟨firstServed, counted⟩ := run_served run accepting
  refine ⟨_, final, run, accepting, labels, ?_⟩
  have made : calls (early ++ late) "parser-worker-" = 2 := by
    have counted := @List.countP_map _ _ (PoolStep.asks "parser-worker-") Prod.snd (early ++ late)
    rw [labels] at counted
    exact counted.symm
  have two := counted filled
  have none : final.unreturned "parser-worker-" = 0 := by
    unfold unreturned
    rw [settled]
    rfl
  rw [made, none, Nat.add_zero] at two
  intro balanced
  have spread := firstServed.balanced_iff filled
  rw [spread] at balanced
  revert balanced
  rw [two]
  decide

end Pools

end Mneme.Supervisor
