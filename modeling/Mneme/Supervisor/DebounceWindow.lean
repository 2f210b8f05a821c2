/-
The debounce loop of the watcher, with its clock.

An event is merged path by path into the map of the paths that wait; a tick dispatches those
that have been quiet for the debounce time, in the order in which the map yields them.  What
became of every path that the map took in is kept as a history.
-/

import Mneme.Supervisor.TreeFollowing

namespace Mneme.Supervisor

open Common Library Transition

structure PendingBatch where
  seenAt : Nat
  kind : ChangeKind
deriving DecidableEq

inductive WindowEntry where
  | kept (path : Names) (seenAt : Nat) (kind : ChangeKind)
  | dispatched (path : Names) (kind : ChangeKind)
deriving DecidableEq

/-- `log` and `dropped` are history: what the map took in and gave out, and the paths that
found it full. -/
structure DebounceLoop where
  pending : Keyed (Prod.fst : Names × PendingBatch → Names)
  log : List WindowEntry
  dropped : List Names
  /-- It waits for the lock of the statistics, for good. -/
  hung : Bool

inductive DebounceStep where
  /-- `instants` are the readings of the clock, one for each path. -/
  | receive (event : FsEvent) (instants : Nat → Nat)
  /-- What the tick dispatches, in the order of the map. -/
  | tick (now : Nat) (ready : List (Names × ChangeKind))

namespace DebounceLoop

def start : DebounceLoop :=
  { pending := .empty, log := [], dropped := [], hung := false }

/-- One path of an event is merged into the map. -/
def merge (kind : ChangeKind) (loop : DebounceLoop) (path : Names) (seenAt : Nat) : DebounceLoop :=
  if maxPending ≤ loop.pending.rows.length then { loop with dropped := loop.dropped ++ [path] }
  else
    let batch : PendingBatch :=
      match loop.pending.find path with
      | none => { seenAt, kind }
      | some (_, batch) =>
          -- Delete wins over upsert when both happen in the window.
          { seenAt, kind := if kind = .delete then .delete else batch.kind }
    { loop with
      pending := loop.pending.put (path, batch)
      log := loop.log ++ [.kept path seenAt kind] }

def isReady (debounce now : Nat) (row : Names × PendingBatch) : Bool :=
  debounce ≤ now - row.2.seenAt

def ready (debounce now : Nat) (loop : DebounceLoop) : List (Names × ChangeKind) :=
  (loop.pending.rows.filter (isReady debounce now)).map (fun row => (row.1, row.2.kind))

/-- One turn of the loop.  On an ignored path `classify_event` hangs before any path is merged. -/
def next (root : Names) (debounce : Nat) (loop : DebounceLoop) :
    DebounceStep → Option DebounceLoop
  | .receive event instants =>
      if loop.hung then none
      else if event.paths.any (fun path => isIgnored path root) then some { loop with hung := true }
      else
        some ((classifyEvent root event).zipIdx.foldl
          (fun loop path => loop.merge (eventKind event) path.1 (instants path.2)) loop)
  | .tick now order =>
      if loop.hung then none
      else if order.Perm (loop.ready debounce now) then
        some { loop with
          pending := loop.pending.keep (fun row => !isReady debounce now row)
          log := loop.log ++ order.map (fun item => .dispatched item.1 item.2) }
      else none

/-! ### The window of a path -/

/-- One entry of the log in the window of a path. -/
def follow (path : Names) (kept : List (Nat × ChangeKind)) : WindowEntry → List (Nat × ChangeKind)
  | .kept other seenAt kind => if other = path then kept ++ [(seenAt, kind)] else kept
  | .dispatched other _ => if other = path then [] else kept

/-- What the map took in for a path since it last gave it out. -/
def since (path : Names) (log : List WindowEntry) : List (Nat × ChangeKind) :=
  log.foldl (follow path) []

/-- Delete wins over upsert. -/
def mergedKind (kinds : List ChangeKind) : ChangeKind :=
  if .delete ∈ kinds then .delete else .upsert

/-- The batch of a window. -/
def batchOf (window : List (Nat × ChangeKind)) : Option PendingBatch :=
  window.getLast?.map (fun last =>
    { seenAt := last.1, kind := mergedKind (window.map Prod.snd) })

/-- The map holds the window of every path. -/
def Tracks (loop : DebounceLoop) : Prop :=
  ∀ path, loop.pending.find path = (batchOf (since path loop.log)).map (fun batch => (path, batch))

theorem since_append (path : Names) (log more : List WindowEntry) :
    since path (log ++ more) = more.foldl (follow path) (since path log) :=
  List.foldl_append

theorem batchOf_append (window : List (Nat × ChangeKind)) (seenAt : Nat) (kind : ChangeKind) :
    batchOf (window ++ [(seenAt, kind)]) =
      some { seenAt, kind := if kind = .delete then .delete else mergedKind (window.map Prod.snd) } := by
  unfold batchOf mergedKind
  rw [List.getLast?_concat, Option.map_some, List.map_append, List.map_singleton]
  cases kind with
  | delete => rw [if_pos (List.mem_append_right _ List.mem_cons_self), if_pos rfl]
  | upsert =>
      have others : .delete ∈ window.map Prod.snd ++ [ChangeKind.upsert] ↔
          .delete ∈ window.map Prod.snd := by
        rw [List.mem_append, List.mem_singleton, or_iff_left ChangeKind.noConfusion]
      simp only [others, reduceCtorEq, if_false]

theorem batchOf_eq_none_iff (window : List (Nat × ChangeKind)) :
    batchOf window = none ↔ window = [] := by
  unfold batchOf
  rw [Option.map_eq_none_iff, List.getLast?_eq_none_iff]

variable {loop : DebounceLoop}

theorem merge_tracks (tracks : loop.Tracks) (kind : ChangeKind) (path : Names)
    (seenAt : Nat) : (loop.merge kind path seenAt).Tracks := by
  intro other
  unfold merge
  by_cases full : maxPending ≤ loop.pending.rows.length
  · rw [if_pos full]
    exact tracks other
  · rw [if_neg full]
    dsimp only
    rw [Keyed.find_put, since_append, tracks path]
    by_cases same : path = other
    · rw [if_pos same, ← same]
      simp only [List.foldl_cons, List.foldl_nil, follow, if_true]
      rw [batchOf_append]
      cases held : batchOf (since path loop.log) with
      | none =>
          rw [(batchOf_eq_none_iff _).mp held]
          cases kind <;> rfl
      | some batch =>
          obtain ⟨last, _, kinds⟩ := Option.map_eq_some_iff.mp held
          rw [← kinds]
          rfl
    · rw [if_neg same]
      simp only [List.foldl_cons, List.foldl_nil, follow, if_neg same]
      exact tracks other

theorem mem_ready_iff (tracks : loop.Tracks) (debounce now : Nat)
    (path : Names) (kind : ChangeKind) :
    (path, kind) ∈ loop.ready debounce now ↔
      ∃ batch, batchOf (since path loop.log) = some batch ∧ debounce ≤ now - batch.seenAt ∧
        kind = batch.kind := by
  unfold ready
  rw [List.mem_map]
  constructor
  · intro found
    obtain ⟨row, kept, same⟩ := found
    obtain ⟨member, quiet⟩ := List.mem_filter.mp kept
    cases same
    have held := (Keyed.find_eq_some_iff loop.pending row.1 row).mpr ⟨member, rfl⟩
    rw [tracks row.1] at held
    obtain ⟨batch, window, same⟩ := Option.map_eq_some_iff.mp held
    rw [← same] at quiet ⊢
    exact ⟨batch, window, of_decide_eq_true quiet, rfl⟩
  · intro due
    obtain ⟨batch, window, quiet, same⟩ := due
    have held := tracks path
    rw [window, Option.map_some] at held
    have member := ((Keyed.find_eq_some_iff _ _ _).mp held).1
    refine ⟨(path, batch), List.mem_filter.mpr ⟨member, decide_eq_true quiet⟩, ?_⟩
    rw [same]

theorem ready_distinct (loop : DebounceLoop) (debounce now : Nat) :
    ((loop.ready debounce now).map Prod.fst).Nodup := by
  unfold ready
  rw [List.map_map]
  exact loop.pending.unique.sublist (List.filter_sublist.map Prod.fst)

/-- A list of dispatches ends the windows of its paths. -/
theorem foldl_dispatched (path : Names) (items : List (Names × ChangeKind))
    (window : List (Nat × ChangeKind)) :
    (items.map (fun item => WindowEntry.dispatched item.1 item.2)).foldl (follow path) window =
      if path ∈ items.map Prod.fst then [] else window := by
  induction items generalizing window with
  | nil => rfl
  | cons item items ih =>
      rw [List.map_cons, List.foldl_cons, ih, List.map_cons]
      change (if _ then _ else if item.1 = path then [] else window) = _
      by_cases later : path ∈ items.map Prod.fst
      · rw [if_pos later, if_pos (List.mem_cons_of_mem _ later)]
      · rw [if_neg later]
        by_cases here : item.1 = path
        · rw [if_pos here, here, if_pos List.mem_cons_self]
        · rw [if_neg here, if_neg]
          intro either
          cases List.mem_cons.mp either with
          | inl same => exact here same.symm
          | inr inside => exact later inside

variable {now debounce : Nat}

variable {order : List (Names × ChangeKind)}

theorem tick_tracks (tracks : loop.Tracks) (yielded : order.Perm (loop.ready debounce now)) :
    DebounceLoop.Tracks
      { loop with
        pending := loop.pending.keep (fun row => !isReady debounce now row)
        log := loop.log ++ order.map (fun item => .dispatched item.1 item.2) } := by
  intro path
  dsimp only
  rw [Keyed.find_keep, since_append, foldl_dispatched, tracks path]
  have inside : path ∈ order.map Prod.fst ↔
      ∃ batch, batchOf (since path loop.log) = some batch ∧ debounce ≤ now - batch.seenAt := by
    rw [(yielded.map Prod.fst).mem_iff, List.mem_map]
    constructor
    · intro found
      obtain ⟨item, member, same⟩ := found
      rw [← same]
      obtain ⟨batch, window, quiet, _⟩ := (mem_ready_iff tracks debounce now _ _).mp member
      exact ⟨batch, window, quiet⟩
    · intro due
      obtain ⟨batch, window, quiet⟩ := due
      exact ⟨(path, batch.kind),
        (mem_ready_iff tracks debounce now _ _).mpr ⟨batch, window, quiet, rfl⟩, rfl⟩
  by_cases due : path ∈ order.map Prod.fst
  · obtain ⟨batch, window, quiet⟩ := inside.mp due
    rw [if_pos due, window, Option.map_some, Option.filter_some]
    unfold isReady
    rw [decide_eq_true quiet]
    rfl
  · rw [if_neg due]
    cases window : batchOf (since path loop.log) with
    | none => rfl
    | some batch =>
        have waiting : ¬ debounce ≤ now - batch.seenAt := fun quiet => due (inside.mpr ⟨batch, window, quiet⟩)
        rw [Option.map_some, Option.filter_some]
        unfold isReady
        rw [decide_eq_false waiting]
        rfl

theorem foldl_merge_tracks (kind : ChangeKind) (instants : Nat → Nat) (paths : List (Names × Nat))
    (tracks : loop.Tracks) :
    (paths.foldl (fun loop path => loop.merge kind path.1 (instants path.2)) loop).Tracks := by
  induction paths generalizing loop with
  | nil => exact tracks
  | cons path paths ih => exact ih (merge_tracks tracks kind path.1 (instants path.2))

variable {loop after : DebounceLoop} {root : Names}

theorem next_tracks
    {label : DebounceStep} (tracks : loop.Tracks) (taken : next root debounce loop label = some after) :
    after.Tracks := by
  cases label with
  | receive event instants =>
      simp only [next] at taken
      split at taken
      · cases taken
      · split at taken
        · cases taken
          exact tracks
        · rw [← Option.some.inj taken]
          exact foldl_merge_tracks _ instants _ tracks
  | tick now order =>
      simp only [next] at taken
      split at taken
      · cases taken
      · split at taken
        · next yielded =>
            cases taken
            exact tick_tracks tracks yielded
        · cases taken

theorem start_tracks : start.Tracks := by
  intro path
  rfl

/-- What a tick dispatches: each path once whose window is not empty and has been quiet, as a
delete where the window has one. -/
structure Dispatches (debounce now : Nat) (loop : DebounceLoop) (order : List (Names × ChangeKind)) :
    Prop where
  once : (order.map Prod.fst).Nodup
  due : ∀ path kind, (path, kind) ∈ order ↔ ∃ last, (since path loop.log).getLast? = some last ∧
    debounce ≤ now - last.1 ∧ kind = mergedKind ((since path loop.log).map Prod.snd)

theorem run_dispatches {root : Names} {debounce : Nat} {history : List (DebounceLoop × DebounceStep)}
    {final : DebounceLoop} (run : Run (next root debounce) start history final) :
    ∀ loop now order, (loop, .tick now order) ∈ history → Dispatches debounce now loop order := by
  have tracked : ∀ taken, taken ∈ history → taken.1.Tracks ∧
      ∃ after, next root debounce taken.1 taken.2 = some after := by
    have both : (∀ taken, taken ∈ history → taken.1.Tracks ∧
        ∃ after, next root debounce taken.1 taken.2 = some after) ∧ final.Tracks := by
      induction run with
      | start => exact ⟨(fun _ member => nomatch member), start_tracks⟩
      | @step history loop after label run taken ih =>
          refine ⟨?_, next_tracks ih.2 taken⟩
          intro step member
          cases List.mem_append.mp member with
          | inl before => exact ih.1 step before
          | inr last =>
              rw [List.mem_singleton.mp last]
              exact ⟨ih.2, after, taken⟩
    exact both.1
  intro loop now order member
  obtain ⟨tracks, after, taken⟩ := tracked _ member
  have yielded : order.Perm (loop.ready debounce now) := by
    simp only [next] at taken
    split at taken
    · cases taken
    · split at taken
      · assumption
      · cases taken
  constructor
  · exact (yielded.map Prod.fst).nodup_iff.mpr (ready_distinct loop debounce now)
  · intro path kind
    rw [yielded.mem_iff, mem_ready_iff tracks]
    unfold batchOf
    constructor
    · intro due
      obtain ⟨batch, window, quiet, same⟩ := due
      obtain ⟨last, ends, kinds⟩ := Option.map_eq_some_iff.mp window
      rw [← kinds] at quiet same
      exact ⟨last, ends, quiet, same⟩
    · intro due
      obtain ⟨last, ends, quiet, same⟩ := due
      exact ⟨_, Option.map_eq_some_iff.mpr ⟨last, ends, rfl⟩, quiet, same⟩

/-! ### Without the clock -/

/-- The loop of the watcher's model, which has no clock. -/
def untimed (loop : DebounceLoop) : Debouncer :=
  { pending :=
      { rows := loop.pending.rows.map (fun row => (row.1, row.2.kind))
        unique := by
          rw [List.map_map]
          exact loop.pending.unique }
    dropped := loop.dropped
    hung := loop.hung }

theorem mem_untimed_iff (loop : DebounceLoop) (path : Names) (kind : ChangeKind) :
    (path, kind) ∈ loop.untimed.pending.rows ↔
      ∃ batch, loop.pending.find path = some (path, batch) ∧ batch.kind = kind := by
  change (path, kind) ∈ loop.pending.rows.map (fun row => (row.1, row.2.kind)) ↔ _
  rw [List.mem_map]
  constructor
  · intro found
    obtain ⟨row, member, same⟩ := found
    cases same
    exact ⟨row.2, (Keyed.find_eq_some_iff _ _ _).mpr ⟨member, rfl⟩, rfl⟩
  · intro found
    obtain ⟨batch, held, same⟩ := found
    exact ⟨(path, batch), ((Keyed.find_eq_some_iff _ _ _).mp held).1, by rw [same]⟩

theorem untimed_put (loop : DebounceLoop) (path : Names) (batch : PendingBatch) :
    untimed { loop with pending := loop.pending.put (path, batch) } =
      { loop.untimed with pending := loop.untimed.pending.put (path, batch.kind) } := by
  unfold untimed
  congr 1
  apply Keyed.ext_rows
  change (loop.pending.rows.filter _ ++ [(path, batch)]).map _ =
    (loop.pending.rows.map _).filter _ ++ [(path, batch.kind)]
  rw [List.map_append, List.map_singleton, List.filter_map]
  rfl

theorem merge_untimed (loop : DebounceLoop) (kind : ChangeKind) (path : Names) (seenAt : Nat) :
    (loop.merge kind path seenAt).untimed = loop.untimed.coalesce kind path := by
  have size : loop.untimed.pending.rows.length = loop.pending.rows.length := List.length_map _
  unfold merge Debouncer.coalesce
  rw [size]
  by_cases full : maxPending ≤ loop.pending.rows.length
  · rw [if_pos full, if_pos full]
    rfl
  · rw [if_neg full, if_neg full]
    refine (untimed_put loop path _).trans ?_
    cases held : loop.pending.find path with
    | none =>
        have absent : (path, .delete) ∉ loop.untimed.pending.rows := by
          intro member
          obtain ⟨batch, found, _⟩ := (mem_untimed_iff loop path _).mp member
          rw [held] at found
          cases found
        rw [if_neg absent]
    | some row =>
        have named := ((Keyed.find_eq_some_iff _ _ _).mp held).2
        have found : loop.pending.find path = some (path, row.2) := by
          rw [held, ← named]
        dsimp only
        cases before : row.2.kind with
        | delete =>
            rw [if_pos ((mem_untimed_iff loop path _).mpr ⟨row.2, found, before⟩)]
            rw [ite_self]
        | upsert =>
            have absent : (path, .delete) ∉ loop.untimed.pending.rows := by
              intro member
              obtain ⟨batch, again, deleted⟩ := (mem_untimed_iff loop path _).mp member
              rw [found] at again
              cases again
              rw [before] at deleted
              cases deleted
            rw [if_neg absent]
            cases kind <;> rfl

theorem foldl_merge_untimed (kind : ChangeKind) (instants : Nat → Nat) (paths : List (Names × Nat))
    (loop : DebounceLoop) :
    (paths.foldl (fun loop path => loop.merge kind path.1 (instants path.2)) loop).untimed =
      (paths.map Prod.fst).foldl (Debouncer.coalesce kind) loop.untimed := by
  induction paths generalizing loop with
  | nil => rfl
  | cons path paths ih =>
      rw [List.foldl_cons, ih, merge_untimed, List.map_cons, List.foldl_cons]

theorem receive_untimed {event : FsEvent} {instants : Nat → Nat}
    (taken : next root debounce loop (.receive event instants) = some after) :
    after.untimed = loop.untimed.receive root event := by
  simp only [next] at taken
  unfold Debouncer.receive
  split at taken
  · cases taken
  · split at taken
    · next ignored =>
        rw [if_pos ignored, ← Option.some.inj taken]
        rfl
    · next heard =>
        rw [if_neg heard, ← Option.some.inj taken, foldl_merge_untimed, List.zipIdx_map_fst]

/-- A tick takes the rows it dispatches out of the map. -/
theorem tick_untimed (taken : next root debounce loop (.tick now order) = some after) :
    order.Nodup ∧ order ⊆ loop.untimed.pending.rows ∧
      after.untimed = { loop.untimed with
        pending := loop.untimed.pending.keep (fun row => row ∉ order) } := by
  simp only [next] at taken
  split at taken
  · cases taken
  · split at taken
    · next yielded =>
        have distinct := List.Nodup.of_map Prod.fst (ready_distinct loop debounce now)
        refine ⟨yielded.nodup_iff.mpr distinct, ?_, ?_⟩
        · intro item member
          obtain ⟨row, kept, same⟩ := List.mem_map.mp (yielded.mem_iff.mp member)
          exact List.mem_map.mpr ⟨row, (List.mem_filter.mp kept).1, same⟩
        · rw [← Option.some.inj taken]
          unfold untimed
          congr 1
          apply Keyed.ext_rows
          change (loop.pending.rows.filter _).map _ = (loop.pending.rows.map _).filter _
          rw [List.filter_map]
          congr 1
          apply List.filter_congr
          intro row member
          have gone : (row.1, row.2.kind) ∈ order ↔ isReady debounce now row = true := by
            rw [yielded.mem_iff]
            unfold ready
            rw [List.mem_map]
            constructor
            · intro found
              obtain ⟨other, kept, same⟩ := found
              have once := List.inj_on_of_nodup_map loop.pending.unique
                (List.mem_filter.mp kept).1 member (Prod.mk.inj same).1
              rw [← once]
              exact (List.mem_filter.mp kept).2
            · intro quiet
              exact ⟨row, List.mem_filter.mpr ⟨member, quiet⟩, rfl⟩
          dsimp only [Function.comp]
          have same : decide ((row.1, row.2.kind) ∈ order) = isReady debounce now row := by
            rw [Bool.eq_iff_iff, decide_eq_true_iff]
            exact gone
          rw [decide_not, same]
    · cases taken

/-- The events a turn takes off the channel. -/
def received : DebounceStep → List FsEvent
  | .receive event _ => [event]
  | .tick _ _ => []

def given : DebounceStep → List (Names × ChangeKind)
  | .receive _ _ => []
  | .tick _ order => order

/-- The turn as a step of the watcher's model. -/
def watched : DebounceStep → WatchStep
  | .receive _ _ => .receive
  | .tick _ order => .tick order

theorem step_watched {project : Project} {step : DebounceStep}
    (taken : next project.root debounce loop step = some after) (state : Watch)
    (later : List FsEvent) :
    Watch.next project
        { state with raw := received step ++ later, debouncer := loop.untimed } (watched step) =
      some { state with
        raw := later
        debouncer := after.untimed
        index := state.index ++ given step } := by
  have awake : loop.hung = false := by
    cases hung : loop.hung with
    | false => rfl
    | true => cases step <;> simp [next, hung] at taken
  cases step with
  | receive event instants =>
      simp only [received, watched, given, List.cons_append, List.nil_append, List.append_nil,
        Watch.next, receive_untimed taken]
      exact if_neg (by simp [untimed, awake])
  | tick now order =>
      obtain ⟨distinct, listed, moved⟩ := tick_untimed taken
      simp only [received, watched, given, List.nil_append, Watch.next, moved]
      exact if_pos ⟨awake, distinct, listed⟩

/-- What the loop does by its clock the watcher's model can do without: it takes the same events
off the channel, and gives the same jobs to the worker in the same order. -/
theorem run_watched {project : Project}
    {history : List (DebounceLoop × DebounceStep)} {final : DebounceLoop}
    (run : Run (next project.root debounce) start history final) (state : Watch)
    (fresh : state.debouncer = .empty) (later : List FsEvent)
    (raw : state.raw = history.flatMap (fun taken => received taken.2) ++ later) :
    ∃ steps, Run (Watch.next project) state steps { state with
        raw := later
        debouncer := final.untimed
        index := state.index ++ history.flatMap (fun taken => given taken.2) } ∧
      steps.map Prod.snd = history.map (fun taken => watched taken.2) := by
  induction run generalizing later with
  | start =>
      refine ⟨[], ?_, rfl⟩
      have same : state = { state with
          raw := later
          debouncer := DebounceLoop.start.untimed
          index := state.index ++ [] } := by
        obtain ⟨tree, old, debouncer, index, shard, hung⟩ := state
        cases fresh
        cases raw
        simp only [List.append_nil]
        rfl
      exact same ▸ Run.start
  | step _ taken ih =>
      rename_i history _ _ step _
      rw [List.flatMap_append, List.append_assoc, List.flatMap_singleton] at raw
      obtain ⟨steps, before, labels⟩ := ih (received step ++ later) raw
      have turn := before.step (step_watched taken
        { state with index := state.index ++ history.flatMap (fun taken => given taken.2) } later)
      rw [List.flatMap_append, List.flatMap_singleton, ← List.append_assoc]
      refine ⟨_, turn, ?_⟩
      rw [List.map_append, labels, List.map_append]
      rfl

/-! ### Two events -/

def savedFile : Names :=
  [Watch.projectName, Watch.firstName]

/-- An editor saves a file by removing it and creating it again. -/
def savedTwice : List DebounceStep :=
  [.receive { kind := .remove .file, paths := [savedFile] } (fun _ => 0),
    .receive { kind := .create, paths := [savedFile] } (fun _ => 10),
    .tick 125 [], .tick 375 [(savedFile, .delete)]]

theorem savedTwice_dispatches :
    ∃ history final, Run (next [Watch.projectName] 250) start history final ∧
      history.map Prod.snd = savedTwice ∧
      ∀ loop now order, (loop, .tick now order) ∈ history → Dispatches 250 now loop order := by
  have traced := Run.of_trace (next [Watch.projectName] 250) start savedTwice (fun _ _ => true)
    (by decide +kernel)
  obtain ⟨history, final, run, labels, _⟩ := traced
  exact ⟨history, final, run, labels, run_dispatches run⟩

theorem savedTwice_watched :
    ∃ steps after, Run (Watch.next Watch.rustProject)
      { Watch.start Watch.rustProject Watch.emptyFile with raw := savedTwice.flatMap received }
      steps after ∧ after.index = [(savedFile, .delete)] := by
  have traced := Run.of_trace (next Watch.rustProject.root 250) start savedTwice (fun _ _ => true)
    (by decide +kernel)
  obtain ⟨history, final, run, labels, _⟩ := traced
  have raw : savedTwice.flatMap received =
      history.flatMap (fun taken => received taken.2) ++ [] := by
    rw [List.append_nil, ← labels, List.flatMap_map]
  obtain ⟨steps, watching, _⟩ := run_watched run
    { Watch.start Watch.rustProject Watch.emptyFile with raw := savedTwice.flatMap received } rfl
    [] raw
  refine ⟨steps, _, watching, ?_⟩
  change history.flatMap (fun taken => given taken.2) = _
  rw [← List.flatMap_map Prod.snd, labels]
  rfl

/-- The kind dispatched for a path is that of its last event. -/
def KeepsLastWord (history : List (DebounceLoop × DebounceStep)) : Prop :=
  ∀ loop now order, (loop, .tick now order) ∈ history → ∀ path kind, (path, kind) ∈ order →
    (since path loop.log).getLast?.map Prod.snd = some kind

theorem savedTwice_deleted :
    ∃ history final, Run (next [Watch.projectName] 250) start history final ∧
      history.map Prod.snd = savedTwice ∧
      final.log = [.kept savedFile 0 .delete, .kept savedFile 10 .upsert,
        .dispatched savedFile .delete] ∧ ¬ KeepsLastWord history := by
  have traced := Run.of_trace (next [Watch.projectName] 250) start savedTwice
    (fun history final => decide (final.log = [.kept savedFile 0 .delete,
        .kept savedFile 10 .upsert, .dispatched savedFile .delete]) &&
      decide ((history.map (fun taken => taken.1.log))[3]? =
        some [.kept savedFile 0 .delete, .kept savedFile 10 .upsert])) (by decide +kernel)
  obtain ⟨history, final, run, labels, passed⟩ := traced
  rw [Bool.and_eq_true] at passed
  refine ⟨history, final, run, labels, of_decide_eq_true passed.1, ?_⟩
  intro keeps
  obtain ⟨taken, place, log⟩ := Option.map_eq_some_iff.mp
    (List.getElem?_map.symm.trans (of_decide_eq_true passed.2))
  have label : taken.2 = .tick 375 [(savedFile, .delete)] := by
    have named := congrArg (fun steps => steps[3]?) labels
    rw [List.getElem?_map, place] at named
    exact Option.some.inj named
  have member : (taken.1, .tick 375 [(savedFile, .delete)]) ∈ history := by
    rw [← label]
    exact List.mem_of_getElem? place
  have last := keeps _ _ _ member savedFile .delete List.mem_cons_self
  rw [log] at last
  revert last
  decide

end DebounceLoop

end Mneme.Supervisor
