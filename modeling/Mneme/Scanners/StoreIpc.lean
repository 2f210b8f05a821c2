/-
The batcher of findings between the scan workers and the store: results are gathered until
there are enough of them, a time is over or their channel is closed.

Results come into the channel, time goes by and the receiver of the batches may go away at
any moment.  Each step of the batcher is the code between two points at which it waits; of
two branches that are ready either may be taken.  Instants are counted in nanoseconds.
-/

import Mneme.Library.Run
import Mneme.Scanners.Builtin

namespace Mneme.Scanners.StoreIpc

open Transition

structure FindingsBatch where
  jobIds : List Nat
  findings : List Finding
  failedScanners : List String
  createdMs : Nat

def FindingsBatch.new (nowMs : Nat) : FindingsBatch :=
  { jobIds := [], findings := [], failedScanners := [], createdMs := nowMs }

structure BatcherConfig where
  maxFindings : Nat
  maxJobs : Nat
  maxWait : Nat

def BatcherConfig.default : BatcherConfig :=
  { maxFindings := 256, maxJobs := 64, maxWait := 100 * 1000000 }

def FindingsBatch.push (batch : FindingsBatch) (res : ScanResult) : FindingsBatch :=
  { batch with
    jobIds := batch.jobIds ++ [res.jobId]
    findings := batch.findings ++ res.findings
    failedScanners := batch.failedScanners ++ res.failedScanners }

def FindingsBatch.full (cfg : BatcherConfig) (batch : FindingsBatch) : Bool :=
  cfg.maxFindings ≤ batch.findings.length || cfg.maxJobs ≤ batch.jobIds.length

/-! ### State -/

inductive Phase where
  /-- In front of the `select!`. -/
  | looping
  /-- A batch waits for room at its receiver; after the last one the batcher is done. -/
  | flushing (filled : FindingsBatch) (last : Bool)
  | returned (ok : Bool)

structure State where
  now : Nat
  nowMs : Nat
  /-- History: all results that came into the channel. -/
  arrivals : List ScanResult
  results : List ScanResult
  closed : Bool
  batch : FindingsBatch
  deadline : Nat
  phase : Phase
  sent : List FindingsBatch
  receiverGone : Bool

def start (cfg : BatcherConfig) (now nowMs : Nat) : State :=
  { now, nowMs
    arrivals := []
    results := []
    closed := false
    batch := FindingsBatch.new nowMs
    deadline := now + cfg.maxWait
    phase := .looping
    sent := []
    receiverGone := false }

/-- The batch is replaced by a new one before it is sent. -/
def State.flush (state : State) (last : Bool) : State :=
  { state with
    phase := .flushing { state.batch with createdMs := state.nowMs } last
    batch := FindingsBatch.new state.nowMs }

def State.take (state : State) (res : ScanResult) (rest : List ScanResult) : State :=
  { state with results := rest, batch := state.batch.push res }

inductive Step where
  | arrive (res : ScanResult)
  | close
  | pass (elapsed nowMs : Nat)
  | leave
  | recv
  | timeout
  | send

/-! ### Steps -/

/-- What stands outside of the batcher. -/
def outside (state : State) : Step → Option State
  | .arrive res =>
      if state.closed then none
      else some { state with
        arrivals := state.arrivals ++ [res]
        results := state.results ++ [res] }
  | .close => some { state with closed := true }
  | .pass elapsed nowMs => some { state with now := state.now + elapsed, nowMs }
  | .leave => some { state with receiverGone := true }
  | _ => none

def next (cfg : BatcherConfig) (state : State) (step : Step) : Option State :=
  match step, state.phase with
  | .recv, .looping =>
      match state.results with
      | res :: rest =>
          let taken := state.take res rest
          if taken.batch.full cfg then some (taken.flush false) else some taken
      | [] =>
          -- The channel is empty: only its end can be received.
          if state.closed then
            if state.batch.jobIds.isEmpty then some { state with phase := .returned true }
            else some (state.flush true)
          else none
  | .timeout, .looping =>
      if state.now < state.deadline then none
      else if state.batch.jobIds.isEmpty then
        some { state with deadline := state.now + cfg.maxWait }
      else some (state.flush false)
  | .send, .flushing filled last =>
      if state.receiverGone then some { state with phase := .returned false }
      else if last then some { state with sent := state.sent ++ [filled], phase := .returned true }
      else some { state with
        sent := state.sent ++ [filled]
        phase := .looping
        deadline := state.now + cfg.maxWait }
  | step, _ => outside state step

/-- What a step can do. -/
inductive Change (cfg : BatcherConfig) (state : State) : State → Prop where
  | arrived (res : ScanResult) (opened : state.closed = false) :
      Change cfg state { state with
        arrivals := state.arrivals ++ [res]
        results := state.results ++ [res] }
  | closed : Change cfg state { state with closed := true }
  | passed (elapsed nowMs : Nat) :
      Change cfg state { state with now := state.now + elapsed, nowMs }
  | left : Change cfg state { state with receiverGone := true }
  | took (res : ScanResult) (rest : List ScanResult) (looping : state.phase = .looping)
      (first : state.results = res :: rest) :
      Change cfg state (state.take res rest)
  | filled (res : ScanResult) (rest : List ScanResult) (looping : state.phase = .looping)
      (first : state.results = res :: rest) :
      Change cfg state ((state.take res rest).flush false)
  | ended (looping : state.phase = .looping) (none : state.results = [])
      (closed : state.closed = true) (empty : state.batch.jobIds = []) :
      Change cfg state { state with phase := .returned true }
  | remains (looping : state.phase = .looping) (none : state.results = [])
      (closed : state.closed = true) (some_ : state.batch.jobIds ≠ []) :
      Change cfg state (state.flush true)
  | idled (looping : state.phase = .looping) (empty : state.batch.jobIds = []) :
      Change cfg state { state with deadline := state.now + cfg.maxWait }
  | timedOut (looping : state.phase = .looping) (some_ : state.batch.jobIds ≠ []) :
      Change cfg state (state.flush false)
  | failed (filled : FindingsBatch) (last : Bool) (flushing : state.phase = .flushing filled last) :
      Change cfg state { state with phase := .returned false }
  | sentLast (filled : FindingsBatch) (flushing : state.phase = .flushing filled true) :
      Change cfg state { state with sent := state.sent ++ [filled], phase := .returned true }
  | sent (filled : FindingsBatch) (flushing : state.phase = .flushing filled false) :
      Change cfg state { state with
        sent := state.sent ++ [filled]
        phase := .looping
        deadline := state.now + cfg.maxWait }

variable {cfg : BatcherConfig} {state after : State}

theorem change_of_outside {step : Step} (taken : outside state step = some after) :
    Change cfg state after := by
  cases step with
  | arrive res =>
      rw [outside] at taken
      split at taken
      · cases taken
      · rename_i opened
        injection taken with taken
        rw [← taken]
        exact .arrived res (Bool.eq_false_iff.mpr opened)
  | close =>
      injection taken with taken
      rw [← taken]
      exact .closed
  | pass elapsed nowMs =>
      injection taken with taken
      rw [← taken]
      exact .passed elapsed nowMs
  | leave =>
      injection taken with taken
      rw [← taken]
      exact .left
  | recv => cases taken
  | timeout => cases taken
  | send => cases taken

theorem change_of_next {step : Step} (taken : next cfg state step = some after) :
    Change cfg state after := by
  unfold next at taken
  split at taken
  · rename_i looping
    split at taken
    · rename_i res rest first
      dsimp only at taken
      split at taken
      · injection taken with taken
        rw [← taken]
        exact .filled res rest looping first
      · injection taken with taken
        rw [← taken]
        exact .took res rest looping first
    · rename_i none
      split at taken
      · rename_i closed
        split at taken
        · rename_i empty
          injection taken with taken
          rw [← taken]
          exact .ended looping none closed (List.isEmpty_iff.mp empty)
        · rename_i some_
          injection taken with taken
          rw [← taken]
          exact .remains looping none closed (fun empty => some_ (List.isEmpty_iff.mpr empty))
      · cases taken
  · rename_i looping
    split at taken
    · cases taken
    · split at taken
      · rename_i empty
        injection taken with taken
        rw [← taken]
        exact .idled looping (List.isEmpty_iff.mp empty)
      · rename_i some_
        injection taken with taken
        rw [← taken]
        exact .timedOut looping (fun empty => some_ (List.isEmpty_iff.mpr empty))
  · rename_i filled last flushing
    split at taken
    · injection taken with taken
      rw [← taken]
      exact .failed filled last flushing
    · split at taken
      · rename_i isLast
        injection taken with taken
        rw [← taken]
        rw [isLast] at flushing
        exact .sentLast filled flushing
      · rename_i notLast
        injection taken with taken
        rw [← taken]
        rw [Bool.eq_false_iff.mpr notLast] at flushing
        exact .sent filled flushing
  · exact change_of_outside taken

/-! ### What is in the batches -/

/-- A part of the results that is gathered in batches. -/
structure Field (Item : Type) where
  ofBatch : FindingsBatch → List Item
  ofResult : ScanResult → List Item
  new : ∀ nowMs, ofBatch (FindingsBatch.new nowMs) = []
  push : ∀ batch res, ofBatch (batch.push res) = ofBatch batch ++ ofResult res
  stamp : ∀ batch createdMs, ofBatch { batch with createdMs } = ofBatch batch

def jobIds : Field Nat where
  ofBatch := FindingsBatch.jobIds
  ofResult := fun res => [res.jobId]
  new := fun _ => rfl
  push := fun _ _ => rfl
  stamp := fun _ _ => rfl

def findings : Field Finding where
  ofBatch := FindingsBatch.findings
  ofResult := ScanResult.findings
  new := fun _ => rfl
  push := fun _ _ => rfl
  stamp := fun _ _ => rfl

def failedScanners : Field String where
  ofBatch := FindingsBatch.failedScanners
  ofResult := ScanResult.failedScanners
  new := fun _ => rfl
  push := fun _ _ => rfl
  stamp := fun _ _ => rfl

/-- The batch on its way. -/
def Phase.inFlight : Phase → List FindingsBatch
  | .flushing filled _ => [filled]
  | _ => []

/-- No more results come when these are the last ones. -/
def Phase.final : Phase → Bool
  | .looping => false
  | .flushing _ last => last
  | .returned ok => ok

variable {Item : Type} {field : Field Item}

/-- What came in is in the batches, in the channel or in between, unless a batch was lost with its
receiver. -/
structure Kept (field : Field Item) (state : State) : Prop where
  account : state.phase = .returned false ∨
    state.sent.flatMap field.ofBatch ++ (state.phase.inFlight.flatMap field.ofBatch ++
      (field.ofBatch state.batch ++ state.results.flatMap field.ofResult)) =
        state.arrivals.flatMap field.ofResult
  idle : state.batch.jobIds = [] → field.ofBatch state.batch = []
  final : state.phase.final = true →
    state.closed = true ∧ state.results = [] ∧ field.ofBatch state.batch = []

theorem Kept.start (cfg : BatcherConfig) (now nowMs : Nat) :
    Kept field (start cfg now nowMs) where
  account := Or.inr (by
    change [] ++ ([] ++ (field.ofBatch (FindingsBatch.new nowMs) ++ [])) = []
    rw [field.new]
    rfl)
  idle := fun _ => field.new nowMs
  final := fun impossible => by cases impossible

theorem Kept.take {res : ScanResult} {rest : List ScanResult} (kept : Kept field state)
    (looping : state.phase = .looping) (first : state.results = res :: rest) :
    Kept field (state.take res rest) where
  account := kept.account.imp_right (by
    intro same
    rw [first, List.flatMap_cons, ← List.append_assoc (field.ofBatch state.batch),
      ← field.push] at same
    exact same)
  idle := fun empty => by
    have more : state.batch.jobIds ++ [res.jobId] = [] := empty
    exact absurd more (by simp)
  final := fun last => by
    have phase : state.phase.final = true := last
    rw [looping] at phase
    cases phase

theorem Kept.flush {last : Bool} (kept : Kept field state) (looping : state.phase = .looping)
    (ends : last = true → state.closed = true ∧ state.results = []) :
    Kept field (state.flush last) where
  account := Or.inr (by
    rcases kept.account with failed | same
    · rw [looping] at failed
      cases failed
    · have filled : (state.flush last).phase.inFlight.flatMap field.ofBatch =
          field.ofBatch state.batch := by
        change field.ofBatch _ ++ [] = _
        rw [List.append_nil, field.stamp]
      have batch : field.ofBatch (state.flush last).batch = [] := field.new _
      rw [looping] at same
      rw [filled, batch, List.nil_append]
      exact same)
  idle := fun _ => field.new _
  final := fun isLast => ⟨(ends isLast).1, (ends isLast).2, field.new _⟩

theorem Kept.change (kept : Kept field state) (change : Change cfg state after) :
    Kept field after := by
  have ⟨account, idle, final⟩ := kept
  cases change with
  | arrived res opened =>
      refine ⟨account.imp_right ?_, idle, ?_⟩
      · intro same
        rw [List.flatMap_append, List.flatMap_append, ← same]
        simp only [List.append_assoc]
      · intro last
        rw [(final last).1] at opened
        cases opened
  | closed => exact ⟨account, idle, fun last => ⟨rfl, (final last).2⟩⟩
  | passed elapsed nowMs => exact ⟨account, idle, final⟩
  | left => exact ⟨account, idle, final⟩
  | took res rest looping first => exact kept.take looping first
  | filled res rest looping first =>
      exact (kept.take looping first).flush looping (fun impossible => by cases impossible)
  | ended looping none closed empty =>
      refine ⟨Or.inr ?_, idle, fun _ => ⟨closed, none, idle empty⟩⟩
      rw [looping] at account
      exact account.resolve_left (fun impossible => by cases impossible)
  | remains looping none closed some_ => exact kept.flush looping (fun _ => ⟨closed, none⟩)
  | idled looping empty => exact ⟨account, idle, final⟩
  | timedOut looping some_ => exact kept.flush looping (fun impossible => by cases impossible)
  | failed filled last flushing => exact ⟨Or.inl rfl, idle, fun impossible => by cases impossible⟩
  | sentLast filled flushing =>
      rw [flushing] at account final
      refine ⟨Or.inr ?_, idle, fun _ => final rfl⟩
      have same := account.resolve_left (fun impossible => by cases impossible)
      rw [List.flatMap_append, List.append_assoc]
      exact same
  | sent filled flushing =>
      rw [flushing] at account
      refine ⟨Or.inr ?_, idle, fun impossible => by cases impossible⟩
      have same := account.resolve_left (fun impossible => by cases impossible)
      rw [List.flatMap_append, List.append_assoc]
      exact same

/-- No batch is without a job. -/
def NoneEmpty (state : State) : Prop :=
  ∀ batch ∈ state.sent ++ state.phase.inFlight, batch.jobIds ≠ []

theorem NoneEmpty.change (noneEmpty : NoneEmpty state) (change : Change cfg state after) :
    NoneEmpty after := by
  have earlier : ∀ batch ∈ state.sent, batch.jobIds ≠ [] :=
    fun batch member => noneEmpty batch (List.mem_append_left _ member)
  have flushed : ∀ {before : State} {last : Bool}, before.sent = state.sent →
      before.batch.jobIds ≠ [] → NoneEmpty (before.flush last) := by
    intro before last sent some_ batch member
    rcases List.mem_append.mp member with done | filled
    · change batch ∈ before.sent at done
      rw [sent] at done
      exact earlier batch done
    · rw [List.mem_singleton.mp filled]
      exact some_
  cases change with
  | arrived res opened => exact noneEmpty
  | closed => exact noneEmpty
  | passed elapsed nowMs => exact noneEmpty
  | left => exact noneEmpty
  | took res rest looping first => exact noneEmpty
  | filled res rest looping first =>
      refine flushed rfl ?_
      change state.batch.jobIds ++ [res.jobId] ≠ []
      simp
  | ended looping none closed empty =>
      intro batch member
      exact earlier batch (by simpa [Phase.inFlight] using member)
  | remains looping none closed some_ => exact flushed rfl some_
  | idled looping empty => exact noneEmpty
  | timedOut looping some_ => exact flushed rfl some_
  | failed filled last flushing =>
      intro batch member
      exact earlier batch (by simpa [Phase.inFlight] using member)
  | sentLast filled flushing =>
      intro batch member
      apply noneEmpty batch
      rw [flushing]
      simpa [Phase.inFlight] using member
  | sent filled flushing =>
      intro batch member
      apply noneEmpty batch
      rw [flushing]
      simpa [Phase.inFlight] using member

/-! ### Runs -/

theorem invariant_of_reachable {now nowMs : Nat}
    (reachable : Reachable (next cfg) (start cfg now nowMs) state) :
    Kept jobIds state ∧ Kept findings state ∧ Kept failedScanners state ∧ NoneEmpty state := by
  obtain ⟨history, run⟩ := reachable
  induction run with
  | start =>
      refine ⟨Kept.start _ _ _, Kept.start _ _ _, Kept.start _ _ _, ?_⟩
      intro batch impossible
      cases impossible
  | step _ taken ih =>
      have change := change_of_next taken
      exact ⟨ih.1.change change, ih.2.1.change change, ih.2.2.1.change change,
        ih.2.2.2.change change⟩

theorem Kept.returned (kept : Kept field state) (returned : state.phase = .returned true) :
    state.sent.flatMap field.ofBatch = state.arrivals.flatMap field.ofResult := by
  have account := kept.account
  rw [returned] at account
  have same := account.resolve_left (fun impossible => by cases impossible)
  obtain ⟨_, none, batch⟩ := kept.final (by rw [returned]; rfl)
  rw [none, batch] at same
  simpa [Phase.inFlight] using same

/-- Whatever comes in and whenever, the batcher returns only when its batches hold all results in
their order, and no batch is without a job. -/
theorem nothing_lost (cfg : BatcherConfig) (now nowMs : Nat) :
    ∀ state, Reachable (next cfg) (start cfg now nowMs) state →
      (state.phase = .returned true →
        state.sent.flatMap FindingsBatch.jobIds = state.arrivals.map ScanResult.jobId ∧
        state.sent.flatMap FindingsBatch.findings = state.arrivals.flatMap ScanResult.findings ∧
        state.sent.flatMap FindingsBatch.failedScanners =
          state.arrivals.flatMap ScanResult.failedScanners) ∧
      ∀ batch ∈ state.sent, batch.jobIds ≠ [] := by
  intro state reachable
  obtain ⟨jobs, found, failed, noneEmpty⟩ := invariant_of_reachable reachable
  refine ⟨?_, fun batch member => noneEmpty batch (List.mem_append_left _ member)⟩
  intro returned
  refine ⟨?_, found.returned returned, failed.returned returned⟩
  rw [List.map_eq_flatMap]
  exact jobs.returned returned

/-- One batch for the time that is over, one for the end of the channel. -/
def twoBatches : List Step :=
  [.arrive { jobId := 1, findings := [], failedScanners := ["refactor"] }, .recv,
    .pass (100 * 1000000) 100, .timeout,
    .arrive { jobId := 2, findings := [], failedScanners := [] }, .close, .send, .recv, .recv, .send]

theorem twoBatches_kept :
    ∃ state, Reachable (next .default) (start .default 0 0) state ∧ state.phase = .returned true ∧
      state.sent.map FindingsBatch.jobIds = [[1], [2]] ∧
      state.sent.flatMap FindingsBatch.jobIds = state.arrivals.map ScanResult.jobId := by
  have executed : execute (next .default) (start .default 0 0) twoBatches = some (_, _) := rfl
  have reachable := Run.of_execute executed
  refine ⟨_, ⟨_, reachable⟩, rfl, rfl, ?_⟩
  exact ((nothing_lost .default 0 0 _ ⟨_, reachable⟩).1 rfl).1

/-! ### The batches in the database -/

/-- The batcher, and `drain_batches_to_db` at the other end of its channel. -/
structure Pipeline where
  batcher : State
  /-- The batches that the drain has taken out of the channel. -/
  drained : Nat
  shard : FindingsShard
  total : Nat
  /-- What the drain returned, `none` for an error. -/
  outcome : Option (Option Nat)

inductive PipelineStep where
  | batcher (step : Step)
  /-- The next batch, with the moments of its inserts, or the end of the channel. -/
  | drain (moments : Nat → Nat)
  /-- The database cannot be opened, or a transaction fails and is rolled back. -/
  | fail

namespace Pipeline

def start (cfg : BatcherConfig) (now nowMs : Nat) (shard : FindingsShard) : Pipeline :=
  { batcher := StoreIpc.start cfg now nowMs, drained := 0, shard, total := 0, outcome := none }

def next (cfg : BatcherConfig) (pipe : Pipeline) : PipelineStep → Option Pipeline
  -- The receiver goes away only with the drain.
  | .batcher .leave => none
  | .batcher step => (StoreIpc.next cfg pipe.batcher step).map (fun batcher => { pipe with batcher })
  | .drain moments =>
      if pipe.outcome.isSome then none
      else
        match pipe.batcher.sent[pipe.drained]?, pipe.batcher.phase with
        | some batch, _ =>
            let written := batch.findings.zipIdx.map (fun found => (moments found.2, found.1))
            some { pipe with
              drained := pipe.drained + 1
              shard := pipe.shard.writeFindings written
              total := pipe.total + batch.findings.length }
        | none, .returned _ => some { pipe with outcome := some (some pipe.total) }
        | none, _ => none
  | .fail =>
      let batch := pipe.batcher.sent[pipe.drained]?
      if pipe.outcome = none ∧ (pipe.drained = 0 ∨ batch.any (fun batch => !batch.findings.isEmpty))
      then some { pipe with
        outcome := some none
        batcher := { pipe.batcher with receiverGone := true } }
      else none

/-- The findings of the batches that the drain has taken. -/
def taken (pipe : Pipeline) : List Finding :=
  (pipe.batcher.sent.take pipe.drained).flatMap FindingsBatch.findings

structure Sound (shard : FindingsShard) (pipe : Pipeline) : Prop where
  kept : Kept findings pipe.batcher
  arrived : pipe.batcher.sent.flatMap FindingsBatch.findings <+:
    pipe.batcher.arrivals.flatMap ScanResult.findings
  drained : pipe.drained ≤ pipe.batcher.sent.length
  columns : pipe.shard.openColumns = shard.openColumns ++ pipe.taken.map Scanners.columns
  counted : pipe.total = pipe.taken.length
  gone : pipe.batcher.receiverGone = true ∨ pipe.batcher.phase = .returned false →
    pipe.outcome = some none
  done : ∀ total, pipe.outcome = some (some total) → total = pipe.total ∧
    pipe.drained = pipe.batcher.sent.length ∧ pipe.batcher.phase = .returned true

end Pipeline

theorem Change.arrived_first (change : Change cfg state after) (kept : Kept findings state)
    (first : state.sent.flatMap FindingsBatch.findings <+:
      state.arrivals.flatMap ScanResult.findings) :
    state.sent <+: after.sent ∧ after.sent.flatMap FindingsBatch.findings <+:
      after.arrivals.flatMap ScanResult.findings := by
  have flushed : ∀ filled last, state.phase = .flushing filled last →
      (state.sent ++ [filled]).flatMap FindingsBatch.findings <+:
        state.arrivals.flatMap ScanResult.findings := by
    intro filled last flushing
    have account := kept.account
    rw [flushing] at account
    have same := account.resolve_left (fun impossible => by cases impossible)
    refine ⟨state.batch.findings ++ state.results.flatMap ScanResult.findings, Eq.trans ?_ same⟩
    rw [List.flatMap_append, List.append_assoc]
    rfl
  cases change with
  | arrived res opened =>
      refine ⟨List.prefix_refl _, first.trans ?_⟩
      rw [List.flatMap_append]
      exact List.prefix_append _ _
  | sentLast filled flushing => exact ⟨List.prefix_append _ _, flushed filled true flushing⟩
  | sent filled flushing => exact ⟨List.prefix_append _ _, flushed filled false flushing⟩
  | _ => exact ⟨List.prefix_refl _, first⟩

theorem receiver_next {step : Step} (stays : step ≠ .leave)
    (taken : next cfg state step = some after) :
    after.receiverGone = state.receiverGone ∧
      (after.phase = .returned false → state.receiverGone = true ∨ state.phase = .returned false) ∧
      ∀ ok, state.phase = .returned ok → after.phase = .returned ok ∧ after.sent = state.sent := by
  unfold next at taken
  cases step <;> grind [outside, State.flush, State.take]

variable {pipe later : Pipeline} {shard : FindingsShard}

namespace Pipeline

theorem Sound.batched (sound : Sound shard pipe) {step : Step} (stays : step ≠ .leave)
    (moved : StoreIpc.next cfg pipe.batcher step = some after) :
    Sound shard { pipe with batcher := after } := by
  have ⟨kept, arrived, drained, columns, counted, gone, done⟩ := sound
  have change := change_of_next moved
  obtain ⟨receiver, failed, returned⟩ := receiver_next stays moved
  obtain ⟨⟨more, longer⟩, arrived⟩ := change.arrived_first kept arrived
  have taken : Pipeline.taken { pipe with batcher := after } = pipe.taken := by
    unfold Pipeline.taken
    rw [← longer, List.take_append_of_le_length drained]
  refine ⟨kept.change change, arrived, ?_, taken ▸ columns, taken ▸ counted, ?_, ?_⟩
  · rw [← longer, List.length_append]
    exact Nat.le_add_right_of_le drained
  · grind
  · grind

theorem Sound.written (sound : Sound shard pipe) (running : pipe.outcome = none)
    (found : pipe.batcher.sent[pipe.drained]? = some batch) (moments : Nat → Nat) :
    Sound shard { pipe with
      drained := pipe.drained + 1
      shard := pipe.shard.writeFindings
        (batch.findings.zipIdx.map (fun found => (moments found.2, found.1)))
      total := pipe.total + batch.findings.length } := by
  have longer : (pipe.batcher.sent.take (pipe.drained + 1)).flatMap FindingsBatch.findings =
      pipe.taken ++ batch.findings := by
    rw [List.take_add_one, found, List.flatMap_append]
    exact congrArg _ (List.append_nil _)
  refine ⟨sound.kept, sound.arrived, (List.getElem?_eq_some_iff.mp found).1, ?_, ?_, sound.gone, ?_⟩
  · have plain : (batch.findings.zipIdx.map (fun found => (moments found.2, found.1))).map
        Prod.snd = batch.findings := (List.map_map ..).trans (List.zipIdx_map_fst ..)
    unfold taken
    rw [longer, FindingsShard.writeFindings_openColumns, sound.columns, plain, List.append_assoc,
      List.map_append]
  · unfold taken
    rw [longer, List.length_append, sound.counted]
  · intro total impossible
    rw [running] at impossible
    cases impossible

theorem Sound.ended (sound : Sound shard pipe) (running : pipe.outcome = none)
    (ended : pipe.batcher.sent[pipe.drained]? = none) (returned : pipe.batcher.phase = .returned ok) :
    Sound shard { pipe with outcome := some (some pipe.total) } := by
  have alive := mt sound.gone (by simp [running])
  refine { sound with gone := fun failed => absurd failed alive, done := ?_ }
  intro total same
  cases same
  refine ⟨rfl, Nat.le_antisymm sound.drained (List.getElem?_eq_none_iff.mp ended), ?_⟩
  cases ok with
  | true => exact returned
  | false => exact absurd (Or.inr returned) alive

theorem Sound.next (sound : Sound shard pipe) {step : PipelineStep}
    (stepped : Pipeline.next cfg pipe step = some later) : Sound shard later := by
  unfold Pipeline.next at stepped
  split at stepped
  · cases stepped
  · rename_i step stays
    obtain ⟨after, moved, rfl⟩ := Option.map_eq_some_iff.mp stepped
    exact sound.batched (fun left => stays left) moved
  · split at stepped
    · cases stepped
    · rename_i running
      have running := Option.not_isSome_iff_eq_none.mp running
      split at stepped
      · rename_i found
        cases stepped
        exact sound.written running found _
      · rename_i ended returned
        cases stepped
        exact sound.ended running ended returned
      · cases stepped
  · dsimp only at stepped
    split at stepped
    · cases stepped
      exact { sound with
        kept := { sound.kept with }
        gone := fun _ => rfl
        done := fun _ impossible => by cases impossible }
    · cases stepped

end Pipeline

/-- At every moment the table holds the findings of the first results that came in, and the count
is theirs; when the drain returns a total, the table holds the findings of all of them. -/
theorem pipeline_writes_arrivals (cfg : BatcherConfig) (now nowMs : Nat) (shard : FindingsShard) :
    ∀ pipe, Reachable (Pipeline.next cfg) (Pipeline.start cfg now nowMs shard) pipe →
      let arrived := pipe.batcher.arrivals.flatMap ScanResult.findings
      (∃ written, written <+: arrived ∧ pipe.total = written.length ∧
        pipe.shard.openColumns = shard.openColumns ++ written.map columns) ∧
      ∀ total, pipe.outcome = some (some total) → total = arrived.length ∧
        pipe.shard.openColumns = shard.openColumns ++ arrived.map columns := by
  intro pipe reachable
  have fresh : Pipeline.Sound shard (Pipeline.start cfg now nowMs shard) :=
    ⟨Kept.start cfg now nowMs, List.prefix_refl _, Nat.le_refl _, (List.append_nil _).symm, rfl,
      (by rintro (impossible | impossible) <;> cases impossible),
      fun _ impossible => by cases impossible⟩
  have sound := Reachable.invariant fresh (fun _ _ _ sound stepped => sound.next stepped) reachable
  refine ⟨⟨pipe.taken, ?_, sound.counted, sound.columns⟩, ?_⟩
  · exact ((List.take_prefix _ _).flatMap _).trans sound.arrived
  · intro total ended
    obtain ⟨same, all, returned⟩ := sound.done total ended
    have everything : pipe.taken = pipe.batcher.arrivals.flatMap ScanResult.findings := by
      unfold Pipeline.taken
      rw [all, List.take_length]
      exact sound.kept.returned returned
    rw [← everything]
    exact ⟨same.trans sound.counted, sound.columns⟩

theorem twoBatches_drained :
    ∃ pipe, Reachable (Pipeline.next .default) (Pipeline.start .default 0 0 { }) pipe ∧
      pipe.shard.openColumns =
        (pipe.batcher.arrivals.flatMap ScanResult.findings).map columns := by
  have executed : execute (Pipeline.next .default) (Pipeline.start .default 0 0 { })
      (twoBatches.map .batcher ++ List.replicate 3 (.drain id)) = some (_, _) := rfl
  have run := Run.of_execute executed
  exact ⟨_, ⟨_, run⟩, ((pipeline_writes_arrivals .default 0 0 { } _ ⟨_, run⟩).2 0 rfl).2⟩

end Mneme.Scanners.StoreIpc
