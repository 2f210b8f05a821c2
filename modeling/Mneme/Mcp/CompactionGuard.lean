/-
The guard that puts a snapshot of the step ledger into a conversation before the context
is compacted: the snapshot it builds, the calls of one guard as they interleave, what the
snapshots keep of the ledger, and how often the guard fires.

A call stops where it awaits a query, and any other call or write may come in between.
A query may fail, and then it finds nothing.  A snapshot keeps the ledger just where it
fits into the rows that are read and where every step belongs to a section; the guard fires
once an episode where no measurement falls below the threshold while a snapshot is being
built.
-/

import Mathlib.Algebra.Order.Field.Basic
import Mathlib.Data.Char
import Mathlib.Data.List.Lex
import Mathlib.Data.List.Sort
import Mathlib.Tactic.NormNum
import Mneme.Library.Run
import Mneme.Mcp.Composer

namespace Mneme.Mcp.CompactionGuard

open Library
open Transition
open Composer (Text text template joinLines number)

/-! ### Records -/

inductive StepStatus where
  | notStarted
  | inProgress
  | completed
  | blocked
  | failed
deriving DecidableEq

structure Step where
  stepId : List Char
  sessionId : List Char
  description : Text
  acceptanceCmd : Option Text
  status : StepStatus
  blocker : Option Text
deriving DecidableEq

/-- The table of steps, whose key is the identifier. -/
structure Steps where
  rows : List Step
  distinct : (rows.map Step.stepId).Nodup

def Steps.ofSession (session : List Char) (steps : Steps) : List Step :=
  steps.rows.filter (fun step => step.sessionId = session)

structure Turn where
  sessionId : List Char
  role : Text
  content : Text
  timestamp : List Char
deriving DecidableEq

structure Message where
  role : Text
  content : Text
  timestamp : Option Text
deriving DecidableEq

def Turn.message (turn : Turn) : Message :=
  ⟨turn.role, turn.content, some (utf16 turn.timestamp)⟩

/-- Without messages and without a session the lists are empty. -/
structure Measurement where
  used : ℚ
  total : ℚ
  messages : List Message
  sessionId : List Char

structure Config where
  threshold : ℚ := 4 / 5
  maxLedgerEntries : Nat := 50
  maxRecentMessages : Nat := 20

/-! ### Queries -/

/-- `session_id = ? ORDER BY step_id DESC LIMIT ?`, turned round. -/
def recentSteps (limit : Nat) (ledger : List Step) : List Step :=
  ((ledger.insertionSort (fun left right => right.stepId ≤ left.stepId)).take limit).reverse

/-- `session_id = ? ORDER BY timestamp DESC LIMIT ?`, turned round. -/
def recentTurns (limit : Nat) (turns : List Turn) : List Turn :=
  ((turns.insertionSort (fun left right => right.timestamp ≤ left.timestamp)).take limit).reverse

def loadRecentLedger (config : Config) (session : List Char) (reached : Bool) (steps : Steps) :
    List Step :=
  if session = [] ∨ reached = false then []
  else recentSteps config.maxLedgerEntries (steps.ofSession session)

def loadRecentTurns (config : Config) (session : List Char) (reached : Bool) (turns : List Turn) :
    List Message :=
  if session = [] ∨ reached = false then []
  else
    (recentTurns config.maxRecentMessages
      (turns.filter (fun turn => turn.sessionId = session))).map Turn.message

/-- `slice(-count)`, which is everything for 0. -/
def lastOf {Item : Type} (count : Nat) (items : List Item) : List Item :=
  if count = 0 then items else items.drop (items.length - count)

/-! ### Snapshots -/

/-- What a snapshot of the ledger shows: the current step, and the steps of two counts. -/
structure Sections where
  here : Option Step
  completed : List Step
  planned : List Step

def sections (ledger : List Step) : Sections where
  here := ledger.find? (fun step => step.status = .inProgress)
  completed := ledger.filter (fun step => step.status = .completed)
  planned := ledger.filter (fun step => step.status = .notStarted)

inductive Snapshot where
  | ledger (sections : Sections)
  | messages (recent : List Message)

/-- How numbers are printed. -/
structure Printer where
  toFixed : ℚ → Text
  number : ℚ → Text

section Format

variable (printer : Printer)

def percent (measurement : Measurement) : Text :=
  printer.toFixed (measurement.used / measurement.total * 100)

/-- A text that is missing or empty has no line. -/
def optionalLine (pieces : Text → List Text) : Option Text → List Text
  | none => []
  | some inner => if inner = [] then [] else [template (pieces inner)]

def hereLines (step : Step) : List Text :=
  [template [text "## YOU ARE HERE — step ", utf16 step.stepId], step.description] ++
    optionalLine (fun blocker => [text "Blocker: ", blocker]) step.blocker ++
    optionalLine (fun command => [text "Acceptance: `", command, text "`"]) step.acceptanceCmd ++
    [[]]

def stepLine (step : Step) : Text :=
  template [text "- [", utf16 step.stepId, text "] ", step.description]

def completedLines (steps : List Step) : List Text :=
  if steps = [] then []
  else
    [template [text "## Completed (", number steps.length, text ")"]] ++
      (lastOf 15 steps).map stepLine ++ [[]]

def plannedLines (steps : List Step) : List Text :=
  if steps = [] then []
  else
    [template [text "## Planned (", number steps.length, text ")"]] ++ (steps.take 15).map stepLine

def formatLedger (shown : Sections) (measurement : Measurement) : Text :=
  joinLines
    ([template [text "Context at ", percent printer measurement, text "% of ",
        printer.number measurement.total, text " tokens — snapshot from Step Ledger."], []] ++
      shown.here.toList.flatMap hereLines ++ completedLines shown.completed ++
      plannedLines shown.planned)

def messageLine (message : Message) : Text :=
  let head := match message.timestamp with
    | none => message.role
    | some timestamp =>
        if timestamp = [] then message.role
        else template [message.role, text " @ ", timestamp.take 19]
  let trimmed :=
    if 400 < message.content.length then message.content.take 400 ++ text "…" else message.content
  template [text "**", head, text "**: ", trimmed]

def formatMessages (recent : List Message) (measurement : Measurement) : Text :=
  joinLines
    ([template [text "Context at ", percent printer measurement, text "% of ",
        printer.number measurement.total, text " tokens — compacted ", number recent.length,
        text " recent messages."], []] ++
      recent.map messageLine)

/-- What is injected for a snapshot. -/
def content (measurement : Measurement) (snapshot : Snapshot) : Text :=
  let inner := match snapshot with
    | .ledger shown => formatLedger printer shown measurement
    | .messages recent => formatMessages printer recent measurement
  template [text "<mneme-resume>\n", inner, text "\n</mneme-resume>"]

end Format

/-! ### One guard -/

inductive Origin where
  | measured
  | forced
deriving DecidableEq

/-- The query that a call awaits, and what the ledger held when it was read. -/
inductive Stage where
  | ledger
  | turns (read : List Step)

structure Call where
  origin : Origin
  measurement : Measurement
  stage : Stage

structure Injection where
  origin : Origin
  measurement : Measurement
  snapshot : Snapshot
  /-- The whole ledger of the session when it was read. -/
  ledger : List Step

inductive Entry where
  | low
  | injected (injection : Injection)

structure State where
  armed : Bool
  calls : List Call
  steps : Steps
  turns : List Turn
  log : List Entry

def start (steps : Steps) (turns : List Turn) : State :=
  ⟨true, [], steps, turns, []⟩

inductive Event where
  | onContextMeasurement (measurement : Measurement)
  | forceSnapshot (measurement : Measurement)
  /-- The query that the call at this place awaits is settled. -/
  | settle (place : Nat) (reached : Bool)
  | write (steps : Steps)
  | converse (turns : List Turn)

def Measurement.isLow (config : Config) (measurement : Measurement) : Bool :=
  measurement.used / measurement.total < config.threshold

def State.begin (state : State) (origin : Origin) (measurement : Measurement) : State :=
  { state with calls := state.calls ++ [⟨origin, measurement, .ledger⟩] }

def State.inject (state : State) (place : Nat) (injection : Injection) : State :=
  { state with
    calls := state.calls.eraseIdx place
    log := state.log ++ [.injected injection] }

/-- A call goes on with what its query found. -/
def State.resume (config : Config) (state : State) (place : Nat) (call : Call) (reached : Bool) :
    State :=
  match call.stage with
  | .ledger =>
      let measurement := call.measurement
      let whole := state.steps.ofSession measurement.sessionId
      let ledger := loadRecentLedger config measurement.sessionId reached state.steps
      if ledger ≠ [] then
        state.inject place ⟨call.origin, measurement, .ledger (sections ledger), whole⟩
      else if measurement.messages ≠ [] then
        let recent := lastOf config.maxRecentMessages measurement.messages
        state.inject place ⟨call.origin, measurement, .messages recent, whole⟩
      else { state with calls := state.calls.set place { call with stage := .turns whole } }
  | .turns whole =>
      let recent := loadRecentTurns config call.measurement.sessionId reached state.turns
      state.inject place ⟨call.origin, call.measurement, .messages recent, whole⟩

def next (config : Config) (state : State) : Event → Option State
  | .onContextMeasurement measurement =>
      if measurement.total ≤ 0 then some state
      else if measurement.isLow config then
        some { state with armed := true, log := state.log ++ [.low] }
      else if state.armed then some ({ state with armed := false }.begin .measured measurement)
      else some state
  | .forceSnapshot measurement => some (state.begin .forced measurement)
  | .settle place reached =>
      (state.calls[place]?).map (fun call => state.resume config place call reached)
  | .write steps => some { state with steps := steps }
  | .converse turns => some { state with turns := turns }

/-! ### What a snapshot keeps -/

def Snapshot.here : Snapshot → Option Step
  | .ledger shown => shown.here
  | .messages _ => none

/-- The steps that the sections count, one occurrence a section. -/
def Snapshot.counted : Snapshot → List Step
  | .ledger shown => shown.here.toList ++ shown.completed ++ shown.planned
  | .messages _ => []

def Working (ledger : List Step) : Prop :=
  ∃ step ∈ ledger, step.status = .inProgress

/-- A step in progress is named as the current one, and each step is counted once. -/
def Kept (ledger : List Step) (snapshot : Snapshot) : Prop :=
  Working ledger →
    (∀ step ∈ ledger, step.status = .inProgress → snapshot.here = some step) ∧
    ∀ step ∈ ledger, snapshot.counted.count step = 1

/-- All of the ledger is read, and each of its steps has a section. -/
structure Fits (limit : Nat) (ledger : List Step) : Prop where
  short : ledger.length ≤ limit
  oneCurrent : ∀ step ∈ ledger, ∀ other ∈ ledger, step.status = .inProgress →
    other.status = .inProgress → step = other
  sectioned : ∀ step ∈ ledger, step.status ≠ .blocked ∧ step.status ≠ .failed

section Sections

variable {limit : Nat} {ledger window : List Step}

variable {step : Step}

theorem recentSteps_subset (member : step ∈ recentSteps limit ledger) : step ∈ ledger := by
  unfold recentSteps at member
  exact (List.mem_insertionSort _).mp (List.mem_of_mem_take (List.mem_reverse.mp member))

theorem recentSteps_length : (recentSteps limit ledger).length = min limit ledger.length := by
  unfold recentSteps
  rw [List.length_reverse, List.length_take, List.length_insertionSort]

theorem recentSteps_nodup (distinct : ledger.Nodup) : (recentSteps limit ledger).Nodup := by
  unfold recentSteps
  apply List.nodup_reverse.mpr
  apply List.Nodup.sublist (List.take_sublist limit _)
  exact (List.perm_insertionSort _ ledger).nodup_iff.mpr distinct

theorem mem_recentSteps_of_short (short : ledger.length ≤ limit)
    (member : step ∈ ledger) : step ∈ recentSteps limit ledger := by
  unfold recentSteps
  rw [List.take_of_length_le (by rwa [List.length_insertionSort]), List.mem_reverse,
    List.mem_insertionSort]
  exact member

theorem here_inProgress (found : (sections window).here = some step) :
    step ∈ window ∧ step.status = .inProgress := by
  have first : window.find? (fun step => step.status = .inProgress) = some step := found
  have passed := List.find?_some first
  exact ⟨List.mem_of_find?_eq_some first, by simpa using passed⟩

theorem counted_count (distinct : window.Nodup) (member : step ∈ window) :
    (Snapshot.ledger (sections window)).counted.count step =
      (if (sections window).here = some step then 1 else 0) +
        (if step.status = .completed then 1 else 0) +
        if step.status = .notStarted then 1 else 0 := by
  have once : window.count step = 1 := List.count_eq_one_of_mem distinct member
  have current : (sections window).here.toList.count step =
      if (sections window).here = some step then 1 else 0 := by
    cases (sections window).here with
    | none => rfl
    | some other =>
        rw [Option.toList_some, List.count_singleton]
        by_cases same : other = step
        · rw [same, if_pos rfl, if_pos (beq_self_eq_true step)]
        · rw [if_neg (fun equal => same (Option.some.inj equal)), if_neg]
          intro equal
          exact same (eq_of_beq equal)
  have filtered : ∀ status : StepStatus,
      (window.filter (fun step => step.status = status)).count step =
        if step.status = status then 1 else 0 := by
    intro status
    by_cases own : step.status = status
    · rw [if_pos own, ← once]
      exact List.count_filter (decide_eq_true own)
    · rw [if_neg own]
      apply List.count_eq_zero_of_not_mem
      intro kept
      exact own (of_decide_eq_true (List.mem_filter.mp kept).2)
  change ((sections window).here.toList ++ window.filter _ ++ window.filter _).count step = _
  rw [List.count_append, List.count_append, current, filtered, filtered]

theorem counted_subset (member : step ∈ (Snapshot.ledger (sections window)).counted) :
    step ∈ window ∧ step.status ≠ .blocked ∧ step.status ≠ .failed := by
  rcases List.mem_append.mp member with member | planned
  · rcases List.mem_append.mp member with current | completed
    · obtain ⟨inside, own⟩ := here_inProgress (Option.mem_toList.mp current)
      rw [own]
      exact ⟨inside, by decide, by decide⟩
    · obtain ⟨inside, own⟩ := List.mem_filter.mp completed
      rw [of_decide_eq_true own]
      exact ⟨inside, by decide, by decide⟩
  · obtain ⟨inside, own⟩ := List.mem_filter.mp planned
    rw [of_decide_eq_true own]
    exact ⟨inside, by decide, by decide⟩

/-- The snapshot of the rows that are read keeps the ledger just where it fits. -/
theorem kept_iff_fits (distinct : ledger.Nodup) (working : Working ledger) :
    Kept ledger (.ledger (sections (recentSteps limit ledger))) ↔ Fits limit ledger := by
  constructor
  · intro kept
    obtain ⟨named, counted⟩ := kept working
    have shown : ∀ step ∈ ledger, step ∈ recentSteps limit ledger ∧
        step.status ≠ .blocked ∧ step.status ≠ .failed := by
      intro step member
      apply counted_subset
      apply List.count_pos_iff.mp
      rw [counted step member]
      exact Nat.one_pos
    refine ⟨?_, ?_, fun step member => (shown step member).2⟩
    · have size := (List.subperm_of_subset distinct (fun step member => (shown step member).1)).length_le
      rw [recentSteps_length] at size
      exact le_trans size (Nat.min_le_left ..)
    · intro step member other member' current current'
      have same := (named step member current).symm.trans (named other member' current')
      exact Option.some.inj same
  · intro fits _
    have read : ∀ step ∈ ledger, step ∈ recentSteps limit ledger :=
      fun step member => mem_recentSteps_of_short fits.short member
    have named : ∀ step ∈ ledger, step.status = .inProgress →
        (sections (recentSteps limit ledger)).here = some step := by
      intro step member current
      have some_ : (sections (recentSteps limit ledger)).here.isSome = true :=
        List.find?_isSome.mpr ⟨step, read step member, by simpa using current⟩
      obtain ⟨other, found⟩ := Option.isSome_iff_exists.mp some_
      obtain ⟨inside, own⟩ := here_inProgress found
      rw [fits.oneCurrent step member other (recentSteps_subset inside) current own]
      exact found
    refine ⟨named, ?_⟩
    intro step member
    rw [counted_count (recentSteps_nodup distinct) (read step member)]
    have sectioned := fits.sectioned step member
    by_cases current : step.status = .inProgress
    · rw [if_pos (named step member current), current]
      rfl
    · have other : (sections (recentSteps limit ledger)).here ≠ some step := by
        intro same
        exact current (here_inProgress same).2
      rw [if_neg other]
      cases status : step.status with
      | notStarted => rfl
      | completed => rfl
      | inProgress => exact absurd status current
      | blocked => exact absurd status sectioned.1
      | failed => exact absurd status sectioned.2

end Sections

/-! ### How often the guard fires -/

def Entry.isLow : Entry → Bool
  | .low => true
  | .injected _ => false

def Entry.isMeasured : Entry → Bool
  | .low => false
  | .injected injection => injection.origin = .measured

/-- No more than so many snapshots of measurements without a low one between them. -/
def AtMost (count : Nat) (segment : List Entry) : Prop :=
  (∀ entry ∈ segment, entry.isLow = false) → segment.countP Entry.isMeasured ≤ count

def AtMostOne (log : List Entry) : Prop :=
  ∀ segment, segment <:+: log → AtMost 1 segment

/-- The same of what has been logged since the last low measurement. -/
def Since (count : Nat) (log : List Entry) : Prop :=
  ∀ tail, tail <:+ log → AtMost count tail

section Segments

variable {count : Nat} {log : List Entry}

theorem since_low : Since 0 (log ++ [.low]) := by
  intro tail suffix free
  rcases List.suffix_concat_iff.mp suffix with rfl | ⟨before, rfl, _⟩
  · rfl
  · have low := free .low (List.mem_append_right _ (List.mem_singleton_self _))
    cases low

theorem since_snoc {entry : Entry} (since : Since count log) :
    Since (count + if entry.isMeasured then 1 else 0) (log ++ [entry]) := by
  intro tail suffix free
  rcases List.suffix_concat_iff.mp suffix with rfl | ⟨before, rfl, within⟩
  · exact Nat.zero_le _
  · have bound := since before within
      (fun other member => free other (List.mem_append_left _ member))
    rw [List.countP_append, List.countP_singleton]
    exact Nat.add_le_add_right bound _

theorem atMostOne_snoc {entry : Entry} (atMost : AtMostOne log)
    (since : Since 1 (log ++ [entry])) : AtMostOne (log ++ [entry]) := by
  intro segment infix_
  rcases List.infix_concat_iff.mp infix_ with last | earlier
  · exact since segment last
  · exact atMost segment earlier

end Segments

/-! ### Runs -/

def Call.isMeasured (call : Call) : Bool :=
  call.origin = .measured

/-- The measurements whose snapshot is still being built. -/
def State.inFlight (state : State) : Nat :=
  state.calls.countP Call.isMeasured

/-- A query of a ledger with a step in progress reaches it, and all of it fits. -/
def ReadsWhole (config : Config) (state : State) : Event → Prop
  | .settle place reached => ∀ call, state.calls[place]? = some call → call.stage = .ledger →
      Working (state.steps.ofSession call.measurement.sessionId) →
        call.measurement.sessionId ≠ [] ∧ reached = true ∧
          Fits config.maxLedgerEntries (state.steps.ofSession call.measurement.sessionId)
  | _ => True

/-- No measurement falls below the threshold while a snapshot is being built. -/
def DropsSettled (config : Config) (state : State) : Event → Prop
  | .onContextMeasurement measurement =>
      0 < measurement.total → measurement.isLow config = true → state.inFlight = 0
  | _ => True

def SnapshotsKept (state : State) : Prop :=
  ∀ injection, .injected injection ∈ state.log → Kept injection.ledger injection.snapshot

section Steps

variable {config : Config} {state after : State} {event : Event}

theorem split_at {Item : Type} {items : List Item} {place : Nat} {item : Item}
    (found : items[place]? = some item) :
    ∃ front back, items = front ++ item :: back ∧ items.eraseIdx place = front ++ back ∧
      ∀ other, items.set place other = front ++ other :: back := by
  induction items generalizing place with
  | nil => cases found
  | cons first items ih =>
      cases place with
      | zero =>
          cases found
          exact ⟨[], items, rfl, rfl, fun _ => rfl⟩
      | succ place =>
          obtain ⟨front, back, split, erased, replaced⟩ := ih found
          refine ⟨first :: front, back, congrArg (List.cons first) split,
            congrArg (List.cons first) erased, fun other => congrArg (List.cons first) ?_⟩
          exact replaced other

/-- A call that goes on injects its snapshot or awaits the turns of the session. -/
theorem resume_cases (config : Config) (state : State) (place : Nat) (call : Call)
    (reached : Bool) :
    (∃ injection, state.resume config place call reached = state.inject place injection ∧
      injection.origin = call.origin ∧
        ((∃ read, call.stage = .turns read ∧ injection.ledger = read) ∨
          (call.stage = .ledger ∧
            injection.ledger = state.steps.ofSession call.measurement.sessionId ∧
            (injection.snapshot = .ledger (sections (loadRecentLedger config
                call.measurement.sessionId reached state.steps)) ∨
              loadRecentLedger config call.measurement.sessionId reached state.steps = [])))) ∨
      (state.resume config place call reached =
          { state with
            calls := state.calls.set place
              { call with stage := .turns (state.steps.ofSession call.measurement.sessionId) } } ∧
        call.stage = .ledger ∧
        loadRecentLedger config call.measurement.sessionId reached state.steps = []) := by
  unfold State.resume
  cases stage : call.stage with
  | ledger =>
      dsimp only
      split
      · exact Or.inl ⟨_, rfl, rfl, Or.inr ⟨rfl, rfl, Or.inl rfl⟩⟩
      · rename_i none
        split
        · exact Or.inl ⟨_, rfl, rfl, Or.inr ⟨rfl, rfl, Or.inr (not_not.mp none)⟩⟩
        · exact Or.inr ⟨rfl, rfl, not_not.mp none⟩
  | turns read => exact Or.inl ⟨_, rfl, rfl, Or.inl ⟨read, rfl, rfl⟩⟩

/-- What one event does to the calls, to the log and to the guard. -/
theorem next_cases (taken : next config state event = some after) :
    (after.armed = state.armed ∧ after.calls = state.calls ∧ after.log = state.log) ∨
      (∃ measurement, event = .onContextMeasurement measurement ∧ 0 < measurement.total ∧
        measurement.isLow config = true ∧
        after = { state with armed := true, log := state.log ++ [.low] }) ∨
      (∃ measurement, state.armed = true ∧
        after = { state with armed := false }.begin .measured measurement) ∨
      (∃ measurement, after = state.begin .forced measurement) ∨
      ∃ place reached call, event = .settle place reached ∧ state.calls[place]? = some call ∧
        after = state.resume config place call reached := by
  cases event with
  | onContextMeasurement measurement =>
      dsimp only [next] at taken
      split at taken
      · cases taken
        exact Or.inl ⟨rfl, rfl, rfl⟩
      · rename_i positive
        split at taken
        · rename_i low
          cases taken
          exact Or.inr (Or.inl ⟨measurement, rfl, not_le.mp positive, low, rfl⟩)
        · split at taken
          · rename_i armed
            cases taken
            exact Or.inr (Or.inr (Or.inl ⟨measurement, armed, rfl⟩))
          · cases taken
            exact Or.inl ⟨rfl, rfl, rfl⟩
  | forceSnapshot measurement =>
      cases taken
      exact Or.inr (Or.inr (Or.inr (Or.inl ⟨measurement, rfl⟩)))
  | settle place reached =>
      obtain ⟨call, here, rfl⟩ := Option.map_eq_some_iff.mp taken
      exact Or.inr (Or.inr (Or.inr (Or.inr ⟨place, reached, call, rfl, here, rfl⟩)))
  | write steps =>
      cases taken
      exact Or.inl ⟨rfl, rfl, rfl⟩
  | converse turns =>
      cases taken
      exact Or.inl ⟨rfl, rfl, rfl⟩

/-! ### The snapshots of a run -/

/-- The snapshots keep their ledgers, and who awaits the turns has no step in progress. -/
structure Faithful (state : State) : Prop where
  logged : SnapshotsKept state
  waiting : ∀ call ∈ state.calls, ∀ read, call.stage = .turns read → ¬ Working read

theorem ofSession_nodup (session : List Char) (steps : Steps) : (steps.ofSession session).Nodup :=
  (List.Nodup.of_map Step.stepId steps.distinct).filter _

theorem logged_snoc {injection : Injection} (kept : SnapshotsKept state)
    (last : Kept injection.ledger injection.snapshot) :
    ∀ other, .injected other ∈ state.log ++ [Entry.injected injection] →
      Kept other.ledger other.snapshot := by
  intro other member
  rcases List.mem_append.mp member with earlier | same
  · exact kept other earlier
  · cases List.mem_singleton.mp same
    exact last

theorem faithful_step (faithful : Faithful state) (reads : ReadsWhole config state event)
    (taken : next config state event = some after) : Faithful after := by
  have begun : ∀ origin measurement, Faithful (state.begin origin measurement) := by
    intro origin measurement
    refine ⟨faithful.logged, ?_⟩
    intro call member read stage
    rcases List.mem_append.mp member with earlier | same
    · exact faithful.waiting call earlier read stage
    · cases List.mem_singleton.mp same
      cases stage
  rcases next_cases taken with ⟨_, calls, log⟩ | ⟨measurement, rfl, _, _, rfl⟩ |
    ⟨measurement, _, rfl⟩ | ⟨measurement, rfl⟩ | ⟨place, reached, call, rfl, here, rfl⟩
  · refine ⟨?_, ?_⟩
    · intro injection member
      rw [log] at member
      exact faithful.logged injection member
    · rw [calls]
      exact faithful.waiting
  · refine ⟨?_, faithful.waiting⟩
    intro injection member
    rcases List.mem_append.mp member with earlier | same
    · exact faithful.logged injection earlier
    · cases List.mem_singleton.mp same
  · exact ⟨(begun .measured measurement).logged, (begun .measured measurement).waiting⟩
  · exact begun .forced measurement
  · obtain ⟨front, back, split, erased, replaced⟩ := split_at here
    have whole := reads call here
    -- a ledger that is read as empty has no step in progress
    have idle : call.stage = .ledger →
        loadRecentLedger config call.measurement.sessionId reached state.steps = [] →
          ¬ Working (state.steps.ofSession call.measurement.sessionId) := by
      intro stage none working
      obtain ⟨named, answered, fits⟩ := whole stage working
      obtain ⟨step, member, _⟩ := working
      unfold loadRecentLedger at none
      rw [if_neg (by simp [named, answered])] at none
      have read := mem_recentSteps_of_short fits.short member
      rw [none] at read
      cases read
    rcases resume_cases config state place call reached with ⟨injection, result, _, source⟩ |
      ⟨result, stage, none⟩
    · rw [result]
      refine ⟨logged_snoc faithful.logged ?_, ?_⟩
      · rcases source with ⟨read, stage, ledger⟩ | ⟨stage, ledger, snapshot | none⟩
        · rw [ledger]
          intro working
          exact absurd working (faithful.waiting call (List.mem_of_getElem? here) read stage)
        · rw [ledger, snapshot]
          intro working
          obtain ⟨named, answered, fits⟩ := whole stage working
          unfold loadRecentLedger
          rw [if_neg (by simp [named, answered])]
          exact (kept_iff_fits (ofSession_nodup _ _) working).mpr fits working
        · rw [ledger]
          intro working
          exact absurd working (idle stage none)
      · intro other member
        change other ∈ state.calls.eraseIdx place at member
        exact faithful.waiting other (List.mem_of_mem_eraseIdx member)
    · rw [result]
      refine ⟨faithful.logged, ?_⟩
      intro other member read waits
      rcases List.mem_or_eq_of_mem_set member with earlier | same
      · exact faithful.waiting other earlier read waits
      · rw [same] at waits
        cases waits
        exact idle stage none

/-! ### The episodes of a run -/

structure Episode (state : State) : Prop where
  atMost : AtMostOne state.log
  /-- What has fired since the last low measurement, and what is about to. -/
  since : ∃ count, Since count state.log ∧ count + state.inFlight ≤ 1 ∧
    (state.armed = true → count + state.inFlight = 0)

theorem since_mono {count more : Nat} {log : List Entry} (since : Since count log)
    (less : count ≤ more) : Since more log :=
  fun tail suffix free => le_trans (since tail suffix free) less

theorem episode_step (episode : Episode state) (settled : DropsSettled config state event)
    (taken : next config state event = some after) : Episode after := by
  obtain ⟨atMost, count, since, bound, armed⟩ := episode
  rcases next_cases taken with ⟨guard, calls, log⟩ | ⟨measurement, rfl, positive, low, rfl⟩ |
    ⟨measurement, ready, rfl⟩ | ⟨measurement, rfl⟩ | ⟨place, reached, call, rfl, here, rfl⟩
  · refine ⟨by rw [log]; exact atMost, count, by rw [log]; exact since, ?_, ?_⟩
    · unfold State.inFlight
      rw [calls]
      exact bound
    · unfold State.inFlight
      rw [calls, guard]
      exact armed
  · have none : state.inFlight = 0 := settled positive low
    refine ⟨atMostOne_snoc atMost (since_mono since_low (Nat.zero_le 1)), 0, since_low, ?_, ?_⟩
    · change 0 + state.inFlight ≤ 1
      omega
    · intro _
      change 0 + state.inFlight = 0
      omega
  · have idle := armed ready
    have one : State.inFlight ({ state with armed := false }.begin .measured measurement) =
        state.inFlight + 1 := by
      unfold State.inFlight
      exact List.countP_append
    refine ⟨atMost, count, since, ?_, fun ready => by cases ready⟩
    rw [one]
    omega
  · have same : (state.begin .forced measurement).inFlight = state.inFlight := by
      unfold State.inFlight
      exact List.countP_append
    refine ⟨atMost, count, since, ?_, ?_⟩
    · rw [same]
      exact bound
    · rw [same]
      exact armed
  · obtain ⟨front, back, split, erased, replaced⟩ := split_at here
    have before : state.inFlight = front.countP Call.isMeasured +
        (back.countP Call.isMeasured + if call.isMeasured then 1 else 0) := by
      unfold State.inFlight
      rw [split, List.countP_append, List.countP_cons]
    rcases resume_cases config state place call reached with ⟨injection, result, origin, _⟩ |
      ⟨result, _, _⟩
    · have measured : (Entry.injected injection).isMeasured = call.isMeasured := by
        change decide (injection.origin = .measured) = decide (call.origin = .measured)
        rw [origin]
      have now : (state.inject place injection).inFlight =
          front.countP Call.isMeasured + back.countP Call.isMeasured := by
        unfold State.inFlight State.inject
        rw [erased, List.countP_append]
      have logged := @since_snoc count state.log (.injected injection) since
      rw [measured] at logged
      rw [result]
      refine ⟨atMostOne_snoc atMost (since_mono logged ?_), _, logged, ?_, ?_⟩
      · omega
      · rw [now]
        omega
      · intro ready
        have idle := armed ready
        rw [now]
        omega
    · have now : (state.resume config place call reached).inFlight = state.inFlight := by
        rw [before, result]
        unfold State.inFlight
        rw [replaced, List.countP_append, List.countP_cons]
        rfl
      have guard : (state.resume config place call reached).armed = state.armed := by
        rw [result]
      have log : (state.resume config place call reached).log = state.log := by
        rw [result]
      refine ⟨by rw [log]; exact atMost, count, by rw [log]; exact since, ?_, ?_⟩
      · rw [now]
        exact bound
      · rw [now, guard]
        exact armed

end Steps

/-- In a run whose queries read whole ledgers the snapshots keep them, and in a run without
a drop amid a snapshot the guard fires at most once an episode. -/
theorem guard_keeps {config : Config} {steps : Steps} {turns : List Turn}
    {history : List (State × Event)} {state : State}
    (run : Run (next config) (start steps turns) history state) :
    (Respects (ReadsWhole config) history → Throughout SnapshotsKept history state) ∧
      (Respects (DropsSettled config) history →
        Throughout (fun state => AtMostOne state.log) history state) := by
  constructor
  · intro reads
    have initial : Faithful (start steps turns) := by
      refine ⟨?_, ?_⟩
      · intro injection member
        cases member
      · intro call member
        cases member
    have throughout := run.throughout_of_respects initial
      (fun state event after faithful allowed taken => faithful_step faithful allowed taken) reads
    exact ⟨fun taken member => (throughout.1 taken member).logged, throughout.2.logged⟩
  · intro settled
    have none : ∀ segment, segment <:+: ([] : List Entry) → AtMost 0 segment := by
      intro segment infix_ _
      rw [List.infix_nil.mp infix_]
      rfl
    have initial : Episode (start steps turns) := by
      refine ⟨?_, 0, ?_, Nat.zero_le 1, fun _ => rfl⟩
      · intro segment infix_ free
        exact le_trans (none segment infix_ free) (Nat.zero_le 1)
      · intro tail suffix
        exact none tail suffix.isInfix
    have throughout := run.throughout_of_respects initial
      (fun state event after episode allowed taken => episode_step episode allowed taken) settled
    exact ⟨fun taken member => (throughout.1 taken member).atMost, throughout.2.atMost⟩

/-! ### Runs of two kinds -/

variable {measurement : Measurement} {config : Config} {state : State}

theorem next_fire (positive : 0 < measurement.total) (high : measurement.isLow config = false)
    (armed : state.armed = true) :
    next config state (.onContextMeasurement measurement) =
      some ({ state with armed := false }.begin .measured measurement) := by
  dsimp only [next]
  rw [if_neg (not_le.mpr positive), high, if_neg Bool.false_ne_true, if_pos armed]

theorem next_drop (positive : 0 < measurement.total) (low : measurement.isLow config = true) :
    next config state (.onContextMeasurement measurement) =
      some { state with armed := true, log := state.log ++ [.low] } := by
  dsimp only [next]
  rw [if_neg (not_le.mpr positive), if_pos low]

def stepAt (status : StepStatus) (place : Nat) : Step :=
  ⟨List.replicate place 'a', ['s'], [], none, status, none⟩

def oneStep : Steps :=
  ⟨[stepAt .inProgress 0], by decide⟩

/-- The first step is in progress, and fifty are planned behind it. -/
def longPlan : Steps where
  rows := (List.range 51).map (fun place =>
    stepAt (if place = 0 then .inProgress else .notStarted) place)
  distinct := by
    rw [List.map_map]
    apply List.nodup_range.map
    intro place other same
    simpa [stepAt] using congrArg List.length same

def measured (used : ℚ) : Measurement :=
  ⟨used, 10, [], ['s']⟩

theorem measured_positive (used : ℚ) : 0 < (measured used).total := by
  change (0 : ℚ) < 10
  norm_num

theorem measured_high : (measured 9).isLow {} = false := by
  change decide ((9 : ℚ) / 10 < 4 / 5) = false
  norm_num

theorem measured_low : (measured 1).isLow {} = true := by
  change decide ((1 : ℚ) / 10 < 4 / 5) = true
  norm_num

/-- The guard has fired, and awaits the ledger. -/
def fired (steps : Steps) : State :=
  { start steps [] with armed := false }.begin .measured (measured 9)

def fireHistory (steps : Steps) : List (State × Event) :=
  [(start steps [], .onContextMeasurement (measured 9)), (fired steps, .settle 0 true)]

def fireState (steps : Steps) : State :=
  (fired steps).resume {} 0 ⟨.measured, measured 9, .ledger⟩ true

theorem run_fired (steps : Steps) :
    Run (next {}) (start steps []) (fireHistory steps) (fireState steps) :=
  (Run.start.step (next_fire (measured_positive 9) measured_high rfl)).step rfl

theorem resume_ledger {place : Nat} {origin : Origin} {reached : Bool}
    (some_ : loadRecentLedger config measurement.sessionId reached state.steps ≠ []) :
    state.resume config place ⟨origin, measurement, .ledger⟩ reached =
      state.inject place ⟨origin, measurement,
        .ledger (sections (loadRecentLedger config measurement.sessionId reached state.steps)),
        state.steps.ofSession measurement.sessionId⟩ :=
  if_pos some_

theorem oneStep_keeps : Throughout SnapshotsKept (fireHistory oneStep) (fireState oneStep) ∧
    Throughout (fun state => AtMostOne state.log) (fireHistory oneStep) (fireState oneStep) := by
  have kept := guard_keeps (run_fired oneStep)
  refine ⟨kept.1 ?_, kept.2 ?_⟩
  · intro taken member
    rcases List.mem_cons.mp member with rfl | member
    · trivial
    · cases List.mem_singleton.mp member
      intro call here _ _
      cases here
      exact ⟨by decide, rfl, ⟨by decide, by decide, by decide⟩⟩
  · intro taken member
    rcases List.mem_cons.mp member with rfl | member
    · intro _ _
      rfl
    · cases List.mem_singleton.mp member
      trivial

theorem longPlan_session : longPlan.ofSession ['s'] = longPlan.rows := by
  unfold Steps.ofSession
  apply List.filter_eq_self.mpr
  intro step member
  obtain ⟨place, _, rfl⟩ := List.mem_map.mp member
  rfl

theorem longPlan_length : longPlan.rows.length = 51 := by
  unfold longPlan
  rw [List.length_map, List.length_range]

theorem longPlan_log : (fireState longPlan).log =
    [.injected ⟨.measured, measured 9, .ledger (sections (recentSteps 50 longPlan.rows)),
      longPlan.rows⟩] := by
  have read : loadRecentLedger {} ['s'] true longPlan = recentSteps 50 longPlan.rows := by
    unfold loadRecentLedger
    rw [if_neg (by decide), longPlan_session]
  have some_ : loadRecentLedger {} ['s'] true longPlan ≠ [] := by
    rw [read]
    apply List.ne_nil_of_length_pos
    rw [recentSteps_length, longPlan_length]
    decide
  have resumed : fireState longPlan = (fired longPlan).inject 0
      ⟨.measured, measured 9, .ledger (sections (loadRecentLedger {} ['s'] true longPlan)),
        longPlan.ofSession ['s']⟩ :=
    resume_ledger some_
  rw [resumed, read, longPlan_session]
  rfl

/-- The current step of a long plan is not named, and after a drop amid a snapshot two are
injected in one episode. -/
theorem longPlan_lost :
    (¬ ∀ (steps : Steps) (turns : List Turn) (history : List (State × Event)) (state : State),
        Run (next {}) (start steps turns) history state →
          Throughout SnapshotsKept history state) ∧
      ¬ ∀ (steps : Steps) (turns : List Turn) (history : List (State × Event)) (state : State),
        Run (next {}) (start steps turns) history state →
          Throughout (fun state => AtMostOne state.log) history state := by
  constructor
  · intro always
    have last := (always longPlan [] _ _ (run_fired longPlan)).2
    unfold SnapshotsKept at last
    rw [longPlan_log] at last
    have kept := last _ (List.mem_singleton_self _)
    have working : Working longPlan.rows :=
      ⟨stepAt .inProgress 0, List.mem_map.mpr ⟨0, by decide, rfl⟩, rfl⟩
    have distinct : longPlan.rows.Nodup := List.Nodup.of_map Step.stepId longPlan.distinct
    have short := ((kept_iff_fits distinct working).mp kept).short
    rw [longPlan_length] at short
    omega
  · intro always
    have fire : ∀ state : State, state.armed = true →
        next {} state (.onContextMeasurement (measured 9)) =
          some ({ state with armed := false }.begin .measured (measured 9)) :=
      fun state armed => next_fire (measured_positive 9) measured_high armed
    have drop : ∀ state : State, next {} state (.onContextMeasurement (measured 1)) =
        some { state with armed := true, log := state.log ++ [.low] } :=
      fun state => next_drop (measured_positive 1) measured_low
    have settle : ∀ (state : State) (rest : List Call),
        state.calls = ⟨.measured, measured 9, .ledger⟩ :: rest → state.steps = oneStep →
          next {} state (.settle 0 true) =
            some (state.inject 0 ⟨.measured, measured 9,
              .ledger (sections (loadRecentLedger {} ['s'] true oneStep)),
              oneStep.ofSession ['s']⟩) := by
      intro state rest calls steps
      have some_ : loadRecentLedger {} (measured 9).sessionId true state.steps ≠ [] := by
        rw [steps]
        decide
      dsimp only [next]
      rw [calls]
      change some (state.resume {} 0 ⟨.measured, measured 9, .ledger⟩ true) = _
      rw [resume_ledger some_, steps]
      rfl
    have run := ((((Run.start.step (fire (start oneStep []) rfl)).step (drop _)).step
      (fire _ rfl)).step (settle _ _ rfl rfl)).step (settle _ _ rfl rfl)
    have once := (always oneStep [] _ _ run).2 _ (List.suffix_cons Entry.low _).isInfix
    have twice := once (by simp [Entry.isLow])
    revert twice
    decide

end Mneme.Mcp.CompactionGuard
