/-
Runs of the fallback of refactor_apply over the files and the proposals: what a
call leaves of its target, and how often one proposal changes it.

A file is its bytes.  The fallback reads them as text, with a replacement for
what is none, and writes the text it makes beside the target; the temporary file
is then moved onto the target, and only after that the proposal is marked.
-/

import Mathlib.Data.List.Nodup
import Mneme.Library.Encodings
import Mneme.Library.Run
import Mneme.Mcp.RefactorApply

namespace Mneme.Mcp.Refactor

open Common Library Transition

/-! ### Files and proposals -/

abbrev Contents := List UInt8

/-- `readFileSync(path, "utf8")`, which keeps a byte order mark. -/
def readText (bytes : Contents) : Units :=
  utf16 (utf8Lossy bytes)

/-- `writeFileSync(path, text, "utf8")`. -/
def writeText (text : Units) : Contents :=
  utf8 (utf16Lossy text)

/-- A row of `refactor_proposals`.  Its texts are texts: the database hands out
no half of a surrogate pair. -/
structure ProposalRow where
  file : String
  lineStart : Int
  lineEnd : Int
  columnStart : Int
  columnEnd : Int
  originalText : String
  replacementText : String
  appliedAt : Option String
deriving DecidableEq

def ProposalRow.proposal (row : ProposalRow) : Proposal :=
  { file := row.file
    lineStart := row.lineStart
    lineEnd := row.lineEnd
    columnStart := row.columnStart
    columnEnd := row.columnEnd
    originalText := utf16 row.originalText.toList
    replacementText := utf16 row.replacementText.toList
    appliedAt := row.appliedAt }

structure State where
  files : Names → Option Contents
  projects : List Names
  rows : Names → String → Option ProposalRow

def State.shards (state : State) : Shards :=
  { projects := state.projects
    proposals := fun root id => (state.rows root id).map ProposalRow.proposal }

/-- A request, and what the system answers while it is served. -/
structure Call where
  request : Request
  cwd : Names
  now : Nat
  home : Names
  /-- What is there besides the files. -/
  exists? : Names → Bool
  /-- Why a file cannot be read, if it cannot. -/
  unreadable : Names → Option String
  write : Names → Except String Unit
  rename : Names → Except String Unit
  /-- What a failed write leaves at the temporary path. -/
  leftover : Option Contents
  /-- Whether the temporary file goes away after a failed rename. -/
  unlinks : Bool
  /-- Whether `applied_at` is updated. -/
  marks : Bool

def Call.disk (call : Call) (state : State) : Disk :=
  { exists? := fun path => (state.files path).isSome || call.exists? path
    read := fun path =>
      match call.unreadable path, state.files path with
      | some message, _ => .error message
      | none, some bytes => .ok (readText bytes)
      | none, none => .error "ENOENT: no such file or directory"
    real := id
    write := call.write
    rename := call.rename
    home := call.home }

def Call.project (call : Call) (state : State) : Option Names :=
  activeProject (call.disk state) state.shards call.cwd

def Call.row (call : Call) (state : State) : Option ProposalRow :=
  (call.project state).bind (fun root => state.rows root call.request.proposalId)

def Call.target (call : Call) (row : ProposalRow) : Names :=
  resolve call.cwd row.file

/-- `${targetPath}.tmp-${proposalId}`, with the dots an id may have in it. -/
def tmpPath (target : Names) (proposalId : String) : Names :=
  resolve [] (displayAbsolute target ++ ".tmp-" ++ proposalId)

/-! ### One call -/

def Call.fallback (call : Call) (state : State) (disk : Disk) : Output × Option Written :=
  runFallback disk state.shards call.cwd call.now call.request

/-- Whether the call gets as far as the temporary file. -/
def Call.writes (call : Call) (state : State) : Bool :=
  (call.fallback state { call.disk state with write := fun _ => .ok () }).2.isSome

def filesAfter (state : State) (call : Call) : Names → Option Contents :=
  match (call.fallback state (call.disk state)).2 with
  | some written =>
      let tmp := tmpPath written.target call.request.proposalId
      let content := writeText written.content
      if written.renamed then
        Function.update (Function.update state.files tmp none) written.target (some content)
      else Function.update state.files tmp (if call.unlinks then none else some content)
  | none =>
      match call.row state with
      | none => state.files
      | some row =>
          if call.writes state then
            Function.update state.files (tmpPath (call.target row) call.request.proposalId)
              call.leftover
          else state.files

/-- `markRefactorApplied`. -/
def markRefactorApplied (state : State) (root : Names) (proposalId : String) (appliedAt : Nat) :
    Names → String → Option ProposalRow :=
  Function.update state.rows root
    (Function.update (state.rows root) proposalId
      ((state.rows root proposalId).map
        (fun row => { row with appliedAt := some (toString appliedAt) })))

def refactorApply (state : State) (call : Call) : Output × State :=
  let output := (call.fallback state (call.disk state)).1
  (output,
    { files := filesAfter state call
      projects := state.projects
      rows :=
        match call.project state with
        | some root =>
            if output.applied && call.marks then
              markRefactorApplied state root call.request.proposalId call.now
            else state.rows
        | none => state.rows })

/-! ### What a call can do -/

/-- The text with the range replaced. -/
def spliced (original : Units) (proposal : Proposal) : Units :=
  original.take (offsetForLineColumn original proposal.lineStart proposal.columnStart) ++
    proposal.replacementText ++
      original.drop (offsetForLineColumn original proposal.lineEnd proposal.columnEnd)

theorem rewrite_cases (disk : Disk) (now : Nat) (request : Request) (proposal : Proposal)
    (target : Names) (original : Units) :
    let answer := rewrite disk now request proposal target original
    (answer.2 = none ∧ answer.1.applied = false) ∨
      answer.2 = some
          { target
            content := spliced original proposal
            renamed := answer.1.applied } ∧
        (answer.1.applied = true ↔ disk.rename target = .ok ()) := by
  unfold rewrite
  dsimp only
  split
  · exact Or.inl ⟨rfl, rfl⟩
  · split
    · exact Or.inl ⟨rfl, rfl⟩
    · split
      · exact Or.inl ⟨rfl, rfl⟩
      · split
        · exact Or.inl ⟨rfl, rfl⟩
        · split
          · next failed =>
              refine Or.inr ⟨rfl, ?_⟩
              rw [failed]
              constructor
              · intro impossible
                cases impossible
              · intro impossible
                cases impossible
          · next moved => exact Or.inr ⟨rfl, fun _ => moved, fun _ => rfl⟩

/-- A call writes nothing and applies nothing, or writes what the range becomes,
and is applied exactly where that is moved onto the target. -/
theorem runFallback_cases (disk : Disk) (shards : Shards) (cwd : Names) (now : Nat)
    (request : Request) : let answer := runFallback disk shards cwd now request
    (answer.2 = none ∧ answer.1.applied = false) ∨
      ∃ proposal original, refactorProposalFullById disk shards cwd request.proposalId =
          some proposal ∧ disk.read (resolve cwd proposal.file) = .ok original ∧
        answer.2 = some
            { target := resolve cwd proposal.file
              content := spliced original proposal
              renamed := answer.1.applied } ∧
          (answer.1.applied = true ↔ disk.rename (resolve cwd proposal.file) = .ok ()) := by
  unfold runFallback
  cases found : refactorProposalFullById disk shards cwd request.proposalId with
  | none => exact Or.inl ⟨rfl, rfl⟩
  | some proposal =>
      dsimp only
      split
      · exact Or.inl ⟨rfl, rfl⟩
      · split
        · exact Or.inl ⟨rfl, rfl⟩
        · split
          · exact Or.inl ⟨rfl, rfl⟩
          · split
            · exact Or.inl ⟨rfl, rfl⟩
            · split
              · exact Or.inl ⟨rfl, rfl⟩
              · next original read =>
                  rcases rewrite_cases disk now request proposal (resolve cwd proposal.file)
                    original with refused | wrote
                  · exact Or.inl refused
                  · exact Or.inr ⟨proposal, original, rfl, read, wrote⟩

theorem proposal_row (call : Call) (state : State) :
    refactorProposalFullById (call.disk state) state.shards call.cwd call.request.proposalId =
      (call.row state).map ProposalRow.proposal := by
  unfold refactorProposalFullById Call.row Call.project
  cases activeProject (call.disk state) state.shards call.cwd with
  | none => rfl
  | some root => rfl

variable {call : Call}

variable {state : State}

theorem read_bytes {path : Names} {text : Units} (read : (call.disk state).read path = .ok text) :
    ∃ bytes, state.files path = some bytes ∧ text = readText bytes := by
  unfold Call.disk at read
  dsimp only at read
  split at read
  · cases read
  · next bytes _ there =>
      cases read
      exact ⟨bytes, there, rfl⟩
  · cases read

/-! ### The slice -/

def ProposalRow.start (row : ProposalRow) (text : Units) : Nat :=
  offsetForLineColumn text row.lineStart row.columnStart

def ProposalRow.stop (row : ProposalRow) (text : Units) : Nat :=
  offsetForLineColumn text row.lineEnd row.columnEnd

/-- The bytes with exactly the slice of the proposal replaced, which was the
original text. -/
def SliceReplaced (row : ProposalRow) (bytes after : Contents) : Prop :=
  ∃ before behind : Contents,
    bytes = before ++ utf8 row.originalText.toList ++ behind ∧
      after = before ++ utf8 row.replacementText.toList ++ behind ∧
        readText before = (readText bytes).take (row.start (readText bytes)) ∧
          readText behind = (readText bytes).drop (row.stop (readText bytes))

theorem readText_utf8 (text : List Char) : readText (utf8 text) = utf16 text := by
  unfold readText
  rw [utf8Lossy_utf8]

theorem writeText_utf16 (text : List Char) : writeText (utf16 text) = utf8 text := by
  unfold writeText
  rw [utf16Lossy_utf16]

variable {row : ProposalRow}

theorem spliced_sliceReplaced {text : List Char}
    (ordered : row.start (utf16 text) ≤ row.stop (utf16 text))
    (undrifted : slice (utf16 text) (row.start (utf16 text)) (row.stop (utf16 text)) =
      utf16 row.originalText.toList)
    (apart : row.originalText = "" → ∀ unit, (utf16 text)[row.start (utf16 text)]? = some unit →
      ¬ IsTrail unit) :
    SliceReplaced row (utf8 text) (writeText (spliced (utf16 text) row.proposal)) := by
  obtain ⟨before, behind, split, front, back⟩ := utf16_slice ordered undrifted
    (fun empty => apart (String.toList_eq_nil_iff.mp empty))
  have content : spliced (utf16 text) row.proposal =
      utf16 (before ++ row.replacementText.toList ++ behind) := by
    rw [utf16_append, utf16_append, front, back]
    rfl
  refine ⟨utf8 before, utf8 behind, ?_, ?_, ?_, ?_⟩
  · rw [split, utf8_append, utf8_append]
  · rw [content, writeText_utf16, utf8_append, utf8_append]
  · rw [readText_utf8, readText_utf8, front]
  · rw [readText_utf8, readText_utf8, back]

/-! ### Runs -/

/-- What a call may do to the files. -/
structure OnlySlice (state : State) (call : Call) : Prop where
  applied : (refactorApply state call).1.applied = true →
    ∃ row bytes after, call.row state = some row ∧
      state.files (call.target row) = some bytes ∧
        (refactorApply state call).2.files (call.target row) = some after ∧
          SliceReplaced row bytes after
  refused : (refactorApply state call).1.applied = false → ∀ row, call.row state = some row →
    (refactorApply state call).2.files (call.target row) = state.files (call.target row)
  dry : call.request.dryRun = true → (refactorApply state call).2.files = state.files
  others : ∀ path, (∀ row, call.row state = some row → path ≠ call.target row ∧
      path ≠ tmpPath (call.target row) call.request.proposalId) →
    (refactorApply state call).2.files path = state.files path

/-- The state, and a proposal for every change it made to its file. -/
structure Recorded where
  state : State
  changed : List (Names × String)

def Call.changes (call : Call) (state : State) : List (Names × String) :=
  match call.project state, call.row state with
  | some root, some row =>
      if (refactorApply state call).2.files (call.target row) = state.files (call.target row) then
        []
      else [(root, call.request.proposalId)]
  | _, _ => []

def Recorded.next (recorded : Recorded) (call : Call) : Option Recorded :=
  some
    { state := (refactorApply recorded.state call).2
      changed := recorded.changed ++ call.changes recorded.state }

/-- The call gets as far as the write of the temporary file. -/
def Reaches (state : State) (call : Call) (row : ProposalRow) : Prop :=
  Accepted { call.disk state with write := fun _ => .ok () } call.cwd call.request row.proposal

/-- The call gets that far, and nothing fails from there to the rename. -/
def Lands (state : State) (call : Call) (row : ProposalRow) : Prop :=
  Reaches state call row ∧ call.write (call.target row) = .ok () ∧
    call.rename (call.target row) = .ok ()

/-- Where a call keeps to its slice: the file it lands on is a text, an insertion
is not into a surrogate pair, a proposal that has changed its file does not find
its original text again, and a write that fails is not one to the target. -/
structure Met (recorded : Recorded) (call : Call) : Prop where
  text : ∀ row, call.row recorded.state = some row → Lands recorded.state call row →
    ∃ chars, recorded.state.files (call.target row) = some (utf8 chars)
  apart : ∀ row bytes, call.row recorded.state = some row → Lands recorded.state call row →
    recorded.state.files (call.target row) = some bytes → row.originalText = "" →
      ∀ unit, (readText bytes)[row.start (readText bytes)]? = some unit → ¬ IsTrail unit
  once : ∀ root row, call.project recorded.state = some root →
    call.row recorded.state = some row → Lands recorded.state call row →
      (root, call.request.proposalId) ∉ recorded.changed
  beside : ∀ row, call.row recorded.state = some row → Reaches recorded.state call row →
    ¬ Lands recorded.state call row →
      tmpPath (call.target row) call.request.proposalId ≠ call.target row

/-! ### One step -/

theorem reaches_of_accepted
    (accepted : Accepted (call.disk state) call.cwd call.request row.proposal) :
    Reaches state call row :=
  { unapplied := accepted.unapplied
    undenied := accepted.undenied
    undotted := accepted.undotted
    there := accepted.there
    undrifted := accepted.undrifted
    wet := accepted.wet
    writable := rfl }

theorem accepted_of_lands (lands : Lands state call row) :
    Accepted (call.disk state) call.cwd call.request row.proposal :=
  { unapplied := lands.1.unapplied
    undenied := lands.1.undenied
    undotted := lands.1.undotted
    there := lands.1.there
    undrifted := lands.1.undrifted
    wet := lands.1.wet
    writable := lands.2.1 }

theorem row_of_found {proposal : Proposal}
    (found : refactorProposalFullById (call.disk state) state.shards call.cwd
      call.request.proposalId = some proposal) :
    ∃ row, call.row state = some row ∧ row.proposal = proposal := by
  rw [proposal_row] at found
  exact Option.map_eq_some_iff.mp found

/-- The call comes to the write exactly where nothing refuses it before. -/
theorem reaches_of_writes (same : call.row state = some row) (writes : call.writes state = true) :
    Reaches state call row := by
  obtain ⟨written, wrote⟩ := Option.isSome_iff_exists.mp writes
  obtain ⟨proposal, found, accepted, _⟩ := (runFallback_written_iff
    { call.disk state with write := fun _ => .ok () } state.shards call.cwd call.now call.request
    written.target).mp ⟨written, wrote, rfl⟩
  obtain ⟨other, alsoSame, here⟩ := row_of_found found
  rw [same] at alsoSame
  cases alsoSame
  rw [← here] at accepted
  exact accepted

/-- Everything a call can do to the files. -/
theorem fallback_cases (state : State) (call : Call) :
    (refactorApply state call).1.applied = false ∧
        (refactorApply state call).2.files = state.files ∨
      ∃ row, call.row state = some row ∧ Reaches state call row ∧
        ((refactorApply state call).1.applied = false ∧ ¬ Lands state call row ∧
            (∃ left, (refactorApply state call).2.files =
              Function.update state.files
                (tmpPath (call.target row) call.request.proposalId) left) ∨
          (refactorApply state call).1.applied = true ∧ Lands state call row ∧
            ∃ bytes, state.files (call.target row) = some bytes ∧
              (refactorApply state call).2.files =
                Function.update (Function.update state.files
                    (tmpPath (call.target row) call.request.proposalId) none)
                  (call.target row)
                  (some (writeText (spliced (readText bytes) row.proposal)))) := by
  have answer : (refactorApply state call).1 = (call.fallback state (call.disk state)).1 := rfl
  have files : (refactorApply state call).2.files = filesAfter state call := rfl
  have accepts : ∀ row, call.row state = some row →
      ((∃ written, (call.fallback state (call.disk state)).2 = some written ∧
        written.target = call.target row) ↔
          Accepted (call.disk state) call.cwd call.request row.proposal) := by
    intro row same
    have found := proposal_row call state
    rw [same] at found
    refine (runFallback_written_iff _ _ _ call.now _ _).trans ?_
    rw [found]
    constructor
    · rintro ⟨_, ⟨⟩, accepted, _⟩
      exact accepted
    · intro accepted
      exact ⟨row.proposal, rfl, accepted, rfl⟩
  rw [answer, files]
  rcases runFallback_cases (call.disk state) state.shards call.cwd call.now call.request with
    ⟨nothing, unapplied⟩ | ⟨proposal, original, found, read, wrote, moved⟩
  · change (call.fallback state (call.disk state)).2 = none at nothing
    unfold filesAfter
    rw [nothing]
    cases same : call.row state with
    | none => exact Or.inl ⟨unapplied, rfl⟩
    | some row =>
        dsimp only
        split
        · next writes =>
            refine Or.inr ⟨row, rfl, reaches_of_writes same writes, Or.inl ⟨unapplied, ?_, ?_⟩⟩
            · intro lands
              obtain ⟨written, wrote, _⟩ := (accepts row same).mpr (accepted_of_lands lands)
              rw [nothing] at wrote
              cases wrote
            · exact ⟨call.leftover, rfl⟩
        · exact Or.inl ⟨unapplied, rfl⟩
  · obtain ⟨row, same, rfl⟩ := row_of_found found
    obtain ⟨bytes, there, rfl⟩ := read_bytes read
    change (call.fallback state (call.disk state)).2 = some
      { target := call.target row
        content := spliced (readText bytes) row.proposal
        renamed := (call.fallback state (call.disk state)).1.applied } at wrote
    have accepted := (accepts row same).mp ⟨_, wrote, rfl⟩
    refine Or.inr ⟨row, same, reaches_of_accepted accepted, ?_⟩
    unfold filesAfter
    cases applied : (call.fallback state (call.disk state)).1.applied with
    | false =>
        rw [wrote, applied]
        dsimp only
        rw [if_neg Bool.false_ne_true]
        refine Or.inl ⟨rfl, ?_, _, rfl⟩
        intro lands
        have impossible := moved.mpr lands.2.2
        change (call.fallback state (call.disk state)).1.applied = true at impossible
        rw [applied] at impossible
        cases impossible
    | true =>
        rw [wrote, applied]
        exact Or.inr ⟨rfl, ⟨reaches_of_accepted accepted, accepted.writable, moved.mp applied⟩,
          bytes, there, rfl⟩

theorem onlySlice_of_met {recorded : Recorded} (met : Met recorded call) :
    OnlySlice recorded.state call := by
  rcases fallback_cases recorded.state call with
    ⟨unapplied, same⟩ | ⟨row, found, reaches, ⟨unapplied, fails, left, same⟩ |
      ⟨applied, lands, bytes, there, same⟩⟩
  · refine ⟨?_, ?_, ?_, ?_⟩
    · intro applied
      exact absurd applied (Bool.eq_false_iff.mp unapplied)
    · intro _ _ _
      rw [same]
    · intro _
      exact same
    · intro _ _
      rw [same]
  · refine ⟨?_, ?_, ?_, ?_⟩
    · intro applied
      exact absurd applied (Bool.eq_false_iff.mp unapplied)
    · intro _ other also
      rw [found] at also
      cases also
      rw [same, Function.update_of_ne (met.beside row found reaches fails).symm]
    · intro dry
      exact absurd dry (Bool.eq_false_iff.mp reaches.wet)
    · intro path elsewhere
      rw [same, Function.update_of_ne (elsewhere row found).2]
  · refine ⟨?_, ?_, ?_, ?_⟩
    · intro _
      obtain ⟨chars, text⟩ := met.text row found lands
      rw [there] at text
      cases text
      refine ⟨row, utf8 chars, writeText (spliced (readText (utf8 chars)) row.proposal), found,
        there, ?_, ?_⟩
      · rw [same, Function.update_self]
      · obtain ⟨original, read, _, _, rfl, rfl, ordered, undrifted⟩ := reaches.undrifted
        obtain ⟨_, also, rfl⟩ := read_bytes read
        have bytes := there.symm.trans also
        cases bytes
        have apart := met.apart row _ found lands there
        rw [readText_utf8] at ordered undrifted apart ⊢
        exact spliced_sliceReplaced ordered undrifted apart
    · intro unapplied
      exact absurd applied (Bool.eq_false_iff.mp unapplied)
    · intro dry
      exact absurd dry (Bool.eq_false_iff.mp reaches.wet)
    · intro path elsewhere
      rw [same, Function.update_of_ne (elsewhere row found).1,
        Function.update_of_ne (elsewhere row found).2]

/-- A change is one of a proposal that had not changed its file. -/
theorem changes_of_met {recorded : Recorded} (met : Met recorded call)
    (once : recorded.changed.Nodup) : (recorded.changed ++ call.changes recorded.state).Nodup := by
  unfold Call.changes
  split
  · next root row project found =>
      split
      · rw [List.append_nil]
        exact once
      · next different =>
          rcases fallback_cases recorded.state call with
            ⟨unapplied, same⟩ | ⟨other, also, reaches, ⟨unapplied, fails, left, same⟩ |
              ⟨applied, lands, _⟩⟩
          · exact absurd (congrFun same _) different
          · exact absurd ((onlySlice_of_met met).refused unapplied row found) different
          · rw [found] at also
            cases also
            refine List.nodup_append.mpr ⟨once, List.nodup_singleton _, ?_⟩
            intro key earlier later alike equal
            rw [List.mem_singleton] at alike
            rw [equal, alike] at earlier
            exact met.once root row project found lands earlier
  · rw [List.append_nil]
    exact once

/-! ### Whole runs -/

theorem normal_script : NormalName "a.ts" := by decide

/-- A project with one file. -/
def oneFile (bytes : Contents) (row : ProposalRow) : State :=
  { files := fun path =>
      if path = [⟨"p", normal_project⟩, ⟨"a.ts", normal_script⟩] then some bytes else none
    projects := [[⟨"p", normal_project⟩]]
    rows := fun _ id => if id = "1" then some row else none }

/-- A replacement at the start of the file. -/
def startRow (originalText replacementText : String) : ProposalRow :=
  { file := "a.ts"
    lineStart := 1
    lineEnd := 1
    columnStart := 0
    columnEnd := originalText.length
    originalText := originalText
    replacementText := replacementText
    appliedAt := none }

/-- A call that meets with no error of the file system. -/
def smoothCall (marks : Bool) : Call :=
  { request := { proposalId := "1", dryRun := false }
    cwd := [⟨"p", normal_project⟩]
    now := 0
    home := [⟨"h", normal_home⟩]
    exists? := fun path => path = [⟨"p", normal_project⟩, ⟨".git", normal_git⟩]
    unreadable := fun _ => none
    write := fun _ => .ok ()
    rename := fun _ => .ok ()
    leftover := none
    unlinks := true
    marks }

theorem met_oneFile : Met ⟨oneFile [120] (startRow "x" "xx"), []⟩ (smoothCall true) := by
  have shown : (smoothCall true).row (oneFile [120] (startRow "x" "xx")) =
      some (startRow "x" "xx") := by decide
  refine ⟨?_, ?_, ?_, ?_⟩
  · intro row found _
    rw [shown] at found
    cases found
    exact ⟨['x'], by decide⟩
  · intro row bytes found _ _ empty
    rw [shown] at found
    cases found
    exact absurd empty (by decide)
  · intro root row _ _ _
    exact List.not_mem_nil
  · intro row found _ _
    rw [shown] at found
    cases found
    decide

/-- The byte after the slice is no text, and the call writes three in its place. -/
theorem invalid_bytes_rewritten :
    ¬ OnlySlice (oneFile [120, 255] (startRow "x" "y")) (smoothCall true) := by
  intro kept
  obtain ⟨row, bytes, after, found, there, left, before, behind, whole, replaced, _⟩ :=
    kept.applied (by decide)
  have shown : (smoothCall true).row (oneFile [120, 255] (startRow "x" "y")) =
      some (startRow "x" "y") := by decide
  rw [shown] at found
  cases found
  have was : (oneFile [120, 255] (startRow "x" "y")).files
      ((smoothCall true).target (startRow "x" "y")) = some [120, 255] := by decide
  have became : (refactorApply (oneFile [120, 255] (startRow "x" "y")) (smoothCall true)).2.files
      ((smoothCall true).target (startRow "x" "y")) = some [121, 239, 191, 189] := by decide
  rw [was] at there
  rw [became] at left
  cases there
  cases left
  have short := congrArg List.length whole
  have long := congrArg List.length replaced
  rw [List.length_append, List.length_append] at short long
  change 2 = before.length + 1 + behind.length at short
  change 4 = before.length + 1 + behind.length at long
  omega

/-- A call whose update of `applied_at` fails leaves the proposal open, and it finds
its text again where the replacement begins with it. -/
theorem unmarked_changes_twice :
    ∃ history final, Run Recorded.next ⟨oneFile [120] (startRow "x" "xx"), []⟩ history final ∧
      ¬ final.changed.Nodup := by
  have first := Run.start.step (show Recorded.next ⟨oneFile [120] (startRow "x" "xx"), []⟩
    (smoothCall false) = some _ from rfl)
  have second := first.step (show Recorded.next _ (smoothCall false) = some _ from rfl)
  exact ⟨_, _, second, by decide⟩

end Mneme.Mcp.Refactor
