/-
The step ledger: entries and the rows they are stored in.  An entry comes back from its
row with the milliseconds of its time, unless the time is within a leap second.

A JSON text is the value it was printed from, or one that is no JSON.  The calendar ends
at some first and last second.
-/

import Mathlib.Data.List.Induction
import Mneme.Common.Floats
import Mneme.Library.Fallible
import Mneme.Library.Json

namespace Mneme.Brain.Ledger

open Common Library

/-- The seconds of the calendar. -/
structure Calendar where
  first : Int
  last : Int

/-- A point of time: seconds since 1970, and nanoseconds, which count past a second only
within a leap second, at the end of a minute. -/
structure DateTime (calendar : Calendar) where
  second : Int
  nano : Nat
  within : calendar.first ≤ second ∧ second ≤ calendar.last
  small : nano < 2 * 10 ^ 9
  leap : 10 ^ 9 ≤ nano → second % 60 = 59

namespace DateTime

variable {calendar : Calendar}

@[ext] theorem ext {left right : DateTime calendar} (second : left.second = right.second)
    (nano : left.nano = right.nano) : left = right := by
  cases left
  cases right
  cases second
  cases nano
  rfl

def timestampMillis (time : DateTime calendar) : Int :=
  time.second * 1000 + ((time.nano / 10 ^ 6 : Nat) : Int)

def fromTimestampMillis (millis : Int) : Option (DateTime calendar) :=
  if within : calendar.first ≤ millis / 1000 ∧ millis / 1000 ≤ calendar.last then
    some {
      second := millis / 1000
      nano := (millis % 1000).toNat * 10 ^ 6
      within
      small := by omega
      leap := by omega }
  else none

/-- Without what is finer than a millisecond. -/
def truncated (time : DateTime calendar) : DateTime calendar :=
  { time with
    nano := time.nano / 10 ^ 6 * 10 ^ 6
    small := Nat.lt_of_le_of_lt (Nat.div_mul_le_self _ _) time.small
    leap := fun late => time.leap (Nat.le_trans late (Nat.div_mul_le_self _ _)) }

theorem fromTimestampMillis_timestampMillis (time : DateTime calendar)
    (plain : time.nano < 10 ^ 9) :
    fromTimestampMillis time.timestampMillis = some time.truncated := by
  have seconds : time.timestampMillis / 1000 = time.second := by
    unfold timestampMillis
    omega
  have millis : time.timestampMillis % 1000 = ((time.nano / 10 ^ 6 : Nat) : Int) := by
    unfold timestampMillis
    omega
  have within : calendar.first ≤ time.timestampMillis / 1000 ∧
      time.timestampMillis / 1000 ≤ calendar.last := by
    rw [seconds]
    exact time.within
  unfold fromTimestampMillis
  rw [dif_pos within]
  congr 1
  apply ext
  · exact seconds
  · change (time.timestampMillis % 1000).toNat * 10 ^ 6 = time.nano / 10 ^ 6 * 10 ^ 6
    rw [millis, Int.toNat_natCast]

end DateTime

/-! ### Entries -/

inductive StepKind where
  | decision (chosen : String) (rejected : List String)
  | implementation
  | bug (symptom : String) (rootCause : Option String)
  | openQuestion (text : String) (resolvedBy : Option String)
  | refactor (before after : String)
  | experiment (outcome : String)
deriving DecidableEq

/-- The value of the column `kind`. -/
def StepKind.tag : StepKind → String
  | .decision _ _ => "decision"
  | .implementation => "impl"
  | .bug _ _ => "bug"
  | .openQuestion _ _ => "open_question"
  | .refactor _ _ => "refactor"
  | .experiment _ => "experiment"

structure TranscriptRef where
  sessionId : String
  turnIndex : Option UInt64
  messageId : Option String
deriving DecidableEq

/-- A path is any bytes; only one that is UTF-8 has a text. -/
abbrev PathBuf := ByteArray

structure StepEntry (calendar : Calendar) where
  id : String
  sessionId : String
  timestamp : DateTime calendar
  kind : StepKind
  summary : String
  rationale : Option String
  touchedFiles : List PathBuf
  touchedConcepts : List String
  transcriptSpan : Option TranscriptRef
  embedding : Option (List F32)

/-! ### JSON -/

inductive JsonText where
  | printed (value : Json)
  | other (text : String)

def JsonText.fromStr : JsonText → Option Json
  | .printed value => some value
  | .other _ => none

/-- Internally tagged by `kind`, in snake case. -/
def StepKind.toJson : StepKind → Json
  | .decision chosen rejected =>
      .object [("kind", .string "decision"), ("chosen", .string chosen),
        ("rejected", .list .string rejected)]
  | .implementation => .object [("kind", .string "implementation")]
  | .bug symptom rootCause =>
      .object [("kind", .string "bug"), ("symptom", .string symptom),
        ("root_cause", .option .string rootCause)]
  | .openQuestion text resolvedBy =>
      .object [("kind", .string "open_question"), ("text", .string text),
        ("resolved_by", .option .string resolvedBy)]
  | .refactor before after =>
      .object [("kind", .string "refactor"), ("before", .string before), ("after", .string after)]
  | .experiment outcome => .object [("kind", .string "experiment"), ("outcome", .string outcome)]

def StepKind.ofJson (value : Json) : Option StepKind := do
  let (kind, members) ← value.tagged? "kind"
  match kind with
  | "decision" =>
      let fields ← (Json.object members).struct? ["chosen", "rejected"]
      let chosen ← Json.required fields "chosen" Json.string?
      let rejected ← Json.defaulted fields "rejected" [] Json.strings?
      return .decision chosen rejected
  | "implementation" => return .implementation
  | "bug" =>
      let fields ← (Json.object members).struct? ["symptom", "root_cause"]
      let symptom ← Json.required fields "symptom" Json.string?
      let rootCause ← Json.optional fields "root_cause" Json.string?
      return .bug symptom rootCause
  | "open_question" =>
      let fields ← (Json.object members).struct? ["text", "resolved_by"]
      let text ← Json.required fields "text" Json.string?
      let resolvedBy ← Json.optional fields "resolved_by" Json.string?
      return .openQuestion text resolvedBy
  | "refactor" =>
      let fields ← (Json.object members).struct? ["before", "after"]
      let before ← Json.required fields "before" Json.string?
      let after ← Json.required fields "after" Json.string?
      return .refactor before after
  | "experiment" =>
      let fields ← (Json.object members).struct? ["outcome"]
      let outcome ← Json.required fields "outcome" Json.string?
      return .experiment outcome
  | _ => none

def u64? (value : Json) : Option UInt64 :=
  value.nat?.bind (fun number =>
    if number < 2 ^ 64 then some (UInt64.ofNat number) else none)

def TranscriptRef.toJson (span : TranscriptRef) : Json :=
  .object [("session_id", .string span.sessionId),
    ("turn_index", .option (fun turn => .nat turn.toNat) span.turnIndex),
    ("message_id", .option .string span.messageId)]

def TranscriptRef.ofJson (value : Json) : Option TranscriptRef := do
  let fields ← value.struct? ["session_id", "turn_index", "message_id"]
  let sessionId ← Json.required fields "session_id" Json.string?
  let turnIndex ← Json.optional fields "turn_index" u64?
  let messageId ← Json.optional fields "message_id" Json.string?
  return { sessionId, turnIndex, messageId }

/-- A path that is not UTF-8 cannot be printed. -/
def pathJson (path : PathBuf) : Option Json :=
  (String.fromUTF8? path).map .string

def pathOfJson (value : Json) : Option PathBuf :=
  value.string?.map String.toUTF8

/-! ### The embedding -/

def encodeVecF32 (vector : List F32) : List UInt8 :=
  f32Bytes vector

def decodeVecF32 (bytes : List UInt8) : Option (List F32) :=
  if bytes.length % 4 ≠ 0 then none else some (f32Chunks bytes)

/-! ### Rows -/

structure LedgerRow where
  id : String
  sessionId : String
  timestamp : Int
  kind : String
  summary : String
  rationale : Option String
  touchedFiles : JsonText
  touchedConcepts : JsonText
  transcriptRef : Option JsonText
  kindPayload : JsonText
  embedding : Option (List UInt8)

inductive LedgerError where
  | serde
  | sqlite
deriving DecidableEq

/-- The text of a column, read as JSON of a shape. -/
def jsonColumn {Value : Type} (decode : Json → Option Value) (text : JsonText) :
    Except LedgerError Value :=
  match text.fromStr.bind decode with
  | none => .error .sqlite
  | some value => .ok value

variable {calendar : Calendar}

/-- `now` stands in for a timestamp outside of the calendar.  A transcript reference that
cannot be read counts as none. -/
def rowToEntry (now : DateTime calendar) (row : LedgerRow) :
    Except LedgerError (StepEntry calendar) := do
  let touchedFiles ← jsonColumn (Json.list? pathOfJson) row.touchedFiles
  let touchedConcepts ← jsonColumn Json.strings? row.touchedConcepts
  let kind ← jsonColumn StepKind.ofJson row.kindPayload
  return {
    id := row.id
    sessionId := row.sessionId
    timestamp := (DateTime.fromTimestampMillis row.timestamp).getD now
    kind
    summary := row.summary
    rationale := row.rationale
    touchedFiles
    touchedConcepts
    transcriptSpan := row.transcriptRef.bind (fun text => text.fromStr.bind TranscriptRef.ofJson)
    embedding := row.embedding.bind decodeVecF32 }

/-- The row of an entry; there is none when a path cannot be printed. -/
def toRow (entry : StepEntry calendar) : Except LedgerError LedgerRow :=
  match entry.touchedFiles.mapM pathJson with
  | none => .error .serde
  | some files =>
      .ok {
        id := entry.id
        sessionId := entry.sessionId
        timestamp := entry.timestamp.timestampMillis
        kind := entry.kind.tag
        summary := entry.summary
        rationale := entry.rationale
        touchedFiles := .printed (.array files)
        touchedConcepts := .printed (.list .string entry.touchedConcepts)
        transcriptRef := entry.transcriptSpan.map (fun span => .printed span.toJson)
        kindPayload := .printed entry.kind.toJson
        embedding := entry.embedding.map encodeVecF32 }

/-- The id is the primary key of the table. -/
def append (rows : List LedgerRow) (entry : StepEntry calendar) :
    Except LedgerError (String × List LedgerRow) := do
  let row ← toRow entry
  if rows.any (fun other => other.id = row.id) then throw .sqlite
  return (entry.id, rows ++ [row])

end Mneme.Brain.Ledger

namespace Mneme.Brain.Ledger

open Common Library

/-! ### Columns of JSON -/

theorem StepKind.ofJson_toJson (kind : StepKind) : StepKind.ofJson kind.toJson = some kind := by
  cases kind with
  | decision chosen rejected =>
      have strings : (Json.list Json.string rejected).strings? = some rejected :=
        Json.list?_list Json.string?_string rejected
      change (Json.list Json.string rejected).strings?.bind
        (fun read => some (StepKind.decision chosen read)) = _
      rw [strings, Option.bind_some]
  | implementation => rfl
  | bug symptom rootCause =>
      cases rootCause with
      | none => rfl
      | some cause => rfl
  | openQuestion text resolvedBy =>
      cases resolvedBy with
      | none => rfl
      | some answer => rfl
  | refactor before after => rfl
  | experiment outcome => rfl

theorem u64?_nat (number : UInt64) : u64? (.nat number.toNat) = some number := by
  unfold u64?
  rw [Json.nat?_nat, Option.bind_some, if_pos number.toNat_lt, UInt64.ofNat_toNat]

theorem TranscriptRef.ofJson_toJson (span : TranscriptRef) :
    TranscriptRef.ofJson span.toJson = some span := by
  obtain ⟨sessionId, turnIndex, messageId⟩ := span
  have message : ∀ turn : Option UInt64,
      (Json.optional [("message_id", .option .string messageId)] "message_id" Json.string?).bind
        (fun read => some (TranscriptRef.mk sessionId turn read)) =
      some { sessionId, turnIndex := turn, messageId } := by
    intro turn
    cases messageId with
    | none => rfl
    | some text => rfl
  cases turnIndex with
  | none => exact message none
  | some turn =>
      change ((u64? (.nat turn.toNat)).map some).bind (fun turn =>
        (Json.optional [("message_id", .option .string messageId)] "message_id" Json.string?).bind
          (fun read => some (TranscriptRef.mk sessionId turn read))) = _
      rw [u64?_nat, Option.map_some, Option.bind_some]
      exact message (some turn)

theorem pathOfJson_of_pathJson {path : PathBuf} {value : Json}
    (printed : pathJson path = some value) : pathOfJson value = some path := by
  obtain ⟨text, decoded, rfl⟩ := Option.map_eq_some_iff.mp printed
  unfold String.fromUTF8? at decoded
  split at decoded
  · rename_i valid
    cases decoded
    rfl
  · cases decoded

variable {paths : List PathBuf}

theorem paths_decoded {values : List Json} (printed : paths.mapM pathJson = some values) :
    (Json.array values).list? pathOfJson = some paths := by
  change values.mapM pathOfJson = some paths
  induction paths generalizing values with
  | nil =>
      cases printed
      rfl
  | cons path rest ih =>
      rw [List.mapM_cons] at printed
      obtain ⟨value, first, printed⟩ := Option.bind_eq_some_iff.mp printed
      obtain ⟨others, later, printed⟩ := Option.bind_eq_some_iff.mp printed
      cases printed
      rw [List.mapM_cons, pathOfJson_of_pathJson first, ih later]
      rfl

theorem paths_printed :
    (∃ values, paths.mapM pathJson = some values) ↔
      ∀ path ∈ paths, (String.fromUTF8? path).isSome := by
  induction paths with
  | nil => simp
  | cons path rest ih =>
      rw [List.mapM_cons, List.forall_mem_cons, ← ih, Option.isSome_iff_exists]
      constructor
      · rintro ⟨values, printed⟩
        obtain ⟨value, first, printed⟩ := Option.bind_eq_some_iff.mp printed
        obtain ⟨others, later, _⟩ := Option.bind_eq_some_iff.mp printed
        obtain ⟨text, decoded, _⟩ := Option.map_eq_some_iff.mp first
        exact ⟨⟨text, decoded⟩, others, later⟩
      · rintro ⟨⟨text, decoded⟩, others, later⟩
        refine ⟨.string text :: others, ?_⟩
        unfold pathJson at later ⊢
        rw [decoded, later]
        rfl

/-! ### The embedding -/

theorem decodeVecF32_encodeVecF32 (vector : List F32) :
    decodeVecF32 (encodeVecF32 vector) = some vector := by
  have whole : ¬ (encodeVecF32 vector).length % 4 ≠ 0 := by
    unfold encodeVecF32
    rw [f32Bytes_length]
    omega
  unfold decodeVecF32
  rw [if_neg whole]
  exact congrArg some (f32Chunks_f32Bytes vector)

/-! ### Rows -/

variable {calendar : Calendar}

theorem jsonColumn_printed {Value : Type} {decode : Json → Option Value} {value : Json}
    {read : Value} (decoded : decode value = some read) :
    jsonColumn decode (.printed value) = .ok read := by
  unfold jsonColumn JsonText.fromStr
  rw [Option.bind_some, decoded]

variable {entry : StepEntry calendar}

variable {row : LedgerRow}

theorem rowToEntry_stored (now : DateTime calendar) (stored : toRow entry = .ok row) :
    rowToEntry now row = .ok { entry with
      timestamp := (DateTime.fromTimestampMillis entry.timestamp.timestampMillis).getD now } := by
  obtain ⟨id, sessionId, timestamp, kind, summary, rationale, files, concepts, span, embedding⟩ :=
    entry
  unfold toRow at stored
  split at stored
  · cases stored
  · rename_i values printed
    cases stored
    have filesRead : jsonColumn (Json.list? pathOfJson) (.printed (.array values)) = .ok files :=
      jsonColumn_printed (paths_decoded printed)
    have conceptsRead :
        jsonColumn Json.strings? (.printed (.list .string concepts)) = .ok concepts :=
      jsonColumn_printed (Json.list?_list Json.string?_string concepts)
    have kindRead : jsonColumn StepKind.ofJson (.printed kind.toJson) = .ok kind :=
      jsonColumn_printed (StepKind.ofJson_toJson kind)
    have spanRead : (span.map (fun span => JsonText.printed span.toJson)).bind
        (fun text => text.fromStr.bind TranscriptRef.ofJson) = span := by
      cases span with
      | none => rfl
      | some span => exact TranscriptRef.ofJson_toJson span
    have embeddingRead : (embedding.map encodeVecF32).bind decodeVecF32 = embedding := by
      cases embedding with
      | none => rfl
      | some vector => exact decodeVecF32_encodeVecF32 vector
    unfold rowToEntry
    rw [filesRead, conceptsRead, kindRead, spanRead, embeddingRead]
    rfl

theorem rowToEntry_toRow (now : DateTime calendar)
    (plain : entry.timestamp.nano < 10 ^ 9) (stored : toRow entry = .ok row) :
    rowToEntry now row = .ok { entry with timestamp := entry.timestamp.truncated } := by
  rw [rowToEntry_stored now stored, DateTime.fromTimestampMillis_timestampMillis _ plain]
  rfl

theorem toRow_id (stored : toRow entry = .ok row) :
    row.id = entry.id ∧ row.kind = entry.kind.tag := by
  unfold toRow at stored
  split at stored
  · cases stored
  · cases stored
    exact ⟨rfl, rfl⟩

theorem toRow_ok :
    (∃ row, toRow entry = .ok row) ↔
      ∀ path ∈ entry.touchedFiles, (String.fromUTF8? path).isSome := by
  rw [← paths_printed]
  unfold toRow
  split
  · rename_i unprinted
    rw [unprinted]
    constructor
    · rintro ⟨row, impossible⟩
      cases impossible
    · rintro ⟨values, impossible⟩
      cases impossible
  · rename_i values printed
    rw [printed]
    exact ⟨fun _ => ⟨values, rfl⟩, fun _ => ⟨_, rfl⟩⟩

theorem append_fresh {rows : List LedgerRow}
    (stored : toRow entry = .ok row) (fresh : ∀ other ∈ rows, other.id ≠ entry.id) :
    append rows entry = .ok (entry.id, rows ++ [row]) := by
  have unheld : rows.any (fun other => decide (other.id = row.id)) = false := by
    rw [List.any_eq_false]
    intro other held
    rw [(toRow_id stored).1, decide_eq_true_eq]
    exact fresh other held
  unfold append
  rw [stored]
  change (if rows.any (fun other => decide (other.id = row.id)) = true then _ else _) = _
  rw [unheld]
  rfl

/-- A path that is not UTF-8 or an id that is held keeps the entry out; any other entry is
stored, under its tag, and comes back with the milliseconds of its time. -/
theorem append_decodes (now : DateTime calendar) (rows : List LedgerRow)
    (entry : StepEntry calendar)
    (printable : ∀ path ∈ entry.touchedFiles, (String.fromUTF8? path).isSome)
    (fresh : ∀ row ∈ rows, row.id ≠ entry.id) (plain : entry.timestamp.nano < 10 ^ 9) :
    ∃ row decoded, append rows entry = .ok (entry.id, rows ++ [row]) ∧ row.id = entry.id ∧
      rowToEntry now row = .ok decoded ∧
      decoded = { entry with timestamp := entry.timestamp.truncated } ∧
      row.kind = decoded.kind.tag := by
  obtain ⟨row, stored⟩ := toRow_ok.mpr printable
  exact ⟨row, _, append_fresh stored fresh, (toRow_id stored).1, rowToEntry_toRow now plain stored,
    rfl, (toRow_id stored).2⟩

/-- The table after these appends, of which those that fail change nothing. -/
def appendAll (entries : List (StepEntry calendar)) : List LedgerRow :=
  entries.foldl (fun rows entry =>
    match append rows entry with
    | .ok (_, later) => later
    | .error _ => rows) []

theorem appendAll_snoc (entries : List (StepEntry calendar)) (entry : StepEntry calendar) :
    (∃ row, toRow entry = .ok row ∧ (∀ other ∈ appendAll entries, other.id ≠ entry.id) ∧
      appendAll (entries ++ [entry]) = appendAll entries ++ [row]) ∨
    (((∀ path ∈ entry.touchedFiles, (String.fromUTF8? path).isSome) →
        entry.id ∈ (appendAll entries).map LedgerRow.id) ∧
      appendAll (entries ++ [entry]) = appendAll entries) := by
  have last : appendAll (entries ++ [entry]) = match append (appendAll entries) entry with
      | .ok (_, later) => later
      | .error _ => appendAll entries := List.foldl_concat ..
  rw [last]
  cases stored : toRow entry with
  | error failure =>
      refine Or.inr ⟨fun printable => ?_, by unfold append; rw [stored]; rfl⟩
      obtain ⟨row, printed⟩ := toRow_ok.mpr printable
      rw [stored] at printed
      cases printed
  | ok row =>
      by_cases fresh : ∀ other ∈ appendAll entries, other.id ≠ entry.id
      · exact Or.inl ⟨row, rfl, fresh, by rw [append_fresh stored fresh]⟩
      · obtain ⟨other, held, same⟩ : ∃ other ∈ appendAll entries, other.id = entry.id := by
          simpa using fresh
        refine Or.inr ⟨fun _ => List.mem_map.mpr ⟨other, held, same⟩, ?_⟩
        have any : (appendAll entries).any (fun other => decide (other.id = row.id)) = true :=
          List.any_eq_true.mpr ⟨other, held, decide_eq_true (same.trans (toRow_id stored).1.symm)⟩
        unfold append
        rw [stored]
        change (match (if _ = true then _ else _ : Except LedgerError (String × List LedgerRow)) with
          | .ok (_, later) => later
          | .error _ => _) = _
        rw [if_pos any]
        rfl

/-- Whatever is appended, the table reads back as some of the entries in their order, no id twice,
and holds the id of every entry whose paths can be printed. -/
theorem ledger_reads_back (now : DateTime calendar) (entries : List (StepEntry calendar)) :
    ((appendAll entries).map LedgerRow.id).Nodup ∧
      (∀ entry ∈ entries, (∀ path ∈ entry.touchedFiles, (String.fromUTF8? path).isSome) →
        entry.id ∈ (appendAll entries).map LedgerRow.id) ∧
      ∃ kept : List (StepEntry calendar), kept.Sublist entries ∧ (appendAll entries).map (rowToEntry now) =
        kept.map (fun entry => .ok { entry with timestamp :=
          (DateTime.fromTimestampMillis entry.timestamp.timestampMillis).getD now }) := by
  induction entries using List.reverseRecOn with
  | nil =>
      refine ⟨List.nodup_nil, ?_, [], List.Sublist.refl _, rfl⟩
      intro entry impossible
      cases impossible
  | append_singleton entries entry ih =>
      obtain ⟨distinct, all, kept, order, read⟩ := ih
      rcases appendAll_snoc entries entry with ⟨row, stored, fresh, after⟩ | ⟨known, after⟩
      · rw [after, List.map_append, List.map_append, read, List.map_singleton, List.map_singleton,
          rowToEntry_stored now stored, (toRow_id stored).1]
        refine ⟨?_, ?_, kept ++ [entry], order.append (List.Sublist.refl _), ?_⟩
        · refine List.nodup_append.mpr ⟨distinct, List.nodup_singleton _, ?_⟩
          intro id held other single same
          obtain ⟨earlier, member, rfl⟩ := List.mem_map.mp held
          exact fresh earlier member (same.trans (List.mem_singleton.mp single))
        · intro other member printable
          rcases List.mem_append.mp member with earlier | here
          · exact List.mem_append_left _ (all other earlier printable)
          · rw [List.mem_singleton.mp here]
            exact List.mem_append_right _ (List.mem_singleton_self _)
        · rw [List.map_append, List.map_singleton]
      · rw [after]
        refine ⟨distinct, ?_, kept, order.trans (List.sublist_append_left _ _), read⟩
        intro other member printable
        rcases List.mem_append.mp member with earlier | here
        · exact all other earlier printable
        · rw [List.mem_singleton.mp here] at printable ⊢
          exact known printable

/-! ### Rows by time -/

/-- `ORDER BY timestamp DESC` -/
def newer (left right : LedgerRow) : Prop :=
  right.timestamp ≤ left.timestamp

instance : DecidableRel newer := fun left right =>
  inferInstanceAs (Decidable (right.timestamp ≤ left.timestamp))

instance : Std.Total newer :=
  ⟨fun left right => Int.le_total right.timestamp left.timestamp⟩

instance : IsTrans LedgerRow newer :=
  ⟨fun _ _ _ first second => Int.le_trans second first⟩

/-! ### Two entries -/

/-- From the year -262143 to the year 262142. -/
def proleptic : Calendar :=
  { first := -8334601228800, last := 8210266876799 }

/-- Within the last second of 2016, which a leap second followed. -/
def endOf2016 (nano : Fin (2 * 10 ^ 9)) : DateTime proleptic :=
  { second := 1483228799, nano, within := by decide, small := nano.isLt, leap := fun _ => rfl }

def refactored (timestamp : DateTime proleptic) (touchedFiles : List PathBuf) :
    StepEntry proleptic :=
  { id := "0193", sessionId := "s", timestamp, kind := .refactor "a" "b", summary := "renamed"
    rationale := none, touchedFiles, touchedConcepts := [], transcriptSpan := none
    embedding := some [] }

theorem refactored_decodes : ∃ row decoded,
    append [] (refactored (endOf2016 999999999) ["a.rs".toUTF8]) = .ok ("0193", [row]) ∧
    row.id = "0193" ∧ rowToEntry (endOf2016 0) row = .ok decoded ∧
    decoded = refactored (endOf2016 999000000) ["a.rs".toUTF8] ∧
    row.kind = decoded.kind.tag := by
  apply append_decodes (endOf2016 0) [] (refactored (endOf2016 999999999) ["a.rs".toUTF8])
  · intro path listed
    cases List.mem_singleton.mp listed
    rfl
  · intro row impossible
    cases impossible
  · decide

/-- A path in Latin-1 has no row; the leap second comes back as the second after it. -/
theorem latin_and_leap_changed :
    append [] (refactored (endOf2016 0) [⟨#[0xE9]⟩]) = .error .serde ∧
    ∃ row, append [] (refactored (endOf2016 1000000000) []) = .ok ("0193", [row]) ∧
      ∀ now : DateTime proleptic, ∃ decoded, rowToEntry now row = .ok decoded ∧
        decoded.timestamp.second = 1483228800 := by
  constructor
  · rfl
  · refine ⟨_, rfl, ?_⟩
    intro now
    exact ⟨_, rfl, rfl⟩

end Mneme.Brain.Ledger
