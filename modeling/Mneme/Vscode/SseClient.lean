/-
The decoder of the editor's live-bus client: chunks of the response to lines, lines to events.

A frame of the server is known by its lines.  The text of an event, and what the engine reads
from that text, are taken from outside; listeners do not call the client back.
-/

import Mneme.Library.Framing
import Mneme.Livebus.IpcInput
import Mneme.Vscode.Parse

namespace Mneme.Vscode

open Library Livebus

/-! ### Events -/

inductive LiveEvent where
  | jobComplete (data : Json)
  | driftFinding (data : Json)
  | stepComplete (data : Json)
  | graphUpdated (data : Json)
  | other (rawName : List Char) (data : Json)

def LiveEvent.name : LiveEvent → List Char
  | .jobComplete _ => "job.complete".toList
  | .driftFinding _ => "drift.finding".toList
  | .stepComplete _ => "step.complete".toList
  | .graphUpdated _ => "graph.updated".toList
  | .other rawName _ => rawName

def LiveEvent.data : LiveEvent → Json
  | .jobComplete data => data
  | .driftFinding data => data
  | .stepComplete data => data
  | .graphUpdated data => data
  | .other _ data => data

def dispatchByName (name : List Char) (data : Json) : LiveEvent :=
  if name = "job.complete".toList then .jobComplete data
  else if name = "drift.finding".toList then .driftFinding data
  else if name = "step.complete".toList then .stepComplete data
  else if name = "graph.updated".toList then .graphUpdated data
  else .other name data

@[simp] theorem dispatchByName_name (name : List Char) (data : Json) :
    (dispatchByName name data).name = name := by
  unfold dispatchByName
  split
  · rename_i same
    exact same.symm
  · split
    · rename_i same
      exact same.symm
    · split
      · rename_i same
        exact same.symm
      · split
        · rename_i same
          exact same.symm
        · rfl

@[simp] theorem dispatchByName_data (name : List Char) (data : Json) :
    (dispatchByName name data).data = data := by
  unfold dispatchByName
  repeat' split
  all_goals rfl

/-! ### Lines -/

abbrev Line := { line : List Char // '\n' ∉ line }

/-- The line before the first newline. -/
def nextLine (buffer : List Char) : Option (Line × List Char) :=
  if '\n' ∈ buffer then
    some (⟨buffer.takeWhile (· ≠ '\n'),
        fun inside => by simpa using List.mem_takeWhile_imp inside⟩,
      (buffer.dropWhile (· ≠ '\n')).tail)
  else none

theorem nextLine_append (line : Line) (rest : List Char) :
    nextLine (line.1 ++ '\n' :: rest) = some (line, rest) := by
  have others : ∀ char ∈ line.1, decide (char ≠ '\n') = true := fun char inside =>
    decide_eq_true (fun same => line.2 (same ▸ inside))
  rw [nextLine, if_pos (by simp)]
  congr 2
  · apply Subtype.ext
    dsimp only
    rw [List.takeWhile_append_of_pos others]
    simp
  · rw [List.dropWhile_append_of_pos others]
    rfl

theorem append_of_nextLine {buffer rest : List Char} {line : Line}
    (taken : nextLine buffer = some (line, rest)) : buffer = line.1 ++ '\n' :: rest := by
  by_cases inside : '\n' ∈ buffer
  · obtain ⟨front, behind, rfl, free⟩ := List.eq_append_cons_of_mem inside
    rw [nextLine_append ⟨front, free⟩ behind] at taken
    cases taken
    rfl
  · rw [nextLine, if_neg inside] at taken
    cases taken

def lineFraming : Framing Char Line where
  encode := fun line => line.1 ++ ['\n']
  next := nextLine
  nonempty := fun line => List.append_ne_nil_of_right_ne_nil _ (List.cons_ne_nil _ _)
  accepts := fun line rest => by
    rw [List.append_assoc]
    exact nextLine_append line rest
  splits := fun buffer line rest taken => by
    rw [List.append_assoc]
    exact append_of_nextLine taken

/-! ### The decoder -/

structure Decoder where
  buffer : List Char
  currentEventName : List Char
  currentEventData : List (List Char)

def Decoder.new : Decoder :=
  { buffer := []
    currentEventName := "message".toList
    currentEventData := [] }

/-- What `stop` does to it. -/
def Decoder.stop (decoder : Decoder) : Decoder :=
  { decoder with
    buffer := []
    currentEventData := []
    currentEventName := "message".toList }

def Decoder.withBuffer (decoder : Decoder) (buffer : List Char) : Decoder :=
  { decoder with buffer }

@[simp] theorem Decoder.withBuffer_withBuffer (decoder : Decoder) (buffer other : List Char) :
    (decoder.withBuffer buffer).withBuffer other = decoder.withBuffer other := rfl

/-- `replace(/\r$/, "")` -/
def stripReturn (line : List Char) : List Char :=
  if line.getLast? = some '\r' then line.dropLast else line

/-- `replace(/^\s/, "")` -/
def stripSpace : List Char → List Char
  | [] => []
  | char :: rest => if isSpace char then rest else char :: rest

section Decoding

variable (jsonParse : List Char → Option Json)

def safeParseJson (input : List Char) : Json :=
  if input = [] then .null else (jsonParse input).getD (.string (String.ofList input))

def Decoder.onLine (decoder : Decoder) (line : List Char) : Decoder × List LiveEvent :=
  if line = [] then
    ({ decoder with currentEventName := "message".toList, currentEventData := [] },
      if decoder.currentEventData = [] then []
      else [dispatchByName decoder.currentEventName
        (safeParseJson jsonParse (['\n'].intercalate decoder.currentEventData))])
  else if line.head? = some ':' then (decoder, [])
  else
    let field := line.takeWhile (· ≠ ':')
    -- A line without a colon has no value.
    let value := stripSpace (line.dropWhile (· ≠ ':')).tail
    if field = "event".toList then ({ decoder with currentEventName := value }, [])
    else if field = "data".toList then
      ({ decoder with currentEventData := decoder.currentEventData ++ [value] }, [])
    else (decoder, [])

def Decoder.onLines (decoder : Decoder) : List Line → Decoder × List LiveEvent
  | [] => (decoder, [])
  | line :: rest =>
      let read := decoder.onLine jsonParse (stripReturn line.1)
      let later := read.1.onLines rest
      (later.1, read.2 ++ later.2)

/-- All whole lines are taken off the buffer, and what is left of it stays. -/
def Decoder.onChunk (decoder : Decoder) (chunk : List Char) : Decoder × List LiveEvent :=
  let cut := lineFraming.drain (decoder.buffer ++ chunk)
  (decoder.withBuffer cut.2).onLines jsonParse cut.1

def Decoder.onChunks (decoder : Decoder) : List (List Char) → Decoder × List LiveEvent
  | [] => (decoder, [])
  | chunk :: rest =>
      let read := decoder.onChunk jsonParse chunk
      let later := read.1.onChunks rest
      (later.1, read.2 ++ later.2)

/-- The chunks of one connection after another; between two of them the client stops. -/
def Decoder.received (decoder : Decoder) : List (List (List Char)) → List LiveEvent
  | [] => []
  | chunks :: later =>
      let read := decoder.onChunks jsonParse chunks
      read.2 ++ read.1.stop.received later

/-! ### Chunks -/

variable {jsonParse}

variable (decoder : Decoder)

theorem Decoder.onLine_withBuffer (line buffer : List Char) :
    (decoder.withBuffer buffer).onLine jsonParse line =
      ((decoder.onLine jsonParse line).1.withBuffer buffer,
        (decoder.onLine jsonParse line).2) := by
  unfold onLine withBuffer
  dsimp only
  repeat' split
  all_goals rfl

theorem Decoder.onLine_buffer (line : List Char) :
    (decoder.onLine jsonParse line).1.buffer = decoder.buffer := by
  unfold onLine
  dsimp only
  repeat' split
  all_goals rfl

theorem Decoder.onLines_withBuffer (lines : List Line) (buffer : List Char) :
    (decoder.withBuffer buffer).onLines jsonParse lines =
      ((decoder.onLines jsonParse lines).1.withBuffer buffer,
        (decoder.onLines jsonParse lines).2) := by
  induction lines generalizing decoder with
  | nil => rfl
  | cons line rest ih =>
      rw [onLines, onLine_withBuffer, onLines]
      dsimp only
      rw [ih]

theorem Decoder.onLines_append (lines more : List Line) :
    decoder.onLines jsonParse (lines ++ more) =
      (((decoder.onLines jsonParse lines).1.onLines jsonParse more).1,
        (decoder.onLines jsonParse lines).2 ++
          ((decoder.onLines jsonParse lines).1.onLines jsonParse more).2) := by
  induction lines generalizing decoder with
  | nil => rfl
  | cons line rest ih =>
      rw [List.cons_append, onLines, ih, onLines]
      dsimp only
      rw [List.append_assoc]

theorem Decoder.onChunk_of_cuts {decoder : Decoder} {chunk rest : List Char} {lines : List Line}
    (cuts : lineFraming.Cuts (decoder.buffer ++ chunk) lines rest) :
    decoder.onChunk jsonParse chunk =
      ((decoder.onLines jsonParse lines).1.withBuffer rest,
        (decoder.onLines jsonParse lines).2) := by
  obtain ⟨same, left⟩ := (Framing.drain_cuts lineFraming _).unique cuts
  rw [onChunk, same, left, onLines_withBuffer]

/-- Two chunks are read as one. -/
theorem Decoder.onChunk_append (chunk more : List Char) :
    decoder.onChunk jsonParse (chunk ++ more) =
      (((decoder.onChunk jsonParse chunk).1.onChunk jsonParse more).1,
        (decoder.onChunk jsonParse chunk).2 ++
          ((decoder.onChunk jsonParse chunk).1.onChunk jsonParse more).2) := by
  obtain ⟨lines, rest, first⟩ : ∃ lines rest, lineFraming.Cuts (decoder.buffer ++ chunk) lines rest :=
    ⟨_, _, Framing.drain_cuts lineFraming _⟩
  obtain ⟨others, left, second⟩ : ∃ others left, lineFraming.Cuts (rest ++ more) others left :=
    ⟨_, _, Framing.drain_cuts lineFraming _⟩
  have both : lineFraming.Cuts (decoder.buffer ++ (chunk ++ more)) (lines ++ others) left := by
    refine ⟨?_, second.2⟩
    rw [← List.append_assoc, first.1, List.append_assoc, second.1, List.flatMap_append,
      List.append_assoc]
  have next : ((decoder.onLines jsonParse lines).1.withBuffer rest).onChunk jsonParse more = _ :=
    onChunk_of_cuts second
  rw [onChunk_of_cuts first, onChunk_of_cuts both, next, onLines_append, onLines_withBuffer,
    withBuffer_withBuffer]

/-- No whole line is left in the buffer. -/
theorem Decoder.onChunk_incomplete (chunk : List Char) :
    nextLine (decoder.onChunk jsonParse chunk).1.buffer = none := by
  have cuts := Framing.drain_cuts lineFraming (decoder.buffer ++ chunk)
  rw [onChunk_of_cuts cuts]
  exact cuts.2

theorem Decoder.onChunks_eq {decoder : Decoder} (incomplete : nextLine decoder.buffer = none)
    (chunks : List (List Char)) :
    decoder.onChunks jsonParse chunks = decoder.onChunk jsonParse chunks.flatten := by
  induction chunks generalizing decoder with
  | nil =>
      have cuts : lineFraming.Cuts (decoder.buffer ++ []) [] decoder.buffer :=
        ⟨List.append_nil _, incomplete⟩
      rw [List.flatten_nil, onChunk_of_cuts cuts]
      rfl
  | cons chunk rest ih =>
      rw [onChunks, List.flatten_cons, onChunk_append, ih (onChunk_incomplete _ _)]

/-! ### Frames -/

/-- An event under a valid topic, or a comment that stays on its line. -/
inductive Frame where
  | event (sent : Event) (valid : validateTopic sent.topic = .ok ())
  | comment (text : List Char) (oneLine : '\r' ∉ text ∧ '\n' ∉ text)

def keepalive : Frame := .comment "keepalive".toList (by decide)

/-- The text of the frame, if the server can make it. -/
def Frame.text (toJsonLine : Event → List Char) : Frame → Option (List Char)
  | .event sent _ => sseFrame sent.topic.toList (toJsonLine sent)
  | .comment text _ => sseComment text

/-- The topic and the data of the event in a frame. -/
def Frame.event? (value : Event → Json) : Frame → Option (List Char × Json)
  | .event sent _ => some (sent.topic.toList, value sent)
  | .comment _ _ => none

/-- The frames that come in whole with so many characters. -/
def wholeFrames (toJsonLine : Event → List Char) : List Frame → Nat → List Frame
  | [], _ => []
  | frame :: later, length =>
      let text := (frame.text toJsonLine).getD []
      if text.length ≤ length then frame :: wholeFrames toJsonLine later (length - text.length)
      else []

/-- What the texts say of an event: one line, and the value that the engine reads from it. -/
structure Printed (jsonParse : List Char → Option Json) (toJsonLine : Event → List Char)
    (value : Event → Json) : Prop where
  oneLine : ∀ event, '\r' ∉ toJsonLine event ∧ '\n' ∉ toJsonLine event
  decodes : ∀ event, jsonParse (toJsonLine event) = some (value event)
  empty : jsonParse [] = none

section Frames

variable {toJsonLine : Event → List Char} {value : Event → Json}

/-- The lines of a frame before the blank one. -/
def Frame.lines (toJsonLine : Event → List Char) : Frame → List (List Char)
  | .event sent _ => ["event: ".toList ++ sent.topic.toList, "data: ".toList ++ toJsonLine sent]
  | .comment text _ => [": ".toList ++ text]

theorem Frame.text_eq (printed : Printed jsonParse toJsonLine value) (frame : Frame) :
    frame.text toJsonLine =
      some ((frame.lines toJsonLine).flatMap (· ++ ['\n']) ++ ['\n']) := by
  cases frame with
  | event sent valid =>
      have oneLine := printed.oneLine sent
      have single : (toJsonLine sent).splitOn '\n' = [toJsonLine sent] :=
        List.splitOn_eq_singleton oneLine.2
      have data : sseField "data".toList (toJsonLine sent) =
          some ("data".toList ++ ':' :: ' ' :: toJsonLine sent ++ ['\n']) :=
        if_neg (not_or.mpr oneLine)
      rw [text, sseFrame, sseField_of_valid valid, single, List.mapM_cons, data]
      simp [lines]
  | comment words oneLine =>
      have field : sseField [] words = some ([] ++ ':' :: ' ' :: words ++ ['\n']) :=
        if_neg (not_or.mpr oneLine)
      rw [text, sseComment, field]
      simp [lines]

variable {line part : List Char}

/-- A line is read before what follows it. -/
theorem Decoder.onChunk_line {decoder : Decoder} (empty : decoder.buffer = [])
    (free : '\n' ∉ line) (rest : List Char) :
    decoder.onChunk jsonParse (line ++ '\n' :: rest) =
      (((decoder.onLine jsonParse (stripReturn line)).1.onChunk jsonParse rest).1,
        (decoder.onLine jsonParse (stripReturn line)).2 ++
          ((decoder.onLine jsonParse (stripReturn line)).1.onChunk jsonParse rest).2) := by
  obtain ⟨lines, left, later⟩ : ∃ lines left, lineFraming.Cuts rest lines left :=
    ⟨_, _, Framing.drain_cuts lineFraming _⟩
  have whole : lineFraming.Cuts (decoder.buffer ++ (line ++ '\n' :: rest)) (⟨line, free⟩ :: lines)
      left := by
    refine ⟨?_, later.2⟩
    rw [empty, List.nil_append, List.flatMap_cons, List.append_assoc, ← later.1]
    exact (List.append_assoc line ['\n'] rest).symm
  have after : lineFraming.Cuts ((decoder.onLine jsonParse (stripReturn line)).1.buffer ++ rest)
      lines left := by
    rw [onLine_buffer, empty]
    exact later
  rw [onChunk_of_cuts whole, onChunk_of_cuts after, onLines]

theorem stripReturn_free (free : '\r' ∉ line) : stripReturn line = line :=
  if_neg (fun last => free (List.mem_of_getLast? last))

theorem Decoder.onLine_event (topic : List Char) :
    decoder.onLine jsonParse ("event: ".toList ++ topic) =
      ({ decoder with currentEventName := topic }, []) := rfl

theorem Decoder.onLine_data (line : List Char) :
    decoder.onLine jsonParse ("data: ".toList ++ line) =
      ({ decoder with currentEventData := decoder.currentEventData ++ [line] }, []) := rfl

theorem Decoder.onLine_comment (text : List Char) :
    decoder.onLine jsonParse (": ".toList ++ text) = (decoder, []) := rfl

/-- What the client makes of a frame. -/
def Frame.events (value : Event → Json) : Frame → List LiveEvent
  | .event sent _ => [dispatchByName sent.topic.toList (value sent)]
  | .comment _ _ => []

/-- The frame without its last newline. -/
def Frame.body (toJsonLine : Event → List Char) (frame : Frame) : List Char :=
  (frame.lines toJsonLine).flatMap (· ++ ['\n'])

/-- What is pending at the end of the body. -/
def Frame.pending (toJsonLine : Event → List Char) : Frame → Decoder
  | .event sent _ =>
      { buffer := []
        currentEventName := sent.topic.toList
        currentEventData := [toJsonLine sent] }
  | .comment _ _ => .new

theorem Frame.onChunk_body (printed : Printed jsonParse toJsonLine value) (frame : Frame)
    (rest : List Char) :
    Decoder.new.onChunk jsonParse (frame.body toJsonLine ++ rest) =
      (frame.pending toJsonLine).onChunk jsonParse rest := by
  cases frame with
  | event sent valid =>
      have clean := char_of_valid valid
      have ⟨noReturn, noNewline⟩ := printed.oneLine sent
      have topic : ∀ char, isControl char = true → char ∉ sent.topic.toList := by
        intro char control inside
        rw [(clean char inside).1] at control
        cases control
      have first : '\n' ∉ "event: ".toList ++ sent.topic.toList ∧
          '\r' ∉ "event: ".toList ++ sent.topic.toList := by
        simp [topic '\n' (by decide), topic '\r' (by decide)]
      have second : '\n' ∉ "data: ".toList ++ toJsonLine sent ∧
          '\r' ∉ "data: ".toList ++ toJsonLine sent := by
        simp [noReturn, noNewline]
      have split : Frame.body toJsonLine (.event sent valid) ++ rest =
          ("event: ".toList ++ sent.topic.toList) ++ '\n' ::
            (("data: ".toList ++ toJsonLine sent) ++ '\n' :: rest) := by
        simp [Frame.body, Frame.lines]
      rw [split, Decoder.onChunk_line rfl first.1, stripReturn_free first.2, Decoder.onLine_event,
        Decoder.onChunk_line rfl second.1, stripReturn_free second.2, Decoder.onLine_data]
      rfl
  | comment words oneLine =>
      have line : '\n' ∉ ": ".toList ++ words ∧ '\r' ∉ ": ".toList ++ words := by
        simp [oneLine]
      have split : Frame.body toJsonLine (.comment words oneLine) ++ rest =
          (": ".toList ++ words) ++ '\n' :: rest := by
        simp [Frame.body, Frame.lines]
      rw [split, Decoder.onChunk_line rfl line.1, stripReturn_free line.2, Decoder.onLine_comment]
      rfl

theorem Frame.onChunk_text (printed : Printed jsonParse toJsonLine value) (frame : Frame)
    (rest : List Char) :
    Decoder.new.onChunk jsonParse (frame.body toJsonLine ++ '\n' :: rest) =
      ((Decoder.new.onChunk jsonParse rest).1,
        frame.events value ++ (Decoder.new.onChunk jsonParse rest).2) := by
  have free : '\n' ∉ ([] : List Char) := List.not_mem_nil
  rw [onChunk_body printed]
  cases frame with
  | event sent valid =>
      have parsed : safeParseJson jsonParse (toJsonLine sent) = value sent := by
        have decodes := printed.decodes sent
        rw [safeParseJson, if_neg, decodes, Option.getD_some]
        intro empty
        rw [empty, printed.empty] at decodes
        cases decodes
      have blank : (Frame.pending toJsonLine (.event sent valid)).onLine jsonParse (stripReturn []) =
          (.new, [dispatchByName sent.topic.toList (value sent)]) := by
        have join : ['\n'].intercalate [toJsonLine sent] = toJsonLine sent :=
          List.intercalate_singleton
        change (_, [dispatchByName _ (safeParseJson jsonParse
          (['\n'].intercalate [toJsonLine sent]))]) = _
        rw [join, parsed]
        rfl
      have line : (Frame.pending toJsonLine (.event sent valid)).onChunk jsonParse
          ([] ++ '\n' :: rest) = _ := Decoder.onChunk_line rfl free rest
      rw [blank] at line
      exact line
  | comment words oneLine => exact Decoder.onChunk_line rfl free rest

/-- A frame that is torn brings nothing. -/
theorem Frame.onChunk_torn (printed : Printed jsonParse toJsonLine value) {frame : Frame}
    (torn : part <+: frame.body toJsonLine) : (Decoder.new.onChunk jsonParse part).2 = [] := by
  obtain ⟨rest, whole⟩ := torn
  have silent : (Decoder.new.onChunk jsonParse (frame.body toJsonLine)).2 = [] := by
    have body := frame.onChunk_body printed []
    rw [List.append_nil] at body
    rw [body]
    cases frame <;> rfl
  rw [← whole, Decoder.onChunk_append] at silent
  exact (List.append_eq_nil_iff.mp silent).1

theorem onChunk_frames (printed : Printed jsonParse toJsonLine value) {frames : List Frame}
    {texts : List (List Char)} (made : frames.mapM (Frame.text toJsonLine) = some texts)
    (come : part <+: texts.flatten) :
    (Decoder.new.onChunk jsonParse part).2 =
      (wholeFrames toJsonLine frames part.length).flatMap (Frame.events value) := by
  induction frames generalizing texts part with
  | nil =>
      cases made
      rw [List.prefix_nil.mp come]
      rfl
  | cons frame later ih =>
      rw [List.mapM_cons, frame.text_eq printed] at made
      obtain ⟨_, first, made⟩ := Option.bind_eq_some_iff.mp made
      obtain ⟨others, rests, same⟩ := Option.bind_eq_some_iff.mp made
      cases first
      cases same
      rw [List.flatten_cons] at come
      change part <+: (frame.body toJsonLine ++ ['\n']) ++ others.flatten at come
      have text : (frame.text toJsonLine).getD [] = frame.body toJsonLine ++ ['\n'] := by
        rw [frame.text_eq printed]
        rfl
      rw [wholeFrames, text]
      by_cases whole : (frame.body toJsonLine ++ ['\n']).length ≤ part.length
      · obtain ⟨rest, rfl⟩ := List.prefix_of_prefix_length_le (List.prefix_append _ _) come whole
        have next := (List.prefix_append_right_inj _).mp come
        rw [if_pos whole, List.flatMap_cons, List.length_append, Nat.add_sub_cancel_left,
          ← ih rests next, List.append_assoc]
        exact congrArg Prod.snd (frame.onChunk_text printed rest)
      · have inside : part <+: frame.body toJsonLine := by
          have short := List.prefix_of_prefix_length_le come (List.prefix_append _ _)
            (Nat.le_of_not_le whole)
          rcases List.prefix_concat_iff.mp short with all | body
          · exact absurd (all ▸ le_refl _) whole
          · exact body
        rw [if_neg whole]
        exact Frame.onChunk_torn printed inside

/-! ### Connections -/

/-- The frames of a connection, and the chunks of their text that came in before it was lost. -/
structure Connection where
  frames : List Frame
  chunks : List (List Char)

def Connection.Received (toJsonLine : Event → List Char) (connection : Connection) : Prop :=
  ∃ texts, connection.frames.mapM (Frame.text toJsonLine) = some texts ∧
    connection.chunks.flatten <+: texts.flatten

def Connection.whole (toJsonLine : Event → List Char) (connection : Connection) : List Frame :=
  wholeFrames toJsonLine connection.frames connection.chunks.flatten.length

theorem Frame.events_map (frame : Frame) :
    (frame.events value).map (fun event => (event.name, event.data)) =
      (frame.event? value).toList := by
  cases frame with
  | event sent valid => simp [events, event?]
  | comment words oneLine => rfl

theorem frames_made (printed : Printed jsonParse toJsonLine value) (frames : List Frame) :
    ∃ texts, frames.mapM (Frame.text toJsonLine) = some texts := by
  induction frames with
  | nil => exact ⟨[], rfl⟩
  | cons frame later ih =>
      obtain ⟨texts, made⟩ := ih
      rw [List.mapM_cons, frame.text_eq printed, made]
      exact ⟨_, rfl⟩

theorem received_connections (printed : Printed jsonParse toJsonLine value)
    (connections : List Connection)
    (come : ∀ connection ∈ connections, connection.Received toJsonLine) :
    (Decoder.new.received jsonParse (connections.map Connection.chunks)).map
        (fun event => (event.name, event.data)) =
      connections.flatMap (fun connection =>
        (connection.whole toJsonLine).filterMap (Frame.event? value)) := by
  induction connections with
  | nil => rfl
  | cons connection later ih =>
      obtain ⟨texts, made, torn⟩ := come connection List.mem_cons_self
      have first := onChunk_frames printed made torn
      rw [← Decoder.onChunks_eq rfl] at first
      have fresh : ∀ decoder : Decoder, decoder.stop = .new := fun _ => rfl
      rw [List.map_cons, Decoder.received, List.flatMap_cons, first, fresh, List.map_append,
        ih (fun other member => come other (List.mem_cons_of_mem _ member)), List.map_flatMap]
      congr 1
      simp only [Frame.events_map]
      exact (List.filterMap_eq_flatMap_toList _ _).symm

end Frames

end Decoding

/-- All frames can be made.  However their text is cut into chunks, and wherever a connection is
lost, the listeners get the events of the frames that came in whole, each once and in order. -/
theorem received_whole (jsonParse : List Char → Option Json) (toJsonLine : Event → List Char)
    (value : Event → Json) (printed : Printed jsonParse toJsonLine value) :
    (∀ frames : List Frame, ∃ texts, frames.mapM (Frame.text toJsonLine) = some texts) ∧
    ∀ connections : List Connection,
      (∀ connection ∈ connections, connection.Received toJsonLine) →
      (Decoder.new.received jsonParse (connections.map Connection.chunks)).map
          (fun event => (event.name, event.data)) =
        connections.flatMap (fun connection =>
          (connection.whole toJsonLine).filterMap (Frame.event? value)) :=
  ⟨frames_made printed, received_connections printed⟩

section Example

def health : Event :=
  { topic := "system.health"
    timestamp := 0
    sessionId := none
    projectHash := none
    payload := .null }

def healthLine : List Char :=
  "\x7b\"topic\":\"system.health\",\"timestamp\":\"1970-01-01T00:00:00Z\",\"payload\":null\x7d".toList

def healthValue : Json :=
  .object [("topic", .string "system.health"), ("timestamp", .string "1970-01-01T00:00:00Z"),
    ("payload", .null)]

def readHealth (text : List Char) : Option Json :=
  if text = healthLine then some healthValue else none

theorem health_printed : Printed readHealth (fun _ => healthLine) (fun _ => healthValue) where
  oneLine := fun _ => by decide
  decodes := fun _ => if_pos rfl
  empty := rfl

def healthFrames : List Frame := [keepalive, .event health rfl]

def healthText : List Char :=
  ": keepalive\n\nevent: system.health\ndata: ".toList ++ healthLine ++ "\n\n".toList

/-- A first connection is lost within the data; a second one is cut there. -/
def healthConnections : List Connection :=
  [⟨healthFrames, [healthText.take 50]⟩,
    ⟨healthFrames, [healthText.take 30, healthText.drop 30]⟩]

theorem received_health :
    (Decoder.new.received readHealth
        [[healthText.take 50], [healthText.take 30, healthText.drop 30]]).map
          (fun event => (event.name, event.data)) =
      [("system.health".toList, healthValue)] := by
  have made : healthFrames.mapM (Frame.text (fun _ => healthLine)) =
      some [": keepalive\n\n".toList,
        "event: system.health\ndata: ".toList ++ healthLine ++ "\n\n".toList] := rfl
  have come : ∀ connection ∈ healthConnections,
      connection.Received (fun _ => healthLine) := by
    intro connection member
    rcases List.mem_pair.mp member with rfl | rfl
    · exact ⟨_, made, List.take_prefix 50 healthText⟩
    · exact ⟨_, made, List.prefix_refl _⟩
  have whole := (received_whole readHealth (fun _ => healthLine) (fun _ => healthValue)
    health_printed).2 healthConnections come
  have first : Connection.whole (fun _ => healthLine) ⟨healthFrames, [healthText.take 50]⟩ =
      [keepalive] := rfl
  have second : Connection.whole (fun _ => healthLine)
      ⟨healthFrames, [healthText.take 30, healthText.drop 30]⟩ = healthFrames := rfl
  rw [healthConnections, List.flatMap_cons, List.flatMap_cons, first, second] at whole
  exact whole

end Example

end Mneme.Vscode
