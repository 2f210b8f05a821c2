/-
The input of the bus: lines that workers send over a local socket, and the frames in which
subscribers get their events.

What a line holds as JSON and what the broadcast channel answers are taken from outside.
-/

import Mneme.Common.Text
import Mneme.Livebus.Topic

namespace Mneme.Livebus

open Common

def LivebusError.display : LivebusError → String
  | .io message => "i/o error: " ++ message
  | .invalidTopic message => "invalid topic: " ++ message
  | .subscriberEvicted id reason => "subscriber " ++ id ++ " evicted: " ++ reason
  | .busClosed => "bus channel closed"
  | .frameTooLarge bytes max =>
      "ipc frame too large: " ++ toString bytes ++ " bytes (max " ++ toString max ++ ")"

/-- What `try_broadcast` answers. -/
inductive Broadcast where
  | delivered
  | evicted
  | full
  | closed
  | inactive
deriving DecidableEq

/-- Only a closed channel refuses an event. -/
def publish : Broadcast → Except LivebusError Unit
  | .delivered => .ok ()
  | .evicted => .ok ()
  | .full => .ok ()
  | .closed => .error .busClosed
  | .inactive => .ok ()

/-! ### Lines -/

def maxFrameBytes : Nat := 1024 * 1024

/-- One call of `read_line`, and what the channel answers if there is an event to publish. -/
structure Received where
  line : Except String String
  answer : Broadcast

structure Session where
  /-- Handed to `dispatch`. -/
  dispatched : List Event
  replies : List String

def Session.new : Session := { dispatched := [], replies := [] }

def Session.reply (session : Session) (message : String) : Session :=
  { session with replies := session.replies ++ [message] }

def badJson (error : String) : String :=
  "\x7b\"op\":\"error\",\"message\":\"bad json: " ++ error ++ "\"\x7d\n"

def publishFailed (error : LivebusError) : String :=
  "\x7b\"op\":\"error\",\"message\":\"" ++ error.display ++ "\"\x7d\n"

def ack : String := "\x7b\"op\":\"ack\"\x7d\n"

section Connection

variable (fromStr : String → Except String Event)

def handleLine (session : Session) (line : String) (answer : Broadcast) : Session :=
  let trimmed := trim line
  if trimmed.isEmpty then session
  else
    match fromStr trimmed with
    | .error error => session.reply (badJson error)
    | .ok event =>
        match publish answer with
        | .error error => session.reply (publishFailed error)
        | .ok () =>
            { session with dispatched := session.dispatched ++ [event] }.reply ack

/-- The loop ends with the lines, or at one that cannot be read or is too long. -/
def handleConnection (session : Session) : List Received → Except LivebusError Unit × Session
  | [] => (.ok (), session)
  | received :: rest =>
      match received.line with
      | .error error => (.error (.io error), session)
      | .ok line =>
          if maxFrameBytes < line.utf8ByteSize then
            (.error (.frameTooLarge line.utf8ByteSize maxFrameBytes), session)
          else handleConnection (handleLine fromStr session line received.answer) rest

/-! ### What is dispatched -/

/-- A line that does not end the loop. -/
def Received.readable (received : Received) : Bool :=
  match received.line with
  | .error _ => false
  | .ok line => line.utf8ByteSize ≤ maxFrameBytes

def reached (input : List Received) : List Received :=
  input.takeWhile Received.readable

/-- The event that a line holds, if the bus takes it. -/
def Received.event (received : Received) : Option Event :=
  match received.line with
  | .error _ => none
  | .ok line =>
      if (trim line).isEmpty ∨ received.answer = .closed then none
      else (fromStr (trim line)).toOption

variable {fromStr}

theorem handleLine_dispatched (session : Session) (line : String) (answer : Broadcast) :
    (handleLine fromStr session line answer).dispatched =
      session.dispatched ++ (Received.event fromStr ⟨.ok line, answer⟩).toList := by
  rw [handleLine, Received.event]
  dsimp only
  by_cases blank : (trim line).isEmpty = true
  · rw [if_pos blank, if_pos (Or.inl blank)]
    exact (List.append_nil _).symm
  · rw [if_neg blank]
    cases held : fromStr (trim line) with
    | error error =>
        rw [Except.toOption, ite_self]
        exact (List.append_nil _).symm
    | ok event => cases answer <;> simp [publish, Session.reply, Except.toOption, blank]

/-- What is dispatched is what the lines hold, for all topics. -/
theorem handleConnection_dispatched (session : Session) (input : List Received) :
    (handleConnection fromStr session input).2.dispatched =
      session.dispatched ++ (reached input).filterMap (Received.event fromStr) := by
  induction input generalizing session with
  | nil => exact (List.append_nil _).symm
  | cons received rest ih =>
      obtain ⟨read, answer⟩ := received
      cases read with
      | error error => exact (List.append_nil _).symm
      | ok line =>
          rw [handleConnection]
          dsimp only
          by_cases long : maxFrameBytes < line.utf8ByteSize
          · have unread : Received.readable ⟨.ok line, answer⟩ = false :=
              decide_eq_false (Nat.not_le.mpr long)
            rw [if_pos long, reached, List.takeWhile_cons_of_neg (by rw [unread]; nofun)]
            exact (List.append_nil _).symm
          · have read : Received.readable ⟨.ok line, answer⟩ = true :=
              decide_eq_true (Nat.not_lt.mp long)
            have later : reached (⟨.ok line, answer⟩ :: rest) = ⟨.ok line, answer⟩ :: reached rest :=
              List.takeWhile_cons_of_pos read
            rw [if_neg long, ih, handleLine_dispatched, later, List.append_assoc,
              List.filterMap_cons]
            cases Received.event fromStr ⟨.ok line, answer⟩ <;> rfl

/-- A topic that subscribers may rely on. -/
def Concrete (topic : String) : Prop :=
  validateTopic topic = .ok () ∧ isConcreteTopic topic = true

/-- Every dispatched event has a valid topic without wildcards exactly when every event that the
lines hold has one: nothing is looked at in between. -/
theorem dispatched_concrete_iff (fromStr : String → Except String Event) (input : List Received) :
    (∀ event ∈ (handleConnection fromStr .new input).2.dispatched, Concrete event.topic) ↔
      ∀ received ∈ reached input, ∀ event ∈ received.event fromStr, Concrete event.topic := by
  rw [handleConnection_dispatched, Session.new, List.nil_append]
  constructor
  · intro concrete received member event held
    exact concrete event (List.mem_filterMap.mpr ⟨received, member, held⟩)
  · intro concrete event member
    obtain ⟨received, inside, held⟩ := List.mem_filterMap.mp member
    exact concrete received inside event held

end Connection

/-! ### Frames -/

/-- The field of a frame; a value with a line break is refused by a panic. -/
def sseField (name value : List Char) : Option (List Char) :=
  if '\r' ∈ value ∨ '\n' ∈ value then none else some (name ++ ':' :: ' ' :: value ++ ['\n'])

/-- The data is one field for each of its lines. -/
def sseFrame (topic line : List Char) : Option (List Char) := do
  let event ← sseField "event".toList topic
  let data ← (line.splitOn '\n').mapM (sseField "data".toList)
  return event ++ data.flatten ++ ['\n']

def sseComment (text : List Char) : Option (List Char) :=
  (sseField [] text).map (· ++ ['\n'])

theorem mem_splitOn {sep char : Char} {text : List Char} (inside : char ∈ text)
    (different : char ≠ sep) : ∃ segment ∈ text.splitOn sep, char ∈ segment := by
  induction text with
  | nil => cases inside
  | cons first rest ih =>
      obtain ⟨head, more, split⟩ := List.exists_cons_of_ne_nil (List.splitOn_ne_nil sep rest)
      rw [split] at ih
      rw [List.splitOn_cons_eq_if_modifyHead, split]
      rcases List.mem_cons.mp inside with same | later
      · rw [if_neg (by rw [← same]; simpa using different)]
        exact ⟨first :: head, List.mem_cons_self, same ▸ List.mem_cons_self⟩
      · obtain ⟨segment, member, held⟩ := ih later
        split
        · exact ⟨segment, List.mem_cons_of_mem _ member, held⟩
        · rcases List.mem_cons.mp member with here | there
          · exact ⟨first :: head, List.mem_cons_self, List.mem_cons_of_mem _ (here ▸ held)⟩
          · exact ⟨segment, List.mem_cons_of_mem _ there, held⟩

/-- An accepted topic breaks no line. -/
theorem char_of_valid {topic : String} (valid : validateTopic topic = .ok ()) :
    ∀ char ∈ topic.toList, isControl char = false ∧ char ≠ ' ' := by
  intro char inside
  by_cases dot : char = '.'
  · subst dot
    decide
  · obtain ⟨segment, member, held⟩ := mem_splitOn inside dot
    rw [validateTopic] at valid
    split at valid
    · cases valid
    · split at valid
      · cases valid
      · rename_i _ none
        have fine := List.findSome?_eq_none_iff.mp none segment member
        rw [segmentError] at fine
        split at fine
        · cases fine
        · split at fine
          · cases fine
          · rename_i _ clean
            rw [List.any_eq_true] at clean
            constructor
            · exact Bool.eq_false_iff.mpr (fun control => clean ⟨char, held, by simp [control]⟩)
            · exact fun space => clean ⟨char, held, by simp [space]⟩

theorem sseField_of_valid {topic : String} (valid : validateTopic topic = .ok ())
    (name : List Char) :
    sseField name topic.toList = some (name ++ ':' :: ' ' :: topic.toList ++ ['\n']) := by
  have clean := char_of_valid valid
  rw [sseField, if_neg]
  rintro (inside | inside)
  · exact absurd (clean _ inside).1 (by decide)
  · exact absurd (clean _ inside).1 (by decide)

/-- A line whose topic is a pattern, and one whose topic breaks the line. -/
def twoLines : List Received :=
  [⟨.ok "\x7b\"topic\":\"project.#\",\"payload\":null\x7d\n", .inactive⟩,
    ⟨.ok "\x7b\"topic\":\"a\\nb\",\"payload\":null\x7d\n", .delivered⟩]

def readTwoLines (text : String) : Except String Event :=
  if text = "\x7b\"topic\":\"project.#\",\"payload\":null\x7d" then
    .ok { topic := "project.#", timestamp := 0, sessionId := none, projectHash := none,
          payload := .null }
  else if text = "\x7b\"topic\":\"a\\nb\",\"payload\":null\x7d" then
    .ok { topic := "a\nb", timestamp := 0, sessionId := none, projectHash := none,
          payload := .null }
  else .error "expected value at line 1 column 1"

/-- Both are dispatched, and no frame can be made for the second. -/
theorem twoLines_dispatched :
    (handleConnection readTwoLines .new twoLines).2.dispatched.map Event.topic =
        ["project.#", "a\nb"] ∧
      ¬ Concrete "project.#" ∧ ¬ Concrete "a\nb" ∧
      ∀ line, sseFrame "a\nb".toList line = none := by
  refine ⟨by decide, ?_, ?_, fun _ => rfl⟩
  · intro concrete
    exact absurd concrete.2 (by decide)
  · intro concrete
    cases concrete.1

end Mneme.Livebus
