/-
Topics, the patterns that match them, and the events published under them.
-/

import Mneme.Library.Json

namespace Mneme.Livebus

inductive LivebusError where
  | io (message : String)
  | invalidTopic (message : String)
  | subscriberEvicted (id reason : String)
  | busClosed
  | frameTooLarge (bytes max : Nat)
deriving DecidableEq

/-! ### Topics -/

def segments (topic : String) : List (List Char) :=
  topic.toList.splitOn '.'

/-- The Unicode category Cc. -/
def isControl (char : Char) : Bool :=
  char.toNat ≤ 0x1F || (0x7F ≤ char.toNat && char.toNat ≤ 0x9F)

/-- The error of one segment. -/
def segmentError (topic : String) (segment : List Char) : Option LivebusError :=
  if segment.isEmpty then
    some (.invalidTopic ("topic '" ++ topic ++ "' contains empty segment"))
  else if segment.any (fun char => isControl char || char = ' ' || char = '\n') then
    some (.invalidTopic ("topic '" ++ topic ++ "' contains control or whitespace character"))
  else none

def validateTopic (topic : String) : Except LivebusError Unit :=
  if topic = "" then .error (.invalidTopic "topic is empty")
  else
    match (segments topic).findSome? (segmentError topic) with
    | some error => .error error
    | none => .ok ()

def isConcreteTopic (topic : String) : Bool :=
  !(segments topic).any (fun segment => segment = "*".toList || segment = "#".toList)

/-- `for p in &patterns { validate_topic(p)?; }` -/
def validatePatterns (patterns : List String) : Except LivebusError Unit :=
  patterns.forM validateTopic

def segmentMatches (pattern segment : List Char) : Bool :=
  pattern = "*".toList || pattern = segment

def topicMatches (pattern topic : String) : Bool :=
  let patSegs := segments pattern
  let topSegs := segments topic
  if patSegs.getLast? = some "#".toList ∧ 2 ≤ patSegs.length then
    -- The last segment stands for one segment at least.
    patSegs.length ≤ topSegs.length &&
      (patSegs.dropLast.zip topSegs).all (fun pair => segmentMatches pair.1 pair.2)
  else if patSegs.getLast? = some "#".toList ∧ patSegs.length = 1 then
    !topSegs.isEmpty && topic ≠ ""
  else
    patSegs.length = topSegs.length &&
      (patSegs.zip topSegs).all (fun pair => segmentMatches pair.1 pair.2)

def topicMatchesAny (patterns : List String) (topic : String) : Bool :=
  patterns.any (fun pattern => topicMatches pattern topic)

example : topicMatches "project.abc.#" "project.abc.x.y" = true := by decide

example : topicMatches "project.*.file_changed" "project.abc.def.file_changed" = false := by decide

/-! ### The grammar of patterns -/

/-- What a pattern stands for, segment by segment. -/
inductive SegmentsMatch : List (List Char) → List (List Char) → Prop where
  | finished : SegmentsMatch [] []
  | literal (segment : List Char) {pattern topic : List (List Char)}
      (later : SegmentsMatch pattern topic) : SegmentsMatch (segment :: pattern) (segment :: topic)
  | single (segment : List Char) {pattern topic : List (List Char)}
      (later : SegmentsMatch pattern topic) :
      SegmentsMatch ("*".toList :: pattern) (segment :: topic)
  | remaining {topic : List (List Char)} (some_segment : topic ≠ []) :
      SegmentsMatch ["#".toList] topic

variable {topic pattern : List (List Char)}

/-- A segment stands for itself, or for any one as a star. -/
theorem segmentsMatch_cons {segment : List Char} (goesOn : segment = "#".toList → pattern ≠ []) :
    SegmentsMatch (segment :: pattern) topic ↔
      ∃ first rest, topic = first :: rest ∧ segmentMatches segment first = true ∧
        SegmentsMatch pattern rest := by
  constructor
  · intro matched
    cases matched with
    | literal _ later =>
        exact ⟨segment, _, rfl, Bool.or_eq_true_iff.mpr (Or.inr (decide_eq_true rfl)), later⟩
    | single first later => exact ⟨first, _, rfl, rfl, later⟩
    | remaining _ => exact absurd rfl (goesOn rfl)
  · intro there
    obtain ⟨first, rest, rfl, alike, later⟩ := there
    rcases Bool.or_eq_true_iff.mp alike with star | same
    · rw [of_decide_eq_true star]
      exact .single first later
    · rw [of_decide_eq_true same]
      exact .literal first later

/-- The loop over two lists of one length. -/
theorem segmentsMatch_iff_zip (plain : pattern.getLast? ≠ some "#".toList) :
    SegmentsMatch pattern topic ↔
      pattern.length = topic.length ∧
        (pattern.zip topic).all (fun pair => segmentMatches pair.1 pair.2) = true := by
  induction pattern generalizing topic with
  | nil =>
      constructor
      · intro matched
        cases matched
        exact ⟨rfl, rfl⟩
      · intro both
        rw [List.length_eq_zero_iff.mp both.1.symm]
        exact .finished
  | cons segment pattern ih =>
      have goesOn : segment = "#".toList → pattern ≠ [] := by
        intro hash nothing
        rw [hash, nothing] at plain
        exact plain rfl
      have later : pattern.getLast? ≠ some "#".toList := by
        cases pattern with
        | nil => exact fun impossible => nomatch impossible
        | cons next rest =>
            rw [List.getLast?_cons_cons] at plain
            exact plain
      rw [segmentsMatch_cons goesOn]
      cases topic with
      | nil =>
          constructor
          · intro there
            obtain ⟨first, rest, impossible, _⟩ := there
            cases impossible
          · intro both
            cases both.1
      | cons first rest =>
          rw [List.zip_cons_cons, List.all_cons, Bool.and_eq_true, List.length_cons,
            List.length_cons, Nat.add_right_cancel_iff, and_left_comm, ← ih later]
          constructor
          · intro there
            obtain ⟨_, _, same, alike, matched⟩ := there
            cases same
            exact ⟨alike, matched⟩
          · intro both
            exact ⟨first, rest, rfl, both⟩

/-- The loop over the segments before a trailing wildcard. -/
theorem segmentsMatch_trailing_iff (front : List (List Char)) (topic : List (List Char)) :
    SegmentsMatch (front ++ ["#".toList]) topic ↔
      front.length + 1 ≤ topic.length ∧
        (front.zip topic).all (fun pair => segmentMatches pair.1 pair.2) = true := by
  induction front generalizing topic with
  | nil =>
      constructor
      · intro matched
        refine ⟨?_, rfl⟩
        cases matched with
        | literal _ _ => exact Nat.le_add_left 1 _
        | remaining some_segment => exact List.length_pos_iff.mpr some_segment
      · intro both
        exact .remaining (List.length_pos_iff.mp both.1)
  | cons segment front ih =>
      have goesOn : segment = "#".toList → front ++ ["#".toList] ≠ [] := fun _ =>
        List.append_ne_nil_of_right_ne_nil _ (List.cons_ne_nil _ _)
      rw [List.cons_append, segmentsMatch_cons goesOn]
      cases topic with
      | nil =>
          constructor
          · intro there
            obtain ⟨first, rest, impossible, _⟩ := there
            cases impossible
          · intro both
            exact absurd both.1 (Nat.not_succ_le_zero _)
      | cons first rest =>
          rw [List.zip_cons_cons, List.all_cons, Bool.and_eq_true, List.length_cons,
            List.length_cons, Nat.add_le_add_iff_right, and_left_comm, ← ih]
          constructor
          · intro there
            obtain ⟨_, _, same, alike, matched⟩ := there
            cases same
            exact ⟨alike, matched⟩
          · intro both
            exact ⟨first, rest, rfl, both⟩

theorem segments_ne_nil (topic : String) : segments topic ≠ [] :=
  List.splitOn_ne_nil _ _

/-- Matching is what the grammar says, for any topic that is accepted. -/
theorem topicMatches_iff {pattern topic : String} (accepted : validateTopic topic = .ok ()) :
    topicMatches pattern topic = true ↔ SegmentsMatch (segments pattern) (segments topic) := by
  have some_char : topic ≠ "" := by
    intro empty
    rw [empty] at accepted
    cases accepted
  unfold topicMatches
  dsimp only
  by_cases trailing : (segments pattern).getLast? = some "#".toList
  · obtain ⟨front, split⟩ := List.getLast?_eq_some_iff.mp trailing
    rw [split, segmentsMatch_trailing_iff, List.getLast?_concat, List.length_append,
      List.length_singleton, List.dropLast_concat]
    cases front with
    | nil =>
        rw [if_neg (fun both => absurd both.2 (by decide)), if_pos ⟨rfl, rfl⟩]
        apply iff_of_true
        · rw [List.isEmpty_eq_false_iff.mpr (segments_ne_nil topic), decide_eq_true some_char]
          rfl
        · exact ⟨List.length_pos_iff.mpr (segments_ne_nil topic), rfl⟩
    | cons segment rest =>
        rw [if_pos ⟨rfl, Nat.succ_le_succ (Nat.succ_le_succ (Nat.zero_le _))⟩, Bool.and_eq_true,
          decide_eq_true_eq]
  · rw [if_neg (fun both => trailing both.1), if_neg (fun both => trailing both.1),
      segmentsMatch_iff_zip trailing, Bool.and_eq_true, decide_eq_true_eq]

theorem topicMatches_iff_project :
    topicMatches "project.*.#" "project.abc.x.y" = true ↔
      SegmentsMatch (segments "project.*.#") (segments "project.abc.x.y") :=
  topicMatches_iff rfl

/-! ### Events -/

structure Event where
  topic : String
  /-- Nanoseconds since 1970. -/
  timestamp : Int
  sessionId : Option String
  projectHash : Option String
  payload : Json

/-- The typed payload of a degraded-mode notice, tagged by `kind`. -/
def degradedMode (reason subscriberId : String) (droppedCount : Nat) : Json :=
  .object [("kind", .string "degraded_mode"), ("reason", .string reason),
    ("subscriber_id", .string subscriberId), ("dropped_count", .nat droppedCount)]

/-- The notice of an eviction. -/
def evictionNotice (reason subscriberId : String) (droppedCount : Nat) (now : Int) : Event :=
  { topic := "system.degraded_mode"
    timestamp := now
    sessionId := none
    projectHash := none
    payload := degradedMode reason subscriberId droppedCount }

end Mneme.Livebus
