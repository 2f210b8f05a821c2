/-
Skills and the ranking of skills for a task, as far as both matchers share it.

A matcher reads each text with its own parser and its own notion of white space;
scores, order, confidence and the nudge for a codeword are the same.  The mapping
to lower case is that of Unicode, taken as a parameter.
-/

import Mathlib.Data.List.DropRight
import Mneme.Common.Text
import Mneme.Library.Ordering

namespace Mneme.Common.Skills

open Library

abbrev Chars := List Char

def trimBoth (space : Char → Bool) (text : Chars) : Chars :=
  (text.dropWhile space).rdropWhile space

/-- A mapping to lower case; no capital letter of ASCII is left. -/
structure Lowercase where
  map : Chars → Chars
  small : ∀ text, ∀ char ∈ map text, ¬ ('A' ≤ char ∧ char ≤ 'Z')

/-! ### Values of a header -/

inductive YamlValue where
  | scalar (text : Chars)
  | array (items : List Chars)
deriving DecidableEq

/-- A scalar without the quotes around it. -/
def stripYamlScalar (space : Char → Bool) (text : Chars) : Chars :=
  match trimBoth space text with
  | first :: second :: rest =>
      if (first = '"' ∨ first = '\'') ∧ (second :: rest).getLast? = some first then
        (second :: rest).dropLast
      else first :: second :: rest
  | short => short

/-- The items up to the end, with the text and the quote that are open. -/
def splitInlineArray (space : Char → Bool) (open_ : Chars) (quote : Option Char) :
    Chars → List Chars
  | [] => if trimBoth space open_ = [] then [] else [trimBoth space open_]
  | char :: rest =>
      match quote with
      | some mark =>
          if char = mark then splitInlineArray space open_ none rest
          else splitInlineArray space (open_ ++ [char]) quote rest
      | none =>
          if char = '"' ∨ char = '\'' then splitInlineArray space open_ (some char) rest
          else if char = ',' then
            (if trimBoth space open_ = [] then [] else [trimBoth space open_]) ++
              splitInlineArray space [] none rest
          else splitInlineArray space (open_ ++ [char]) none rest

/-- Where a reader of lines is: at the top level, or in the block that follows a key. -/
inductive Reading where
  | top
  | block (key : Chars) (isArray : Bool) (collected : List Chars)

structure Header where
  entries : List (Chars × YamlValue) := []
  reading : Reading := .top

/-- The entries once an open block ends. -/
def Header.closed (header : Header) : List (Chars × YamlValue) :=
  match header.reading with
  | .top => header.entries
  | .block key true collected => header.entries ++ [(key, .array collected)]
  | .block key false collected =>
      header.entries ++ [(key, .scalar (List.intercalate [' '] collected))]

/-- What follows a key on its line, with the white space around it removed. -/
def readValue (space : Char → Bool) (entries : List (Chars × YamlValue)) (key value : Chars) :
    Header :=
  if value = [] ∨ value = ['>'] ∨ value = ['|'] then
    { entries, reading := .block key false [] }
  else if value.head? = some '[' ∧ value.getLast? = some ']' then
    { entries := entries ++ [(key, .array (splitInlineArray space [] none (value.drop 1).dropLast))] }
  else { entries := entries ++ [(key, .scalar (stripYamlScalar space value))] }

/-- The loop over the lines. -/
def readHeader (readLine : Header → Chars → Header) (block : Chars) : List (Chars × YamlValue) :=
  ((block.splitOn '\n').foldl readLine { }).closed

def valueAsArray (space : Char → Bool) : YamlValue → List Chars
  | .array items => items.filter (fun item => item ≠ [])
  | .scalar text => if trimBoth space text = [] then [] else [trimBoth space text]

/-- The last value given for a key. -/
def lastValue (key : String) (entries : List (Chars × YamlValue)) : Option YamlValue :=
  (entries.reverse.find? (fun entry => entry.1 = key.toList)).map Prod.snd

structure ParsedSkill where
  name : Chars
  triggers : List Chars
  tags : List Chars
deriving DecidableEq

/-- The skill of a header; nothing for one without a name. -/
def skillOf (space : Char → Bool) (lower : Lowercase) (nameOf : YamlValue → Chars)
    (entries : List (Chars × YamlValue)) : Option ParsedSkill :=
  let name := ((lastValue "name" entries).map nameOf).getD []
  if name = [] then none
  else
    some
      { name
        triggers := (((lastValue "triggers" entries).map (valueAsArray space)).getD []).map lower.map
        tags := (((lastValue "tags" entries).map (valueAsArray space)).getD []).map lower.map }

def addSkill (loaded : List ParsedSkill) (skill : ParsedSkill) : List ParsedSkill :=
  if loaded.any (fun other => other.name = skill.name) then loaded else loaded ++ [skill]

/-- The skills of the texts that have one, the first one of each name. -/
def loadSkills (parse : Chars → Option ParsedSkill) (texts : List Chars) : List ParsedSkill :=
  (texts.filterMap parse).foldl addSkill []

variable {loaded : List ParsedSkill}

theorem addSkill_names (skill : ParsedSkill) (unique : (loaded.map ParsedSkill.name).Nodup) :
    ((addSkill loaded skill).map ParsedSkill.name).Nodup := by
  unfold addSkill
  split
  · exact unique
  · next new =>
      rw [List.map_append, List.nodup_append]
      refine ⟨unique, List.nodup_singleton _, ?_⟩
      intro name before other last same
      obtain ⟨old, member, rfl⟩ := List.mem_map.mp before
      rw [List.mem_singleton.mp last] at same
      exact new (List.any_eq_true.mpr ⟨old, member, decide_eq_true same⟩)

variable {skill other : ParsedSkill}

theorem mem_addSkill (member : other ∈ addSkill loaded skill) : other ∈ loaded ∨ other = skill := by
  unfold addSkill at member
  split at member
  · exact Or.inl member
  · exact (List.mem_append.mp member).imp id List.mem_singleton.mp

theorem foldl_addSkill_names (skills : List ParsedSkill)
    (unique : (loaded.map ParsedSkill.name).Nodup) :
    ((skills.foldl addSkill loaded).map ParsedSkill.name).Nodup := by
  induction skills generalizing loaded with
  | nil => exact unique
  | cons skill skills ih => exact ih (addSkill_names skill unique)

theorem mem_foldl_addSkill {skills : List ParsedSkill}
    (member : other ∈ skills.foldl addSkill loaded) : other ∈ loaded ∨ other ∈ skills := by
  induction skills generalizing loaded with
  | nil => exact Or.inl member
  | cons skill skills ih =>
      rcases ih member with before | later
      · rcases mem_addSkill before with old | new
        · exact Or.inl old
        · rw [new]
          exact Or.inr List.mem_cons_self
      · exact Or.inr (List.mem_cons_of_mem _ later)

theorem loadSkills_names (parse : Chars → Option ParsedSkill) (texts : List Chars) :
    ((loadSkills parse texts).map ParsedSkill.name).Nodup :=
  foldl_addSkill_names _ List.nodup_nil

theorem mem_loadSkills {parse : Chars → Option ParsedSkill} {texts : List Chars}
    (loaded : skill ∈ loadSkills parse texts) : ∃ text ∈ texts, parse text = some skill := by
  rcases mem_foldl_addSkill loaded with none | member
  · cases none
  · exact List.mem_filterMap.mp member

/-! ### Matching -/

def stopwords : List String :=
  ["a", "an", "the", "and", "or", "of", "to", "for", "with", "in", "on", "at", "is", "it", "this",
    "that", "my", "i", "me", "we", "our", "please", "help", "need", "want", "can", "could", "you",
    "your", "do", "does", "did", "have", "has", "had", "be", "been", "am", "are", "was", "were",
    "if", "then", "so", "but", "not", "no", "yes"]

def codewords : List Chars :=
  ["coldstart", "hotstart", "firestart", "chs"].map String.toList

def isDigit (char : Char) : Bool :=
  '0' ≤ char && char ≤ '9'

def isLowerAlphanumeric (char : Char) : Bool :=
  ('a' ≤ char && char ≤ 'z') || isDigit char

def isAsciiAlphanumeric (char : Char) : Bool :=
  isLowerAlphanumeric char || ('A' ≤ char && char ≤ 'Z')

/-- Tokens of at least two characters that are no stopwords. -/
def keptTokens (pieces : List Chars) : List Chars :=
  pieces.filter (fun piece => 2 ≤ piece.length && !(stopwords.map String.toList).contains piece)

def isSpecial (char : Char) : Bool :=
  char = '-' || char = '_' || char = '+' || char = '.' || isDigit char

def contains (text part : Chars) : Bool :=
  text.tails.any part.isPrefixOf

def triggerMatches (space : Char → Bool) (loweredTask : Chars) (tokens : List Chars)
    (trigger : Chars) : Bool :=
  let text := trimBoth space trigger
  if text = [] then false
  else if ' ' ∈ text then contains loweredTask text
  else tokens.contains text || (text.any isSpecial && contains loweredTask text)

inductive Confidence where
  | low
  | medium
  | high
deriving DecidableEq

def confidenceFor (score : Nat) : Confidence :=
  if 3 ≤ score then .high else if 1 ≤ score then .medium else .low

structure SkillMatch where
  skill : ParsedSkill
  triggersMatched : List Chars
  tagsMatched : List Chars
deriving DecidableEq

def SkillMatch.score (hit : SkillMatch) : Nat :=
  hit.triggersMatched.length * 2 + hit.tagsMatched.length

/-- A tag that is also a trigger is not counted twice. -/
def scoreSkill (space : Char → Bool) (loweredTask : Chars) (tokens : List Chars)
    (skill : ParsedSkill) : SkillMatch :=
  { skill
    triggersMatched := skill.triggers.filter (triggerMatches space loweredTask tokens)
    tagsMatched := skill.tags.filter (fun tag =>
      !skill.triggers.contains tag && triggerMatches space loweredTask tokens tag) }

def higherFirst (left right : SkillMatch) : Prop :=
  right.score ≤ left.score

instance (left right : SkillMatch) : Decidable (higherFirst left right) :=
  inferInstanceAs (Decidable (right.score ≤ left.score))

/-- The skills with a score, in a stable order by it. -/
def rankSkills (matchOf : ParsedSkill → SkillMatch) (skills : List ParsedSkill) :
    List SkillMatch :=
  ((skills.map matchOf).filter (fun hit => 0 < hit.score)).insertionSort higherFirst

structure Suggestion where
  skill : Chars
  triggersMatched : List Chars
  confidence : Confidence
deriving DecidableEq

def suggestionOf (hit : SkillMatch) : Suggestion :=
  { skill := hit.skill.name
    triggersMatched := hit.triggersMatched
    confidence := confidenceFor hit.score }

def codewordSkill : Chars :=
  "mneme-codewords".toList

/-- The nudge: the skill of the codewords at the end, if it is loaded and not
ranked. -/
def addCodeword (hit : Option Chars) (skills : List ParsedSkill) (ranked : List Suggestion) :
    List Suggestion :=
  match hit with
  | none => ranked
  | some codeword =>
      if ranked.any (fun suggestion => suggestion.skill = codewordSkill) then ranked
      else if skills.any (fun skill => skill.name = codewordSkill) then
        ranked ++ [{ skill := codewordSkill, triggersMatched := [codeword], confidence := .low }]
      else ranked

/-- What the two implementations differ in. -/
structure Matcher where
  lower : Lowercase
  space : Char → Bool
  parse : Chars → Option ParsedSkill
  tokenize : Chars → List Chars
  codewordHit : Chars → Option Chars

def Matcher.skills (matcher : Matcher) (texts : List Chars) : List ParsedSkill :=
  loadSkills matcher.parse texts

def Matcher.matchOf (matcher : Matcher) (loweredTask : Chars) : ParsedSkill → SkillMatch :=
  scoreSkill matcher.space loweredTask (matcher.tokenize loweredTask)

/-- The suggestions without the limit, for a task mapped to lower case. -/
def Matcher.ranking (matcher : Matcher) (texts : List Chars) (loweredTask : Chars) :
    List Suggestion :=
  let ranked := rankSkills (matcher.matchOf loweredTask) (matcher.skills texts)
  addCodeword (matcher.codewordHit loweredTask) (matcher.skills texts) (ranked.map suggestionOf)

def Matcher.suggest (matcher : Matcher) (texts : List Chars) (task : Chars) (limit : Nat) :
    List Suggestion :=
  (matcher.ranking texts (matcher.lower.map task)).take limit

/-! ### The room for the skill of the codewords -/

/-- How many skills are ranked before one of them: those before it with a score that
is not lower, and those after it with a higher one. -/
def rankedAhead (matchOf : ParsedSkill → SkillMatch) (before : List ParsedSkill)
    (skill : ParsedSkill) (after : List ParsedSkill) : Nat :=
  before.countP (fun other => 0 < (matchOf other).score ∧
      (matchOf skill).score ≤ (matchOf other).score) +
    after.countP (fun other => (matchOf skill).score < (matchOf other).score)

instance : IsTrans SkillMatch higherFirst where
  trans := fun _ _ _ first second => Nat.le_trans second first

instance : Std.Total higherFirst where
  total := fun left right => Nat.le_total right.score left.score

/-- The first item with a property is in a prefix as soon as the prefix is longer
than what stands before it. -/
theorem exists_take_iff {Item : Type} {test : Item → Prop} {front back : List Item} {item : Item}
    (none : ∀ other ∈ front, ¬ test other) (holds : test item) (limit : Nat) :
    (∃ other ∈ (front ++ item :: back).take limit, test other) ↔ front.length < limit := by
  constructor
  · intro found
    obtain ⟨other, member, test⟩ := found
    by_contra short
    rw [List.take_append_of_le_length (Nat.le_of_not_lt short)] at member
    exact none other (List.mem_of_mem_take member) test
  · intro long
    refine ⟨item, ?_, holds⟩
    obtain ⟨more, same⟩ := Nat.exists_eq_add_of_lt long
    rw [same, Nat.add_assoc, List.take_length_add_append]
    exact List.mem_append_right _ List.mem_cons_self

theorem hits_split (matchOf : ParsedSkill → SkillMatch) (before : List ParsedSkill)
    (skill : ParsedSkill) (after : List ParsedSkill) :
    ((before ++ skill :: after).map matchOf).filter (fun hit => 0 < hit.score) =
      (before.map matchOf).filter (fun hit => 0 < hit.score) ++
        ((if 0 < (matchOf skill).score then [matchOf skill] else []) ++
          (after.map matchOf).filter (fun hit => 0 < hit.score)) := by
  rw [List.map_append, List.filter_append, List.map_cons, List.filter_cons]
  congr 1
  by_cases scored : 0 < (matchOf skill).score
  · rw [if_pos (decide_eq_true scored), if_pos scored]
    rfl
  · rw [if_neg (by simpa using scored), if_neg scored]
    rfl

section Room

variable {matchOf : ParsedSkill → SkillMatch} {before after : List ParsedSkill}
  {skill : ParsedSkill}

/-- A skill with a score stands in the ranking behind those ranked ahead of it. -/
theorem rankSkills_position (scored : 0 < (matchOf skill).score) :
    ∃ front back, rankSkills matchOf (before ++ skill :: after) =
        front ++ matchOf skill :: back ∧
      (∀ hit ∈ front, ∃ other ∈ before ++ after, hit = matchOf other) ∧
      front.length = rankedAhead matchOf before skill after := by
  obtain ⟨front, back, split, members, length⟩ := @insertionSort_position SkillMatch
    higherFirst _ _ _
    ((before.map matchOf).filter (fun hit => 0 < hit.score)) (matchOf skill)
    ((after.map matchOf).filter (fun hit => 0 < hit.score))
  refine ⟨front, back, ?_, ?_, ?_⟩
  · unfold rankSkills
    rw [hits_split, if_pos scored]
    exact split
  · intro hit member
    rcases List.mem_append.mp (members hit member) with early | late
    · obtain ⟨other, inside, same⟩ := List.mem_map.mp (List.mem_filter.mp early).1
      exact ⟨other, List.mem_append_left _ inside, same.symm⟩
    · obtain ⟨other, inside, same⟩ := List.mem_map.mp (List.mem_filter.mp late).1
      exact ⟨other, List.mem_append_right _ inside, same.symm⟩
  · rw [length, List.countP_filter, List.countP_filter, List.countP_map, List.countP_map]
    unfold rankedAhead
    congr 1
    · apply List.countP_congr
      intro other _
      change (decide ((matchOf skill).score ≤ (matchOf other).score) &&
        decide (0 < (matchOf other).score)) = true ↔ _
      rw [Bool.and_eq_true, decide_eq_true_eq, decide_eq_true_eq, decide_eq_true_eq, and_comm]
    · apply List.countP_congr
      intro other _
      change (decide (¬ (matchOf other).score ≤ (matchOf skill).score) &&
        decide (0 < (matchOf other).score)) = true ↔ _
      rw [Bool.and_eq_true, decide_eq_true_eq, decide_eq_true_eq, decide_eq_true_eq]
      omega

/-- The ranking leaves a skill without a score out. -/
theorem rankSkills_unscored (unscored : (matchOf skill).score = 0) :
    (rankSkills matchOf (before ++ skill :: after)).length = rankedAhead matchOf before skill after ∧
      ∀ hit ∈ rankSkills matchOf (before ++ skill :: after),
        ∃ other ∈ before ++ after, hit = matchOf other := by
  constructor
  · unfold rankSkills rankedAhead
    rw [List.length_insertionSort, hits_split, if_neg (by omega), List.nil_append,
      List.length_append, ← List.countP_eq_length_filter, ← List.countP_eq_length_filter,
      List.countP_map, List.countP_map]
    congr 1
    · apply List.countP_congr
      intro other _
      change decide (0 < (matchOf other).score) = true ↔ _
      rw [decide_eq_true_eq, decide_eq_true_eq]
      omega
    · apply List.countP_congr
      intro other _
      change decide (0 < (matchOf other).score) = true ↔ _
      rw [decide_eq_true_eq, decide_eq_true_eq]
      omega
  · intro hit ranked
    unfold rankSkills at ranked
    rw [hits_split, if_neg (by omega), List.nil_append] at ranked
    rcases List.mem_append.mp ((List.mem_insertionSort _).mp ranked) with early | late
    · obtain ⟨other, inside, same⟩ := List.mem_map.mp (List.mem_filter.mp early).1
      exact ⟨other, List.mem_append_left _ inside, same.symm⟩
    · obtain ⟨other, inside, same⟩ := List.mem_map.mp (List.mem_filter.mp late).1
      exact ⟨other, List.mem_append_right _ inside, same.symm⟩

end Room

/-- The skill of the codewords is listed when the task has one. -/
def CodewordListed (matcher : Matcher) (texts : List Chars) (task : Chars) (limit : Nat) : Prop :=
  (matcher.codewordHit (matcher.lower.map task)).isSome →
    (∃ skill ∈ matcher.skills texts, skill.name = codewordSkill) →
      ∃ suggestion ∈ matcher.suggest texts task limit, suggestion.skill = codewordSkill

/-- Fewer skills than the limit are ranked before it. -/
def CodewordHasRoom (matcher : Matcher) (texts : List Chars) (task : Chars) (limit : Nat) : Prop :=
  (matcher.codewordHit (matcher.lower.map task)).isSome → ∀ before skill after,
    matcher.skills texts = before ++ skill :: after → skill.name = codewordSkill →
      rankedAhead (matcher.matchOf (matcher.lower.map task)) before skill after < limit

/-- Where the skill of the codewords stands in the ranking of a task with a codeword. -/
theorem codeword_position {matcher : Matcher} {texts : List Chars} {loweredTask codeword : Chars}
    (hit : matcher.codewordHit loweredTask = some codeword) {before after : List ParsedSkill}
    (split : matcher.skills texts = before ++ skill :: after) (named : skill.name = codewordSkill) :
    ∃ front suggestion back, matcher.ranking texts loweredTask = front ++ suggestion :: back ∧
      (∀ other ∈ front, other.skill ≠ codewordSkill) ∧ suggestion.skill = codewordSkill ∧
        front.length = rankedAhead (matcher.matchOf loweredTask) before skill after := by
  have unique := loadSkills_names matcher.parse texts
  change ((matcher.skills texts).map ParsedSkill.name).Nodup at unique
  have others : ∀ other ∈ before ++ after,
      (suggestionOf (matcher.matchOf loweredTask other)).skill ≠ codewordSkill := by
    intro other member same
    change other.name = codewordSkill at same
    rw [split, List.map_append, List.map_cons, List.nodup_append] at unique
    obtain ⟨_, behind, apart⟩ := unique
    rcases List.mem_append.mp member with early | late
    · exact apart other.name (List.mem_map_of_mem early) skill.name List.mem_cons_self
        (same.trans named.symm)
    · exact (List.nodup_cons.mp behind).1
        (named.trans same.symm ▸ List.mem_map_of_mem late)
  have loaded : (matcher.skills texts).any (fun skill => skill.name = codewordSkill) = true :=
    List.any_eq_true.mpr ⟨skill, by rw [split]; exact List.mem_append_right _ List.mem_cons_self,
      decide_eq_true named⟩
  unfold Matcher.ranking
  dsimp only
  rw [hit]
  by_cases scored : 0 < (matcher.matchOf loweredTask skill).score
  · obtain ⟨front, back, position, members, length⟩ := @rankSkills_position
      (matcher.matchOf loweredTask) before after skill scored
    refine ⟨front.map suggestionOf, suggestionOf (matcher.matchOf loweredTask skill),
      back.map suggestionOf, ?_, ?_, named, ?_⟩
    · have ranked : (((front ++ matcher.matchOf loweredTask skill :: back).map suggestionOf).any
          (fun suggestion => suggestion.skill = codewordSkill)) = true := by
        rw [List.map_append, List.map_cons]
        exact List.any_eq_true.mpr ⟨_, List.mem_append_right _ List.mem_cons_self,
          decide_eq_true named⟩
      rw [split, position]
      unfold addCodeword
      dsimp only
      rw [if_pos ranked, List.map_append, List.map_cons]
    · intro other member
      obtain ⟨_, inFront, rfl⟩ := List.mem_map.mp member
      obtain ⟨rival, inside, rfl⟩ := members _ inFront
      exact others rival inside
    · rw [List.length_map]
      exact length
  · obtain ⟨length, members⟩ := @rankSkills_unscored (matcher.matchOf loweredTask) before after
      skill (Nat.eq_zero_of_not_pos scored)
    rw [← split] at length members
    have free : ∀ other ∈ (rankSkills (matcher.matchOf loweredTask)
        (matcher.skills texts)).map suggestionOf, other.skill ≠ codewordSkill := by
      intro other member
      obtain ⟨_, inRanked, rfl⟩ := List.mem_map.mp member
      obtain ⟨rival, inside, rfl⟩ := members _ inRanked
      exact others rival inside
    refine ⟨_, { skill := codewordSkill, triggersMatched := [codeword], confidence := .low }, [],
      ?_, free, rfl, ?_⟩
    · have unranked : ¬ ((rankSkills (matcher.matchOf loweredTask)
          (matcher.skills texts)).map suggestionOf).any
            (fun suggestion => suggestion.skill = codewordSkill) = true := by
        intro ranked
        obtain ⟨other, member, same⟩ := List.any_eq_true.mp ranked
        exact free other member (of_decide_eq_true same)
      unfold addCodeword
      dsimp only
      rw [if_neg unranked, if_pos loaded]
    · rw [List.length_map]
      exact length

theorem codewordListed_iff (matcher : Matcher) (texts : List Chars) (task : Chars) (limit : Nat) :
    CodewordListed matcher texts task limit ↔ CodewordHasRoom matcher texts task limit := by
  have each : ∀ codeword, matcher.codewordHit (matcher.lower.map task) = some codeword →
      ∀ before skill after, matcher.skills texts = before ++ skill :: after →
        skill.name = codewordSkill →
          ((∃ suggestion ∈ matcher.suggest texts task limit, suggestion.skill = codewordSkill) ↔
            rankedAhead (matcher.matchOf (matcher.lower.map task)) before skill after < limit) := by
    intro codeword hit before skill after split named
    obtain ⟨front, suggestion, back, ranking, others, same, length⟩ :=
      codeword_position hit split named
    unfold Matcher.suggest
    rw [ranking, ← length]
    exact exists_take_iff others same limit
  constructor
  · intro listed found before skill after split named
    obtain ⟨codeword, hit⟩ := Option.isSome_iff_exists.mp found
    refine (each codeword hit before skill after split named).mp (listed found ⟨skill, ?_, named⟩)
    rw [split]
    exact List.mem_append_right _ List.mem_cons_self
  · intro room found present
    obtain ⟨codeword, hit⟩ := Option.isSome_iff_exists.mp found
    obtain ⟨skill, loaded, named⟩ := present
    obtain ⟨before, after, split⟩ := List.append_of_mem loaded
    exact (each codeword hit before skill after split named).mpr
      (room found before skill after split named)

end Mneme.Common.Skills
