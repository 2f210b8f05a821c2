/-
The skill matcher of the tools, beside that of the command line.  Tokens, codewords and
ranking are the same, so the two answer alike where they read the texts alike, and the
skill of the codewords is listed where the limit leaves room for it.
-/

import Mneme.Cli.SkillMatcher

namespace Mneme.Mcp.SuggestSkill

open Cli Common Common.Skills

/-- The white space of `trim` and of `\s`: a byte order mark belongs to it, a next
line does not. -/
def jsWhitespace (char : Char) : Bool :=
  (isWhitespace char && char.toNat ≠ 0x85) || char.toNat = 0xFEFF

/-- What a dot does not match. -/
def isLineTerminator (char : Char) : Bool :=
  char = '\n' || char = '\r' || char.toNat = 0x2028 || char.toNat = 0x2029

def replaceCrlf : Chars → Chars
  | [] => []
  | [char] => [char]
  | '\r' :: '\n' :: rest => '\n' :: replaceCrlf rest
  | char :: next :: rest => char :: replaceCrlf (next :: rest)

/-- `indexOf` of a line feed and a fence, as the text before it. -/
def beforeClosing : Chars → Option Chars
  | [] => none
  | char :: rest =>
      if ('\n' :: SkillMatcher.fence).isPrefixOf (char :: rest) then some []
      else (beforeClosing rest).map (char :: ·)

def dropNewline : Chars → Chars
  | '\n' :: rest => rest
  | text => text

def sliceFrontmatter (text : Chars) : Option Chars :=
  let normalized := replaceCrlf (SkillMatcher.stripMark text)
  if SkillMatcher.fence.isPrefixOf normalized then (beforeClosing (normalized.drop 3)).map dropNewline
  else none

def isKeyStart (char : Char) : Bool :=
  isAsciiAlphanumeric char && !isDigit char || char = '_'

/-- The key and the value of a line, as `kvMatch` takes them. -/
def matchKeyValue (line : Chars) : Option (Chars × Chars) :=
  if (line.head?.map isKeyStart).getD false then
    match (line.dropWhile SkillMatcher.isKeyChar).dropWhile jsWhitespace with
    | ':' :: rest =>
        let value := rest.dropWhile jsWhitespace
        if value.any isLineTerminator then none else some (line.takeWhile SkillMatcher.isKeyChar, value)
    | _ => none
  else none

/-- A line outside a block. -/
def readTopLine (entries : List (Chars × YamlValue)) (raw : Chars) : Header :=
  let line := raw.rdropWhile jsWhitespace
  if line = [] ∨ (line.dropWhile jsWhitespace).head? = some '#' then { entries }
  else
    match matchKeyValue line with
    | none => { entries }
    | some (key, value) => readValue jsWhitespace entries key value

/-- The item of a line that begins with a dash and white space. -/
def blockItem (line : Chars) : Option Chars :=
  match line.dropWhile jsWhitespace with
  | '-' :: next :: rest =>
      if jsWhitespace next then some (rest.dropWhile jsWhitespace) else none
  | _ => none

/-- One line of `parseTinyYaml`. -/
def readLine (header : Header) (line : Chars) : Header :=
  match header.reading with
  | .top => readTopLine header.entries line
  | .block key isArray collected =>
      if trimBoth jsWhitespace line = [] then header
      else
        match blockItem line with
        | some item =>
            if item.any isLineTerminator then
              { header with reading := .block key true collected }
            else
              { header with
                reading := .block key true (collected ++ [stripYamlScalar jsWhitespace item]) }
        | none =>
            if !isArray && (line.head?.map jsWhitespace).getD false then
              { header with
                reading := .block key false (collected ++ [trimBoth jsWhitespace line]) }
            else readTopLine header.closed line

/-- Only a string is a name. -/
def nameOf : YamlValue → Chars
  | .scalar text => trimBoth jsWhitespace text
  | .array _ => []

def parseSkill (lower : Lowercase) (text : Chars) : Option ParsedSkill :=
  (sliceFrontmatter text).bind (fun block =>
    if block = [] then none else skillOf jsWhitespace lower nameOf (readHeader readLine block))

/-- A split at runs of separators. -/
def splitRuns (separator : Char → Bool) (inRun : Bool) : Chars → List Chars
  | [] => [[]]
  | char :: rest =>
      if separator char then
        if inRun then splitRuns separator true rest else [] :: splitRuns separator true rest
      else (splitRuns separator false rest).modifyHead (char :: ·)

def isTokenChar (char : Char) : Bool :=
  isLowerAlphanumeric char || char = '_' || char = '+' || char = '.' || char = '-'

def tokenize (loweredTask : Chars) : List Chars :=
  keptTokens ((splitRuns (fun char => !isTokenChar char) false loweredTask).filter (· ≠ []))

/-- The expression for one codeword, by the character before. -/
def testCodeword (codeword : Chars) (previous : Option Char) : Chars → Bool
  | [] => false
  | char :: rest =>
      (codeword.isPrefixOf (char :: rest) && SkillMatcher.boundary previous &&
        SkillMatcher.boundary ((char :: rest).drop codeword.length).head?) ||
          testCodeword codeword (some char) rest

def codewordHit (loweredTask : Chars) : Option Chars :=
  codewords.find? (fun codeword => testCodeword codeword none loweredTask)

def skillMatcher (lower : Lowercase) : Matcher :=
  { lower
    space := jsWhitespace
    parse := parseSkill lower
    tokenize
    codewordHit }

end Mneme.Mcp.SuggestSkill

namespace Mneme.Mcp.SuggestSkill

open Cli Common Common.Skills Library

/-! ### Tokens -/

/-- Splitting at runs of separators gives the same pieces, but for empty ones. -/
theorem splitRuns_pieces (separator : Char → Bool) (text : Chars) :
    (splitRuns separator true text).filter (· ≠ []) =
        (text.splitOnP separator).filter (· ≠ []) ∧
      ∃ first runs pieces, splitRuns separator false text = first :: runs ∧
        text.splitOnP separator = first :: pieces ∧
          runs.filter (· ≠ []) = pieces.filter (· ≠ []) := by
  induction text with
  | nil => exact ⟨rfl, [], [], [], rfl, rfl, rfl⟩
  | cons char rest ih =>
      obtain ⟨inRun, first, runs, pieces, left, right, same⟩ := ih
      rw [List.splitOnP_cons_eq_if_modifyHead]
      unfold splitRuns
      by_cases apart : separator char = true
      · rw [if_pos apart, if_pos apart, if_pos apart, if_pos rfl, if_neg Bool.false_ne_true]
        refine ⟨?_, [], _, _, rfl, rfl, inRun⟩
        rw [inRun]
        exact (List.filter_cons_of_neg (by simp)).symm
      · rw [if_neg apart, if_neg apart, if_neg apart, left, right]
        refine ⟨?_, char :: first, runs, pieces, rfl, rfl, same⟩
        change List.filter _ ((char :: first) :: runs) = List.filter _ ((char :: first) :: pieces)
        rw [List.filter_cons_of_pos (by simp), List.filter_cons_of_pos (by simp), same]

theorem splitOnP_congr {test other : Char → Bool} {text : Chars}
    (same : ∀ char ∈ text, test char = other char) : text.splitOnP test = text.splitOnP other := by
  induction text with
  | nil => rfl
  | cons char rest ih =>
      rw [List.splitOnP_cons_eq_if_modifyHead, List.splitOnP_cons_eq_if_modifyHead,
        same char List.mem_cons_self, ih (fun other member => same other (List.mem_cons_of_mem _ member))]

theorem keptTokens_nonempty (pieces : List Chars) :
    keptTokens (pieces.filter (· ≠ [])) = keptTokens pieces := by
  unfold keptTokens
  rw [List.filter_filter]
  apply List.filter_congr
  intro piece _
  cases piece with
  | nil => rfl
  | cons char rest => simp

variable {loweredTask : Chars}

/-- In lower case, no capital letter tells the tokens apart. -/
theorem tokenize_same (small : ∀ char ∈ loweredTask, ¬ ('A' ≤ char ∧ char ≤ 'Z')) :
    SkillMatcher.tokenize loweredTask = tokenize loweredTask := by
  have tokens : loweredTask.splitOnP (fun char => !SkillMatcher.isTokenChar char) =
      loweredTask.splitOnP (fun char => !isTokenChar char) := by
    apply splitOnP_congr
    intro char member
    have capital : (decide ('A' ≤ char) && decide (char ≤ 'Z')) = false := by
      rw [← Bool.decide_and]
      exact decide_eq_false (small char member)
    unfold SkillMatcher.isTokenChar isTokenChar isAsciiAlphanumeric
    rw [capital, Bool.or_false]
  have pieces : (splitRuns (fun char => !isTokenChar char) false loweredTask).filter (· ≠ []) =
      (loweredTask.splitOnP (fun char => !isTokenChar char)).filter (· ≠ []) := by
    obtain ⟨_, first, runs, pieces, left, right, same⟩ :=
      splitRuns_pieces (fun char => !isTokenChar char) loweredTask
    rw [left, right, List.filter_cons, List.filter_cons, same]
  unfold SkillMatcher.tokenize tokenize
  rw [tokens, pieces, keptTokens_nonempty]

/-! ### Codewords -/

/-- A search that skips what it has matched misses nothing, if no match starts in
the skipped part. -/
theorem findCodeword_same {codeword : Chars} {first : Char} {tail : Chars}
    (split : codeword = first :: tail) (once : first ∉ tail) (text : Chars) :
    ∀ (previous : Option Char) (skip : Nat),
      (∀ place < skip, codeword.isPrefixOf (text.drop place) = false) →
        SkillMatcher.findCodeword codeword previous skip text = testCodeword codeword previous text := by
  induction text with
  | nil =>
      intro previous skip _
      cases skip <;> rfl
  | cons char rest ih =>
      intro previous skip clear
      unfold testCodeword
      cases skip with
      | succ skip =>
          have none := clear 0 (Nat.succ_pos _)
          rw [List.drop_zero] at none
          rw [none, Bool.false_and, Bool.false_and, Bool.false_or]
          exact ih (some char) skip (fun place below => clear (place + 1) (Nat.succ_lt_succ below))
      | zero =>
          unfold SkillMatcher.findCodeword
          dsimp only
          by_cases found : codeword.isPrefixOf (char :: rest) = true
          · rw [if_pos found, found, Bool.true_and]
            congr 1
            apply ih
            intro place below
            rw [Bool.eq_false_iff, Ne, List.isPrefixOf_iff_prefix, split]
            rw [List.isPrefixOf_iff_prefix, split, List.cons_prefix_cons] at found
            rw [split, List.length_cons, Nat.add_sub_cancel] at below
            obtain ⟨_, more, rfl⟩ := found
            rintro ⟨behind, again⟩
            rw [List.drop_append_of_le_length (Nat.le_of_lt below), List.cons_append,
              List.drop_eq_getElem_cons below, List.cons_append] at again
            exact once ((List.cons.inj again).1 ▸ List.getElem_mem below)
          · rw [if_neg found, Bool.eq_false_iff.mpr found, Bool.false_and, Bool.false_and,
              Bool.false_or]
            exact ih (some char) 0 (fun place below => absurd below (Nat.not_lt_zero _))

theorem codewords_once : ∀ codeword ∈ codewords,
    ∃ first tail, codeword = first :: tail ∧ first ∉ tail := by
  unfold codewords
  simp only [List.map_cons, List.map_nil, List.forall_mem_cons]
  refine ⟨⟨'c', "oldstart".toList, by decide, by decide⟩,
    ⟨'h', "otstart".toList, by decide, by decide⟩,
    ⟨'f', "irestart".toList, by decide, by decide⟩, ⟨'c', "hs".toList, by decide, by decide⟩, ?_⟩
  intro codeword none
  cases none

theorem codewordHit_same (loweredTask : Chars) :
    SkillMatcher.codewordHit loweredTask = codewordHit loweredTask := by
  have each : ∀ codeword ∈ codewords, SkillMatcher.findCodeword codeword none 0 loweredTask =
      testCodeword codeword none loweredTask := by
    intro codeword member
    obtain ⟨first, tail, split, once⟩ := codewords_once codeword member
    exact findCodeword_same split once loweredTask none 0
      (fun place below => absurd below (Nat.not_lt_zero _))
  unfold SkillMatcher.codewordHit codewordHit
  generalize codewords = words at each
  induction words with
  | nil => rfl
  | cons word words ih =>
      rw [List.find?_cons, List.find?_cons, each word List.mem_cons_self,
        ih (fun other member => each other (List.mem_cons_of_mem _ member))]

/-! ### Where the texts are read alike -/

/-- Both parsers read the same skill from every text, and its words have no mark at
an end that is white space to one matcher alone. -/
structure ReadsAlike (lower : Lowercase) (texts : List Chars) : Prop where
  parsed : ∀ text ∈ texts, SkillMatcher.parseSkillFile lower text = parseSkill lower text
  trimmed : ∀ text ∈ texts, ∀ skill, parseSkill lower text = some skill →
    ∀ word ∈ skill.triggers ++ skill.tags, trimBoth isWhitespace word = trimBoth jsWhitespace word

variable {texts : List Chars} {lower : Lowercase}

theorem skills_same (alike : ReadsAlike lower texts) :
    (SkillMatcher.skillMatcher lower).skills texts = (skillMatcher lower).skills texts := by
  unfold Matcher.skills loadSkills
  have parsed : texts.filterMap (SkillMatcher.parseSkillFile lower) = texts.filterMap (parseSkill lower) :=
    List.filterMap_congr alike.parsed
  change (texts.filterMap (SkillMatcher.parseSkillFile lower)).foldl _ _ = _
  rw [parsed]
  rfl

theorem triggerMatches_same {tokens : List Chars} {word : Chars}
    (trimmed : trimBoth isWhitespace word = trimBoth jsWhitespace word) :
    triggerMatches isWhitespace loweredTask tokens word =
      triggerMatches jsWhitespace loweredTask tokens word := by
  unfold triggerMatches
  rw [trimmed]

theorem scoreSkill_same {tokens : List Chars} {skill : ParsedSkill}
    (trimmed : ∀ word ∈ skill.triggers ++ skill.tags,
      trimBoth isWhitespace word = trimBoth jsWhitespace word) :
    scoreSkill isWhitespace loweredTask tokens skill =
      scoreSkill jsWhitespace loweredTask tokens skill := by
  unfold scoreSkill
  have triggers : skill.triggers.filter (triggerMatches isWhitespace loweredTask tokens) =
      skill.triggers.filter (triggerMatches jsWhitespace loweredTask tokens) := by
    apply List.filter_congr
    intro word member
    rw [triggerMatches_same (trimmed word (List.mem_append_left _ member))]
  have tags : skill.tags.filter (fun tag => !skill.triggers.contains tag &&
        triggerMatches isWhitespace loweredTask tokens tag) =
      skill.tags.filter (fun tag => !skill.triggers.contains tag &&
        triggerMatches jsWhitespace loweredTask tokens tag) := by
    apply List.filter_congr
    intro word member
    rw [triggerMatches_same (trimmed word (List.mem_append_right _ member))]
  rw [triggers, tags]

theorem ranking_same (alike : ReadsAlike lower texts) (task : Chars) :
    (SkillMatcher.skillMatcher lower).ranking texts (lower.map task) =
      (skillMatcher lower).ranking texts (lower.map task) := by
  have scores : ((skillMatcher lower).skills texts).map
        (scoreSkill isWhitespace (lower.map task) (SkillMatcher.tokenize (lower.map task))) =
      ((skillMatcher lower).skills texts).map
        (scoreSkill jsWhitespace (lower.map task) (tokenize (lower.map task))) := by
    rw [tokenize_same (lower.small task)]
    apply List.map_congr_left
    intro skill loaded
    obtain ⟨text, given, parsed⟩ := mem_loadSkills loaded
    exact scoreSkill_same (alike.trimmed text given skill parsed)
  unfold Matcher.ranking rankSkills
  rw [skills_same alike]
  change addCodeword (SkillMatcher.codewordHit (lower.map task)) _ (List.map suggestionOf
    ((List.filter _ (List.map (scoreSkill isWhitespace (lower.map task)
      (SkillMatcher.tokenize (lower.map task))) _)).insertionSort higherFirst)) = _
  rw [scores, codewordHit_same]
  rfl

/-- Both give the same suggestions, with the skill of the codewords among them. -/
structure MatchersAgree (lower : Lowercase) (texts : List Chars) (task : Chars) (limit : Nat) :
    Prop where
  same : (SkillMatcher.skillMatcher lower).suggest texts task limit =
    (skillMatcher lower).suggest texts task limit
  cli : CodewordListed (SkillMatcher.skillMatcher lower) texts task limit
  mcp : CodewordListed (skillMatcher lower) texts task limit

theorem codewordListed_same (alike : ReadsAlike lower texts) (task : Chars) (limit : Nat) :
    CodewordListed (SkillMatcher.skillMatcher lower) texts task limit ↔
      CodewordListed (skillMatcher lower) texts task limit := by
  have suggestions : (SkillMatcher.skillMatcher lower).suggest texts task limit =
      (skillMatcher lower).suggest texts task limit :=
    congrArg (List.take limit) (ranking_same alike task)
  unfold CodewordListed
  rw [suggestions, skills_same alike]
  change ((SkillMatcher.codewordHit (lower.map task)).isSome → _) ↔ _
  rw [codewordHit_same]
  rfl

def lowerLetter (char : Char) : Char :=
  if 'A' ≤ char ∧ char ≤ 'Z' then Char.ofNat (char.toNat + 32) else char

theorem lowerLetter_small (char : Char) : ¬ ('A' ≤ lowerLetter char ∧ lowerLetter char ≤ 'Z') := by
  unfold lowerLetter
  split
  · next capital =>
      intro both
      have from_ : 65 ≤ char.toNat := capital.1
      have upTo : char.toNat ≤ 90 := capital.2
      have code : (Char.ofNat (char.toNat + 32)).toNat = char.toNat + 32 := by
        have valid : (char.toNat + 32).isValidChar := Or.inl (by omega)
        unfold Char.ofNat
        rw [dif_pos valid]
        rfl
      have last : (Char.ofNat (char.toNat + 32)).toNat ≤ 90 := both.2
      omega
  · next other => exact other

/-- The mapping on texts in which only letters of ASCII have a case. -/
def asciiLowercase : Lowercase :=
  { map := fun text => text.map lowerLetter
    small := by
      intro text char member
      obtain ⟨source, _, rfl⟩ := List.mem_map.mp member
      exact lowerLetter_small source }

/-- Its list is not indented. -/
def flushList : Chars :=
  "---\nname: a\ntriggers:\n- test\n---\n".toList

def codewordText : Chars :=
  "---\nname: mneme-codewords\n---\n".toList

def workflowText : Chars :=
  "---\nname: b\ntriggers: [sprint]\n---\n".toList

end Mneme.Mcp.SuggestSkill
