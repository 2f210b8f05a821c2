/-
The pages of a wiki, one for each community, and their slugs.

A slug is made of the words of a title: its runs of ASCII letters and digits, in lower case,
with a dash between two of them; a title without words is called `community`.  So the slugs
of two communities differ just where the words of their titles do.
-/

import Mathlib.Data.List.Chain
import Mathlib.Data.List.DropRight
import Mathlib.Data.String.Basic
import Mneme.Brain.Leiden
import Mneme.Common.Text

namespace Mneme.Brain.Wiki

open Common

/-! ### Slugs -/

def isAsciiAlphanumeric (char : Char) : Bool :=
  ('0' ≤ char && char ≤ '9') || ('A' ≤ char && char ≤ 'Z') || ('a' ≤ char && char ≤ 'z')

def toAsciiLowercase (char : Char) : Char :=
  if 'A' ≤ char ∧ char ≤ 'Z' then Char.ofNat (char.toNat + 32) else char

/-- The text so far, and whether a dash was the last that was put to it. -/
def slugStep (state : List Char × Bool) (char : Char) : List Char × Bool :=
  if isAsciiAlphanumeric char then (state.1 ++ [toAsciiLowercase char], false)
  else if !state.2 && !state.1.isEmpty then (state.1 ++ ['-'], true)
  else state

def slugify (title : List Char) : List Char :=
  let out := (title.foldl slugStep ([], false)).1.rdropWhile (· = '-')
  if out.isEmpty then "community".toList else out

/-! ### Pages -/

structure WikiSymbol where
  nodeId : Nat
  qualifiedName : String
  kind : String
  summary : String
  file : Option String

structure CommunityInput where
  community : Community
  entryPoints : List WikiSymbol
  files : List String
  riskScore : Rat
  label : Option String

structure WikiPage where
  slug : List Char
  title : String
  communityId : Nat
  summary : String
  entryPoints : List WikiSymbol
  filePaths : List String
  riskScore : Rat
  markdown : String

/-- The longest beginning of a text within a number of bytes. -/
def cutBytes (limit : Nat) : List Char → List Char
  | [] => []
  | char :: rest =>
      if char.utf8Size ≤ limit then char :: cutBytes (limit - char.utf8Size) rest else []

def oneLine (text : String) : String :=
  let trimmed := trim (String.ofList (text.toList.map (fun char => if char = '\n' then ' ' else char)))
  if trimmed = "" then "(no summary)"
  else if 200 < trimmed.utf8ByteSize then String.ofList (cutBytes 200 trimmed.toList) ++ "..."
  else trimmed

def derivePurpose (entryPoints : List WikiSymbol) (fallbackTitle : String) : String :=
  match entryPoints with
  | [] =>
      "Cluster of related symbols grouped by the Leiden community-detection pass. " ++
        "No clear entry points were identified; see `" ++ fallbackTitle ++
        "` below for the full file list."
  | head :: _ => "Centered on `" ++ head.qualifiedName ++ "`: " ++ oneLine head.summary

section Build

-- `{:.2}`
variable (fixed : Rat → String)

def renderRisk (score cohesion : Rat) : String :=
  -- The second bound is the f32 nearest to 0.4.
  let band := if 3 / 4 ≤ score then "HIGH" else if 13421773 / 33554432 ≤ score then "MEDIUM" else "LOW"
  "**" ++ band ++ "** (risk_score = " ++ fixed score ++ ", cohesion = " ++ fixed cohesion ++ "). " ++
    "Risk reflects caller count, criticality, and security flags touching this community; " ++
    "cohesion is the fraction of weighted incident edges staying inside the community."

def firstOccurrences (files : List String) : List String :=
  files.foldl (fun kept file => if file ∈ kept then kept else kept ++ [file]) []

def CommunityInput.title (input : CommunityInput) : String :=
  input.label.getD ("Community " ++ toString input.community.id)

def buildPage (input : CommunityInput) : WikiPage :=
  let files := (firstOccurrences input.files).insertionSort (· ≤ ·)
  let summary := derivePurpose input.entryPoints input.title
  let symbols :=
    if input.entryPoints.isEmpty then
      "_No god-node entry points identified for this community._\n"
    else String.join (input.entryPoints.map (fun symbol =>
      "- `" ++ symbol.qualifiedName ++ "` — " ++ oneLine symbol.summary ++ "\n"))
  let paths :=
    if files.isEmpty then "_No files recorded for this community._\n"
    else String.join (files.map (fun file => "- `" ++ file ++ "`\n"))
  { slug := slugify input.title.toList
    title := input.title
    communityId := input.community.id
    summary
    entryPoints := input.entryPoints
    filePaths := files
    riskScore := input.riskScore
    markdown := "# " ++ input.title ++ "\n\n## Purpose\n" ++ summary ++ "\n\n## Key Symbols\n" ++
      symbols ++ "\n## Risk\n" ++ renderRisk fixed input.riskScore input.community.cohesion ++
      "\n\n## Files\n" ++ paths }

/-- `BTreeMap::insert` -/
def insertById (page : WikiPage) : List WikiPage → List WikiPage
  | [] => [page]
  | first :: rest =>
      if page.communityId < first.communityId then page :: first :: rest
      else if page.communityId = first.communityId then page :: rest
      else first :: insertById page rest

def buildAll (inputs : List CommunityInput) : List WikiPage :=
  inputs.foldl (fun byId input => insertById (buildPage fixed input) byId) []

end Build

/-! ### Words -/

/-- The runs of letters and digits, in lower case, when a run has begun with these. -/
def wordsFrom (current : List Char) : List Char → List (List Char)
  | [] => if current.isEmpty then [] else [current]
  | char :: rest =>
      if isAsciiAlphanumeric char then wordsFrom (current ++ [toAsciiLowercase char]) rest
      else if current.isEmpty then wordsFrom [] rest
      else current :: wordsFrom [] rest

/-- The words of a title; one without words is called `community`. -/
def slugWords (title : List Char) : List (List Char) :=
  if (wordsFrom [] title).isEmpty then ["community".toList] else wordsFrom [] title

def isSlugLetter (char : Char) : Bool :=
  ('a' ≤ char && char ≤ 'z') || ('0' ≤ char && char ≤ '9')

def IsWord (word : List Char) : Prop :=
  word ≠ [] ∧ ∀ char ∈ word, isSlugLetter char = true

variable {char : Char}

theorem toAsciiLowercase_letter (letter : isAsciiAlphanumeric char = true) :
    isSlugLetter (toAsciiLowercase char) = true := by
  have bound : char.toNat < 128 := by
    unfold isAsciiAlphanumeric at letter
    simp only [Bool.or_eq_true, Bool.and_eq_true, decide_eq_true_eq, Char.le_def,
      UInt32.le_iff_toNat_le] at letter
    change char.val.toNat < 128
    have nine : '9'.val.toNat = 57 := rfl
    have bigZ : 'Z'.val.toNat = 90 := rfl
    have smallZ : 'z'.val.toNat = 122 := rfl
    omega
  have every : ∀ number < 128, isAsciiAlphanumeric (Char.ofNat number) = true →
      isSlugLetter (toAsciiLowercase (Char.ofNat number)) = true := by decide
  have here := every char.toNat bound
  rw [Char.ofNat_toNat] at here
  exact here letter

theorem wordsFrom_isWord {current : List Char} (letters : ∀ char ∈ current, isSlugLetter char = true)
    (title : List Char) : ∀ word ∈ wordsFrom current title, IsWord word := by
  induction title generalizing current with
  | nil =>
      intro word member
      rw [wordsFrom] at member
      split at member
      · cases member
      · rename_i some_
        rw [List.mem_singleton.mp member]
        exact ⟨fun none => some_ (List.isEmpty_iff.mpr none), letters⟩
  | cons char rest ih =>
      intro word member
      rw [wordsFrom] at member
      split at member
      · rename_i letter
        refine ih ?_ word member
        intro other inside
        rcases List.mem_append.mp inside with before | here
        · exact letters other before
        · rw [List.mem_singleton.mp here]
          exact toAsciiLowercase_letter letter
      · split at member
        · exact ih (List.forall_mem_nil _) word member
        · rename_i some_
          rcases List.mem_cons.mp member with same | later
          · rw [same]
            exact ⟨fun none => some_ (List.isEmpty_iff.mpr none), letters⟩
          · exact ih (List.forall_mem_nil _) word later

variable (title : List Char)

theorem slugWords_isWord : ∀ word ∈ slugWords title, IsWord word := by
  intro word member
  unfold slugWords at member
  split at member
  · rw [List.mem_singleton.mp member]
    refine ⟨by decide, ?_⟩
    rw [← List.all_eq_true]
    decide
  · exact wordsFrom_isWord (List.forall_mem_nil _) title word member

theorem slugWords_ne_nil : slugWords title ≠ [] := by
  unfold slugWords
  split
  · exact List.cons_ne_nil _ _
  · rename_i some_
    exact fun none => some_ (List.isEmpty_iff.mpr none)

/-! ### The words in the slug -/

def joinDash (words : List (List Char)) : List Char :=
  ['-'].intercalate words

variable {words : List (List Char)}

theorem joinDash_snoc (some_ : words ≠ []) (word : List Char) :
    joinDash (words ++ [word]) = joinDash words ++ '-' :: word := by
  unfold joinDash
  induction words with
  | nil => exact absurd rfl some_
  | cons first rest ih =>
      cases rest with
      | nil =>
          rw [List.singleton_append, List.intercalate_cons_cons, List.intercalate_singleton,
            List.intercalate_singleton, List.append_assoc]
          rfl
      | cons second rest =>
          have later := ih (List.cons_ne_nil second rest)
          rw [List.cons_append, List.intercalate_cons_of_ne_nil (by simp), later,
            List.intercalate_cons_of_ne_nil (List.cons_ne_nil second rest)]
          simp only [List.append_assoc]

theorem joinDash_single (word : List Char) : joinDash ([] ++ [word]) = word :=
  List.intercalate_singleton

/-- What the loop has when these words are done and these letters of the next one are read. -/
def stateOf (done : List (List Char)) (current : List Char) : List Char × Bool :=
  if current.isEmpty then
    if done.isEmpty then ([], false) else (joinDash done ++ ['-'], true)
  else (joinDash (done ++ [current]), false)

variable (done : List (List Char))

variable (current : List Char)

theorem joinDash_letter (char : Char) :
    joinDash (done ++ [current ++ [char]]) = joinDash (done ++ [current]) ++ [char] := by
  cases done with
  | nil => rw [joinDash_single, joinDash_single]
  | cons first rest =>
      rw [joinDash_snoc (List.cons_ne_nil first rest), joinDash_snoc (List.cons_ne_nil first rest),
        List.append_assoc, List.cons_append]

theorem slugStep_letter (letter : isAsciiAlphanumeric char = true) :
    slugStep (stateOf done current) char = stateOf done (current ++ [toAsciiLowercase char]) := by
  have more : (current ++ [toAsciiLowercase char]).isEmpty = false := by simp
  unfold slugStep
  rw [if_pos letter]
  unfold stateOf
  rw [more]
  by_cases none : current = []
  · rw [none]
    cases done with
    | nil => rfl
    | cons first rest =>
        have snoc := joinDash_snoc (List.cons_ne_nil first rest) [toAsciiLowercase char]
        simp only [List.isEmpty_nil, List.isEmpty_cons, if_true, Bool.false_eq_true, if_false,
          List.nil_append]
        rw [snoc, List.append_assoc]
        rfl
  · have some_ : current.isEmpty = false := by simpa using none
    rw [some_]
    simp only [Bool.false_eq_true, if_false]
    rw [joinDash_letter]

theorem slugStep_other (other : isAsciiAlphanumeric char = false) :
    slugStep (stateOf done current) char =
      if current.isEmpty then stateOf done [] else stateOf (done ++ [current]) [] := by
  unfold slugStep
  rw [other]
  by_cases none : current = []
  · rw [none]
    cases done with
    | nil => rfl
    | cons first rest => rfl
  · have some_ : current.isEmpty = false := by simpa using none
    have full : (joinDash (done ++ [current])).isEmpty = false := by
      cases done with
      | nil =>
          rw [joinDash_single]
          exact some_
      | cons first rest =>
          rw [joinDash_snoc (List.cons_ne_nil first rest)]
          simp
    have more : (done ++ [current]).isEmpty = false := by simp
    unfold stateOf
    rw [some_, more]
    simp only [Bool.false_eq_true, if_false, full, Bool.not_false, Bool.and_self, if_true,
      List.isEmpty_nil]

theorem slugLetter_not_dash (letter : isSlugLetter char = true) : char ≠ '-' := by
  rintro rfl
  exact absurd letter (by decide)

theorem rdropWhile_joinDash (isWord : ∀ word ∈ words, IsWord word) :
    (joinDash words).rdropWhile (· = '-') = joinDash words := by
  induction words using List.reverseRecOn with
  | nil => rfl
  | append_singleton words word =>
      obtain ⟨some_, letters⟩ := isWord word (List.mem_append_right _ (List.mem_singleton_self _))
      have last := letters _ (List.getLast_mem some_)
      rw [← List.dropLast_concat_getLast some_]
      have here : ¬ (decide (word.getLast some_ = '-') = true) := by
        rw [decide_eq_true_eq]
        exact slugLetter_not_dash last
      rw [joinDash_letter, List.rdropWhile_concat, if_neg here]

theorem fold_words {done : List (List Char)} {current : List Char}
    (isWord : ∀ word ∈ done, IsWord word) (letters : ∀ char ∈ current, isSlugLetter char = true) :
    (title.foldl slugStep (stateOf done current)).1.rdropWhile (· = '-') =
      joinDash (done ++ wordsFrom current title) := by
  induction title generalizing done current with
  | nil =>
      rw [List.foldl_nil, wordsFrom]
      unfold stateOf
      by_cases none : current = []
      · rw [none]
        cases done with
        | nil => rfl
        | cons first rest =>
            simp only [List.isEmpty_nil, List.isEmpty_cons, if_true, Bool.false_eq_true, if_false,
              List.append_nil]
            rw [List.rdropWhile_concat_pos _ _ _ (by decide)]
            exact rdropWhile_joinDash isWord
      · have some_ : current.isEmpty = false := by simpa using none
        rw [some_]
        simp only [Bool.false_eq_true, if_false]
        apply rdropWhile_joinDash
        intro word member
        rcases List.mem_append.mp member with before | here
        · exact isWord word before
        · rw [List.mem_singleton.mp here]
          exact ⟨none, letters⟩
  | cons char rest ih =>
      rw [List.foldl_cons, wordsFrom]
      cases letter : isAsciiAlphanumeric char with
      | true =>
          rw [slugStep_letter done current letter, if_pos rfl]
          apply ih isWord
          intro other member
          rcases List.mem_append.mp member with before | here
          · exact letters other before
          · rw [List.mem_singleton.mp here]
            exact toAsciiLowercase_letter letter
      | false =>
          rw [slugStep_other done current letter, if_neg Bool.false_ne_true]
          have none : ∀ char ∈ ([] : List Char), isSlugLetter char = true := List.forall_mem_nil _
          by_cases empty : current.isEmpty = true
          · rw [if_pos empty, if_pos empty]
            exact ih isWord none
          · have split : done ++ current :: wordsFrom [] rest =
                (done ++ [current]) ++ wordsFrom [] rest := List.append_cons done current _
            rw [if_neg empty, if_neg empty, split]
            apply ih _ none
            intro word member
            rcases List.mem_append.mp member with before | here
            · exact isWord word before
            · rw [List.mem_singleton.mp here]
              exact ⟨fun nothing => empty (by rw [nothing]; rfl), letters⟩

theorem joinDash_ne_nil {word : List Char} (some_ : word ≠ []) (rest : List (List Char)) :
    joinDash (word :: rest) ≠ [] := by
  cases rest with
  | nil =>
      rw [← List.nil_append [word], joinDash_single]
      exact some_
  | cons second rest =>
      unfold joinDash
      rw [List.intercalate_cons_cons]
      simp

/-- A slug is the words of the title with a dash between two of them. -/
theorem slugify_eq : slugify title = joinDash (slugWords title) := by
  have words : (title.foldl slugStep ([], false)).1.rdropWhile (· = '-') =
      joinDash (wordsFrom [] title) :=
    @fold_words title [] [] (List.forall_mem_nil _) (List.forall_mem_nil _)
  unfold slugify slugWords
  dsimp only
  rw [words]
  cases found : wordsFrom [] title with
  | nil =>
      rw [List.isEmpty_nil, if_pos rfl]
      exact (joinDash_single _).symm
  | cons word rest =>
      have isWord := wordsFrom_isWord (List.forall_mem_nil _) title word
        (by rw [found]; exact List.mem_cons_self)
      have full : (joinDash (word :: rest)).isEmpty = false := by
        rw [List.isEmpty_eq_false_iff]
        exact joinDash_ne_nil isWord.1 rest
      rw [full, if_neg Bool.false_ne_true, List.isEmpty_cons, if_neg Bool.false_ne_true]

/-- Words with a dash between two of them are known by their words. -/
theorem joinDash_inj {left right : List (List Char)} (isWord : ∀ word ∈ left, IsWord word)
    (isWord' : ∀ word ∈ right, IsWord word) (some_ : left ≠ []) (some' : right ≠ [])
    (same : joinDash left = joinDash right) : left = right := by
  have split : ∀ words : List (List Char), (∀ word ∈ words, IsWord word) → words ≠ [] →
      (joinDash words).splitOn '-' = words := by
    intro words isWord some_
    apply List.splitOn_intercalate '-' _ some_
    intro word member dash
    exact slugLetter_not_dash ((isWord word member).2 '-' dash) rfl
  rw [← split left isWord some_, ← split right isWord' some', same]

theorem slugify_eq_iff (left right : List Char) :
    slugify left = slugify right ↔ slugWords left = slugWords right := by
  rw [slugify_eq, slugify_eq]
  constructor
  · intro same
    exact joinDash_inj (slugWords_isWord left) (slugWords_isWord right) (slugWords_ne_nil left)
      (slugWords_ne_nil right) same
  · intro same
    rw [same]

/-- Lower-case letters, digits and single dashes. -/
structure WellFormed (slug : List Char) : Prop where
  some_ : slug ≠ []
  letters : ∀ char ∈ slug, isSlugLetter char = true ∨ char = '-'
  single : slug.IsChain (fun left right => left = '-' → right ≠ '-')

theorem isChain_word {word : List Char} (letters : ∀ char ∈ word, isSlugLetter char = true) :
    word.IsChain (fun left right => left = '-' → right ≠ '-') := by
  induction word with
  | nil => exact List.IsChain.nil
  | cons char rest ih =>
      rw [List.isChain_cons]
      refine ⟨?_, ih (fun other member => letters other (List.mem_cons_of_mem _ member))⟩
      intro _ _ dash
      exact absurd dash (slugLetter_not_dash (letters char List.mem_cons_self))

theorem joinDash_wellFormed (isWord : ∀ word ∈ words, IsWord word)
    (some_ : words ≠ []) : WellFormed (joinDash words) := by
  induction words using List.reverseRecOn with
  | nil => exact absurd rfl some_
  | append_singleton words word ih =>
      obtain ⟨more, letters⟩ := isWord word (List.mem_append_right _ (List.mem_singleton_self _))
      have before : ∀ other ∈ words, IsWord other :=
        fun other member => isWord other (List.mem_append_left _ member)
      by_cases none : words = []
      · rw [none, joinDash_single]
        exact ⟨more, fun char member => Or.inl (letters char member), isChain_word letters⟩
      · obtain ⟨_, letters', chain⟩ := ih before none
        rw [joinDash_snoc none]
        refine ⟨by simp, ?_, ?_⟩
        · intro char member
          rcases List.mem_append.mp member with front | back
          · exact letters' char front
          · rcases List.mem_cons.mp back with dash | inside
            · exact Or.inr dash
            · exact Or.inl (letters char inside)
        · rw [List.isChain_append, List.isChain_cons]
          refine ⟨chain, ⟨?_, isChain_word letters⟩, ?_⟩
          · intro first here _
            exact slugLetter_not_dash (letters first (List.mem_of_mem_head? here))
          · intro last here _ _ dash
            -- The words so far do not end with a dash.
            have solid := List.rdropWhile_eq_self_iff.mp (rdropWhile_joinDash before)
            have some' : joinDash words ≠ [] := by
              rintro nothing
              rw [nothing] at here
              cases here
            have same : (joinDash words).getLast some' = last := by
              rw [List.getLast?_eq_some_getLast some'] at here
              exact Option.mem_some_iff.mp here
            have dashed := solid some'
            rw [same, dash] at dashed
            exact absurd (decide_eq_true rfl) dashed

theorem slugify_wellFormed : WellFormed (slugify title) := by
  rw [slugify_eq]
  exact joinDash_wellFormed (slugWords_isWord title) (slugWords_ne_nil title)

/-! ### One page for each community -/

section Pages

variable {fixed : Rat → String}

def ById (pages : List WikiPage) : Prop :=
  pages.Pairwise (fun left right => left.communityId < right.communityId)

variable {pages : List WikiPage}

theorem mem_insertById {page other : WikiPage} (byId : ById pages) :
    other ∈ insertById page pages ↔
      other = page ∨ other ∈ pages ∧ other.communityId ≠ page.communityId := by
  induction pages with
  | nil => simp [insertById]
  | cons first rest ih =>
      obtain ⟨above, later⟩ := List.pairwise_cons.mp byId
      rw [insertById]
      split
      · rename_i before
        rw [List.mem_cons]
        apply or_congr_right
        rw [iff_self_and]
        intro member
        rcases List.mem_cons.mp member with same | inside
        · rw [same]
          exact Nat.ne_of_gt before
        · exact Nat.ne_of_gt (Nat.lt_trans before (above other inside))
      · split
        · rename_i _ same
          rw [List.mem_cons, List.mem_cons]
          apply or_congr_right
          constructor
          · intro inside
            rw [same]
            exact ⟨Or.inr inside, Nat.ne_of_gt (above other inside)⟩
          · rintro ⟨here | inside, apart⟩
            · rw [here, same] at apart
              exact absurd rfl apart
            · exact inside
        · rename_i notBefore different
          rw [List.mem_cons, List.mem_cons, ih later]
          constructor
          · rintro (here | here | ⟨inside, apart⟩)
            · rw [here]
              exact Or.inr ⟨Or.inl rfl, Ne.symm different⟩
            · exact Or.inl here
            · exact Or.inr ⟨Or.inr inside, apart⟩
          · rintro (here | ⟨here | inside, apart⟩)
            · exact Or.inr (Or.inl here)
            · exact Or.inl here
            · exact Or.inr (Or.inr ⟨inside, apart⟩)

theorem insertById_byId {page : WikiPage} (byId : ById pages) : ById (insertById page pages) := by
  induction pages with
  | nil => exact List.pairwise_singleton _ _
  | cons first rest ih =>
      obtain ⟨above, later⟩ := List.pairwise_cons.mp byId
      rw [insertById]
      split
      · rename_i before
        refine List.pairwise_cons.mpr ⟨?_, byId⟩
        intro other member
        rcases List.mem_cons.mp member with same | inside
        · rw [same]
          exact before
        · exact Nat.lt_trans before (above other inside)
      · split
        · rename_i _ same
          refine List.pairwise_cons.mpr ⟨?_, later⟩
          rw [same]
          exact above
        · rename_i notBefore different
          refine List.pairwise_cons.mpr ⟨?_, ih later⟩
          intro other member
          rcases (mem_insertById later).mp member with same | ⟨inside, _⟩
          · rw [same]
            omega
          · exact above other inside

theorem buildAll_snoc (inputs : List CommunityInput) (input : CommunityInput) :
    buildAll fixed (inputs ++ [input]) = insertById (buildPage fixed input) (buildAll fixed inputs) :=
  List.foldl_concat _ _ _ _

theorem buildAll_byId (inputs : List CommunityInput) : ById (buildAll fixed inputs) := by
  induction inputs using List.reverseRecOn with
  | nil => exact List.Pairwise.nil
  | append_singleton inputs input ih =>
      rw [buildAll_snoc]
      exact insertById_byId ih

/-- No later input is of the same community. -/
def LastOf (inputs : List CommunityInput) (input : CommunityInput) : Prop :=
  ∃ before after, inputs = before ++ input :: after ∧
    ∀ other ∈ after, other.community.id ≠ input.community.id

variable {inputs : List CommunityInput}

theorem lastOf_snoc {last input : CommunityInput} :
    LastOf (inputs ++ [last]) input ↔
      input = last ∨ LastOf inputs input ∧ input.community.id ≠ last.community.id := by
  constructor
  · rintro ⟨before, after, split, apart⟩
    rcases List.eq_nil_or_concat after with none | ⟨front, final, concat⟩
    · rw [none] at split
      exact Or.inl (List.concat_inj.mp (by simpa using split)).2.symm
    · rw [List.concat_eq_append] at concat
      rw [concat, ← List.cons_append, ← List.append_assoc] at split
      obtain ⟨same, here⟩ := List.append_inj' split rfl
      injection here with here _
      refine Or.inr ⟨⟨before, front, same, ?_⟩, ?_⟩
      · intro other member
        exact apart other (by rw [concat]; exact List.mem_append_left _ member)
      · rw [here]
        exact (apart final (by rw [concat]; simp)).symm
  · rintro (rfl | ⟨⟨before, after, rfl, apart⟩, different⟩)
    · exact ⟨inputs, [], rfl, List.forall_mem_nil _⟩
    · refine ⟨before, after ++ [last], by simp, ?_⟩
      intro other member
      rcases List.mem_append.mp member with front | here
      · exact apart other front
      · rw [List.mem_singleton.mp here]
        exact Ne.symm different

/-- The pages are those of the last inputs of their communities. -/
theorem mem_buildAll {page : WikiPage} :
    page ∈ buildAll fixed inputs ↔ ∃ input, LastOf inputs input ∧ page = buildPage fixed input := by
  induction inputs using List.reverseRecOn with
  | nil =>
      constructor
      · intro impossible
        cases impossible
      · rintro ⟨input, ⟨before, after, impossible, _⟩, _⟩
        cases before <;> cases impossible
  | append_singleton inputs last ih =>
      rw [buildAll_snoc, mem_insertById (buildAll_byId inputs), ih]
      constructor
      · rintro (rfl | ⟨⟨input, final, rfl⟩, different⟩)
        · exact ⟨last, lastOf_snoc.mpr (Or.inl rfl), rfl⟩
        · exact ⟨input, lastOf_snoc.mpr (Or.inr ⟨final, different⟩), rfl⟩
      · rintro ⟨input, final, rfl⟩
        rcases lastOf_snoc.mp final with rfl | ⟨earlier, different⟩
        · exact Or.inl rfl
        · exact Or.inr ⟨⟨input, earlier, rfl⟩, different⟩

/-- The titles of two communities have different words. -/
def Apart (inputs : List CommunityInput) : Prop :=
  ∀ left right, LastOf inputs left → LastOf inputs right →
    left.community.id ≠ right.community.id →
      slugWords left.title.toList ≠ slugWords right.title.toList

/-- The slugs are all different, and as they should be, exactly if no two communities have
titles of the same words. -/
theorem slugs_apart_iff (inputs : List CommunityInput) :
    (((buildAll fixed inputs).map WikiPage.slug).Nodup ∧
        ∀ page ∈ buildAll fixed inputs, WellFormed page.slug) ↔ Apart inputs := by
  have byId : ById (buildAll fixed inputs) := buildAll_byId inputs
  have unique : ∀ left ∈ buildAll fixed inputs, ∀ right ∈ buildAll fixed inputs,
      left.communityId = right.communityId → left = right := by
    intro left member right member' same
    by_contra different
    have symmetric : Std.Symm (fun left right : WikiPage => left.communityId ≠ right.communityId) :=
      ⟨fun _ _ apart => Ne.symm apart⟩
    exact (byId.imp Nat.ne_of_lt).forall member member' different same
  have distinct : (buildAll fixed inputs).Nodup :=
    byId.imp (fun less same => absurd less (by rw [same]; exact Nat.lt_irrefl _))
  rw [List.nodup_map_iff_inj_on distinct]
  constructor
  · rintro ⟨injective, _⟩ left right final final' different same
    have pages := injective _ (mem_buildAll.mpr ⟨left, final, rfl⟩) _
      (mem_buildAll.mpr ⟨right, final', rfl⟩) ((slugify_eq_iff _ _).mpr same)
    exact different (congrArg WikiPage.communityId pages)
  · intro apart
    refine ⟨?_, ?_⟩
    · intro page member other member' same
      obtain ⟨left, final, rfl⟩ := mem_buildAll.mp member
      obtain ⟨right, final', rfl⟩ := mem_buildAll.mp member'
      by_contra different
      refine apart left right final final' ?_ ((slugify_eq_iff _ _).mp same)
      exact fun ids => different (unique _ member _ member' ids)
    · intro page member
      obtain ⟨input, _, rfl⟩ := mem_buildAll.mp member
      exact slugify_wellFormed _

end Pages

/-- A community of this id and label. -/
def labelled (id : Nat) (label : String) : CommunityInput :=
  { community := { id, members := [], cohesion := 0 }
    entryPoints := []
    files := []
    riskScore := 0
    label := some label }

theorem slugs_collide :
    ¬ (((buildAll (fun _ => "0.00") [labelled 1 "Auth Service", labelled 2 "auth_service"]).map
        WikiPage.slug).Nodup ∧
      ∀ page ∈ buildAll (fun _ => "0.00") [labelled 1 "Auth Service", labelled 2 "auth_service"],
        WellFormed page.slug) := by
  rw [slugs_apart_iff]
  intro apart
  exact apart (labelled 1 "Auth Service") (labelled 2 "auth_service")
    ⟨[], [labelled 2 "auth_service"], rfl, by simp [labelled]⟩
    ⟨[labelled 1 "Auth Service"], [], rfl, by simp⟩ (by decide) (by decide)

end Mneme.Brain.Wiki
