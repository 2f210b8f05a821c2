/-
The identity kernel of the tool beside that of the brain: when stack, name and
summary are the same.
-/

import Mneme.Library.Pieces
import Mneme.Mcp.StackAgreement

namespace Mneme.Mcp.Identity

open Library Common Common.Skills Common.Identity SuggestSkill

/-! ### The name in a manifest of Cargo -/

/-- A name in double quotes after an equals sign: more equals signs, and quotes that
end the line, are read over by both sides. -/
structure PlainName (line name : Chars) : Prop where
  shape : ∃ blank marks space quotes, line =
    "name".toList ++ (blank ++ (marks ++ (space ++ ('"' :: (name ++ '"' :: quotes))))) ∧
    (∀ char ∈ blank, isWhitespace char = true) ∧
    (marks ≠ [] ∧ ∀ char ∈ marks, char = '=') ∧
    (∀ char ∈ space, isWhitespace char = true ∧ jsWhitespace char = true) ∧
    ∀ char ∈ quotes, Brain.Identity.isQuote char = true
  filled : name ≠ []
  bare : ∀ char ∈ name.head?, Brain.Identity.isQuote char = false
  ended : ∀ char ∈ name.getLast?, Brain.Identity.isQuote char = false
  unquoted : '"' ∉ name

theorem quote_not_space {char : Char} (quote : Brain.Identity.isQuote char = true) :
    isWhitespace char = false ∧ jsWhitespace char = false ∧ char ≠ '=' := by
  unfold Brain.Identity.isQuote at quote
  rw [Bool.or_eq_true, decide_eq_true_eq, decide_eq_true_eq] at quote
  cases quote with
  | inl double => subst double; decide
  | inr single => subst single; decide

theorem space_not_equals {char : Char}
    (space : isWhitespace char = true ∨ jsWhitespace char = true) : char ≠ '=' := by
  intro equals
  subst equals
  revert space
  decide

variable {rest line name : Chars}

theorem head_cons {first : Char} {test : Char → Bool} (fails : test first = false) :
    ∀ char ∈ (first :: rest).head?, test char = false := by
  intro char head
  rw [← Option.some.inj head]
  exact fails

theorem PlainName.brain (plain : PlainName line name) :
    Brain.Identity.nameValue line = some name := by
  obtain ⟨blank, marks, space, quotes, shape, blanks, ⟨marked, equals⟩, spaces, ending⟩ :=
    plain.shape
  subst shape
  have starts : "name".toList.isPrefixOf ("name".toList ++
      (blank ++ (marks ++ (space ++ ('"' :: (name ++ '"' :: quotes)))))) = true := by
    simp
  have first : (blank ++ (marks ++ (space ++ ('"' :: (name ++ '"' :: quotes))))).dropWhile
      isWhitespace = marks ++ (space ++ ('"' :: (name ++ '"' :: quotes))) := by
    apply dropWhile_block blanks
    intro char head
    cases marks with
    | nil => exact absurd rfl marked
    | cons mark marks =>
        have same : mark = char := Option.some.inj head
        rw [← same, equals mark List.mem_cons_self]
        decide
  have second : (marks ++ (space ++ ('"' :: (name ++ '"' :: quotes)))).dropWhile (· = '=') =
      space ++ ('"' :: (name ++ '"' :: quotes)) := by
    apply dropWhile_block (fun char inside => decide_eq_true (equals char inside))
    intro char head
    apply decide_eq_false
    cases space with
    | nil =>
        have same : '"' = char := Option.some.inj head
        rw [← same]
        decide
    | cons blank space =>
        have same : blank = char := Option.some.inj head
        rw [← same]
        exact space_not_equals (Or.inl (spaces blank List.mem_cons_self).1)
  have third : trimBoth isWhitespace (space ++ ('"' :: (name ++ '"' :: quotes))) =
      '"' :: (name ++ '"' :: quotes) := by
    unfold trimBoth
    rw [dropWhile_block (fun char inside => (spaces char inside).1) (head_cons (by decide))]
    have last := @rdropWhile_block Char isWhitespace ('"' :: (name ++ '"' :: quotes)) []
      (fun _ none_ => nomatch none_)
    rw [List.append_nil] at last
    apply last
    intro char final
    have closing : ('"' :: (name ++ '"' :: quotes)).getLast? = ('"' :: quotes).getLast? := by
      rw [← List.cons_append, List.getLast?_append_cons]
    rw [closing] at final
    apply (quote_not_space _).1
    have member := List.mem_of_getLast? final
    cases member with
    | head => decide
    | tail _ inside => exact ending char inside
  have fourth : trimBoth Brain.Identity.isQuote ('"' :: (name ++ '"' :: quotes)) = name := by
    unfold trimBoth
    have front := @dropWhile_block Char Brain.Identity.isQuote ['"'] (name ++ '"' :: quotes)
      (List.all_eq_true.mp rfl)
    rw [List.singleton_append] at front
    rw [front, rdropWhile_block _ plain.ended]
    · intro char inside
      cases inside with
      | head => decide
      | tail _ inside => exact ending char inside
    · intro char head
      rw [List.head?_append_of_ne_nil _ plain.filled] at head
      exact plain.bare char head
  have rest : ∀ text : Chars, ("name".toList ++ text).drop 4 = text :=
    fun text => List.drop_left' rfl
  unfold Brain.Identity.nameValue
  rw [if_pos starts, rest, first, second]
  dsimp only
  rw [third, fourth, if_neg plain.filled]

theorem quotedValue_skip {front : Chars} (none_ : '=' ∉ front) :
    quotedValue (front ++ rest) = quotedValue rest := by
  induction front with
  | nil => rfl
  | cons char front ih =>
      rw [List.mem_cons, not_or] at none_
      rw [List.cons_append]
      unfold quotedValue
      rw [if_neg (Ne.symm none_.1), ih none_.2]
      cases rest <;> rfl

theorem quotedValue_found {body : Chars} (quoted : rest.dropWhile jsWhitespace = '"' :: body)
    (taken : body.takeWhile (· ≠ '"') = name) (filled : name ≠ [])
    (closed : name.length < body.length) : quotedValue ('=' :: rest) = some name := by
  unfold quotedValue
  rw [if_pos rfl, quoted]
  have whole : (if name ≠ [] ∧ name.length < body.length then some name
      else quotedValue rest) = some name := if_pos ⟨filled, closed⟩
  rw [← taken] at whole ⊢
  exact whole

theorem quotedValue_next (other : (rest.dropWhile jsWhitespace).head? ≠ some '"') :
    quotedValue ('=' :: rest) = quotedValue rest := by
  conv => lhs; unfold quotedValue
  rw [if_pos rfl]
  split
  · next body quoted =>
      rw [quoted] at other
      exact absurd rfl other
  · rfl

theorem PlainName.tool (plain : PlainName line name) : nameValue line = some name := by
  obtain ⟨blank, marks, space, quotes, shape, blanks, ⟨marked, equals⟩, spaces, ending⟩ :=
    plain.shape
  subst shape
  have starts : "name".toList.isPrefixOf ("name".toList ++
      (blank ++ (marks ++ (space ++ ('"' :: (name ++ '"' :: quotes)))))) = true := by
    simp
  have filled := plain.filled
  have body : (space ++ ('"' :: (name ++ '"' :: quotes))).dropWhile jsWhitespace =
      '"' :: (name ++ '"' :: quotes) :=
    dropWhile_block (fun char inside => (spaces char inside).2) (head_cons (by decide))
  have taken : (name ++ '"' :: quotes).takeWhile (· ≠ '"') = name := by
    rw [List.takeWhile_append_of_pos]
    · simp
    · intro char inside
      apply decide_eq_true
      intro same
      exact plain.unquoted (same ▸ inside)
  have read : quotedValue (marks ++ (space ++ ('"' :: (name ++ '"' :: quotes)))) = some name := by
    clear starts plain
    induction marks with
    | nil => exact absurd rfl marked
    | cons mark marks ih =>
        have here := equals mark List.mem_cons_self
        subst here
        rw [List.cons_append]
        cases marks with
        | nil => exact quotedValue_found body taken filled (by simp)
        | cons other marks =>
            have same : other = '=' := equals other (List.mem_cons_of_mem _ List.mem_cons_self)
            subst same
            rw [quotedValue_next]
            · exact ih (List.cons_ne_nil _ _)
                (fun char inside => equals char (List.mem_cons_of_mem _ inside))
            · rw [List.cons_append, List.dropWhile_cons_of_neg (by decide), List.head?_cons]
              decide
  unfold nameValue
  rw [if_pos starts, quotedValue_skip (by decide), quotedValue_skip, read]
  intro inside
  exact space_not_equals (Or.inl (blanks '=' inside)) rfl

/-- Up to the first plain name, no line of a `[package]` section gives a name to one
side only. -/
def CargoAlike (inPackage : Bool) : List Chars → Prop
  | [] => True
  | line :: rest =>
      if "[".toList.isPrefixOf line then CargoAlike (line = "[package]".toList) rest
      else
        inPackage = true ∧ (∃ name, PlainName line name) ∨
          (inPackage = true → Brain.Identity.nameValue line = none ∧ nameValue line = none) ∧
            CargoAlike inPackage rest

/-- Some line of a `[package]` section is a plain name. -/
def HasPlainName (inPackage : Bool) : List Chars → Prop
  | [] => False
  | line :: rest =>
      if "[".toList.isPrefixOf line then HasPlainName (line = "[package]".toList) rest
      else inPackage = true ∧ (∃ name, PlainName line name) ∨ HasPlainName inPackage rest

theorem packageName_alike {inPackage : Bool} {lines : List Chars}
    (alike : CargoAlike inPackage lines) :
    packageName nameValue inPackage lines =
        packageName Brain.Identity.nameValue inPackage lines ∧
      (packageName Brain.Identity.nameValue inPackage lines = none ↔
        ¬ HasPlainName inPackage lines) := by
  induction lines generalizing inPackage with
  | nil => exact ⟨rfl, iff_of_true rfl id⟩
  | cons line rest ih =>
      unfold CargoAlike at alike
      unfold packageName HasPlainName
      by_cases header : "[".toList.isPrefixOf line = true
      · rw [if_pos header] at alike
        rw [if_pos header, if_pos header, if_pos header]
        exact ih alike
      · rw [if_neg header] at alike
        rw [if_neg header, if_neg header, if_neg header]
        cases alike with
        | inl plain =>
            obtain ⟨inside, name, plain⟩ := plain
            rw [if_pos inside, if_pos inside, plain.brain, plain.tool]
            refine ⟨rfl, iff_of_false (Option.some_ne_none _) (fun none_ => none_ ?_)⟩
            exact Or.inl ⟨inside, name, plain⟩
        | inr unnamed =>
            obtain ⟨values, later⟩ := unnamed
            have rest_alike := ih later
            have not_plain : ¬ (inPackage = true ∧ ∃ name, PlainName line name) := by
              intro ⟨inside, name, plain⟩
              exact absurd (values inside).1 (plain.brain ▸ Option.some_ne_none _)
            rw [or_iff_right not_plain]
            by_cases inside : inPackage = true
            · rw [if_pos inside, if_pos inside, (values inside).1, (values inside).2,
                Option.none_or, Option.none_or]
              exact rest_alike
            · rw [if_neg inside, if_neg inside]
              exact rest_alike

theorem packageName_blank (inPackage : Bool) (lines : List Chars) :
    packageName nameValue inPackage (lines ++ [[]]) = packageName nameValue inPackage lines := by
  induction lines generalizing inPackage with
  | nil => cases inPackage <;> rfl
  | cons line rest ih =>
      rw [List.cons_append]
      unfold packageName
      rw [ih, ih]

def cargoLines (text : Chars) : List Chars :=
  (Brain.Identity.lines text).map (trimBoth isWhitespace)

theorem cargoName_same {text : Chars} (trims : TrimsAlike text)
    (alike : CargoAlike false (cargoLines text)) :
    cargoName text = Brain.Identity.extractCargoPackageName text := by
  have values := (packageName_alike alike).1
  unfold cargoLines at values
  unfold cargoName Brain.Identity.extractCargoPackageName
  rw [← values]
  cases lines_trimmed trims with
  | inl same => rw [same]
  | inr same => rw [same, packageName_blank]

/-! ### The name of the directory -/

/-- The last part of the path is a name, and not one with a backslash. -/
def OrdinaryRoot (path : String) : Prop :=
  ∀ part, ((path.toList.splitOn '/').filter (· ≠ [])).getLast? = some part →
    part ≠ ['.'] ∧ part ≠ ['.', '.'] ∧ '\\' ∉ part

def brainRoot (path : String) : Chars :=
  ((fileName path).map String.toList).getD "project".toList

def toolRoot (path : String) : Chars :=
  (pathParts path).getLast?.getD "project".toList

variable (path : String)

theorem toolRoot_bare : '\\' ∉ toolRoot path := by
  unfold toolRoot
  cases last : (pathParts path).getLast? with
  | none => decide
  | some part =>
      have member := (List.mem_filter.mp (List.mem_of_getLast? last)).1
      intro inside
      have free := splitOnP_free member _ inside
      revert free
      decide

theorem pathParts_eq :
    pathParts path =
      ((path.toList.splitOn '/').flatMap (List.splitOnP (fun char => char = '\\'))).filter
        (· ≠ []) := by
  unfold pathParts
  rw [List.splitOn_eq_splitOnP, ← splitOnP_or]
  rfl

/-- Empty parts after a separator have no parts in them. -/
theorem blank_parts {pieces : List Chars} (blank : ∀ piece ∈ pieces, piece = []) :
    (pieces.flatMap (List.splitOnP (fun char => char = '\\'))).filter (· ≠ []) = [] := by
  rw [List.filter_eq_nil_iff]
  intro part member
  obtain ⟨piece, among, inside⟩ := List.mem_flatMap.mp member
  rw [blank piece among, List.splitOnP_nil, List.mem_singleton] at inside
  simp [inside]

section Root

variable {path : String} {before after : List Chars} {part : Chars}

theorem toolRoot_part (split : path.toList.splitOn '/' = before ++ part :: after)
    (filled : part ≠ []) (blank : ∀ piece ∈ after, piece = []) (bare : '\\' ∉ part) :
    toolRoot path = part := by
  have whole : part.splitOnP (fun char => char = '\\') = [part] := by
    apply List.splitOnP_eq_singleton
    intro char inside
    apply decide_eq_false
    intro same
    exact bare (same ▸ inside)
  unfold toolRoot
  rw [pathParts_eq, split, List.flatMap_append, List.flatMap_cons, whole, List.filter_append,
    List.singleton_append, List.filter_cons_of_pos (by simpa using filled), blank_parts blank,
    List.getLast?_concat]
  rfl

theorem components_part (split : path.toList.splitOn '/' = before ++ part :: after)
    (filled : part ≠ []) (blank : ∀ piece ∈ after, piece = []) (named : part ≠ ['.']) :
    (components path).getLast? = some part := by
  have others : after.filter (fun piece => piece ≠ [] ∧ piece ≠ ['.']) = [] := by
    rw [List.filter_eq_nil_iff]
    intro piece inside
    simp [blank piece inside]
  unfold components
  rw [split]
  cases before with
  | nil =>
      dsimp only [List.nil_append]
      rw [if_neg filled, others]
      rfl
  | cons first before =>
      dsimp only [List.cons_append]
      rw [List.filter_append, List.filter_cons_of_pos (by simp [filled, named]), others,
        ← List.append_assoc, List.getLast?_concat]

end Root

theorem root_agree_iff : toolRoot path = brainRoot path ↔ OrdinaryRoot path := by
  unfold OrdinaryRoot
  cases last : ((path.toList.splitOn '/').filter (· ≠ [])).getLast? with
  | none =>
      have blank : ∀ piece ∈ path.toList.splitOn '/', piece = [] := by
        intro piece inside
        have nothing := List.getLast?_eq_none_iff.mp last
        rw [List.filter_eq_nil_iff] at nothing
        simpa using nothing piece inside
      apply iff_of_true
      · have tool : pathParts path = [] := by
          rw [pathParts_eq]
          exact blank_parts blank
        have brain : components path = [] := by
          unfold components
          cases split : path.toList.splitOn '/' with
          | nil => rfl
          | cons first rest =>
              rw [split] at blank
              have others : rest.filter (fun piece => piece ≠ [] ∧ piece ≠ ['.']) = [] := by
                rw [List.filter_eq_nil_iff]
                intro piece inside
                simp [blank piece (List.mem_cons_of_mem _ inside)]
              dsimp only
              rw [if_pos (blank first List.mem_cons_self), others]
              rfl
        unfold toolRoot brainRoot fileName
        rw [tool, brain]
        rfl
      · intro part never
        cases never
  | some part =>
      obtain ⟨before, after, split, filled, blank⟩ := getLast?_filter_split last
      have filled : part ≠ [] := by simpa using filled
      have blank : ∀ piece ∈ after, piece = [] := by
        intro piece inside
        simpa using blank piece inside
      simp only [Option.some.injEq, forall_eq']
      by_cases here : part = ['.']
      · subst here
        apply iff_of_false
        · rw [toolRoot_part split filled blank (by decide)]
          unfold brainRoot fileName
          cases (components path).getLast? with
          | none => decide
          | some other =>
              dsimp only
              split
              · decide
              · next normal =>
                  rw [not_or] at normal
                  rw [Option.map_some, Option.getD_some, String.toList_ofList]
                  exact Ne.symm normal.1
        · exact fun both => both.1 rfl
      · have found := components_part split filled blank here
        unfold brainRoot fileName
        rw [found]
        dsimp only
        by_cases up : part = ['.', '.']
        · subst up
          apply iff_of_false
          · rw [toolRoot_part split filled blank (by decide)]
            decide
          · exact fun both => both.2.1 rfl
        · rw [if_neg (not_or.mpr ⟨here, up⟩), Option.map_some, Option.getD_some,
            String.toList_ofList]
          constructor
          · intro same
            refine ⟨here, up, ?_⟩
            rw [← same]
            exact toolRoot_bare path
          · intro ⟨_, _, bare⟩
            exact toolRoot_part split filled blank bare

/-! ### Agreement of the kernels -/

section Kernels

variable (fromStr : Chars → Option Json) (engine : Engine) (root : Project)

/-- The value of `package.json` has a name that is a string and not empty. -/
def NamedInPackage : Prop :=
  ∃ value text, Brain.Identity.package fromStr root = some value ∧
    member value "name" = some (.string text) ∧ text ≠ ""

def NamedInCargo : Prop :=
  ∃ text, root.readStrict "Cargo.toml" = some text ∧ HasPlainName false (cargoLines text)

/-- Both sides read the same texts, and the same lines of them. -/
structure ReadsAlike : Prop where
  manifests : ManifestsAlike fromStr engine root
  cargo : ¬ NamedInPackage fromStr root → ∀ text, root.readStrict "Cargo.toml" = some text →
    TrimsAlike text ∧ CargoAlike false (cargoLines text)
  readme : (readmeText root).getD [] = Brain.Identity.readmeText root
  lines : TrimsAlike (Brain.Identity.readmeText root)

/-- A name in `package.json` that counts is a string, and a project without a name in
its manifests has an ordinary root. -/
structure NameAlike : Prop where
  typed : ∀ value name, Brain.Identity.package fromStr root = some value →
    member value "name" = some name → truthy name = true → ∃ text, name = .string text
  rooted : ¬ NamedInPackage fromStr root → ¬ NamedInCargo root → OrdinaryRoot root.path

/-- The trimmed lines of the README. -/
def readmeLines : List Chars :=
  (Brain.Identity.lines (Brain.Identity.readmeText root)).map (trimBoth isWhitespace)

structure KernelsAlike : Prop where
  stack : StackAlike fromStr engine root
  name : NameAlike fromStr root
  cut : CutAlike (gather [] false (readmeLines root))
  reached : ProseReached (readmeLines root)

/-- Stack, name and summary are the same, and prose gives a summary. -/
structure KernelsAgree : Prop where
  stack : (Brain.Identity.detectStack fromStr root).map label =
    (detectStack engine root).map label
  name : inferProjectName engine root =
    .string (String.ofList (Brain.Identity.inferProjectName fromStr root))
  summary : readDomainSummary root = utf16 (Brain.Identity.readDomainSummary root)
  prose : HasProse (readmeLines root) → Brain.Identity.readDomainSummary root ≠ []

end Kernels

section Kernels

variable {fromStr : Chars → Option Json} {engine : Engine} {root : Project}

theorem packageJsonName_none {value : Json}
    (untold : ∀ text, member value "name" = some (.string text) → text = "") :
    Brain.Identity.packageJsonName value = none := by
  unfold Brain.Identity.packageJsonName
  split
  · next text given => rw [if_pos (untold text given)]
  · rfl

/-- Without a name in `package.json` for either side, both look elsewhere. -/
theorem elsewhere_agree_iff (alike : ReadsAlike fromStr engine root)
    (unnamed : ¬ NamedInPackage fromStr root)
    (brain : (Brain.Identity.package fromStr root).bind Brain.Identity.packageJsonName = none)
    (tool : (package engine root).bind packageJsonName = none) :
    inferProjectName engine root =
        .string (String.ofList (Brain.Identity.inferProjectName fromStr root)) ↔
      (¬ NamedInCargo root → OrdinaryRoot root.path) := by
  have cargo : (root.readLenient "Cargo.toml").bind cargoName =
      (root.readStrict "Cargo.toml").bind Brain.Identity.extractCargoPackageName := by
    rw [alike.manifests.cargo]
    cases read : root.readStrict "Cargo.toml" with
    | none => rfl
    | some text =>
        have lines := alike.cargo unnamed text read
        exact cargoName_same lines.1 lines.2
  have named : (root.readStrict "Cargo.toml").bind Brain.Identity.extractCargoPackageName = none ↔
      ¬ NamedInCargo root := by
    unfold NamedInCargo
    cases read : root.readStrict "Cargo.toml" with
    | none => simp
    | some text =>
        have lines := alike.cargo unnamed text read
        have plain : Brain.Identity.extractCargoPackageName text = none ↔
            ¬ HasPlainName false (cargoLines text) := (packageName_alike lines.2).2
        simpa using plain
  have root_iff := root_agree_iff root.path
  unfold toolRoot brainRoot at root_iff
  unfold inferProjectName Brain.Identity.inferProjectName
  rw [brain, tool, cargo, ← named, ← root_iff]
  cases (root.readStrict "Cargo.toml").bind Brain.Identity.extractCargoPackageName with
  | some name => simp
  | none => simp [String.ofList_inj]

theorem name_agree_iff (alike : ReadsAlike fromStr engine root) :
    inferProjectName engine root =
        .string (String.ofList (Brain.Identity.inferProjectName fromStr root)) ↔
      NameAlike fromStr root := by
  have same := alike.manifests.package
  cases parsed : Brain.Identity.package fromStr root with
  | none =>
      have unnamed : ¬ NamedInPackage fromStr root := by
        intro ⟨value, text, given, _⟩
        rw [parsed] at given
        cases given
      rw [elsewhere_agree_iff alike unnamed (by rw [parsed]; rfl) (by rw [same, parsed]; rfl)]
      constructor
      · intro rooted
        refine { typed := ?_, rooted := fun _ => rooted }
        intro value name given
        rw [parsed] at given
        cases given
      · intro condition
        exact condition.rooted unnamed
  | some value =>
      have tool : package engine root = some value := same.trans parsed
      by_cases counts : ∃ name, member value "name" = some name ∧ truthy name = true
      · obtain ⟨name, given, counts⟩ := counts
        have told : inferProjectName engine root = name := by
          unfold inferProjectName packageJsonName
          rw [tool, Option.bind_some, given, Option.filter_some, if_pos counts]
          rfl
        rw [told]
        by_cases typed : ∃ text, name = .string text
        · obtain ⟨text, typed⟩ := typed
          subst typed
          have filled : text ≠ "" := by simpa [truthy] using counts
          have named : NamedInPackage fromStr root := ⟨value, text, parsed, given, filled⟩
          apply iff_of_true
          · have brain : Brain.Identity.packageJsonName value = some text.toList := by
              unfold Brain.Identity.packageJsonName
              rw [given]
              exact if_neg filled
            unfold Brain.Identity.inferProjectName
            rw [parsed, Option.bind_some, brain, Option.getD_some, String.ofList_toList]
          · refine { typed := ?_, rooted := fun unnamed => absurd named unnamed }
            intro other name again known _
            rw [parsed, Option.some.injEq] at again
            rw [← again, given, Option.some.injEq] at known
            exact ⟨text, known.symm⟩
        · apply iff_of_false
          · exact fun text => typed ⟨_, text⟩
          · exact fun condition => typed (condition.typed value name parsed given counts)
      · have untold : ∀ text, member value "name" = some (.string text) → text = "" := by
          intro text given
          by_contra filled
          exact counts ⟨_, given, by simpa [truthy] using filled⟩
        have unnamed : ¬ NamedInPackage fromStr root := by
          intro ⟨other, text, again, given, filled⟩
          rw [parsed, Option.some.injEq] at again
          rw [← again] at given
          exact filled (untold text given)
        have quiet : packageJsonName value = none := by
          unfold packageJsonName
          rw [Option.filter_eq_none_iff]
          intro name given holds
          exact counts ⟨name, given, holds⟩
        rw [elsewhere_agree_iff alike unnamed
          (by rw [parsed, Option.bind_some, packageJsonName_none untold])
          (by rw [tool, Option.bind_some, quiet])]
        constructor
        · intro rooted
          refine { typed := ?_, rooted := fun _ => rooted }
          intro other name again given holds
          rw [parsed, Option.some.injEq] at again
          rw [← again] at given
          exact absurd ⟨name, given, holds⟩ counts
        · intro condition
          exact condition.rooted unnamed

theorem summary_agree_iff (alike : ReadsAlike fromStr engine root) :
    readDomainSummary root = utf16 (Brain.Identity.readDomainSummary root) ↔
      CutAlike (gather [] false (readmeLines root)) := by
  have told : readDomainSummary root =
      firstNonHeadingParagraph (Brain.Identity.readmeText root) := by
    unfold readDomainSummary
    rw [← alike.readme]
    cases readmeText root with
    | none => rfl
    | some text => rfl
  rw [told, ← clamp_agree_iff, eq_comm]
  unfold firstNonHeadingParagraph
  rw [paragraph_same alike.lines]
  rfl

/-- The kernels agree exactly where stack, name and summary are alike. -/
theorem kernels_agree_iff (alike : ReadsAlike fromStr engine root) :
    KernelsAgree fromStr engine root ↔ KernelsAlike fromStr engine root := by
  have stack := stack_agree_iff alike.manifests
  have name := name_agree_iff alike
  have summary := summary_agree_iff alike
  have prose : (HasProse (readmeLines root) → Brain.Identity.readDomainSummary root ≠ []) ↔
      ProseReached (readmeLines root) := summary_nonempty_iff (Brain.Identity.readmeText root)
  constructor
  · intro same
    exact { stack := stack.mp same.stack, name := name.mp same.name,
            cut := summary.mp same.summary, reached := prose.mp same.prose }
  · intro condition
    exact { stack := stack.mpr condition.stack, name := name.mpr condition.name,
            summary := summary.mpr condition.cut, prose := prose.mpr condition.reached }

end Kernels

/-! ### Two projects -/

def textFile (name : String) (text : String) : String → Option (Option Octets) :=
  fun other => if other = name then some (some (.text text.toList)) else none

/-- An engine for projects without `package.json`. -/
def quietEngine : Engine :=
  { parse := fun _ => none, exceedsZero := fun _ => false }

def cargoText : String :=
  "[package]\nname = \"demo\"\n"

def demo : Project :=
  { path := "/home/work/demo"
    file := fun name =>
      (textFile "Cargo.toml" cargoText name).or
        (textFile "README.md" "# Demo\n\nA small tool.\n" name)
    entries := [.text "Cargo.toml".toList, .text "README.md".toList] }

theorem demo_named : PlainName "name = \"demo\"".toList "demo".toList where
  shape := ⟨[' '], ['='], [' '], [], by decide, List.all_eq_true.mp rfl,
    ⟨by decide, fun _ inside => List.mem_singleton.mp inside⟩,
    List.forall_mem_singleton.mpr ⟨rfl, rfl⟩, List.all_eq_true.mp rfl⟩
  filled := by decide
  bare := fun char head => by cases head; decide
  ended := fun char last => by cases last; decide
  unquoted := by decide

theorem demo_reads : ReadsAlike (fun _ => none) quietEngine demo where
  manifests :=
    { package := rfl
      cargo := rfl
      entries := by simp [demo, Octets.strict, Octets.lenient] }
  cargo := by
    intro _ text read
    have same : cargoText.toList = text := Option.some.inj read
    subst same
    refine ⟨by unfold TrimsAlike; decide +kernel, ?_⟩
    have lines : cargoLines cargoText.toList =
        ["[package]".toList, "name = \"demo\"".toList] := by decide +kernel
    rw [lines]
    exact Or.inl ⟨rfl, _, demo_named⟩
  readme := rfl
  lines := by unfold TrimsAlike; decide +kernel

theorem demo_agrees : KernelsAgree (fun _ => none) quietEngine demo := by
  refine (kernels_agree_iff demo_reads).mpr
    { stack := ?_, name := ?_, cut := ?_, reached := ?_ }
  · refine { dependencies := ?_, versionless := ?_, no_gradle := by decide +kernel }
    · intro value never
      cases never
    · intro text never
      cases never
  · refine { typed := ?_, rooted := ?_ }
    · intro value name never
      cases never
    · intro _ _ part last
      have same : "demo".toList = part := Option.some.inj last
      rw [← same]
      decide
  · exact Or.inl (by decide +kernel)
  · intro _
    have lines : readmeLines demo = ["# Demo".toList, [], "A small tool.".toList] := by
      decide +kernel
    refine ⟨["# Demo".toList, []], "A small tool.".toList, [], lines, ?_, ?_⟩
    · unfold Taken
      decide +kernel
    · unfold Settled Settled Settled
      decide +kernel

/-- A module of Go with its version. -/
def goModule : Project :=
  { path := "/home/work/tool"
    file := textFile "go.mod" "module tool\n\ngo 1.22\n"
    entries := [.text "go.mod".toList] }

theorem goModule_parts :
    ¬ ∃ fromStr : Chars → Option Json, ∃ engine : Engine,
      KernelsAgree fromStr engine goModule := by
  intro ⟨fromStr, engine, same⟩
  have alike : ManifestsAlike fromStr engine goModule :=
    { package := rfl
      cargo := rfl
      entries := by simp [goModule, Octets.strict, Octets.lenient] }
  have versionless := ((stack_agree_iff alike).mp same.stack).versionless
  have line := versionless _ rfl "go 1.22".toList (by decide +kernel)
  revert line
  decide +kernel

end Mneme.Mcp.Identity
