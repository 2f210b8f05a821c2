/-
The identity kernel of the tools: stack, name and summary as the tool builds them; the
summary of a README as both kernels cut it, and when there is one at all.

Files are read leniently; white space is that of JavaScript.  A scan that enters a block
leaves it at the next line that looks like an end, so a tag without an end hides what
follows.  The cut counts characters for the brain and code units for the tool.
-/

import Mneme.Brain.Identity
import Mneme.Library.Encodings
import Mneme.Mcp.SuggestSkill

namespace Mneme.Mcp.Identity

open Library Common Common.Skills Common.Identity SuggestSkill

def JS_PROBES : List JsProbe :=
  [⟨"electron", "electron", .framework⟩, ⟨"react", "react", .framework⟩,
    ⟨"next", "next.js", .framework⟩, ⟨"vue", "vue", .framework⟩,
    ⟨"svelte", "svelte", .framework⟩, ⟨"solid-js", "solid", .framework⟩,
    ⟨"@tauri-apps/api", "tauri", .framework⟩, ⟨"vite", "vite", .buildTool⟩,
    ⟨"webpack", "webpack", .buildTool⟩, ⟨"esbuild", "esbuild", .buildTool⟩,
    ⟨"turbo", "turborepo", .buildTool⟩, ⟨"typescript", "typescript", .language⟩,
    ⟨"tailwindcss", "tailwind", .tooling⟩, ⟨"zustand", "zustand", .tooling⟩,
    ⟨"vitest", "vitest", .tooling⟩, ⟨"jest", "jest", .tooling⟩,
    ⟨"playwright", "playwright", .tooling⟩]

/-- What the tool leaves to its engine: parsing, and whether a value is greater than
zero or refuses the comparison. -/
structure Engine where
  parse : Chars → Option Json
  exceedsZero : Json → Bool

/-! ### The stack -/

def dropMark : Chars → Chars
  | first :: rest => if first = '~' ∨ first = '^' then rest else first :: rest
  | [] => []

/-- The version of a dependency; none where reading it throws. -/
def versionOf (engine : Engine) : Json → Option (Option Chars)
  | .string text => some (if text = "" then none else some (dropMark text.toList))
  | .null => none
  | .array items => if items = [] then some none else none
  | .object fields =>
      match fields.lookup "length" with
      | none => some none
      -- A length above zero leads to `replace`, which no parsed value has.
      | some length => if engine.exceedsZero length then none else some none
  | .bool _ | .int _ | .float _ => some none

/-- A member of the merged dependencies.  Spreading an array or a string adds only
positions, and none of them is probed for. -/
def mergedDep (package : Json) (dep : String) : Option Json :=
  (((member package "devDependencies").bind (member · dep)).or
    ((member package "dependencies").bind (member · dep)))

/-- The probes up to one that throws. -/
def probeAll (engine : Engine) (package : Json) (out : List Technology) :
    List JsProbe → List Technology
  | [] => out
  | probe :: rest =>
      match mergedDep package probe.dep with
      | none => probeAll engine package out rest
      | some raw =>
          match versionOf engine raw with
          | none => out
          | some version =>
              probeAll engine package (pushUnique out (probe.technology version)) rest

def package (engine : Engine) (root : Project) : Option Json :=
  (root.readLenient "package.json").bind engine.parse

def detectNode (engine : Engine) (root : Project) (out : List Technology) : List Technology :=
  if root.has "package.json" then
    let out := out ++ [⟨"node", none, "package.json", .runtime⟩]
    match package engine root with
    | none => out
    | some value => probeAll engine value out JS_PROBES
  else out

def detectStack (engine : Engine) (root : Project) : List Technology :=
  let out := detectNode engine root []
  let out := appendNew (root.hasAny ["bun.lockb", "bunfig.toml"])
    ⟨"bun", none, "bun.lockb", .runtime⟩ out
  let out := append (root.hasAny ["deno.json", "deno.jsonc"])
    ⟨"deno", none, "deno.json", .runtime⟩ out
  let out := detectCargo root (root.readLenient "Cargo.toml") out
  let out := append (root.has "requirements.txt")
    ⟨"python", none, "requirements.txt", .language⟩ out
  let out := appendNew (root.has "pyproject.toml")
    ⟨"python", none, "pyproject.toml", .language⟩ out
  let out := append (root.has "go.mod") ⟨"go", none, "go.mod", .language⟩ out
  let out := append (root.has "Gemfile") ⟨"ruby", none, "Gemfile", .language⟩ out
  let out := append (root.has "pom.xml") ⟨"java", none, "pom.xml", .language⟩ out
  let out := append (root.has "composer.json") ⟨"php", none, "composer.json", .language⟩ out
  append
    (root.entries.any fun entry => ".csproj".toList.isSuffixOf entry.lenient ||
      ".sln".toList.isSuffixOf entry.lenient)
    ⟨"dotnet", none, ".csproj", .runtime⟩ out

/-! ### The summary -/

/-- The lines of a split at line feeds, with the one after the last. -/
def splitLines (text : Chars) : List Chars :=
  endedLines text ++ lastLine text

def MAX : Nat := 500

/-- A cut after so many code units, through a surrogate pair if need be. -/
def clamp (buf : Chars) : List UInt16 :=
  if MAX < (utf16 buf).length then (utf16 buf).take MAX ++ utf16 ['…'] else utf16 buf

def firstNonHeadingParagraph (text : Chars) : List UInt16 :=
  clamp (gather [] false ((splitLines text).map (trimBoth jsWhitespace)))

/-- The first of the candidates that can be read. -/
def readmeText (root : Project) : Option Chars :=
  ["README.md", "Readme.md", "readme.md"].findSome? root.readLenient

def readDomainSummary (root : Project) : List UInt16 :=
  ((readmeText root).map firstNonHeadingParagraph).getD []

/-! ### The name -/

/-- The first text in quotes after an equals sign. -/
def quotedValue : Chars → Option Chars
  | [] => none
  | char :: rest =>
      if char = '=' then
        match rest.dropWhile jsWhitespace with
        | '"' :: body =>
            let name := body.takeWhile (· ≠ '"')
            if name ≠ [] ∧ name.length < body.length then some name else quotedValue rest
        | _ => quotedValue rest
      else quotedValue rest

def nameValue (line : Chars) : Option Chars :=
  if "name".toList.isPrefixOf line then quotedValue line else none

/-- A value that counts as true. -/
def truthy : Json → Bool
  | .null => false
  | .bool value => value
  | .int value => value ≠ 0
  | .float value => value ≠ 0
  | .string text => text ≠ ""
  | .array _ | .object _ => true

/-- The name in `package.json`, whatever its type. -/
def packageJsonName (value : Json) : Option Json :=
  (member value "name").filter truthy

def cargoName (text : Chars) : Option Chars :=
  packageName nameValue false ((splitLines text).map (trimBoth jsWhitespace))

def pathParts (path : String) : List Chars :=
  (path.toList.splitOnP (fun char => char = '/' || char = '\\')).filter (· ≠ [])

def inferProjectName (engine : Engine) (root : Project) : Json :=
  ((package engine root).bind packageJsonName).getD
    (.string (String.ofList (((root.readLenient "Cargo.toml").bind cargoName).getD
      ((pathParts root.path).getLast?.getD "project".toList))))

/-! ### Lines -/

/-- Every line is trimmed to the same text by both kinds of white space. -/
def TrimsAlike (text : Chars) : Prop :=
  ∀ line ∈ splitLines text, trimBoth isWhitespace line = trimBoth jsWhitespace line

theorem lines_trimmed {text : Chars} (alike : TrimsAlike text) :
    (splitLines text).map (trimBoth jsWhitespace) =
        (Brain.Identity.lines text).map (trimBoth isWhitespace) ∨
      (splitLines text).map (trimBoth jsWhitespace) =
        (Brain.Identity.lines text).map (trimBoth isWhitespace) ++ [[]] := by
  have same : (splitLines text).map (trimBoth jsWhitespace) =
      (splitLines text).map (trimBoth isWhitespace) :=
    List.map_congr_left (fun line inside => (alike line inside).symm)
  rw [same]
  unfold splitLines Brain.Identity.lines lastLine
  cases (text.splitOn '\n').getLast? with
  | none => exact Or.inl rfl
  | some last =>
      by_cases empty : last = []
      · apply Or.inr
        subst empty
        simp [trimBoth]
      · apply Or.inl
        simp [empty]

theorem gather_blank (buf : Chars) (inside : Bool) (lines : List Chars) :
    gather buf inside (lines ++ [[]]) = gather buf inside lines := by
  induction lines generalizing buf inside with
  | nil =>
      rw [List.nil_append]
      unfold gather
      split
      · rfl
      · rw [if_pos rfl]
        split
        · rfl
        · rfl
  | cons line rest ih =>
      rw [List.cons_append]
      unfold gather
      simp only [ih]

theorem paragraph_same {text : Chars} (alike : TrimsAlike text) :
    gather [] false ((splitLines text).map (trimBoth jsWhitespace)) =
      gather [] false ((Brain.Identity.lines text).map (trimBoth isWhitespace)) := by
  cases lines_trimmed alike with
  | inl same => rw [same]
  | inr same => rw [same, gather_blank]

/-! ### The cut -/

/-- A paragraph whose first 500 characters are its first 500 code units, or that is
short enough, or that ends where the tool puts its ellipsis. -/
def CutAlike (paragraph : Chars) : Prop :=
  (utf16 paragraph).length ≤ 500 ∨
    (500 < paragraph.length ∧ ∀ char ∈ paragraph.take 500, IsBasic char) ∨
      (paragraph.length ≤ 500 ∧ (utf16 paragraph).length = 501 ∧
        paragraph.getLast? = some '…')

theorem clamp_agree_iff (paragraph : Chars) :
    utf16 (Brain.Identity.clamp paragraph) = clamp paragraph ↔ CutAlike paragraph := by
  have units := length_le_utf16 paragraph
  have whole : utf16 paragraph =
      utf16 (paragraph.take 500) ++ utf16 (paragraph.drop 500) := by
    rw [← utf16_append, List.take_append_drop]
  unfold CutAlike Brain.Identity.clamp clamp Brain.Identity.MAX MAX
  by_cases short : (utf16 paragraph).length ≤ 500
  · rw [if_neg (by omega), if_neg (by omega)]
    exact iff_of_true rfl (Or.inl short)
  · rw [or_iff_right short, if_pos (by omega : 500 < (utf16 paragraph).length)]
    by_cases few : paragraph.length ≤ 500
    · rw [if_neg (by omega), or_iff_right (fun both => absurd few (Nat.not_le_of_lt both.1)),
        and_iff_right few]
      have ellipsis := @utf16_getLast_iff '…' (by decide) paragraph
      rw [← ellipsis]
      have unit : utf16 ['…'] = [UInt16.ofNat '…'.toNat] := by decide
      rw [unit]
      constructor
      · intro same
        have lengths := congrArg List.length same
        rw [List.length_append, List.length_take, List.length_singleton] at lengths
        have last := congrArg List.getLast? same
        rw [List.getLast?_concat] at last
        exact ⟨by omega, last⟩
      · intro ⟨length, last⟩
        have filled : utf16 paragraph ≠ [] := by
          intro empty
          rw [empty] at length
          cases length
        have final := (List.getLast?_eq_some_getLast filled).symm.trans last
        have dropped : (utf16 paragraph).take 500 = (utf16 paragraph).dropLast := by
          rw [List.dropLast_eq_take, length]
        rw [dropped, ← Option.some.inj final]
        exact (List.dropLast_append_getLast filled).symm
    · have many : 500 < paragraph.length := Nat.lt_of_not_le few
      have taken : (paragraph.take 500).length = 500 := by
        rw [List.length_take]
        omega
      rw [if_pos many, or_iff_left (fun both => few both.1), and_iff_right many,
        ← utf16_length_eq_iff, taken, utf16_append]
      constructor
      · intro same
        have lengths := congrArg List.length (List.append_cancel_right same)
        rw [List.length_take] at lengths
        omega
      · intro length
        rw [whole, List.take_left' length]

/-! ### HTML between the lines of a README

What a reader of HTML makes of the lines: elements that are open, a comment, or a
tag that goes on.  A void element has no content, so its tag opens nothing. -/

inductive HtmlState where
  | text
  | comment (recent : Chars)
  | tag (inner : Chars)
deriving DecidableEq

structure Html where
  depth : Nat
  state : HtmlState
deriving DecidableEq

def voidElements : List String :=
  ["area", "base", "br", "col", "embed", "hr", "img", "input", "link", "meta", "source",
    "track", "wbr"]

/-- The number of open elements after a tag, by what stands between its brackets. -/
def depthAfter (depth : Nat) (inner : Chars) : Nat :=
  let name := (inner.takeWhile isAsciiAlphanumeric).map Char.toLower
  if inner.head? = some '/' then depth - 1
  else if inner.head? = some '!' ∨ inner.getLast? = some '/' ∨
      String.ofList name ∈ voidElements then depth
  else depth + 1

def Html.next (html : Html) (char : Char) : Html :=
  match html.state with
  | .text => if char = '<' then { html with state := .tag [] } else html
  | .comment recent =>
      if char = '>' ∧ recent = ['-', '-'] then { html with state := .text }
      else { html with state := .comment ((recent ++ [char]).rtake 2) }
  | .tag inner =>
      -- A bracket that no tag follows is text.
      if inner = [] ∧ ¬ (char.isAlpha = true ∨ char = '/' ∨ char = '!') then
        { html with state := .text }
      else if char = '>' then { depth := depthAfter html.depth inner, state := .text }
      else if inner ++ [char] = ['!', '-', '-'] then { html with state := .comment [] }
      else { html with state := .tag (inner ++ [char]) }

/-- No element, tag or comment is open after these lines. -/
def OutsideHtml (lines : List Chars) : Prop :=
  (lines.flatMap (· ++ ['\n'])).foldl Html.next ⟨0, .text⟩ = ⟨0, .text⟩

instance (lines : List Chars) : Decidable (OutsideHtml lines) :=
  inferInstanceAs (Decidable (_ = _))

/-- A line of prose: not blank, and no heading, rule, badge or tag. -/
def IsProse (line : Chars) : Prop :=
  line ≠ [] ∧ isSkipped line = false ∧ line.head? ≠ some '<'

/-- Prose that stands outside HTML. -/
def HasProse (lines : List Chars) : Prop :=
  ∃ before line after, lines = before ++ line :: after ∧ IsProse line ∧ OutsideHtml before

/-! ### Prose -/

/-- A line that both kernels take into a paragraph when they are not in a block. -/
def Taken (line : Chars) : Prop :=
  opensBlock line = false ∧ line ≠ [] ∧ isSkipped line = false

/-- Each line that opens a block closes it, or a later line does. -/
def Settled : List Chars → Prop
  | [] => True
  | line :: rest =>
      (opensBlock line = true → ∃ closer ∈ line :: rest, closesBlock closer = true) ∧
        Settled rest

theorem gather_nonempty {buf : Chars} (filled : buf ≠ []) (inside : Bool)
    (lines : List Chars) : gather buf inside lines ≠ [] := by
  induction lines generalizing buf inside with
  | nil => exact filled
  | cons line rest ih =>
      unfold gather
      split
      · exact ih filled _
      · split
        · exact filled
        · split
          · exact ih filled _
          · apply ih
            unfold joinLine
            rw [if_neg filled]
            simp

/-- The scan finds something exactly where a line is taken after blocks that end. -/
theorem gather_nonempty_iff (inside : Bool) (lines : List Chars) :
    gather [] inside lines ≠ [] ↔
      ∃ before line after, lines = before ++ line :: after ∧ Taken line ∧ Settled before ∧
        (inside = true → ∃ closer ∈ before, closesBlock closer = true) := by
  induction lines generalizing inside with
  | nil =>
      apply iff_of_false
      · exact fun filled => filled rfl
      · intro ⟨before, line, after, split, _⟩
        cases before <;> cases split
  | cons line rest ih =>
      unfold gather
      by_cases block : (inside || opensBlock line) = true
      · rw [if_pos block, ih]
        constructor
        · intro ⟨before, other, after, split, taken, settled, closed⟩
          have closer : ∃ closer ∈ line :: before, closesBlock closer = true := by
            cases ends : closesBlock line with
            | true => exact ⟨line, List.mem_cons_self, ends⟩
            | false =>
                obtain ⟨closer, among, closes⟩ := closed (by rw [ends]; rfl)
                exact ⟨closer, List.mem_cons_of_mem _ among, closes⟩
          exact ⟨line :: before, other, after, by rw [split, List.cons_append], taken,
            ⟨fun _ => closer, settled⟩, fun _ => closer⟩
        · intro ⟨before, other, after, split, taken, settled, closed⟩
          cases before with
          | nil =>
              rw [List.nil_append, List.cons.injEq] at split
              rw [split.1, taken.1, Bool.or_false] at block
              obtain ⟨closer, among, _⟩ := closed block
              cases among
          | cons first before =>
              rw [List.cons_append, List.cons.injEq] at split
              obtain ⟨same, split⟩ := split
              subst same
              refine ⟨before, other, after, split, taken, settled.2, ?_⟩
              intro unended
              have later : ∃ closer ∈ line :: before, closesBlock closer = true := by
                cases Bool.or_eq_true _ _ ▸ block with
                | inl entered => exact closed entered
                | inr opened => exact settled.1 opened
              obtain ⟨closer, among, closes⟩ := later
              cases among with
              | head => rw [closes] at unended; cases unended
              | tail _ among => exact ⟨closer, among, closes⟩
      · rw [if_neg block]
        rw [Bool.or_eq_true, not_or] at block
        have outside : inside = false := Bool.eq_false_of_not_eq_true block.1
        have plain : opensBlock line = false := Bool.eq_false_of_not_eq_true block.2
        subst outside
        by_cases taken : line ≠ [] ∧ isSkipped line = false
        · rw [if_neg taken.1, taken.2, if_neg Bool.false_ne_true]
          apply iff_of_true
          · exact gather_nonempty taken.1 _ _
          · exact ⟨[], line, rest, rfl, ⟨plain, taken⟩, trivial, fun never => nomatch never⟩
        · -- A line that is not taken is passed over.
          have passed : (if line = [] then if ([] : Chars) = [] then gather [] false rest else []
              else if isSkipped line = true then gather [] false rest
              else gather (joinLine [] line) false rest) = gather [] false rest := by
            by_cases empty : line = []
            · rw [if_pos empty, if_pos rfl]
            · have skipped : isSkipped line = true :=
                Bool.eq_true_of_not_eq_false (fun kept => taken ⟨empty, kept⟩)
              rw [if_neg empty, if_pos skipped]
          rw [passed, ih]
          constructor
          · intro ⟨before, other, after, split, here, settled, closed⟩
            refine ⟨line :: before, other, after, by rw [split, List.cons_append], here,
              ⟨fun opened => ?_, settled⟩, fun never => nomatch never⟩
            rw [plain] at opened
            cases opened
          · intro ⟨before, other, after, split, here, settled, closed⟩
            cases before with
            | nil =>
                rw [List.nil_append, List.cons.injEq] at split
                rw [split.1] at taken
                exact absurd here.2 taken
            | cons first before =>
                rw [List.cons_append, List.cons.injEq] at split
                exact ⟨before, other, after, split.2, here, settled.2,
                  fun never => nomatch never⟩

/-- Prose outside HTML comes with a line that is taken after blocks that end. -/
def ProseReached (lines : List Chars) : Prop :=
  HasProse lines →
    ∃ before line after, lines = before ++ line :: after ∧ Taken line ∧ Settled before

theorem summary_nonempty_iff (text : Chars) :
    (HasProse ((Brain.Identity.lines text).map (trimBoth isWhitespace)) →
        Brain.Identity.firstNonHeadingParagraph text ≠ []) ↔
      ProseReached ((Brain.Identity.lines text).map (trimBoth isWhitespace)) := by
  have cut : ∀ paragraph : Chars, Brain.Identity.clamp paragraph ≠ [] ↔ paragraph ≠ [] := by
    intro paragraph
    unfold Brain.Identity.clamp
    split
    · next long =>
        apply iff_of_true
        · simp
        · intro empty
          rw [empty] at long
          exact absurd long (Nat.not_lt_zero _)
    · exact Iff.rfl
  unfold ProseReached Brain.Identity.firstNonHeadingParagraph
  rw [cut, gather_nonempty_iff]
  simp

/-- A tag without an end hides the prose after it. -/
example : gather [] false ["<br>".toList, [], "Prose.".toList] = [] ∧
    OutsideHtml ["<br>".toList, []] := by decide

end Mneme.Mcp.Identity
