/-
The numbers and sites that the editor reads are the printed ones where every dependent is
itself named like a site and the target quotes the numbers, or where there is no dependent.
-/

import Mneme.Vscode.BlastText
import Mneme.Vscode.RecallRoundTrip

namespace Mneme.Vscode

open Library

/-! ### The printed lines -/

def nameLine (name : String) : String :=
  "  " ++ name

def depthLine (layer : Nat × List String) : String :=
  "depth " ++ toString layer.1 ++ ": " ++ toString layer.2.length ++ " dependent(s)"

/-- The names printed under some depth. -/
def printedNames (printed : Cli.Printed) : List String :=
  printed.layers.flatMap Prod.snd

variable (layers : List (List String))

theorem layers_printed {depth : Nat} (below : 0 < depth) :
    (((layers.zipIdx depth).filter Cli.isShown).map Prod.swap).flatMap Prod.snd =
      layers.flatten := by
  induction layers generalizing depth with
  | nil => rfl
  | cons layer rest ih =>
      rw [List.zipIdx_cons, List.filter_cons, List.flatten_cons, ← ih (Nat.succ_pos depth)]
      split
      · rw [List.map_cons, List.flatMap_cons]
        rfl
      · rename_i hidden
        unfold Cli.isShown at hidden
        have empty : layer = [] := by
          by_contra filled
          exact hidden (decide_eq_true ⟨Nat.ne_of_gt below, filled⟩)
        rw [empty]
        rfl

theorem printedNames_printLayers :
    printedNames (Cli.printLayers layers) = (layers.drop 1).flatten := by
  unfold printedNames Cli.printLayers
  cases layers with
  | nil => rfl
  | cons own rest =>
      rw [List.zipIdx_cons, List.filter_cons_of_neg (by simp [Cli.isShown])]
      exact layers_printed rest Nat.zero_lt_one

theorem printedNames_length :
    (printedNames (Cli.printLayers layers)).length = (Cli.printLayers layers).total := by
  rw [printedNames_printLayers, List.length_flatten]
  rfl

theorem splitLines_plain {lines : List String} (free : ∀ line ∈ lines, '\n' ∉ line.toList) :
    splitLines (Cli.stdout lines).toList = lines.map (fun line => chop line.toList) ++ [[]] := by
  rw [splitLines_stdout, List.map_eq_flatMap]
  congr 1
  exact List.flatMap_congr (fun line member => splitLines_free (chop_free (free line member)))

variable (layer : Nat × List String)

theorem depthLine_toList : (depthLine layer).toList =
    "depth ".toList ++ (toString layer.1).toList ++ ": ".toList ++
      (toString layer.2.length).toList ++ " dependent(s)".toList := by
  unfold depthLine
  simp only [String.toList_append]

theorem chop_depthLine : chop (depthLine layer).toList = (depthLine layer).toList := by
  rw [depthLine_toList]
  exact chop_append (by decide) rfl

theorem chop_blastHeading (target : String) (total : Nat) :
    chop (Cli.blastHeading target total).toList = (Cli.blastHeading target total).toList := by
  unfold Cli.blastHeading
  rw [String.toList_append]
  exact chop_append (by decide) rfl

theorem toLower_digit {char : Char} (digit : isDigit char = true) : char.toLower ≠ 'c' := by
  unfold isDigit at digit
  simp only [Bool.and_eq_true, decide_eq_true_eq] at digit
  unfold Char.toLower
  split
  · rename_i capital
    have lower := UInt32.le_iff_toNat_le.mp capital.1
    change 65 ≤ char.toNat at lower
    omega
  · rintro rfl
    exact absurd digit.2 (by decide)

theorem no_letter {text : List Char} {letter : Char}
    (test : (text.all fun char => decide (char.toLower ≠ letter)) = true) :
    ∀ char ∈ text, char.toLower ≠ letter := by
  intro char inside
  exact of_decide_eq_true (List.all_eq_true.mp test char inside)

theorem depthLine_uncounted : headerCounts (depthLine layer).toList = none := by
  apply uncounted
  intro char inside
  rw [depthLine_toList] at inside
  simp only [List.mem_append] at inside
  have front : ∀ char ∈ "depth ".toList, char.toLower ≠ 'c' := no_letter rfl
  have middle : ∀ char ∈ ": ".toList, char.toLower ≠ 'c' := no_letter rfl
  have back : ∀ char ∈ " dependent(s)".toList, char.toLower ≠ 'c' := no_letter rfl
  rcases inside with (((inFront | inDepth) | inMiddle) | inCount) | inBack
  · exact front char inFront
  · exact toLower_digit (isDigit_of_printed inDepth)
  · exact middle char inMiddle
  · exact toLower_digit (isDigit_of_printed inCount)
  · exact back char inBack

/-! ### The sites -/

/-- The line adds a site, as the editor splits it. -/
def isSiteLine (line : String) : Bool :=
  decide (SiteLine (chop line.toList))

theorem isSiteLine_first {line : String} {first : Char}
    (starts : ((chop line.toList).dropWhile isSpace).head? = some first) (other : first ≠ '-') :
    ¬ isSiteLine line = true := by
  unfold isSiteLine
  rw [decide_eq_true_eq]
  rintro ⟨_, spelled⟩
  rw [← blastSite?_isSome, unsited starts other] at spelled
  cases spelled

theorem blank_unsited : ¬ isSiteLine "" = true := by
  unfold isSiteLine
  rw [decide_eq_true_eq]
  rintro ⟨_, lead, gap, file, digits, space, symbol, blanks, split, _⟩
  have impossible := (List.append_eq_nil_iff.mp split.symm).2
  cases impossible

theorem depthLine_unsited : ¬ isSiteLine (depthLine layer) = true := by
  apply isSiteLine_first
  · rw [chop_depthLine, depthLine_toList]
    rfl
  · decide

theorem heading_unsited (target : String) (total : Nat) :
    ¬ isSiteLine (Cli.blastHeading target total) = true := by
  apply isSiteLine_first
  · rw [chop_blastHeading]
    unfold Cli.blastHeading
    simp only [String.toList_append]
    rfl
  · decide

theorem layerLines_sites :
    (Cli.layerLines layer).filter isSiteLine = (layer.2.map nameLine).filter isSiteLine := by
  change (depthLine layer :: (layer.2.map nameLine ++ [""])).filter isSiteLine = _
  rw [List.filter_cons_of_neg (depthLine_unsited layer), List.filter_append,
    List.filter_cons_of_neg blank_unsited]
  exact List.append_nil _

theorem lines_sites (printed : Cli.Printed) (target : String) :
    (printed.lines target).filter isSiteLine =
      ((printedNames printed).map nameLine).filter isSiteLine := by
  unfold Cli.Printed.lines printedNames
  rw [List.filter_cons_of_neg (heading_unsited target printed.total),
    List.filter_cons_of_neg blank_unsited, List.filter_flatMap, List.map_flatMap,
    List.filter_flatMap]
  exact List.flatMap_congr (fun layer _ => layerLines_sites layer)

/-! ### The numbers -/

theorem blank_uncounted : headerCounts [] = none :=
  uncounted (by simp)

variable {printed : Cli.Printed}

theorem lines_uncounted (sites : ∀ name ∈ printedNames printed, isSiteLine (nameLine name) = true) :
    ∀ line ∈ "" :: printed.layers.flatMap Cli.layerLines,
      headerCounts (chop line.toList) = none := by
  rw [List.forall_mem_cons]
  refine ⟨blank_uncounted, ?_⟩
  intro line member
  obtain ⟨layer, held, inLayer⟩ := List.mem_flatMap.mp member
  change line ∈ depthLine layer :: (layer.2.map nameLine ++ [""]) at inLayer
  rcases List.mem_cons.mp inLayer with rfl | inNames
  · rw [chop_depthLine]
    exact depthLine_uncounted layer
  · rcases List.mem_append.mp inNames with named | last
    · obtain ⟨name, inside, rfl⟩ := List.mem_map.mp named
      have site := sites name (List.mem_flatMap.mpr ⟨layer, held, inside⟩)
      exact (of_decide_eq_true site).1
    · cases List.mem_singleton.mp last
      exact blank_uncounted

def nothingRead : BlastResult :=
  { directCallers := 0, transitiveCallers := 0, sites := [] }

theorem heading_counts (raw : List Char) :
    counts (blastLine nothingRead raw) = (headerCounts raw).getD (0, 0) := by
  unfold blastLine
  cases headerCounts raw with
  | some read => rfl
  | none =>
      cases blastSite? raw with
      | none => rfl
      | some site => rfl

/-! ### The round trip -/

theorem lines_free {target : String} (targetFree : '\n' ∉ target.toList)
    (namesFree : ∀ name ∈ printedNames printed, '\n' ∉ name.toList) :
    ∀ line ∈ printed.lines target, '\n' ∉ line.toList := by
  have numbers : ∀ number : Nat, '\n' ∉ (toString number).toList := fun number =>
    newline_not_digit (fun char inside => isDigit_of_printed inside)
  unfold Cli.Printed.lines
  rw [List.forall_mem_cons, List.forall_mem_cons]
  refine ⟨?_, by decide, ?_⟩
  · unfold Cli.blastHeading
    simp only [String.toList_append, List.mem_append, not_or]
    exact ⟨⟨⟨⟨by decide, targetFree⟩, by decide⟩, numbers printed.total⟩, by decide⟩
  · intro line member
    obtain ⟨layer, held, inLayer⟩ := List.mem_flatMap.mp member
    change line ∈ depthLine layer :: (layer.2.map nameLine ++ [""]) at inLayer
    rcases List.mem_cons.mp inLayer with rfl | inNames
    · rw [depthLine_toList]
      simp only [List.mem_append, not_or]
      exact ⟨⟨⟨⟨by decide, numbers layer.1⟩, by decide⟩, numbers layer.2.length⟩, by decide⟩
    · rcases List.mem_append.mp inNames with named | last
      · obtain ⟨name, inside, rfl⟩ := List.mem_map.mp named
        unfold nameLine
        rw [String.toList_append, List.mem_append, not_or]
        exact ⟨by decide, namesFree name (List.mem_flatMap.mpr ⟨layer, held, inside⟩)⟩
      · cases List.mem_singleton.mp last
        decide

section Blast

variable {printed : Cli.Printed} {target : String} (targetFree : '\n' ∉ target.toList)
  (namesFree : ∀ name ∈ printedNames printed, '\n' ∉ name.toList)

include targetFree namesFree

theorem parseBlast_sites :
    (parseBlast (Cli.stdout (printed.lines target))).sites.length =
      (((printedNames printed).map nameLine).filter isSiteLine).length := by
  have last : [[]].filter (fun line => decide (SiteLine line)) = [] :=
    List.filter_cons_of_neg blank_unsited
  unfold parseBlast
  rw [foldl_sites, splitLines_plain (lines_free targetFree namesFree), List.filter_append, last,
    List.append_nil, List.filter_map, List.length_map, ← lines_sites printed target]
  exact Nat.zero_add _

theorem parseBlast_counts
    (sites : ∀ name ∈ printedNames printed, isSiteLine (nameLine name) = true) :
    counts (parseBlast (Cli.stdout (printed.lines target))) =
      (headerCounts (Cli.blastHeading target printed.total).toList).getD (0, 0) := by
  have uncountedLines : ∀ raw ∈ ("" :: printed.layers.flatMap Cli.layerLines).map
      (fun line => chop line.toList) ++ [[]], headerCounts raw = none := by
    intro raw member
    rcases List.mem_append.mp member with inLines | last
    · obtain ⟨line, held, rfl⟩ := List.mem_map.mp inLines
      exact lines_uncounted sites line held
    · cases List.mem_singleton.mp last
      exact blank_uncounted
  unfold parseBlast
  rw [splitLines_plain (lines_free targetFree namesFree)]
  unfold Cli.Printed.lines
  rw [List.map_cons, List.cons_append, List.foldl_cons, foldl_counts uncountedLines,
    chop_blastHeading]
  exact heading_counts _

end Blast

/-! ### Both commands -/

/-- The hits read are the printed ones; `raw` tells which line each was read from. -/
def RecallUndone (query : String) (hits : List Common.RecallHit) : Prop :=
  parseRecallHits (Cli.stdout (Cli.printHits hits query)) = hits.map ownHit

/-- The numbers read are those of the direct and of all dependents, and there is a site for
each dependent. -/
def BlastUndone (target : String) (layers : List (List String)) : Prop :=
  let printed := Cli.printLayers layers
  let result := parseBlast (Cli.stdout (printed.lines target))
  result.directCallers = (layers.getD 1 []).length ∧ result.transitiveCallers = printed.total ∧
    result.sites.length = printed.total

/-- The heading, which quotes the target, carries the two numbers, or none and both are
zero. -/
def QuotesCounts (heading : String) (direct transitive : Nat) : Prop :=
  (headerCounts heading.toList).getD (0, 0) = (direct, transitive)

theorem counts_eq {result : BlastResult} {direct transitive : Nat} :
    counts result = (direct, transitive) ↔
      result.directCallers = direct ∧ result.transitiveCallers = transitive :=
  Prod.mk_inj

theorem blast_undone_iff {target : String} {layers : List (List String)}
    (targetFree : '\n' ∉ target.toList)
    (namesFree : ∀ layer ∈ layers.drop 1, ∀ name ∈ layer, '\n' ∉ name.toList) :
    BlastUndone target layers ↔
      (∀ layer ∈ layers.drop 1, ∀ name ∈ layer, SiteLine (chop (nameLine name).toList)) ∧
      QuotesCounts (Cli.blastHeading target (Cli.printLayers layers).total)
        (layers.getD 1 []).length (Cli.printLayers layers).total := by
  have names : ∀ test : String → Prop, (∀ name ∈ printedNames (Cli.printLayers layers), test name) ↔
      ∀ layer ∈ layers.drop 1, ∀ name ∈ layer, test name := by
    intro test
    rw [printedNames_printLayers]
    simp only [List.mem_flatten, forall_exists_index, and_imp]
    exact ⟨fun all layer held name inside => all name layer held inside,
      fun all name layer held inside => all layer held name inside⟩
  have free := (names (fun name => '\n' ∉ name.toList)).mpr namesFree
  have sites : (parseBlast (Cli.stdout ((Cli.printLayers layers).lines target))).sites.length =
      (Cli.printLayers layers).total ↔
      ∀ name ∈ printedNames (Cli.printLayers layers), isSiteLine (nameLine name) = true := by
    have lengths : ((printedNames (Cli.printLayers layers)).map nameLine).length =
        (Cli.printLayers layers).total := by
      rw [List.length_map, printedNames_length]
    rw [parseBlast_sites targetFree free, ← lengths, List.length_filter_eq_length_iff]
    exact List.forall_mem_map
  rw [← names (fun name => SiteLine (chop (nameLine name).toList))]
  have lines : (∀ name ∈ printedNames (Cli.printLayers layers), isSiteLine (nameLine name) = true) ↔
      ∀ name ∈ printedNames (Cli.printLayers layers), SiteLine (chop (nameLine name).toList) := by
    unfold isSiteLine
    simp only [decide_eq_true_eq]
  rw [← lines]
  unfold BlastUndone QuotesCounts
  constructor
  · rintro ⟨direct, transitive, length⟩
    have all := sites.mp length
    rw [← parseBlast_counts targetFree free all]
    exact ⟨all, Iff.mpr counts_eq ⟨direct, transitive⟩⟩
  · rintro ⟨all, quoted⟩
    rw [← parseBlast_counts targetFree free all] at quoted
    obtain ⟨direct, transitive⟩ := Iff.mp counts_eq quoted
    exact ⟨direct, transitive, sites.mpr all⟩

/-- The editor undoes what is printed where the qualified name of every hit spells its
name and place, the query quotes no hit, the dependents are named like sites and the
target quotes their numbers. -/
theorem undone_iff {query target : String} {hits : List Common.RecallHit}
    {layers : List (List String)} (plain : ∀ hit ∈ hits, Plain hit)
    (targetFree : '\n' ∉ target.toList)
    (namesFree : ∀ layer ∈ layers.drop 1, ∀ name ∈ layer, '\n' ∉ name.toList) :
    (RecallUndone query hits ∧ BlastUndone target layers ↔
      (Quiet (Cli.hitsHeading hits query) ∧ ∀ hit ∈ hits, Legible hit) ∧
      (∀ layer ∈ layers.drop 1, ∀ name ∈ layer, SiteLine (chop (nameLine name).toList)) ∧
      QuotesCounts (Cli.blastHeading target (Cli.printLayers layers).total)
        (layers.getD 1 []).length (Cli.printLayers layers).total) ∧
    ('\n' ∉ query.toList → (RecallUndone query hits ↔
      (parseRecallHits (Cli.stdout (Cli.printHits hits query))).map fields =
        hits.map ownFields)) :=
  ⟨and_congr (recall_undone_iff plain query) (blast_undone_iff targetFree namesFree),
    fun oneLine => (fields_undone_iff plain oneLine).symm⟩

/-! ### Two answers -/

/-- A hit without a place, whose two names are one. -/
def switched : Common.RecallHit :=
  { kind := "decision", name := "switched to sqlite", qualifiedName := "switched to sqlite"
    filePath := none, lineStart := none }

/-- Names that spell what the editor looks for. -/
theorem switched_undone :
    (Quiet (Cli.hitsHeading [switched] "sqlite") ∧ ∀ hit ∈ [switched], Legible hit) ∧
    (∀ layer ∈ [["- a.rs:1 y"]], ∀ name ∈ layer, SiteLine (chop (nameLine name).toList)) ∧
    QuotesCounts (Cli.blastHeading "callers: 1 transitive: 1" 1) 1 1 := by
  have plain : ∀ hit ∈ [switched], Plain hit := by
    intro hit member
    cases List.mem_singleton.mp member
    exact ⟨by decide, by decide, by decide, fun file path => by cases path⟩
  have recallUndone : RecallUndone "sqlite" [switched] := by
    unfold RecallUndone
    decide +kernel
  have blastUndone : BlastUndone "callers: 1 transitive: 1" [["x"], ["- a.rs:1 y"]] := by
    unfold BlastUndone
    decide +kernel
  exact (undone_iff plain (by decide) (by decide)).1.mp ⟨recallUndone, blastUndone⟩

def doThing : Common.RecallHit :=
  { kind := "function", name := "do_thing", qualifiedName := "foo::do_thing"
    filePath := some "src/foo.rs", lineStart := some 42 }

/-- The place of a hit is printed on a line of its own, and no line carries the numbers of
the dependents. -/
theorem doThing_lost :
    ((parseRecallHits (Cli.stdout (Cli.printHits [doThing] "thing"))).map fields =
      [("function", "foo::do_thing", none, none)] ∧
      [("function", "foo::do_thing", none, none)] ≠ [doThing].map ownFields ∧
      ¬ RecallUndone "thing" [doThing]) ∧
    parseBlast (Cli.stdout ((Cli.printLayers [["do_thing"], ["helper"]]).lines "do_thing")) =
      { directCallers := 0, transitiveCallers := 0, sites := [] } ∧
    ¬ BlastUndone "do_thing" [["do_thing"], ["helper"]] := by
  unfold RecallUndone BlastUndone
  decide +kernel

end Mneme.Vscode
