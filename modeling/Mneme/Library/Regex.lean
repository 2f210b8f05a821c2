/-
Regular expressions read by backtracking: every way to read a text from its start, the
preferred ones first, and the leftmost place where there is one.

A quantifier repeats one class of characters.
-/

import Mathlib.Data.List.Pairwise

namespace Mneme.Library

inductive Regex where
  | empty
  | one (accept : Char → Bool)
  /-- At least so many, the longest run first. -/
  | many (least : Nat) (accept : Char → Bool)
  /-- At least so many, the shortest run first. -/
  | few (least : Nat) (accept : Char → Bool)
  | seq (first second : Regex)
  /-- Once, or else not at all. -/
  | option (inner : Regex)
  | group (inner : Regex)
  | stop

/-- What the groups hold, and what is left of the text. -/
structure Reading where
  groups : List (List Char)
  rest : List Char
deriving DecidableEq

/-- What each run of the class leaves, the shortest run first. -/
def leftovers (accept : Char → Bool) : List Char → List (List Char)
  | [] => [[]]
  | char :: rest => (char :: rest) :: if accept char then leftovers accept rest else []

def atLeast (least : Nat) (text rest : List Char) : Bool :=
  rest.length + least ≤ text.length

namespace Regex

def readings : Regex → List Char → List Reading
  | .empty, text => [⟨[], text⟩]
  | .one _, [] => []
  | .one accept, char :: rest => if accept char then [⟨[], rest⟩] else []
  | .many least accept, text =>
      ((leftovers accept text).reverse.filter (atLeast least text)).map (fun rest => ⟨[], rest⟩)
  | .few least accept, text =>
      ((leftovers accept text).filter (atLeast least text)).map (fun rest => ⟨[], rest⟩)
  | .seq first second, text =>
      (first.readings text).flatMap (fun front =>
        (second.readings front.rest).map (fun back => ⟨front.groups ++ back.groups, back.rest⟩))
  | .option inner, text => inner.readings text ++ [⟨[], text⟩]
  | .group inner, text =>
      (inner.readings text).map (fun reading =>
        ⟨text.take (text.length - reading.rest.length) :: reading.groups, reading.rest⟩)
  | .stop, [] => [⟨[], []⟩]
  | .stop, _ :: _ => []

/-- The preferred way to read a text from its start. -/
def first (pattern : Regex) (text : List Char) : Option Reading :=
  (pattern.readings text).head?

/-- The leftmost place where the pattern reads, with what is before it. -/
def exec (pattern : Regex) : List Char → Option (List Char × Reading)
  | [] => (pattern.first []).map (fun reading => ([], reading))
  | char :: rest =>
      match pattern.first (char :: rest) with
      | some reading => some ([], reading)
      | none => (pattern.exec rest).map (fun found => (char :: found.1, found.2))

/-! ### Which readings there are -/

/-- The pattern reads the text up to `rest`, with these groups. -/
def Reads : Regex → List Char → List (List Char) → List Char → Prop
  | .empty, text, groups, rest => groups = [] ∧ rest = text
  | .one accept, text, groups, rest =>
      groups = [] ∧ ∃ char, text = char :: rest ∧ accept char = true
  | .many least accept, text, groups, rest =>
      groups = [] ∧ ∃ run, text = run ++ rest ∧ (∀ char ∈ run, accept char = true) ∧
        least ≤ run.length
  | .few least accept, text, groups, rest =>
      groups = [] ∧ ∃ run, text = run ++ rest ∧ (∀ char ∈ run, accept char = true) ∧
        least ≤ run.length
  | .seq first second, text, groups, rest =>
      ∃ front middle back, first.Reads text front middle ∧ second.Reads middle back rest ∧
        groups = front ++ back
  | .option inner, text, groups, rest => inner.Reads text groups rest ∨ (groups = [] ∧ rest = text)
  | .group inner, text, groups, rest =>
      ∃ taken within, text = taken ++ rest ∧ inner.Reads text within rest ∧ groups = taken :: within
  | .stop, text, groups, rest => text = [] ∧ groups = [] ∧ rest = []

end Regex

theorem mem_leftovers {accept : Char → Bool} {text rest : List Char} :
    rest ∈ leftovers accept text ↔
      ∃ run, text = run ++ rest ∧ ∀ char ∈ run, accept char = true := by
  induction text with
  | nil =>
      constructor
      · intro member
        cases List.mem_singleton.mp member
        exact ⟨[], rfl, by simp⟩
      · rintro ⟨run, split, _⟩
        exact List.mem_singleton.mpr (List.append_eq_nil_iff.mp split.symm).2
  | cons char tail ih =>
      constructor
      · intro member
        rcases List.mem_cons.mp member with whole | later
        · exact ⟨[], whole.symm, by simp⟩
        · split at later
          · rename_i accepted
            obtain ⟨run, split, accepts⟩ := ih.mp later
            refine ⟨char :: run, congrArg (List.cons char) split, ?_⟩
            exact List.forall_mem_cons.mpr ⟨accepted, accepts⟩
          · cases later
      · rintro ⟨run, split, accepts⟩
        cases run with
        | nil => exact List.mem_cons.mpr (Or.inl split.symm)
        | cons head run =>
            injection split with same split
            have accepted : accept char = true := same ▸ accepts head (List.mem_cons_self ..)
            apply List.mem_cons_of_mem
            rw [if_pos accepted]
            exact ih.mpr ⟨run, split, fun other member =>
              accepts other (List.mem_cons_of_mem head member)⟩

theorem leftovers_pairwise (accept : Char → Bool) (text : List Char) :
    (leftovers accept text).Pairwise (fun left right => right.length < left.length) := by
  induction text with
  | nil => exact List.pairwise_singleton _ _
  | cons char tail ih =>
      unfold leftovers
      split
      · rw [List.pairwise_cons]
        refine ⟨?_, ih⟩
        intro rest member
        obtain ⟨run, split, _⟩ := Iff.mp mem_leftovers member
        rw [split, List.length_cons, List.length_append]
        omega
      · exact List.pairwise_singleton _ _

namespace Regex

variable {text rest : List Char}

variable {accept : Char → Bool}

theorem mem_runs {least : Nat} :
    (rest ∈ leftovers accept text ∧ atLeast least text rest = true) ↔
      ∃ run, text = run ++ rest ∧ (∀ char ∈ run, accept char = true) ∧ least ≤ run.length := by
  have enough : ∀ run : List Char, text = run ++ rest →
      (atLeast least text rest = true ↔ least ≤ run.length) := by
    intro run split
    unfold atLeast
    rw [decide_eq_true_eq, split, List.length_append]
    omega
  rw [mem_leftovers]
  constructor
  · rintro ⟨⟨run, split, accepts⟩, long⟩
    exact ⟨run, split, accepts, (enough run split).mp long⟩
  · rintro ⟨run, split, accepts, long⟩
    exact ⟨⟨run, split, accepts⟩, (enough run split).mpr long⟩

variable {pattern : Regex}

variable {groups : List (List Char)}

theorem suffix_of_reads
    (reads : pattern.Reads text groups rest) : ∃ taken, taken ++ rest = text := by
  induction pattern generalizing text groups rest with
  | empty =>
      obtain ⟨_, same⟩ := reads
      exact ⟨[], same⟩
  | one accept =>
      obtain ⟨_, char, split, _⟩ := reads
      exact ⟨[char], split.symm⟩
  | many least accept =>
      obtain ⟨_, run, split, _⟩ := reads
      exact ⟨run, split.symm⟩
  | few least accept =>
      obtain ⟨_, run, split, _⟩ := reads
      exact ⟨run, split.symm⟩
  | seq first second ihFirst ihSecond =>
      obtain ⟨_, middle, _, before, after, _⟩ := reads
      obtain ⟨front, splitFront⟩ := ihFirst before
      obtain ⟨back, splitBack⟩ := ihSecond after
      exact ⟨front ++ back, by rw [List.append_assoc, splitBack, splitFront]⟩
  | option inner ih =>
      rcases reads with within | ⟨_, same⟩
      · exact ih within
      · exact ⟨[], same⟩
  | group inner ih =>
      obtain ⟨taken, _, split, _, _⟩ := reads
      exact ⟨taken, split.symm⟩
  | stop =>
      obtain ⟨empty, _, same⟩ := reads
      exact ⟨[], by rw [same, empty]; rfl⟩

variable {text : List Char}

variable {reading : Reading}

theorem mem_readings :
    reading ∈ pattern.readings text ↔ pattern.Reads text reading.groups reading.rest := by
  induction pattern generalizing text reading with
  | empty =>
      unfold readings Reads
      rw [List.mem_singleton]
      constructor
      · rintro rfl
        exact ⟨rfl, rfl⟩
      · rintro ⟨none, same⟩
        cases reading
        cases none
        cases same
        rfl
  | one accept =>
      cases text with
      | nil => simp [readings, Reads]
      | cons char rest =>
          unfold readings Reads
          split
          · rename_i accepted
            rw [List.mem_singleton]
            constructor
            · intro same
              rw [same]
              exact ⟨rfl, char, rfl, accepted⟩
            · rintro ⟨none, other, same, _⟩
              injection same with _ same
              cases reading
              cases none
              cases same
              rfl
          · rename_i refused
            constructor
            · intro impossible
              cases impossible
            · rintro ⟨_, other, same, accepted⟩
              injection same with same _
              exact absurd (same ▸ accepted) refused
  | many least accept =>
      unfold readings Reads
      rw [← mem_runs]
      simp only [List.mem_map, List.mem_filter, List.mem_reverse]
      constructor
      · rintro ⟨rest, kept, rfl⟩
        exact ⟨rfl, kept⟩
      · rintro ⟨none, kept⟩
        exact ⟨reading.rest, kept, by cases reading; cases none; rfl⟩
  | few least accept =>
      unfold readings Reads
      rw [← mem_runs]
      simp only [List.mem_map, List.mem_filter]
      constructor
      · rintro ⟨rest, kept, rfl⟩
        exact ⟨rfl, kept⟩
      · rintro ⟨none, kept⟩
        exact ⟨reading.rest, kept, by cases reading; cases none; rfl⟩
  | seq first second ihFirst ihSecond =>
      unfold readings Reads
      simp only [List.mem_flatMap, List.mem_map]
      constructor
      · rintro ⟨front, before, back, after, rfl⟩
        have later : second.Reads front.rest back.groups back.rest := ihSecond.mp after
        exact ⟨front.groups, front.rest, back.groups, ihFirst.mp before, later, rfl⟩
      · rintro ⟨front, middle, back, before, after, groups⟩
        refine ⟨⟨front, middle⟩, ihFirst.mpr before, ⟨back, reading.rest⟩, ihSecond.mpr after, ?_⟩
        cases reading
        cases groups
        rfl
  | option inner ih =>
      unfold readings Reads
      rw [List.mem_append, List.mem_singleton, ih]
      apply or_congr Iff.rfl
      constructor
      · rintro rfl
        exact ⟨rfl, rfl⟩
      · rintro ⟨none, same⟩
        cases reading
        cases none
        cases same
        rfl
  | group inner ih =>
      unfold readings Reads
      rw [List.mem_map]
      constructor
      · rintro ⟨within, member, rfl⟩
        obtain ⟨taken, split⟩ := suffix_of_reads (ih.mp member)
        refine ⟨taken, within.groups, split.symm, ih.mp member, ?_⟩
        change text.take (text.length - within.rest.length) :: _ = _
        rw [← split, List.length_append, Nat.add_sub_cancel, List.take_left]
      · rintro ⟨taken, within, split, member, groups⟩
        refine ⟨⟨within, reading.rest⟩, ih.mpr member, ?_⟩
        cases reading
        cases groups
        rw [split, List.length_append, Nat.add_sub_cancel, List.take_left]
  | stop =>
      cases text with
      | nil =>
          unfold readings Reads
          rw [List.mem_singleton]
          constructor
          · rintro rfl
            exact ⟨rfl, rfl, rfl⟩
          · rintro ⟨_, none, same⟩
            cases reading
            cases none
            cases same
            rfl
      | cons char rest => simp [readings, Reads]

/-! ### One part after the other -/

section Parts

variable {accept : Char → Bool} {least : Nat} {next : Regex}
  {groups : List (List Char)}

theorem reads_stop : stop.Reads text groups rest ↔ text = [] ∧ groups = [] ∧ rest = [] :=
  Iff.rfl

theorem reads_one : (seq (one accept) next).Reads text groups rest ↔
    ∃ char after, text = char :: after ∧ accept char = true ∧ next.Reads after groups rest := by
  constructor
  · rintro ⟨_, after, back, ⟨rfl, char, split, accepted⟩, later, rfl⟩
    exact ⟨char, after, split, accepted, later⟩
  · rintro ⟨char, after, split, accepted, later⟩
    exact ⟨[], after, groups, ⟨rfl, char, split, accepted⟩, later, rfl⟩

theorem reads_many : (seq (many least accept) next).Reads text groups rest ↔
    ∃ run after, text = run ++ after ∧ (∀ char ∈ run, accept char = true) ∧
      least ≤ run.length ∧ next.Reads after groups rest := by
  constructor
  · rintro ⟨_, after, back, ⟨rfl, run, split, accepts, long⟩, later, rfl⟩
    exact ⟨run, after, split, accepts, long, later⟩
  · rintro ⟨run, after, split, accepts, long, later⟩
    exact ⟨[], after, groups, ⟨rfl, run, split, accepts, long⟩, later, rfl⟩

theorem reads_group {inner : Regex} : (seq (group inner) next).Reads text groups rest ↔
    ∃ taken after within later, text = taken ++ after ∧ inner.Reads text within after ∧
      next.Reads after later rest ∧ groups = taken :: (within ++ later) := by
  constructor
  · rintro ⟨_, after, later, ⟨taken, within, split, reads, rfl⟩, continued, rfl⟩
    exact ⟨taken, after, within, later, split, reads, continued, rfl⟩
  · rintro ⟨taken, after, within, later, split, reads, continued, rfl⟩
    exact ⟨taken :: within, after, later, ⟨taken, within, split, reads, rfl⟩, continued, rfl⟩

theorem reads_group_many : (seq (group (many least accept)) next).Reads text groups rest ↔
    ∃ run after later, text = run ++ after ∧ (∀ char ∈ run, accept char = true) ∧
      least ≤ run.length ∧ next.Reads after later rest ∧ groups = run :: later := by
  rw [reads_group]
  constructor
  · rintro ⟨taken, after, _, later, split, ⟨rfl, run, again, accepts, long⟩, continued, rfl⟩
    have same : taken = run := List.append_cancel_right (split.symm.trans again)
    cases same
    exact ⟨taken, after, later, split, accepts, long, continued, rfl⟩
  · rintro ⟨run, after, later, split, accepts, long, continued, rfl⟩
    exact ⟨run, after, [], later, split, ⟨rfl, run, split, accepts, long⟩, continued, rfl⟩

theorem reads_group_few : (seq (group (few least accept)) next).Reads text groups rest ↔
    ∃ run after later, text = run ++ after ∧ (∀ char ∈ run, accept char = true) ∧
      least ≤ run.length ∧ next.Reads after later rest ∧ groups = run :: later :=
  reads_group_many

theorem reads_group_one_few {lead : Char → Bool} :
    (seq (group (seq (one lead) (few least accept))) next).Reads text groups rest ↔
      ∃ char run after later, text = char :: (run ++ after) ∧ lead char = true ∧
        (∀ char ∈ run, accept char = true) ∧ least ≤ run.length ∧
        next.Reads after later rest ∧ groups = (char :: run) :: later := by
  rw [reads_group]
  constructor
  · rintro ⟨taken, after, _, later, split, ⟨_, _, _, ⟨rfl, char, whole, leads⟩,
      ⟨rfl, run, more, accepts, long⟩, rfl⟩, continued, rfl⟩
    rw [more] at whole
    have same : taken = char :: run := List.append_cancel_right (split.symm.trans whole)
    exact ⟨char, run, after, later, whole, leads, accepts, long, continued, by rw [same]; rfl⟩
  · rintro ⟨char, run, after, later, split, leads, accepts, long, continued, rfl⟩
    exact ⟨char :: run, after, [], later, split, ⟨[], run ++ after, [], ⟨rfl, char, split, leads⟩,
      ⟨rfl, run, rfl, accepts, long⟩, rfl⟩, continued, rfl⟩

theorem reads_assoc {front back : Regex} : (seq (seq front back) next).Reads text groups rest ↔
    (seq front (seq back next)).Reads text groups rest := by
  constructor
  · rintro ⟨_, after, last, ⟨first, middle, second, before, between, rfl⟩, later, rfl⟩
    exact ⟨first, middle, second ++ last, before, ⟨second, after, last, between, later, rfl⟩,
      List.append_assoc ..⟩
  · rintro ⟨first, middle, _, before, ⟨second, after, last, between, later, rfl⟩, rfl⟩
    exact ⟨first ++ second, after, last, ⟨first, middle, second, before, between, rfl⟩, later,
      (List.append_assoc ..).symm⟩

theorem reads_option {inner : Regex} : (seq (option inner) next).Reads text groups rest ↔
    (seq inner next).Reads text groups rest ∨ next.Reads text groups rest := by
  constructor
  · rintro ⟨front, middle, back, within | ⟨rfl, rfl⟩, later, rfl⟩
    · exact Or.inl ⟨front, middle, back, within, later, rfl⟩
    · exact Or.inr later
  · rintro (⟨front, middle, back, within, later, rfl⟩ | later)
    · exact ⟨front, middle, back, Or.inl within, later, rfl⟩
    · exact ⟨[], text, groups, Or.inr ⟨rfl, rfl⟩, later, rfl⟩

end Parts

/-! ### Which one is preferred -/

theorem reads_of_first (preferred : pattern.first text = some reading) :
    pattern.Reads text reading.groups reading.rest :=
  Iff.mp mem_readings (List.mem_of_head? preferred)

theorem first_eq_none :
    pattern.first text = none ↔ ∀ groups rest, ¬ pattern.Reads text groups rest := by
  unfold first
  rw [List.head?_eq_none_iff, List.eq_nil_iff_forall_not_mem]
  constructor
  · intro unread groups rest reads
    have member : ⟨groups, rest⟩ ∈ pattern.readings text := Iff.mpr mem_readings reads
    exact unread _ member
  · intro unread reading member
    exact unread _ _ (Iff.mp mem_readings member)

theorem exists_first
    (reads : pattern.Reads text groups rest) : ∃ reading, pattern.first text = some reading := by
  cases preferred : pattern.first text with
  | none => exact absurd reads (Iff.mp first_eq_none preferred groups rest)
  | some reading => exact ⟨reading, rfl⟩

theorem first_seq (front back : Regex) (text : List Char) :
    (seq front back).first text = (front.readings text).findSome? (fun reading =>
      (back.first reading.rest).map (fun later =>
        ⟨reading.groups ++ later.groups, later.rest⟩)) := by
  unfold first
  rw [readings, List.head?_flatMap]
  congr 1
  funext reading
  rw [List.head?_map]

theorem findSome?_preferred {Item Result : Type} {before : Item → Item → Prop}
    {items : List Item} {choose : Item → Option Result} {result : Result}
    (asymm : ∀ left right, before left right → ¬ before right left)
    (sorted : items.Pairwise before) :
    items.findSome? choose = some result ↔
      ∃ item ∈ items, choose item = some result ∧
        ∀ other ∈ items, before other item → choose other = none := by
  constructor
  · intro found
    obtain ⟨earlier, item, later, rfl, chosen, unchosen⟩ := List.findSome?_eq_some_iff.mp found
    refine ⟨item, by simp, chosen, ?_⟩
    intro other member ahead
    rcases List.mem_append.mp member with inEarlier | rest
    · exact unchosen other inEarlier
    · rcases List.mem_cons.mp rest with same | inLater
      · rw [same] at ahead
        exact absurd ahead (asymm item item ahead)
      · have behind := List.rel_of_pairwise_cons (List.pairwise_append.mp sorted).2.1 inLater
        exact absurd behind (asymm other item ahead)
  · rintro ⟨item, member, chosen, unchosen⟩
    obtain ⟨earlier, later, rfl⟩ := List.append_of_mem member
    apply List.findSome?_eq_some_iff.mpr
    refine ⟨earlier, item, later, rfl, chosen, ?_⟩
    intro other inEarlier
    apply unchosen other (List.mem_append_left _ inEarlier)
    exact (List.pairwise_append.mp sorted).2.2 other inEarlier item (List.mem_cons_self ..)

/-- A group of the shortest run after which the rest of the pattern reads. -/
theorem first_group_few {least : Nat} {next : Regex} :
    (seq (group (few least accept)) next).first text = some reading ↔
      ∃ run rest later, text = run ++ rest ∧ (∀ char ∈ run, accept char = true) ∧
        least ≤ run.length ∧ next.first rest = some later ∧
        reading = ⟨run :: later.groups, later.rest⟩ ∧
        ∀ run' rest', text = run' ++ rest' → (∀ char ∈ run', accept char = true) →
          least ≤ run'.length → run'.length < run.length → next.first rest' = none := by
  rw [first_seq, readings, readings, List.map_map, List.findSome?_map]
  rw [findSome?_preferred (fun left right shorter longer => Nat.lt_asymm shorter longer)
    ((leftovers_pairwise accept text).filter _)]
  constructor
  · rintro ⟨rest, member, chosen, unchosen⟩
    obtain ⟨run, split, accepts, long⟩ := Iff.mp mem_runs (List.mem_filter.mp member)
    obtain ⟨later, preferred, same⟩ := Option.map_eq_some_iff.mp chosen
    refine ⟨run, rest, later, split, accepts, long, preferred, ?_, ?_⟩
    · rw [← same]
      change Reading.mk (text.take (text.length - rest.length) :: _) _ = _
      rw [split, List.length_append, Nat.add_sub_cancel, List.take_left]
      rfl
    · intro run' rest' split' accepts' long' shorter
      have kept := List.mem_filter.mpr (Iff.mpr mem_runs ⟨run', split', accepts', long'⟩)
      have behind : rest.length < rest'.length := by
        have lengths := congrArg List.length (split.symm.trans split')
        rw [List.length_append, List.length_append] at lengths
        omega
      exact Option.map_eq_none_iff.mp (unchosen rest' kept behind)
  · rintro ⟨run, rest, later, split, accepts, long, preferred, rfl, unread⟩
    refine ⟨rest, List.mem_filter.mpr (Iff.mpr mem_runs ⟨run, split, accepts, long⟩), ?_, ?_⟩
    · change (next.first rest).map _ = _
      rw [preferred, Option.map_some]
      change some (Reading.mk ([text.take (text.length - rest.length)] ++ _) _) = _
      rw [split, List.length_append, Nat.add_sub_cancel, List.take_left]
      rfl
    · intro rest' member behind
      obtain ⟨run', split', accepts', long'⟩ := Iff.mp mem_runs (List.mem_filter.mp member)
      have shorter : run'.length < run.length := by
        have lengths := congrArg List.length (split.symm.trans split')
        rw [List.length_append, List.length_append] at lengths
        omega
      exact Option.map_eq_none_iff.mpr (unread run' rest' split' accepts' long' shorter)

/-! ### The leftmost place -/

theorem exec_eq_none :
    pattern.exec text = none ↔
      ∀ before after, text = before ++ after → pattern.first after = none := by
  induction text with
  | nil =>
      unfold exec
      rw [Option.map_eq_none_iff]
      constructor
      · intro unread before after split
        rw [(List.append_eq_nil_iff.mp split.symm).2]
        exact unread
      · intro unread
        exact unread [] [] rfl
  | cons char rest ih =>
      unfold exec
      cases here : pattern.first (char :: rest) with
      | some reading =>
          constructor
          · intro impossible
            cases impossible
          · intro unread
            rw [unread [] (char :: rest) rfl] at here
            cases here
      | none =>
          simp only [Option.map_eq_none_iff]
          rw [ih]
          constructor
          · intro unread before after split
            cases before with
            | nil =>
                rw [← show char :: rest = after from split]
                exact here
            | cons head before =>
                injection split with _ split
                exact unread before after split
          · intro unread before after split
            exact unread (char :: before) after (congrArg (List.cons char) split)

theorem exec_eq_some {text before : List Char} :
    pattern.exec text = some (before, reading) ↔
      ∃ after, text = before ++ after ∧ pattern.first after = some reading ∧
        ∀ before' after', text = before' ++ after' → before'.length < before.length →
          pattern.first after' = none := by
  induction text generalizing before with
  | nil =>
      unfold exec
      rw [Option.map_eq_some_iff]
      constructor
      · rintro ⟨same, preferred, equal⟩
        cases equal
        exact ⟨[], rfl, preferred, by simp⟩
      · rintro ⟨after, split, preferred, _⟩
        obtain ⟨rfl, rfl⟩ := List.append_eq_nil_iff.mp split.symm
        exact ⟨reading, preferred, rfl⟩
  | cons char rest ih =>
      unfold exec
      cases here : pattern.first (char :: rest) with
      | some preferred =>
          constructor
          · intro found
            cases found
            exact ⟨char :: rest, rfl, here, by simp⟩
          · rintro ⟨after, split, found, unread⟩
            cases before with
            | nil =>
                have same : char :: rest = after := split
                rw [← same, here] at found
                cases found
                rfl
            | cons head before =>
                rw [unread [] (char :: rest) rfl (by simp)] at here
                cases here
      | none =>
          simp only [Option.map_eq_some_iff]
          constructor
          · rintro ⟨⟨before', later⟩, found, equal⟩
            cases equal
            obtain ⟨after, split, preferred, unread⟩ := ih.mp found
            refine ⟨after, congrArg (List.cons char) split, preferred, ?_⟩
            intro shorter after' split' length
            cases shorter with
            | nil =>
                rw [← show char :: rest = after' from split']
                exact here
            | cons head shorter =>
                injection split' with _ split'
                exact unread shorter after' split' (Nat.lt_of_succ_lt_succ length)
          · rintro ⟨after, split, preferred, unread⟩
            cases before with
            | nil =>
                rw [← show char :: rest = after from split, here] at preferred
                cases preferred
            | cons head before =>
                injection split with same split
                cases same
                refine ⟨(before, reading), ih.mpr ⟨after, split, preferred, ?_⟩, rfl⟩
                intro shorter after' split' length
                exact unread (char :: shorter) after' (congrArg (List.cons char) split')
                  (Nat.succ_lt_succ length)

end Regex

end Mneme.Library
