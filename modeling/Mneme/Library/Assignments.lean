/-
Expressions for assignments: a name, a separator among blanks, and a value between quotes.

The blanks may cross the end of a line.  An assignment can be read in one way only, so what is
found of it in a text alone is found in a longer text as well.
-/

import Mneme.Library.Expressions

namespace Mneme.Library.Expression

open Search

/-- The classes of an assignment. -/
structure Marks where
  blank : Char → Bool
  separator : Char → Bool
  quote : Char → Bool

def Marks.gap (marks : Marks) (char : Char) : Bool :=
  marks.blank char || marks.separator char

def assignment (marks : Marks) (name value : Expression) : Expression :=
  seq name (seq (many marks.blank 0 none) (seq (one marks.separator)
    (seq (many marks.blank 0 none) (seq (one marks.quote) (seq value (one marks.quote))))))

variable {word : Char → Bool} {marks : Marks} {name value : Expression} {behind ahead : List Char}
  {taken : Nat}

/-- The parts that an assignment is read in, and what is behind it. -/
structure Parts where
  called : List Char
  gap : List Char
  first : Char
  text : List Char
  last : Char
  rest : List Char

def Parts.whole (parts : Parts) : List Char :=
  parts.called ++ (parts.gap ++ parts.first :: (parts.text ++ parts.last :: parts.rest))

def Parts.length (parts : Parts) : Nat :=
  parts.called.length + parts.gap.length + parts.text.length + 2

structure Parts.Reads (word : Char → Bool) (marks : Marks) (name value : Expression)
    (behind : List Char) (parts : Parts) : Prop where
  called : parts.called.length ∈ name.readings word behind parts.whole
  someGap : parts.gap ≠ []
  gap : ∀ char ∈ parts.gap, marks.gap char = true
  first : marks.quote parts.first = true
  text : ∀ char ∈ parts.text, value.uses char = true
  last : marks.quote parts.last = true

theorem parts_of_mem (member : taken ∈ (assignment marks name value).readings word behind ahead) :
    ∃ parts : Parts, parts.Reads word marks name value behind ∧ ahead = parts.whole ∧
      taken = parts.length := by
  obtain ⟨called, _, _, rfl, named, _, behindName, rfl⟩ := split_of_mem_seq member
  obtain ⟨left, _, _, rfl, _, lefts, behindLeft, rfl⟩ := split_of_mem_seq behindName
  obtain ⟨middle, _, _, rfl, one_, middles, behindMark, rfl⟩ := split_of_mem_seq behindLeft
  obtain ⟨right, _, _, rfl, _, rights, behindRight, rfl⟩ := split_of_mem_seq behindMark
  obtain ⟨opening, _, _, rfl, one', opens, behindQuote, rfl⟩ := split_of_mem_seq behindRight
  obtain ⟨text, _, _, rfl, _, used, behindText, rfl⟩ := split_of_mem_seq behindQuote
  obtain ⟨rfl, last, rest, rfl, closes⟩ := mem_readings_one.mp behindText
  obtain ⟨first, rfl⟩ := List.length_eq_one_iff.mp (mem_readings_one.mp one').1
  have sizeMiddle := (mem_readings_one.mp one_).1
  let parts : Parts := ⟨called, left ++ (middle ++ right), first, text, last, rest⟩
  have whole : called ++ (left ++ (middle ++ (right ++ ([first] ++ (text ++ last :: rest))))) =
      parts.whole := by
    simp [parts, Parts.whole]
  rw [whole] at named ⊢
  refine ⟨parts, ⟨named, ?_, ?_, opens first (List.mem_singleton_self first), used, closes⟩,
    rfl, ?_⟩
  · intro empty
    rw [(List.append_eq_nil_iff.mp (List.append_eq_nil_iff.mp empty).2).1] at sizeMiddle
    cases sizeMiddle
  · intro char member
    unfold Marks.gap
    rw [Bool.or_eq_true]
    rcases List.mem_append.mp member with member | member
    · exact Or.inl (lefts char member)
    · rcases List.mem_append.mp member with member | member
      · exact Or.inr (middles char member)
      · exact Or.inl (rights char member)
  · simp only [parts, Parts.length, List.length_append, List.length_singleton]
    omega

/-- What makes an assignment readable in one way: no blank and no separator in its name and in
its value, and no quote in the value. -/
structure Assigns (word : Char → Bool) (marks : Marks) (name value : Expression) : Prop where
  named : ∀ behind ahead, 0 ∉ name.readings word behind ahead
  name : ∀ char, name.uses char = true → marks.gap char = false
  quote : ∀ char, marks.quote char = true → marks.gap char = false
  value : ∀ char, value.uses char = true → marks.gap char = false ∧ marks.quote char = false

theorem reached {items items' rest rest' : List Char} {x y : Char}
    (same : items ++ x :: rest = items' ++ y :: rest') (short : items'.length ≤ items.length) :
    (∃ between, items = items' ++ y :: between) ∨ (items = items' ∧ x = y) := by
  rcases List.append_eq_append_iff.mp same with ⟨more, rfl, later⟩ | ⟨more, rfl, later⟩
  · cases more with
    | nil =>
        injection later with same _
        exact Or.inr ⟨(List.append_nil items).symm, same⟩
    | cons char more =>
        rw [List.length_append, List.length_cons] at short
        omega
  · cases more with
    | nil =>
        injection later with same _
        exact Or.inr ⟨List.append_nil items', same.symm⟩
    | cons char more =>
        injection later with same _
        exact Or.inl ⟨more, by rw [same]⟩

namespace Parts.Reads

variable {parts parts' : Parts} (assigns : Assigns word marks name value)
  (reads : parts.Reads word marks name value behind)
include assigns reads

theorem solid : ∀ char ∈ parts.called, marks.gap char = false := by
  intro char inside
  apply assigns.name char
  apply (used_of_mem reads.called).2 char
  rw [whole, List.take_left]
  exact inside

/-- The parts end where the text stops to be solid, to be a gap, and to be without a quote. -/
theorem spans : parts.whole.takeWhile (fun char => !marks.gap char) = parts.called ∧
    (parts.whole.drop parts.called.length).takeWhile marks.gap = parts.gap ∧
    (parts.whole.drop (parts.called.length + parts.gap.length + 1)).takeWhile
      (fun char => !marks.quote char) = parts.text := by
  obtain ⟨char, gap, some_⟩ := List.exists_cons_of_ne_nil reads.someGap
  refine ⟨?_, ?_, ?_⟩
  · rw [whole, List.takeWhile_append_of_pos, some_, List.cons_append,
      List.takeWhile_cons_of_neg, List.append_nil]
    · rw [reads.gap char (some_ ▸ List.mem_cons_self)]
      decide
    · intro char inside
      rw [reads.solid assigns char inside]
      rfl
  · rw [whole, List.drop_left, List.takeWhile_append_of_pos reads.gap,
      List.takeWhile_cons_of_neg, List.append_nil]
    rw [assigns.quote _ reads.first]
    decide
  · rw [whole, Nat.add_assoc, ← List.drop_drop, List.drop_left, ← List.drop_drop, List.drop_left,
      List.drop_one, List.tail_cons, List.takeWhile_append_of_pos, List.takeWhile_cons_of_neg,
      List.append_nil]
    · rw [reads.last]
      decide
    · intro char inside
      rw [(assigns.value char (reads.text char inside)).2]
      rfl

theorem unique (reads' : parts'.Reads word marks name value behind)
    (same : parts.whole = parts'.whole) : parts.length = parts'.length := by
  obtain ⟨called, gap, text⟩ := reads.spans assigns
  obtain ⟨called', gap', text'⟩ := reads'.spans assigns
  rw [same] at called gap text
  have sameCalled : parts.called = parts'.called := called.symm.trans called'
  have sameGap : parts.gap = parts'.gap := by rw [← gap, sameCalled, gap']
  have sameText : parts.text = parts'.text := by rw [← text, sameCalled, sameGap, text']
  rw [length, length, sameCalled, sameGap, sameText]

/-- Behind a gap nothing is solid before the value begins. -/
theorem crossing {stop : Char} (crosses : marks.gap stop = true) {before after : List Char}
    (split : before ++ stop :: after = parts.whole) (inside : before.length < parts.length) :
    ∃ left right, parts.gap = left ++ stop :: right ∧ before = parts.called ++ left ∧
      after = right ++ parts.first :: (parts.text ++ parts.last :: parts.rest) := by
  unfold whole at split
  rcases List.append_eq_append_iff.mp split with ⟨more, called, rest⟩ | ⟨left, rfl, rest⟩
  · cases more with
    | nil =>
        obtain ⟨char, gap, some_⟩ := List.exists_cons_of_ne_nil reads.someGap
        rw [List.nil_append, some_, List.cons_append] at rest
        injection rest with same rest
        rw [List.append_nil] at called
        exact ⟨[], gap, by rw [some_, same, List.nil_append], by rw [called, List.append_nil], rest⟩
    | cons char more =>
        injection rest with same _
        have solid := reads.solid assigns stop (by rw [called, same]; simp)
        rw [crosses] at solid
        cases solid
  · rcases List.append_eq_append_iff.mp rest.symm with ⟨more, gap, later⟩ | ⟨more, rfl, later⟩
    · cases more with
      | nil =>
          injection later with same _
          have solid := assigns.quote _ reads.first
          rw [← same, crosses] at solid
          cases solid
      | cons char right =>
          injection later with same later
          exact ⟨left, right, by rw [gap, same], rfl, later⟩
    · have gapless : marks.gap stop = false := by
        cases more with
        | nil =>
            injection later with same _
            rw [← same]
            exact assigns.quote _ reads.first
        | cons char more =>
            injection later with _ later
            have short : more.length ≤ parts.text.length := by
              simp only [length, List.length_append, List.length_cons] at inside
              omega
            rcases reached later short with ⟨between, text⟩ | ⟨_, same⟩
            · apply (assigns.value stop (reads.text stop _)).1
              rw [text]
              exact List.mem_append_right more List.mem_cons_self
            · rw [← same]
              exact assigns.quote _ reads.last
      rw [crosses] at gapless
      cases gapless

end Parts.Reads

variable {stop : Char} {before after text : List Char}

theorem agrees_assignment (assigns : Assigns word marks name value)
    (endless : (assignment marks name value).endless = true) (apart : word stop = false)
    (crosses : marks.gap stop = true) :
    Agrees ((assignment marks name value).find word) (stop :: before) text (stop :: after) := by
  have within : ∀ front ahead : List Char, ∀ taken ≤ ahead.length,
      taken ∈ (assignment marks name value).readings word (front.reverse ++ stop :: before)
        (ahead ++ stop :: after) ↔
      taken ∈ (assignment marks name value).readings word front.reverse ahead :=
    fun front ahead taken short => mem_readings_within endless (alike_stop apart front before)
      (show (stop :: after).head?.any word = false from apart) short
  refine ⟨?_, ?_⟩
  · intro front ahead taken _ found
    have member := mem_of_find found
    have member' := (within front ahead taken (used_of_mem member).1).mpr member
    obtain ⟨taken', found'⟩ := Option.isSome_iff_exists.mp
      (List.isSome_head?.mpr (List.ne_nil_of_mem member'))
    refine ⟨taken', found', Or.inl ?_⟩
    obtain ⟨parts, reads, split, rfl⟩ := parts_of_mem member'
    obtain ⟨parts', reads', split', rfl⟩ := parts_of_mem (mem_of_find found')
    exact reads'.unique assigns reads (split'.symm.trans split)
  · intro front ahead taken _ none found
    have member := mem_of_find found
    have far : ahead.length < taken := by
      by_contra short
      have member' := (within front ahead taken (Nat.le_of_not_lt short)).mp member
      rw [find, List.head?_eq_none_iff] at none
      rw [none] at member'
      cases member'
    obtain ⟨parts, reads, split, rfl⟩ := parts_of_mem member
    obtain ⟨left, right, gap, rfl, _⟩ := reads.crossing assigns crosses split far
    -- only gaps are behind the name, so no value begins there
    intro front' ahead' split'
    apply Option.eq_none_iff_forall_not_mem.mpr
    intro taken' found'
    obtain ⟨parts', reads', rfl, _⟩ := parts_of_mem (mem_of_find found')
    have ordered : (parts.called ++ left).Pairwise
        (fun x y => marks.gap x = true → marks.gap y = true) := by
      apply List.pairwise_append.mpr
      refine ⟨?_, ?_, ?_⟩
      · apply List.pairwise_of_forall_mem_list
        intro x member _ _ opened
        rw [reads.solid assigns x member] at opened
        cases opened
      · apply List.pairwise_of_forall_mem_list
        intro _ _ y member _
        exact reads.gap y (by rw [gap]; exact List.mem_append_left _ member)
      · intro x member _ _ opened
        rw [reads.solid assigns x member] at opened
        cases opened
    obtain ⟨char, gap', some_⟩ := List.exists_cons_of_ne_nil reads'.someGap
    have here := reads'.gap char (some_ ▸ List.mem_cons_self)
    rw [split', Parts.whole, some_, ← List.append_assoc, List.cons_append] at ordered
    have behind := List.rel_of_pairwise_cons (List.pairwise_append.mp ordered).2.1
      (List.mem_append_right gap' List.mem_cons_self) here
    rw [assigns.quote _ reads'.first] at behind
    cases behind

/-- No name begins within a value or at a quote. -/
def Begins (word : Char → Bool) (marks : Marks) (name value : Expression) : Prop :=
  ∀ behind ahead taken, taken ∈ name.readings word behind ahead →
    ∃ front char back, ahead.take taken = front ++ char :: back ∧
      (∀ other ∈ front, value.uses other = true) ∧ value.uses char = false ∧
      marks.quote char = false

/-- Between a gap and the end of a value there is no place where a name begins. -/
theorem no_start (assigns : Assigns word marks name value)
    {front used tail gap within rest : List Char} {char first last : Char}
    (same : front ++ (used ++ char :: tail) = gap ++ first :: (within ++ last :: rest))
    (early : front.length < gap.length + within.length + 2)
    (solid : ∀ other ∈ used ++ [char], marks.gap other = false)
    (uses : ∀ other ∈ used, value.uses other = true) (unused : value.uses char = false)
    (unquoted : marks.quote char = false) (gaps : ∀ other ∈ gap, marks.gap other = true)
    (opens : marks.quote first = true) (inside : ∀ other ∈ within, value.uses other = true)
    (closes : marks.quote last = true) : False := by
  have notQuote : ∀ other ∈ used ++ [char], marks.quote other = false := by
    intro other member
    rcases List.mem_append.mp member with member | member
    · exact (assigns.value other (uses other member)).2
    · rw [List.mem_singleton.mp member]
      exact unquoted
  obtain ⟨head, name, starts⟩ : ∃ head name, used ++ char :: tail = head :: name ∧
      head ∈ used ++ [char] := by
    cases used with
    | nil => exact ⟨char, tail, rfl, by simp⟩
    | cons head used => exact ⟨head, used ++ char :: tail, rfl, by simp⟩
  rcases List.append_eq_append_iff.mp same with ⟨more, split, later⟩ | ⟨more, rfl, later⟩
  · cases more with
    | nil =>
        rw [starts.1] at later
        injection later with quote _
        have none := notQuote head starts.2
        rw [quote, opens] at none
        cases none
    | cons other more =>
        rw [starts.1] at later
        injection later with same _
        have gap := gaps other (by rw [split]; simp)
        rw [← same, solid head starts.2] at gap
        cases gap
  · cases more with
    | nil =>
        rw [List.nil_append, starts.1] at later
        injection later with quote _
        have none := notQuote head starts.2
        rw [← quote, opens] at none
        cases none
    | cons other more =>
        injection later with _ later
        have short : more.length ≤ within.length := by
          rw [List.length_append, List.length_cons] at early
          omega
        change within ++ last :: rest = more ++ (used ++ char :: tail) at later
        rw [← List.append_assoc] at later
        by_cases long : (more ++ used).length ≤ within.length
        · rcases reached later long with ⟨between, split⟩ | ⟨_, quote⟩
          · rw [inside char (by rw [split]; simp)] at unused
            cases unused
          · rw [← quote, closes] at unquoted
            cases unquoted
        · rcases reached later.symm (Nat.le_of_not_le long) with ⟨between, split⟩ | ⟨equal, _⟩
          · -- the closing quote would be one of the characters before
            have member : last ∈ used := by
              rcases List.append_eq_append_iff.mp split with ⟨cut, _, used⟩ | ⟨cut, rfl, used⟩
              · rw [used]
                simp
              · rw [List.length_append] at short
                rw [List.length_eq_zero_iff.mp (show cut.length = 0 by omega),
                  List.nil_append] at used
                rw [← used]
                exact List.mem_cons_self
            have none := notQuote last (List.mem_append_left _ member)
            rw [closes] at none
            cases none
          · rw [equal] at long
            exact long (le_refl _)

/-- An assignment that goes on in the text ends before another one begins there. -/
theorem first_assignment (assigns : Assigns word marks name value)
    (begins : Begins word marks name value) (crosses : marks.gap stop = true) :
    FirstFrom (findIter ((assignment marks name value).find word) 0 [] text)
      (overhang ((assignment marks name value).find word) 0 [] (before ++ [stop])
        (text ++ after)) := by
  rintro ⟨place, taken⟩ first
  by_contra overlap
  obtain ⟨_, ending, taken', splitFront, nonempty, found', long⟩ :=
    overhang_pos (Nat.lt_of_le_of_lt (Nat.zero_le _) (Nat.lt_of_not_le overlap)) (Nat.zero_le _)
  obtain ⟨front, ahead, rfl, here, found⟩ := found_of_mem (List.mem_of_mem_head? first)
  obtain ⟨ending, rfl⟩ : ∃ start, ending = start ++ [stop] := by
    have last := congrArg List.getLast? splitFront
    rw [List.getLast?_concat, List.getLast?_append_of_ne_nil _ nonempty] at last
    exact List.getLast?_eq_some_iff.mp last.symm
  obtain ⟨parts, reads, split, rfl⟩ := parts_of_mem (mem_of_find found)
  obtain ⟨parts', reads', split', rfl⟩ := parts_of_mem (mem_of_find found')
  rw [List.append_assoc, List.singleton_append] at split'
  rw [List.length_append, List.length_singleton] at long
  obtain ⟨left, right, gap, rfl, behind⟩ := reads'.crossing assigns crosses split' (by omega)
  obtain ⟨used, char, more, called, within, unused, unquoted⟩ := begins _ _ _ reads.called
  rw [Parts.whole, List.take_left] at called
  have early : front.length < right.length + parts'.text.length + 2 := by
    simp only [Parts.length, gap, List.length_append, List.length_cons] at long
    simp only [List.length_nil] at here
    omega
  have starts : ∃ tail, front ++ (used ++ char :: tail) =
      right ++ parts'.first :: (parts'.text ++ parts'.last :: parts'.rest) := by
    rw [← behind, split, Parts.whole, called]
    exact ⟨more ++ (parts.gap ++ parts.first :: (parts.text ++ parts.last :: parts.rest)) ++ after,
      by simp⟩
  obtain ⟨tail, starts⟩ := starts
  have solid : ∀ other ∈ used ++ [char], marks.gap other = false := by
    intro other member
    apply reads.solid assigns other
    rw [called, ← List.singleton_append, ← List.append_assoc]
    exact List.mem_append_left more member
  exact no_start assigns starts early solid within unused unquoted
    (fun other member => reads'.gap other (by rw [gap]; simp [member])) reads'.first reads'.text
    reads'.last

end Mneme.Library.Expression
