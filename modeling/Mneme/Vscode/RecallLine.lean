/-
Which lines the parser of recall takes for a hit, and which place it reads off a name.
-/

import Mneme.Vscode.Parse

namespace Mneme.Vscode

open Library

/-! ### Characters -/

theorem isChar_iff {expected char : Char} : isChar expected char = true ↔ char = expected := by
  unfold isChar
  rw [decide_eq_true_eq]

variable {char : Char}

theorem isSolid_iff : isSolid char = true ↔ isSpace char = false := by
  unfold isSolid
  rw [Bool.not_eq_true']

theorem isSpace_of_not_isInLine (ends : isInLine char = false) : isSpace char = true := by
  unfold isInLine at ends
  unfold isSpace
  simp only [Bool.not_eq_false', Bool.or_eq_true, Bool.and_eq_true, decide_eq_true_eq] at ends ⊢
  omega

theorem isInLine_of_isSolid (solid : isSolid char = true) : isInLine char = true := by
  cases inside : isInLine char with
  | true => rfl
  | false =>
      rw [isSolid_iff, isSpace_of_not_isInLine inside] at solid
      cases solid

theorem trim_split (text : List Char) : ∃ front back, text = front ++ (trim text ++ back) ∧
    (∀ char ∈ front, isSpace char = true) ∧ ∀ char ∈ back, isSpace char = true :=
  trimmed_split text

variable {front back text raw rest kind body raw' : List Char}

theorem trim_around {middle : List Char} (before : ∀ char ∈ front, isSpace char = true)
    (after : ∀ char ∈ back, isSpace char = true) : trim (front ++ (middle ++ back)) = trim middle :=
  trimmed_around before after

theorem trim_before (before : ∀ char ∈ front, isSpace char = true) :
    trim (front ++ text) = trim text := by
  have around : trim (front ++ (text ++ [])) = trim text := trim_around before (by simp)
  rwa [List.append_nil] at around

theorem trim_behind (after : ∀ char ∈ back, isSpace char = true) :
    trim (text ++ back) = trim text := by
  have around : trim ([] ++ (text ++ back)) = trim text := trim_around (by simp) after
  exact around

theorem trim_trim (text : List Char) : trim (trim text) = trim text := by
  obtain ⟨front, back, split, before, after⟩ := trim_split text
  have same : trim (front ++ (trim text ++ back)) = trim (trim text) := trim_around before after
  rw [← split] at same
  exact same.symm

variable {text : List Char}

theorem isSolid_of_first (first : (trim text).head? = some char) : isSolid char = true :=
  Iff.mpr isSolid_iff (head?_trimmed first)

theorem isSpace_of_last (last : (trim text).getLast? = some char) : isSpace char = false :=
  getLast?_trimmed last

theorem mem_of_mem_trim (inside : char ∈ trim text) : char ∈ text := by
  obtain ⟨front, back, split, _, _⟩ := trim_split text
  rw [split]
  exact List.mem_append_right _ (List.mem_append_left _ inside)

/-! ### Titles -/

/-- A line `[kind] body`, with blanks in front, in between and behind. -/
def Titled (raw kind body : List Char) : Prop :=
  ∃ lead space rest, raw = lead ++ '[' :: (kind ++ ']' :: space :: rest) ∧
    (∀ char ∈ lead, isSpace char = true) ∧ kind ≠ [] ∧ ']' ∉ kind ∧ isSpace space = true ∧
    trim rest = body ∧ body ≠ [] ∧ ∀ char ∈ body, isInLine char = true

theorem lineRegex_reads {groups : List (List Char)} :
    lineRegex.Reads raw groups rest ↔ rest = [] ∧ ∃ lead kind gap first more tail,
      raw = lead ++ '[' :: (kind ++ ']' :: (gap ++ (first :: more ++ tail))) ∧
      groups = [kind, first :: more] ∧ (∀ char ∈ lead, isSpace char = true) ∧ kind ≠ [] ∧
      ']' ∉ kind ∧ (∀ char ∈ gap, isSpace char = true) ∧ gap ≠ [] ∧ isSolid first = true ∧
      (∀ char ∈ more, isInLine char = true) ∧ ∀ char ∈ tail, isSpace char = true := by
  have kindFree : ∀ kind : List Char,
      (∀ char ∈ kind, (!isChar ']' char) = true) ↔ ']' ∉ kind := by
    intro kind
    constructor
    · intro free inside
      have apart := free ']' inside
      cases apart
    · intro free char inside
      cases same : isChar ']' char with
      | true => exact absurd (Iff.mp isChar_iff same ▸ inside) free
      | false => rfl
  unfold lineRegex
  rw [Regex.reads_many]
  simp only [Regex.reads_one, Regex.reads_group_many, Regex.reads_many,
    Regex.reads_group_one_few, Regex.reads_stop, kindFree, isChar_iff, Nat.one_le_iff_ne_zero,
    ne_eq, List.length_eq_zero_iff]
  constructor
  · rintro ⟨lead, _, rfl, leadSpaces, _, _, _, rfl, rfl, kind, _, _, rfl, free, filled, ⟨_, _, rfl,
      rfl, gap, _, rfl, gapSpaces, gapSome, first, more, _, _, rfl, solid, inLine, _, ⟨tail, _,
      rfl, tailSpaces, _, rfl, rfl, rfl⟩, rfl⟩, rfl⟩
    refine ⟨rfl, lead, kind, gap, first, more, tail, ?_, rfl, leadSpaces, filled, free, gapSpaces,
      gapSome, solid, inLine, tailSpaces⟩
    rw [List.append_nil]
    rfl
  · rintro ⟨rfl, lead, kind, gap, first, more, tail, rfl, rfl, leadSpaces, filled, free, gapSpaces,
      gapSome, solid, inLine, tailSpaces⟩
    exact ⟨lead, _, rfl, leadSpaces, Nat.zero_le _, _, _, rfl, rfl, kind, _, _, rfl, free, filled,
      ⟨_, _, rfl, rfl, gap, _, rfl, gapSpaces, gapSome, first, more, tail, [], rfl, solid, inLine,
      Nat.zero_le _, ⟨tail, [], (List.append_nil tail).symm, tailSpaces, Nat.zero_le _, rfl, rfl,
      rfl⟩, rfl⟩, rfl⟩

theorem titled_of_reads
    (reads : lineRegex.Reads raw [kind, text] rest) : Titled raw kind (trim text) := by
  obtain ⟨_, lead, kind', gap, first, more, tail, split, groups, leadSpaces, filled, free, gapSpaces,
    gapSome, solid, inLine, tailSpaces⟩ := Iff.mp lineRegex_reads reads
  cases groups
  cases gap with
  | nil => exact absurd rfl gapSome
  | cons space gap =>
      rw [List.forall_mem_cons] at gapSpaces
      refine ⟨lead, space, gap ++ (first :: more ++ tail), split, leadSpaces, filled, free,
        gapSpaces.1, trim_around gapSpaces.2 tailSpaces, ?_, ?_⟩
      · intro empty
        have blank := trimmed_eq_nil.mp empty first (List.mem_cons_self ..)
        rw [Iff.mp isSolid_iff solid] at blank
        cases blank
      · intro char inside
        rcases List.mem_cons.mp (mem_of_mem_trim inside) with rfl | later
        · exact isInLine_of_isSolid solid
        · exact inLine char later

variable {raw kind body : List Char}

theorem reads_of_titled (titled : Titled raw kind body) : lineRegex.Reads raw [kind, body] [] := by
  obtain ⟨lead, space, rest, rfl, leadSpaces, filled, free, blank, rfl, bodySome, inLine⟩ := titled
  obtain ⟨front, back, split, before, after⟩ := trim_split rest
  cases body : trim rest with
  | nil => exact absurd body bodySome
  | cons first more =>
      have solid : isSolid first = true := by
        have head : (trim rest).head? = some first := by
          rw [body]
          rfl
        exact isSolid_of_first head
      rw [body] at split inLine
      rw [List.forall_mem_cons] at inLine
      refine Iff.mpr lineRegex_reads ⟨rfl, lead, kind, space :: front, first, more, back, ?_, rfl,
        leadSpaces, filled, free, List.forall_mem_cons.mpr ⟨blank, before⟩, List.cons_ne_nil _ _,
        solid, inLine.2, after⟩
      rw [split]
      rfl

theorem dropWhile_opening {lead : List Char} (rest : List Char)
    (spaces : ∀ char ∈ lead, isSpace char = true) :
    (lead ++ '[' :: rest).dropWhile isSpace = '[' :: rest := by
  apply dropWhile_block spaces
  intro char first
  cases Option.some.inj first
  rfl

theorem titled_unique {kind' body' : List Char} (titled : Titled raw kind body)
    (titled' : Titled raw kind' body') : kind = kind' ∧ body = body' := by
  obtain ⟨lead, space, rest, split, spaces, _, free, _, rfl, _, _⟩ := titled
  obtain ⟨lead', space', rest', split', spaces', _, free', _, rfl, _, _⟩ := titled'
  have dropped := dropWhile_opening (kind ++ ']' :: space :: rest) spaces
  have dropped' := dropWhile_opening (kind' ++ ']' :: space' :: rest') spaces'
  rw [← split, split', dropped'] at dropped
  injection dropped with _ same
  obtain ⟨kinds, rests⟩ := cut_unique free' free same
  injection rests with _ rests
  exact ⟨kinds.symm, by rw [rests]⟩

theorem titled_wider
    (before : ∀ char ∈ front, isSpace char = true) (after : ∀ char ∈ back, isSpace char = true)
    (titled : Titled raw kind body) : Titled (front ++ (raw ++ back)) kind body := by
  obtain ⟨lead, space, rest, rfl, spaces, filled, free, blank, rfl, bodySome, inLine⟩ := titled
  refine ⟨front ++ lead, space, rest ++ back, ?_, ?_, filled, free, blank, ?_, bodySome, inLine⟩
  · simp only [List.append_assoc, List.cons_append]
  · intro char inside
    exact (List.mem_append.mp inside).elim (before char) (spaces char)
  · exact trim_behind after

/-- Blanks around a line do not matter. -/
theorem titled_trim : Titled (trim raw) kind body ↔ Titled raw kind body := by
  constructor
  · intro titled
    obtain ⟨front, back, split, before, after⟩ := trim_split raw
    rw [split]
    exact titled_wider before after titled
  · rintro ⟨lead, space, rest, rfl, spaces, filled, free, blank, rfl, bodySome, inLine⟩
    obtain ⟨front, back, split, before, after⟩ := trim_split rest
    have block : trim (lead ++ '[' :: (kind ++ ']' :: space :: rest)) =
        '[' :: (kind ++ ']' :: space :: (front ++ trim rest)) := by
      have regroup : lead ++ '[' :: (kind ++ ']' :: space :: rest) =
          lead ++ ('[' :: (kind ++ ']' :: space :: (front ++ trim rest)) ++ back) := by
        conv_lhs => rw [split]
        simp only [List.append_assoc, List.cons_append]
      rw [regroup]
      apply trimmed_block spaces after
      · intro char first
        cases Option.some.inj first
        rfl
      · intro char last
        apply isSpace_of_last
        cases ends : (trim rest).getLast? with
        | none => exact absurd (List.getLast?_eq_none_iff.mp ends) bodySome
        | some other =>
            have whole : ('[' :: (kind ++ ']' :: space :: (front ++ trim rest))).getLast? =
                some other := by
              have regroup : '[' :: (kind ++ ']' :: space :: (front ++ trim rest)) =
                  ('[' :: (kind ++ ']' :: space :: front)) ++ trim rest := by
                simp only [List.append_assoc, List.cons_append]
              rw [regroup, List.getLast?_append, ends]
              rfl
            rw [whole] at last
            exact last
    rw [block]
    refine ⟨[], space, front ++ trim rest, rfl, by simp, filled, free, blank, ?_, bodySome, inLine⟩
    rw [trim_before before, trim_trim]

theorem trim_chop (line : List Char) : trim (chop line) = trim line := by
  obtain ⟨back, split, spaces⟩ := chop_split line
  conv_rhs => rw [split]
  exact (trim_behind spaces).symm

/-! ### Hits -/

theorem recallHit?_of_titled (titled : Titled raw kind body) :
    recallHit? raw = some (hitOf raw (trim kind) body) := by
  obtain ⟨⟨groups, rest⟩, preferred⟩ := Regex.exists_first (reads_of_titled titled)
  have reads := Regex.reads_of_first preferred
  obtain ⟨_, lead, kind', gap, first, more, tail, _, rfl, _⟩ := Iff.mp lineRegex_reads reads
  obtain ⟨rfl, bodies⟩ := titled_unique titled (titled_of_reads reads)
  unfold recallHit?
  rw [preferred, bodies]

theorem titled_of_recallHit? {hit : RecallHit} (read : recallHit? raw = some hit) :
    ∃ kind body, Titled raw kind body ∧ hit = hitOf raw (trim kind) body := by
  unfold recallHit? at read
  split at read
  · rename_i kind text rest preferred
    cases read
    exact ⟨kind, trim text, titled_of_reads (Regex.reads_of_first preferred), rfl⟩
  · cases read

theorem recallHit?_none (untitled : ∀ kind body, ¬ Titled raw kind body) :
    recallHit? raw = none := by
  cases read : recallHit? raw with
  | none => rfl
  | some hit =>
      obtain ⟨kind, body, titled, _⟩ := titled_of_recallHit? read
      exact absurd titled (untitled kind body)

theorem hitOf_congr (same : trim raw = trim raw') : hitOf raw kind body = hitOf raw' kind body := by
  unfold hitOf
  rw [same]

theorem recallHit?_congr (same : trim raw = trim raw') : recallHit? raw = recallHit? raw' := by
  by_cases titled : ∃ kind body, Titled raw kind body
  · obtain ⟨kind, body, titled⟩ := titled
    have titled' : Titled raw' kind body := by
      rw [← titled_trim, ← same]
      exact Iff.mpr titled_trim titled
    rw [recallHit?_of_titled titled, recallHit?_of_titled titled', hitOf_congr same]
  · have untitled' : ∀ kind body, ¬ Titled raw' kind body := by
      intro kind body titled'
      apply titled
      refine ⟨kind, body, ?_⟩
      rw [← titled_trim, same]
      exact Iff.mpr titled_trim titled'
    rw [recallHit?_none (fun kind body found => titled ⟨kind, body, found⟩),
      recallHit?_none untitled']

end Mneme.Vscode
