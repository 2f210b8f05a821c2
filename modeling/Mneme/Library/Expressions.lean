/-
Expressions that read characters from a place of a text, the preferred ways first, and the
search that goes from left to right and never begins within what it has found.

A place is known by the characters behind it, the nearest first, and by those ahead.  A
reading is known by the number of characters that it takes.
-/

import Mathlib.Data.List.Infix
import Mathlib.Data.List.TakeWhile

namespace Mneme.Library

inductive Expression where
  | nothing
  | one (accept : Char → Bool)
  | seq (first second : Expression)
  /-- The first is preferred. -/
  | either (first second : Expression)
  /-- The longest run first. -/
  | many (accept : Char → Bool) (least : Nat) (most : Option Nat)
  /-- The shortest run first. -/
  | few (accept : Char → Bool) (least : Nat) (most : Option Nat)
  /-- Between a character of a word and one of none. -/
  | boundary
  | finish

namespace Expression

/-- The lengths of the runs, the shortest first. -/
def runs (accept : Char → Bool) (least : Nat) (most : Option Nat) (ahead : List Char) : List Nat :=
  (List.range ((ahead.takeWhile accept).length + 1)).filter (fun length =>
    least ≤ length && most.all (fun most => length ≤ most))

def atBoundary (word : Char → Bool) (behind ahead : List Char) : Bool :=
  behind.head?.any word != ahead.head?.any word

def readings (word : Char → Bool) : Expression → List Char → List Char → List Nat
  | nothing, _, _ => [0]
  | one accept, _, ahead => if ahead.head?.any accept then [1] else []
  | seq first second, behind, ahead =>
      (first.readings word behind ahead).flatMap (fun taken =>
        (second.readings word ((ahead.take taken).reverse ++ behind) (ahead.drop taken)).map
          (taken + ·))
  | either first second, behind, ahead =>
      first.readings word behind ahead ++ second.readings word behind ahead
  | many accept least most, _, ahead => (runs accept least most ahead).reverse
  | few accept least most, _, ahead => runs accept least most ahead
  | boundary, behind, ahead => if atBoundary word behind ahead then [0] else []
  | finish, _, ahead => if ahead.isEmpty then [0] else []

/-- The preferred reading. -/
def find (word : Char → Bool) (expression : Expression) (behind ahead : List Char) : Option Nat :=
  (expression.readings word behind ahead).head?

def literal (text : String) : Expression :=
  text.toList.foldr (fun char rest => seq (one (· == char)) rest) nothing

def option (inner : Expression) : Expression :=
  either inner nothing

/-- Some class of the expression accepts the character. -/
def uses : Expression → Char → Bool
  | nothing, _ => false
  | one accept, char => accept char
  | seq first second, char => first.uses char || second.uses char
  | either first second, char => first.uses char || second.uses char
  | many accept _ _, char => accept char
  | few accept _ _, char => accept char
  | boundary, _ => false
  | finish, _ => false

/-- It does not ask for the end of the text. -/
def endless : Expression → Bool
  | seq first second => first.endless && second.endless
  | either first second => first.endless && second.endless
  | finish => false
  | _ => true

variable {word : Char → Bool} {expression : Expression} {behind behind' ahead : List Char}
  {taken : Nat}

variable {accept : Char → Bool}

theorem mem_runs {least : Nat} {most : Option Nat} :
    taken ∈ runs accept least most ahead ↔
      taken ≤ (ahead.takeWhile accept).length ∧ least ≤ taken ∧ ∀ limit ∈ most, taken ≤ limit := by
  unfold runs
  rw [List.mem_filter, List.mem_range, Nat.lt_succ_iff, Bool.and_eq_true, decide_eq_true_eq,
    Option.all_eq_true]
  simp only [decide_eq_true_eq, Option.mem_def]

theorem accepted_of_le (long : taken ≤ (ahead.takeWhile accept).length) :
    taken ≤ ahead.length ∧ ∀ char ∈ ahead.take taken, accept char = true := by
  refine ⟨le_trans long (List.takeWhile_prefix _).length_le, ?_⟩
  intro char member
  have early : ahead.take taken = (ahead.takeWhile accept).take taken := by
    conv_lhs => rw [← List.takeWhile_append_dropWhile (p := accept) (l := ahead)]
    exact List.take_append_of_le_length long
  rw [early] at member
  exact List.mem_takeWhile_imp (List.mem_of_mem_take member)

variable {first second : Expression}

theorem mem_readings_seq :
    taken ∈ (seq first second).readings word behind ahead ↔
      ∃ front back, front ∈ first.readings word behind ahead ∧
        back ∈ second.readings word ((ahead.take front).reverse ++ behind) (ahead.drop front) ∧
        taken = front + back := by
  rw [readings, List.mem_flatMap]
  constructor
  · rintro ⟨front, member, mapped⟩
    obtain ⟨back, member', same⟩ := List.mem_map.mp mapped
    exact ⟨front, back, member, member', same.symm⟩
  · rintro ⟨front, back, member, member', same⟩
    exact ⟨front, member, List.mem_map.mpr ⟨back, member', same.symm⟩⟩

/-- A reading takes no more than there is, and only what the expression can use. -/
theorem used_of_mem (member : taken ∈ expression.readings word behind ahead) :
    taken ≤ ahead.length ∧ ∀ char ∈ ahead.take taken, expression.uses char = true := by
  induction expression generalizing behind ahead taken with
  | nothing =>
      rw [List.mem_singleton.mp member]
      exact ⟨Nat.zero_le _, by simp⟩
  | one accept =>
      rw [readings] at member
      split at member
      · rename_i accepted
        rw [List.mem_singleton.mp member]
        cases ahead with
        | nil => cases accepted
        | cons char rest =>
            refine ⟨by simp, ?_⟩
            intro other inside
            rw [List.take_succ_cons, List.take_zero, List.mem_singleton] at inside
            rw [inside]
            exact accepted
      · cases member
  | seq first second ihFirst ihSecond =>
      obtain ⟨front, back, before, after, rfl⟩ := mem_readings_seq.mp member
      obtain ⟨long, used⟩ := ihFirst before
      obtain ⟨long', used'⟩ := ihSecond after
      rw [List.length_drop] at long'
      refine ⟨by omega, ?_⟩
      intro char inside
      rw [List.take_add] at inside
      rw [uses, Bool.or_eq_true]
      exact (List.mem_append.mp inside).imp (used char) (used' char)
  | either first second ihFirst ihSecond =>
      rw [readings, List.mem_append] at member
      simp only [uses, Bool.or_eq_true]
      rcases member with member | member
      · exact ⟨(ihFirst member).1, fun char inside => Or.inl ((ihFirst member).2 char inside)⟩
      · exact ⟨(ihSecond member).1, fun char inside => Or.inr ((ihSecond member).2 char inside)⟩
  | many accept least most =>
      rw [readings, List.mem_reverse] at member
      exact accepted_of_le (mem_runs.mp member).1
  | few accept least most =>
      rw [readings] at member
      exact accepted_of_le (mem_runs.mp member).1
  | boundary =>
      rw [readings] at member
      split at member
      · rw [List.mem_singleton.mp member]
        exact ⟨Nat.zero_le _, by simp⟩
      · cases member
  | finish =>
      rw [readings] at member
      split at member
      · rw [List.mem_singleton.mp member]
        exact ⟨Nat.zero_le _, by simp⟩
      · cases member

theorem literal_reads (text : String) (behind tail : List Char) :
    text.toList.length ∈ (literal text).readings word behind (text.toList ++ tail) := by
  unfold literal
  generalize text.toList = chars
  induction chars generalizing behind with
  | nil => exact List.mem_singleton_self 0
  | cons char chars ih =>
      refine mem_readings_seq.mpr ⟨1, chars.length, ?_, ih _, Nat.add_comm _ _⟩
      rw [readings, List.cons_append, List.head?_cons, Option.any_some, beq_self_eq_true, if_pos rfl]
      exact List.mem_singleton_self 1

/-- The fewest characters that a reading can take. -/
def shortest : Expression → Nat
  | nothing => 0
  | one _ => 1
  | seq first second => first.shortest + second.shortest
  | either first second => min first.shortest second.shortest
  | many _ least _ => least
  | few _ least _ => least
  | boundary => 0
  | finish => 0

/-- What the first part takes, and what the second one reads behind it. -/
theorem split_of_mem_seq (member : taken ∈ (seq first second).readings word behind ahead) :
    ∃ run rest back, ahead = run ++ rest ∧ run.length ∈ first.readings word behind ahead ∧
      (∀ char ∈ run, first.uses char = true) ∧
      back ∈ second.readings word (run.reverse ++ behind) rest ∧ taken = run.length + back := by
  obtain ⟨front, back, before, after, rfl⟩ := mem_readings_seq.mp member
  obtain ⟨short, used⟩ := used_of_mem before
  have size : (ahead.take front).length = front := List.length_take_of_le short
  refine ⟨ahead.take front, ahead.drop front, back, (List.take_append_drop front ahead).symm, ?_,
    used, after, by rw [size]⟩
  rw [size]
  exact before

theorem mem_readings_one :
    taken ∈ (one accept).readings word behind ahead ↔
      taken = 1 ∧ ∃ char rest, ahead = char :: rest ∧ accept char = true := by
  rw [readings]
  cases ahead with
  | nil => simp
  | cons char rest =>
      rw [List.head?_cons, Option.any_some]
      split
      · rename_i accepted
        rw [List.mem_singleton]
        constructor
        · intro same
          exact ⟨same, char, rest, rfl, accepted⟩
        · exact fun both => both.1
      · rename_i refused
        constructor
        · intro impossible
          cases impossible
        · rintro ⟨_, other, rest', same, accepted⟩
          injection same with same _
          exact absurd (same ▸ accepted) refused

theorem shortest_le (member : taken ∈ expression.readings word behind ahead) :
    expression.shortest ≤ taken := by
  induction expression generalizing behind ahead taken with
  | nothing => exact Nat.zero_le _
  | one accept => exact le_of_eq (mem_readings_one.mp member).1.symm
  | seq first second ihFirst ihSecond =>
      obtain ⟨front, back, before, after, rfl⟩ := mem_readings_seq.mp member
      exact Nat.add_le_add (ihFirst before) (ihSecond after)
  | either first second ihFirst ihSecond =>
      rcases List.mem_append.mp member with member | member
      · exact le_trans (min_le_left ..) (ihFirst member)
      · exact le_trans (min_le_right ..) (ihSecond member)
  | many accept least most => exact (mem_runs.mp (List.mem_reverse.mp member)).2.1
  | few accept least most => exact (mem_runs.mp member).2.1
  | boundary => exact Nat.zero_le _
  | finish => exact Nat.zero_le _

/-! ### A text in a longer one -/

theorem length_takeWhile_append (tail : List Char) (short : taken ≤ ahead.length) :
    taken ≤ ((ahead ++ tail).takeWhile accept).length ↔
      taken ≤ (ahead.takeWhile accept).length := by
  induction ahead generalizing taken with
  | nil =>
      rw [Nat.le_zero.mp short]
      exact iff_of_true (Nat.zero_le _) (Nat.zero_le _)
  | cons char rest ih =>
      rw [List.cons_append, List.takeWhile_cons, List.takeWhile_cons]
      split
      · cases taken with
        | zero => exact iff_of_true (Nat.zero_le _) (Nat.zero_le _)
        | succ taken =>
            rw [List.length_cons, List.length_cons, Nat.succ_le_succ_iff, Nat.succ_le_succ_iff]
            exact ih (Nat.le_of_succ_le_succ short)
      · exact Iff.rfl

theorem runs_within (accept : Char → Bool) (least : Nat) (most : Option Nat)
    (ahead tail : List Char) :
    (runs accept least most (ahead ++ tail)).filter (· ≤ ahead.length) =
      runs accept least most ahead := by
  have sorted : ∀ text, (runs accept least most text).Pairwise (· < ·) :=
    fun text => List.pairwise_lt_range.sublist List.filter_sublist
  apply List.Perm.eq_of_pairwise (fun _ _ _ _ less more => absurd less (Nat.lt_asymm more))
    ((sorted _).sublist List.filter_sublist) (sorted _)
  apply (List.perm_ext_iff_of_nodup _ _).mpr
  · intro length
    rw [List.mem_filter, mem_runs, mem_runs, decide_eq_true_eq]
    constructor
    · rintro ⟨⟨run, bounds⟩, short⟩
      exact ⟨(length_takeWhile_append tail short).mp run, bounds⟩
    · rintro ⟨run, bounds⟩
      have short := (accepted_of_le run).1
      exact ⟨⟨(length_takeWhile_append tail short).mpr run, bounds⟩, short⟩
  · exact ((sorted _).sublist List.filter_sublist).imp Nat.ne_of_lt
  · exact (sorted _).imp Nat.ne_of_lt

/-- What two places have in common for an expression that looks behind. -/
def Alike (word : Char → Bool) (behind behind' : List Char) : Prop :=
  behind.head?.any word = behind'.head?.any word

theorem Alike.move (alike : Alike word behind behind') (ahead : List Char) (taken : Nat) :
    Alike word ((ahead.take taken).reverse ++ behind) ((ahead.take taken).reverse ++ behind') := by
  unfold Alike
  cases (ahead.take taken).reverse with
  | nil => exact alike
  | cons char rest => rfl

theorem flatMap_filter_of {Item Result : Type} (keep : Item → Bool) {items : List Item}
    {results : Item → List Result} (none : ∀ item ∈ items, ¬ keep item → results item = []) :
    (items.filter keep).flatMap results = items.flatMap results := by
  induction items with
  | nil => rfl
  | cons item items ih =>
      have later := ih (fun other member => none other (List.mem_cons_of_mem item member))
      rw [List.filter_cons, List.flatMap_cons]
      split
      · rw [List.flatMap_cons, later]
      · rename_i refused
        rw [none item List.mem_cons_self refused, List.nil_append, later]

variable {tail : List Char}

theorem atBoundary_within (alike : Alike word behind behind')
    (apart : tail.head?.any word = false) :
    atBoundary word behind (ahead ++ tail) = atBoundary word behind' ahead := by
  unfold atBoundary
  rw [alike]
  cases ahead with
  | nil => rw [List.nil_append, apart, List.head?_nil, Option.any_none]
  | cons char rest => rfl

/-- The readings that stay within the first part are those of this part alone. -/
theorem readings_within (endless : expression.endless = true) (alike : Alike word behind behind')
    (apart : tail.head?.any word = false) :
    (expression.readings word behind (ahead ++ tail)).filter (· ≤ ahead.length) =
      expression.readings word behind' ahead := by
  induction expression generalizing behind behind' ahead with
  | nothing => rfl
  | one accept =>
      rw [readings, readings]
      cases ahead with
      | nil =>
          rw [List.nil_append, List.head?_nil, Option.any_none]
          split <;> rfl
      | cons char rest =>
          rw [List.cons_append, List.head?_cons, List.head?_cons]
          split
          · exact List.filter_cons_of_pos (by simp)
          · rfl
  | seq first second ihFirst ihSecond =>
      rw [Expression.endless, Bool.and_eq_true] at endless
      rw [readings, readings, List.filter_flatMap, ← flatMap_filter_of (· ≤ ahead.length)]
      · rw [ihFirst endless.1 alike]
        apply List.flatMap_congr
        intro front before
        have short := (used_of_mem before).1
        rw [List.take_append_of_le_length short, List.drop_append_of_le_length short,
          List.filter_map, ← ihSecond endless.2 (alike.move ahead front)]
        congr 1
        apply List.filter_congr
        intro back _
        rw [Function.comp_apply, List.length_drop, decide_eq_decide]
        omega
      · intro front _ far
        rw [List.filter_eq_nil_iff]
        intro length mapped
        obtain ⟨back, _, same⟩ := List.mem_map.mp mapped
        rw [decide_eq_true_eq] at far ⊢
        omega
  | either first second ihFirst ihSecond =>
      rw [Expression.endless, Bool.and_eq_true] at endless
      rw [readings, readings, List.filter_append, ihFirst endless.1 alike, ihSecond endless.2 alike]
  | many accept least most =>
      rw [readings, readings, List.filter_reverse, runs_within]
  | few accept least most => exact runs_within accept least most ahead tail
  | boundary =>
      rw [readings, readings, atBoundary_within alike apart]
      split <;> rfl
  | finish => cases endless

theorem mem_readings_within (endless : expression.endless = true)
    (alike : Alike word behind behind') (apart : tail.head?.any word = false)
    (short : taken ≤ ahead.length) :
    taken ∈ expression.readings word behind (ahead ++ tail) ↔
      taken ∈ expression.readings word behind' ahead := by
  rw [← readings_within endless alike apart, List.mem_filter, decide_eq_true_eq,
    and_iff_left short]

/-- A character that the expression cannot use ends the text for it. -/
theorem readings_stop {stop : Char} (endless : expression.endless = true)
    (alike : Alike word behind behind') (apart : word stop = false)
    (unused : expression.uses stop = false) (tail : List Char) :
    expression.readings word behind (ahead ++ stop :: tail) =
      expression.readings word behind' ahead := by
  rw [← readings_within endless alike (show (stop :: tail).head?.any word = false from apart)]
  symm
  rw [List.filter_eq_self]
  intro taken member
  rw [decide_eq_true_eq]
  by_contra far
  have inside : stop ∈ (ahead ++ stop :: tail).take taken := by
    rw [List.take_append, List.mem_append]
    apply Or.inr
    obtain ⟨more, same⟩ := Nat.exists_eq_add_of_lt (Nat.lt_of_not_le far)
    rw [same, Nat.add_assoc, Nat.add_sub_cancel_left, List.take_succ_cons]
    exact List.mem_cons_self
  rw [(used_of_mem member).2 stop inside] at unused
  cases unused

end Expression

/-! ### The search -/

namespace Search

variable {find : List Char → List Char → Option Nat} {skip : Nat}
  {behind ahead front rest : List Char}

variable (find) in
/-- The place and the length of each match; the next ones lie behind the end of one. -/
def findIter : Nat → List Char → List Char → List (Nat × Nat)
  | _, _, [] => []
  | skip + 1, behind, char :: ahead => findIter skip (char :: behind) ahead
  | 0, behind, char :: ahead =>
      match find behind (char :: ahead) with
      | none => findIter 0 (char :: behind) ahead
      | some taken => (behind.length, taken) :: findIter (taken - 1) (char :: behind) ahead

variable (find) in
/-- How many characters of the rest the matches that begin in the front part take. -/
def overhang : Nat → List Char → List Char → List Char → Nat
  | skip, _, [], _ => skip
  | skip + 1, behind, char :: front, rest => overhang skip (char :: behind) front rest
  | 0, behind, char :: front, rest =>
      match find behind (char :: (front ++ rest)) with
      | none => overhang 0 (char :: behind) front rest
      | some taken => overhang (taken - 1) (char :: behind) front rest

/-- The first of the matches begins at one of these places. -/
def FirstFrom (found : List (Nat × Nat)) (least : Nat) : Prop :=
  ∀ first ∈ found.head?, least ≤ first.1

theorem findIter_from {found : Nat × Nat} (member : found ∈ findIter find skip behind ahead) :
    behind.length + skip ≤ found.1 := by
  induction ahead generalizing skip behind with
  | nil => cases skip <;> cases member
  | cons char ahead ih =>
      cases skip with
      | succ skip =>
          have later := ih member
          rw [List.length_cons] at later
          omega
      | zero =>
          rw [findIter] at member
          split at member
          · have later := ih member
            rw [List.length_cons] at later
            omega
          · rcases List.mem_cons.mp member with rfl | member
            · exact le_refl _
            · have later := ih member
              rw [List.length_cons] at later
              omega

/-- Each match is what is found at its place. -/
theorem found_of_mem {place taken : Nat} (member : (place, taken) ∈ findIter find skip behind ahead) :
    ∃ before after, ahead = before ++ after ∧ place = behind.length + before.length ∧
      find (before.reverse ++ behind) after = some taken := by
  induction ahead generalizing skip behind with
  | nil => cases skip <;> cases member
  | cons char ahead ih =>
      have later : ∀ {skip}, (place, taken) ∈ findIter find skip (char :: behind) ahead →
          ∃ before after, char :: ahead = before ++ after ∧ place = behind.length + before.length ∧
            find (before.reverse ++ behind) after = some taken := by
        intro skip member
        obtain ⟨before, after, rfl, here, found⟩ := ih member
        refine ⟨char :: before, after, rfl, ?_, ?_⟩
        · rw [here, List.length_cons, List.length_cons]
          omega
        · rw [List.reverse_cons, List.append_assoc]
          exact found
      cases skip with
      | succ skip => exact later member
      | zero =>
          rw [findIter] at member
          split at member
          · exact later member
          · rename_i length found
            rcases List.mem_cons.mp member with same | member
            · cases same
              exact ⟨[], char :: ahead, rfl, rfl, found⟩
            · exact later member

/-- The matches of a text: those that begin in its front part, and what is left to search. -/
theorem findIter_append (front rest : List Char) :
    ∃ begun, findIter find skip behind (front ++ rest) =
        begun ++ findIter find (overhang find skip behind front rest) (front.reverse ++ behind) rest ∧
      ∀ found ∈ begun, found.1 < behind.length + front.length := by
  induction front generalizing skip behind with
  | nil => exact ⟨[], rfl, by simp⟩
  | cons char front ih =>
      have near : ∀ {begun : List (Nat × Nat)},
          (∀ found ∈ begun, found.1 < (char :: behind).length + front.length) →
            ∀ found ∈ begun, found.1 < behind.length + (char :: front).length := by
        intro begun early found member
        have before := early found member
        rw [List.length_cons] at before ⊢
        omega
      rw [List.cons_append, List.reverse_cons, List.append_assoc, List.singleton_append]
      cases skip with
      | succ skip =>
          obtain ⟨begun, same, early⟩ := @ih skip (char :: behind)
          exact ⟨begun, same, near early⟩
      | zero =>
          rw [findIter, overhang]
          cases find behind (char :: (front ++ rest)) with
          | none =>
              obtain ⟨begun, same, early⟩ := @ih 0 (char :: behind)
              exact ⟨begun, same, near early⟩
          | some taken =>
              obtain ⟨begun, same, early⟩ := @ih (taken - 1) (char :: behind)
              refine ⟨(behind.length, taken) :: begun, congrArg (_ :: ·) same, ?_⟩
              have here : behind.length < behind.length + (char :: front).length := by
                rw [List.length_cons]
                omega
              intro found member
              rcases List.mem_cons.mp member with rfl | member
              · exact here
              · exact near early found member

theorem overhang_skip (long : front.length ≤ skip) :
    overhang find skip behind front rest = skip - front.length := by
  induction front generalizing skip behind with
  | nil => rfl
  | cons char front ih =>
      cases skip with
      | zero => cases long
      | succ skip =>
          rw [overhang, ih (Nat.le_of_succ_le_succ long), List.length_cons, Nat.add_sub_add_right]

/-- What is left over comes from a match that begins in the front part. -/
theorem overhang_pos (positive : 0 < overhang find skip behind front rest)
    (short : skip ≤ front.length) :
    ∃ before after taken, front = before ++ after ∧ after ≠ [] ∧
      find (before.reverse ++ behind) (after ++ rest) = some taken ∧
      taken = after.length + overhang find skip behind front rest := by
  induction front generalizing skip behind with
  | nil =>
      rw [overhang, Nat.le_zero.mp short] at positive
      exact absurd positive (Nat.lt_irrefl 0)
  | cons char front ih =>
      -- a match that begins further on, or this one where it takes the whole front part
      have later : ∀ {skip}, skip ≤ front.length →
          0 < overhang find skip (char :: behind) front rest →
          ∃ before after taken, char :: front = before ++ after ∧ after ≠ [] ∧
            find (before.reverse ++ behind) (after ++ rest) = some taken ∧
            taken = after.length + overhang find skip (char :: behind) front rest := by
        intro skip short positive
        obtain ⟨before, after, taken, rfl, some_, found, long⟩ := ih positive short
        refine ⟨char :: before, after, taken, rfl, some_, ?_, long⟩
        rw [List.reverse_cons, List.append_assoc]
        exact found
      cases skip with
      | succ skip => exact later (Nat.le_of_succ_le_succ short) positive
      | zero =>
          rw [overhang] at positive ⊢
          cases found : find behind (char :: (front ++ rest)) with
          | none =>
              rw [found] at positive
              exact later (Nat.zero_le _) positive
          | some taken =>
              rw [found] at positive
              dsimp only at positive ⊢
              by_cases inside : taken - 1 ≤ front.length
              · exact later inside positive
              · refine ⟨[], char :: front, taken, rfl, List.cons_ne_nil _ _, found, ?_⟩
                rw [overhang_skip (by omega), List.length_cons]
                omega

/-! ### A text between two others -/

/-- What is found in a text alone is found in it before another text and behind one; where
it is longer there it is the last, and so is the place where something is found only there. -/
structure Agrees (find : List Char → List Char → Option Nat) (before text after : List Char) :
    Prop where
  keeps : ∀ front ahead taken, text = front ++ ahead → find front.reverse ahead = some taken →
    ∃ taken', find (front.reverse ++ before) (ahead ++ after) = some taken' ∧
      (taken' = taken ∨ ahead.length ≤ taken)
  adds : ∀ front ahead taken, text = front ++ ahead → find front.reverse ahead = none →
    find (front.reverse ++ before) (ahead ++ after) = some taken →
    ∀ front' ahead', ahead = front' ++ ahead' → find (front'.reverse ++ front.reverse) ahead' = none

theorem findIter_none (none : ∀ front ahead', ahead = front ++ ahead' →
    find (front.reverse ++ behind) ahead' = none) : findIter find skip behind ahead = [] := by
  apply List.eq_nil_iff_forall_not_mem.mpr
  rintro ⟨place, taken⟩ member
  obtain ⟨front, ahead', split, _, found⟩ := found_of_mem member
  rw [none front ahead' split] at found
  cases found

/-- Where nothing is found from the start on, there is nothing at any place. -/
theorem none_of_findIter (empty : findIter find 0 behind ahead = []) {rest : List Char}
    (split : ahead = front ++ rest) (more : rest ≠ []) :
    find (front.reverse ++ behind) rest = none := by
  induction front generalizing behind ahead with
  | nil =>
      obtain ⟨char, rest, rfl⟩ := List.exists_cons_of_ne_nil more
      rw [split, List.nil_append, findIter] at empty
      cases found : find behind (char :: rest) with
      | none => exact found
      | some taken =>
          rw [found] at empty
          cases empty
  | cons char front ih =>
      rw [split, List.cons_append, findIter] at empty
      cases found : find behind (char :: (front ++ rest)) with
      | none =>
          rw [found] at empty
          rw [List.reverse_cons, List.append_assoc]
          exact ih empty rfl
      | some taken =>
          rw [found] at empty
          cases empty

theorem findIter_skip (long : ahead.length ≤ skip) : findIter find skip behind ahead = [] := by
  induction ahead generalizing skip behind with
  | nil => cases skip <;> rfl
  | cons char ahead ih =>
      cases skip with
      | zero => cases long
      | succ skip => exact ih (Nat.le_of_succ_le_succ long)

section Between

variable {before text after : List Char}

/-- From the same place on, all that is found alone is found. -/
theorem Agrees.same (agrees : Agrees find before text after) {front ahead : List Char}
    (split : text = front ++ ahead) {place taken : Nat}
    (member : (place, taken) ∈ findIter find skip front.reverse ahead) :
    ∃ taken', (before.length + place, taken') ∈
      findIter find skip (front.reverse ++ before) (ahead ++ after) := by
  induction ahead generalizing front skip with
  | nil => cases skip <;> cases member
  | cons char ahead ih =>
      have next : (front ++ [char]).reverse = char :: front.reverse := by simp
      have later : ∀ {skip}, (place, taken) ∈ findIter find skip (char :: front.reverse) ahead →
          ∃ taken', (before.length + place, taken') ∈
            findIter find skip (char :: front.reverse ++ before) (ahead ++ after) := by
        intro skip member
        rw [← next] at member ⊢
        exact ih (by rw [split, List.append_assoc, List.singleton_append]) member
      cases skip with
      | succ skip => exact later member
      | zero =>
          rw [findIter] at member
          rw [List.cons_append, findIter, ← List.cons_append]
          cases alone : find front.reverse (char :: ahead) with
          | none =>
              rw [alone] at member
              cases within : find (front.reverse ++ before) (char :: ahead ++ after) with
              | none => exact later member
              | some taken' =>
                  have none := agrees.adds front _ taken' split alone within
                  have empty : findIter find 0 (char :: front.reverse) ahead = [] := by
                    apply findIter_none
                    intro front' ahead' split'
                    have here := none (char :: front') ahead' (by rw [split', List.cons_append])
                    rw [List.reverse_cons, List.append_assoc] at here
                    exact here
                  rw [empty] at member
                  cases member
          | some length =>
              rw [alone] at member
              obtain ⟨length', within, same⟩ := agrees.keeps front _ length split alone
              rw [within]
              rcases List.mem_cons.mp member with here | member
              · cases here
                refine ⟨length', ?_⟩
                have place : (front.reverse ++ before).length =
                    before.length + front.reverse.length := by
                  rw [List.length_append, Nat.add_comm]
                rw [place]
                exact List.mem_cons_self
              · rcases same with same | last
                · obtain ⟨taken', found⟩ := later member
                  rw [same]
                  exact ⟨taken', List.mem_cons_of_mem _ found⟩
                · rw [findIter_skip (Nat.le_sub_one_of_lt last)] at member
                  cases member

theorem Agrees.later (agrees : Agrees find before text after) {front ahead : List Char}
    (split : text = front ++ ahead)
    (early : FirstFrom (findIter find 0 front.reverse ahead) (front.length + skip))
    {place taken : Nat} (member : (place, taken) ∈ findIter find 0 front.reverse ahead) :
    ∃ taken', (before.length + place, taken') ∈
      findIter find skip (front.reverse ++ before) (ahead ++ after) := by
  induction skip generalizing front ahead with
  | zero => exact agrees.same split member
  | succ skip ih =>
      cases ahead with
      | nil => cases member
      | cons char ahead =>
          have next : (front ++ [char]).reverse = char :: front.reverse := by simp
          have alone : find front.reverse (char :: ahead) = none := by
            apply Option.eq_none_iff_forall_not_mem.mpr
            intro length found
            have first := early (front.reverse.length, length)
              (by rw [findIter, Option.mem_def.mp found]; rfl)
            rw [List.length_reverse] at first
            omega
          rw [findIter, alone] at member early
          dsimp only at member early
          rw [← next] at member early
          have long : front.length + (skip + 1) = (front ++ [char]).length + skip := by
            rw [List.length_append, List.length_singleton]
            omega
          rw [long] at early
          have found := ih (by rw [split, List.append_assoc, List.singleton_append]) early member
          rw [next] at found
          exact found

/-- All that is found in a text alone is found in it within a longer text exactly if no match
that begins before it reaches over the place of its first one. -/
theorem Agrees.kept_iff (agrees : Agrees find front.reverse text after) :
    (∀ place taken, (place, taken) ∈ findIter find 0 [] text →
      ∃ taken', (front.length + place, taken') ∈ findIter find 0 [] (front ++ (text ++ after))) ↔
        FirstFrom (findIter find 0 [] text) (overhang find 0 [] front (text ++ after)) := by
  obtain ⟨begun, whole, early⟩ := @findIter_append find 0 [] front (text ++ after)
  rw [whole]
  constructor
  · rintro kept ⟨place, taken⟩ first
    obtain ⟨taken', member⟩ := kept place taken (List.mem_of_mem_head? first)
    rcases List.mem_append.mp member with member | member
    · have before := early _ member
      rw [List.length_nil] at before
      omega
    · have from_ := findIter_from member
      rw [List.append_nil, List.length_reverse] at from_
      exact Nat.le_of_add_le_add_left from_
  · intro first place taken member
    rw [← Nat.zero_add (overhang find 0 [] front (text ++ after))] at first
    obtain ⟨taken', found⟩ := @Agrees.later _ _ _ _ _ agrees [] text rfl first place taken member
    rw [List.length_reverse] at found
    refine ⟨taken', List.mem_append_right _ ?_⟩
    rw [List.append_nil]
    exact found

end Between

end Search

/-! ### Expressions in a longer text -/

namespace Expression

open Search

variable {word : Char → Bool} {expression : Expression} {stop : Char} {front before after : List Char}

theorem alike_stop (apart : word stop = false) (front before : List Char) :
    Alike word (front.reverse ++ stop :: before) front.reverse := by
  unfold Alike
  cases front.reverse with
  | nil => exact apart
  | cons char rest => rfl

/-- An expression that cannot use the character finds in a text between two of them what it
finds in the text alone. -/
theorem agrees_stop (endless : expression.endless = true) (apart : word stop = false)
    (unused : expression.uses stop = false) (text : List Char) :
    Agrees (expression.find word) (stop :: before) text (stop :: after) := by
  have same : ∀ front ahead : List Char, expression.find word (front.reverse ++ stop :: before)
      (ahead ++ stop :: after) = expression.find word front.reverse ahead := by
    intro front ahead
    unfold find
    rw [readings_stop endless (alike_stop apart front before) apart unused]
  refine ⟨?_, ?_⟩
  · intro front ahead taken _ found
    exact ⟨taken, by rw [same, found], Or.inl rfl⟩
  · intro front ahead taken _ none found
    rw [same, none] at found
    cases found

theorem mem_of_find {behind ahead : List Char} {taken : Nat}
    (found : expression.find word behind ahead = some taken) :
    taken ∈ expression.readings word behind ahead :=
  List.mem_of_mem_head? found

/-- No match of such an expression goes on behind the character. -/
theorem overhang_stop (unused : expression.uses stop = false) (front rest : List Char) :
    overhang (expression.find word) 0 [] (front ++ [stop]) rest = 0 := by
  by_contra some_
  obtain ⟨before, after, taken, split, nonempty, found, long⟩ :=
    overhang_pos (Nat.pos_of_ne_zero some_) (Nat.zero_le _)
  have last := congrArg List.getLast? split
  rw [List.getLast?_concat, List.getLast?_append_of_ne_nil _ nonempty] at last
  have inside : stop ∈ (after ++ rest).take taken := by
    rw [List.take_append, List.take_of_length_le (by omega)]
    exact List.mem_append_left _ (List.mem_of_getLast? last.symm)
  rw [(used_of_mem (mem_of_find found)).2 stop inside] at unused
  cases unused

end Expression

end Mneme.Library
