/-
Where the scanners panic: exactly where a window of fixed width around a match
begins or ends inside a character.

All other slices end at matches, at bytes of ASCII or at an end of the text, and
every index is one of the bytes it is used on.
-/

import Mneme.Scanners.Builtin

namespace Mneme.Scanners

open Common Library

/-! ### Passes -/

theorem isSome_map_some {Value Result : Type} (value : Option Value) (change : Value → Result) :
    (value.bind (fun found => some (change found))).isSome = value.isSome := by
  cases value with
  | none => rfl
  | some _ => rfl

theorem eachItem_isSome_iff {Item : Type} (items : List Item)
    (body : Item → Option (List Finding)) :
    (eachItem items body).isSome = true ↔ ∀ item ∈ items, (body item).isSome = true := by
  unfold eachItem
  rw [Option.isSome_map]
  induction items with
  | nil => simp
  | cons item items ih =>
      rw [List.mapM_cons, List.forall_mem_cons, ← ih]
      cases body item with
      | none => simp
      | some found =>
          cases items.mapM body with
          | none => simp
          | some rest => simp

namespace Match

variable {content : List Char} (place : Match content)

theorem boundary_start : IsBoundary content place.start :=
  ⟨place.before, place.matched ++ place.after, place.whole, rfl⟩

theorem boundary_stop : IsBoundary content place.stop := by
  refine ⟨place.before ++ place.matched, place.after, ?_, ?_⟩
  · rw [List.append_assoc]
    exact place.whole
  · rw [utf8_append, List.length_append]
    rfl

end Match

variable {content : List Char}

theorem boundary_le {offset : Nat} (boundary : IsBoundary content offset) :
    offset ≤ (utf8 content).length := by
  obtain ⟨before, after, rfl, rfl⟩ := boundary
  rw [utf8_append, List.length_append]
  exact Nat.le_add_right _ _

/-- A window behind a match. -/
theorem lookahead_isSome_iff (place : Match content) (width : Nat) :
    (textSlice content place.stop (min (place.stop + width) (utf8 content).length)).isSome = true ↔
      IsBoundary content (min (place.stop + width) (utf8 content).length) := by
  rw [textSlice_isSome_iff]
  have inside := boundary_le place.boundary_stop
  constructor
  · intro all
    exact all.2.2
  · intro aligned
    exact ⟨by omega, place.boundary_stop, aligned⟩

theorem rest_isSome (place : Match content) :
    (textSlice content place.stop (utf8 content).length).isSome = true :=
  textSlice_isSome_iff.mpr
    ⟨boundary_le place.boundary_stop, place.boundary_stop, isBoundary_length content⟩

/-! ### The brace around a place -/

/-- The brace at an index opens a block that is not closed before the end, and no
block behind it stays open. -/
def InnermostOpen (bytes : List UInt8) (place : Nat) : Prop :=
  bytes[place]? = some 0x7B ∧
    (bytes.drop (place + 1)).count 0x7B = (bytes.drop (place + 1)).count 0x7D ∧
      ∀ tail, tail <:+ bytes.drop (place + 1) → tail.count 0x7B ≤ tail.count 0x7D

/-- The same with so many blocks closed behind the bytes. -/
def OpenBehind (bytes : List UInt8) (depth place : Nat) : Prop :=
  bytes[place]? = some 0x7B ∧
    (bytes.drop (place + 1)).count 0x7B = (bytes.drop (place + 1)).count 0x7D + depth ∧
      ∀ tail, tail <:+ bytes.drop (place + 1) → tail.count 0x7B ≤ tail.count 0x7D + depth

theorem forall_suffix_concat {Item : Type} {items : List Item} {last : Item}
    {holds : List Item → Prop} (start : holds []) :
    (∀ tail, tail <:+ items ++ [last] → holds tail) ↔
      ∀ tail, tail <:+ items → holds (tail ++ [last]) := by
  constructor
  · intro all tail suffix
    exact all _ (List.suffix_append_self_iff.mpr suffix)
  · intro all tail suffix
    rcases List.suffix_concat_iff.mp suffix with empty | ⟨front, rfl, shorter⟩
    · rw [empty]
      exact start
    · exact all front shorter

variable (front : List UInt8)

theorem openBehind_concat (byte : UInt8) (depth place : Nat) :
    OpenBehind (front ++ [byte]) depth place ↔
      (place = front.length ∧ byte = 0x7B ∧ depth = 0) ∨
        front[place]? = some 0x7B ∧
          (front.drop (place + 1) ++ [byte]).count 0x7B =
            (front.drop (place + 1) ++ [byte]).count 0x7D + depth ∧
          ∀ tail, tail <:+ front.drop (place + 1) →
            (tail ++ [byte]).count 0x7B ≤ (tail ++ [byte]).count 0x7D + depth := by
  unfold OpenBehind
  rcases Nat.lt_trichotomy place front.length with inside | last | outside
  · rw [List.getElem?_append_left inside, List.drop_append_of_le_length inside,
      forall_suffix_concat (Nat.zero_le _), or_iff_right (fun first => absurd first.1 (by omega))]
  · rw [last, List.getElem?_concat_length, List.drop_eq_nil_of_le (by simp)]
    constructor
    · rintro ⟨here, level, _⟩
      refine Or.inl ⟨rfl, Option.some.inj here, ?_⟩
      simpa using level.symm
    · rintro (⟨_, rfl, rfl⟩ | ⟨there, _⟩)
      · refine ⟨rfl, rfl, ?_⟩
        intro tail suffix
        rw [List.suffix_nil.mp suffix]
        exact Nat.zero_le _
      · rw [List.getElem?_eq_none (Nat.le_refl _)] at there
        cases there
  · rw [List.getElem?_eq_none (by simp; omega), List.getElem?_eq_none (by omega)]
    constructor
    · rintro ⟨impossible, _⟩
      cases impossible
    · rintro (⟨same, _⟩ | ⟨impossible, _⟩)
      · omega
      · cases impossible

theorem openBehind_close (depth place : Nat) :
    OpenBehind (front ++ [0x7D]) depth place ↔ OpenBehind front (depth + 1) place := by
  rw [openBehind_concat, or_iff_right (fun first => absurd first.2.1 (by decide))]
  unfold OpenBehind
  simp only [List.count_append, List.count_singleton_self, List.count_singleton,
    beq_iff_eq, if_neg (by decide : ¬ (0x7D : UInt8) = 0x7B), Nat.add_zero, Nat.add_assoc,
    Nat.add_comm 1 depth]

theorem openBehind_open_zero (place : Nat) :
    OpenBehind (front ++ [0x7B]) 0 place ↔ place = front.length := by
  rw [openBehind_concat]
  constructor
  · rintro (first | ⟨_, _, tails⟩)
    · exact first.1
    · have none := tails [] List.nil_suffix
      simp at none
  · intro last
    exact Or.inl ⟨last, rfl, rfl⟩

theorem openBehind_open_succ (depth place : Nat) :
    OpenBehind (front ++ [0x7B]) (depth + 1) place ↔ OpenBehind front depth place := by
  rw [openBehind_concat, or_iff_right (fun first => absurd first.2.2 (Nat.succ_ne_zero _))]
  unfold OpenBehind
  simp only [List.count_append, List.count_singleton_self, List.count_singleton,
    beq_iff_eq, if_neg (by decide : ¬ (0x7B : UInt8) = 0x7D), Nat.add_zero, ← Nat.add_assoc,
    Nat.add_right_cancel_iff, Nat.add_le_add_iff_right]

theorem openBehind_other {byte : UInt8} (noClose : byte ≠ 0x7D)
    (noOpen : byte ≠ 0x7B) (depth place : Nat) :
    OpenBehind (front ++ [byte]) depth place ↔ OpenBehind front depth place := by
  rw [openBehind_concat, or_iff_right (fun first => noOpen first.2.1)]
  unfold OpenBehind
  simp only [List.count_append, List.count_singleton, beq_iff_eq, if_neg noOpen, if_neg noClose,
    Nat.add_zero]

/-- The walk reads only bytes that are there, and finds the innermost open brace. -/
theorem openBrace_eq {bytes : List UInt8} {upTo : Nat} (inside : upTo ≤ bytes.length)
    (depth : Nat) :
    ∃ result, openBrace bytes upTo depth = some result ∧
      ∀ place, result = some place ↔ OpenBehind (bytes.take upTo) depth place := by
  induction upTo generalizing depth with
  | zero =>
      refine ⟨none, rfl, ?_⟩
      intro place
      constructor
      · intro impossible
        cases impossible
      · rintro ⟨there, _⟩
        cases there
  | succ upTo ih =>
      have before : upTo ≤ bytes.length := Nat.le_of_succ_le inside
      have read : bytes[upTo]? = some bytes[upTo] := List.getElem?_eq_getElem inside
      have last : bytes.take (upTo + 1) = bytes.take upTo ++ [bytes[upTo]] :=
        List.take_succ_eq_append_getElem inside
      have size : (bytes.take upTo).length = upTo := List.length_take_of_le before
      unfold openBrace
      rw [read, last]
      generalize bytes[upTo] = byte
      change ∃ result, (if byte = 0x7D then _ else _) = some result ∧ _
      split
      · next close =>
          obtain ⟨result, walked, found⟩ := ih before (depth + 1)
          refine ⟨result, walked, ?_⟩
          intro place
          rw [close, openBehind_close, found]
      · next noClose =>
          split
          · next isOpen =>
              cases depth with
              | zero =>
                  refine ⟨some upTo, rfl, ?_⟩
                  intro place
                  rw [isOpen, openBehind_open_zero, size, Option.some.injEq, eq_comm]
              | succ depth =>
                  obtain ⟨result, walked, found⟩ := ih before depth
                  refine ⟨result, walked, ?_⟩
                  intro place
                  rw [isOpen, openBehind_open_succ, found]
          · next noOpen =>
              obtain ⟨result, walked, found⟩ := ih before depth
              refine ⟨result, walked, ?_⟩
              intro place
              rw [openBehind_other _ noClose noOpen, found]

variable (bytes : List UInt8)

theorem openBrace_whole :
    ∃ result, openBrace bytes bytes.length 0 = some result ∧
      ∀ place, result = some place ↔ InnermostOpen bytes place := by
  obtain ⟨result, walked, found⟩ := openBrace_eq (Nat.le_refl bytes.length) 0
  rw [List.take_length] at found
  exact ⟨result, walked, found⟩

/-! ### Blocks -/

def windowBytes (content : List Char) (start stop : Nat) : List UInt8 :=
  ((utf8 content).take stop).drop start

/-- The window before the offset begins between characters, and so does the head
before the innermost brace that is open in it. -/
structure BlockAligned (reach headReach : Nat) (content : List Char) (offset : Nat) : Prop where
  window : IsBoundary content (offset - reach)
  head : ∀ place, InnermostOpen (windowBytes content (offset - reach) offset) place →
    IsBoundary content (offset - reach + (place - headReach))

theorem insideBlock_isSome_iff {reach headReach : Nat} {words : List String}
    {offset : Nat} (boundary : IsBoundary content offset) :
    (insideBlock reach headReach words content offset).isSome = true ↔
      BlockAligned reach headReach content offset := by
  unfold insideBlock
  cases sliced : textSlice content (offset - reach) offset with
  | none =>
      refine iff_of_false Bool.false_ne_true ?_
      intro aligned
      have there := textSlice_isSome_iff.mpr ⟨Nat.sub_le _ _, aligned.window, boundary⟩
      rw [sliced] at there
      cases there
  | some window =>
      have bytes := textSlice_bytes sliced
      have starts : IsBoundary content (offset - reach) :=
        (textSlice_isSome_iff.mp (by rw [sliced]; rfl)).2.1
      obtain ⟨result, walked, found⟩ := openBrace_whole (utf8 window)
      simp only [Option.bind_eq_bind, Option.bind_some, walked]
      cases result with
      | none =>
          refine iff_of_true rfl ⟨starts, ?_⟩
          intro place innermost
          unfold windowBytes at innermost
          rw [← bytes, ← found] at innermost
          cases innermost
      | some place =>
          have innermost := (found place).mp rfl
          have inside : place < (utf8 window).length :=
            (List.getElem?_eq_some_iff.mp innermost.1).1
          have brace : IsBoundary window place := isBoundary_ascii innermost.1 (by decide)
          rw [isSome_map_some, textSlice_isSome_iff,
            textSlice_boundary_iff sliced (by omega : place - headReach ≤ _)]
          constructor
          · intro all
            refine ⟨starts, ?_⟩
            intro other also
            unfold windowBytes at also
            rw [← bytes, ← found] at also
            cases also
            exact all.2.1
          · intro aligned
            refine ⟨Nat.sub_le _ _, aligned.head place ?_, brace⟩
            unfold windowBytes
            rw [← bytes]
            exact innermost

/-! ### Slices that are always there -/

theorem closeParen_byte {bytes : List UInt8} {place close : Nat} {depth : Int32}
    (found : closeParen bytes place depth = some close) :
    ∃ further, close = place + further ∧ bytes[further]? = some 0x29 := by
  induction bytes generalizing place depth with
  | nil => cases found
  | cons byte rest ih =>
      have later : ∀ {depth : Int32}, closeParen rest (place + 1) depth = some close →
          ∃ further, close = place + further ∧ (byte :: rest)[further]? = some 0x29 := by
        intro depth found
        obtain ⟨further, same, there⟩ := ih found
        exact ⟨further + 1, by omega, there⟩
      unfold closeParen at found
      split at found
      · exact later found
      · split at found
        · next closes =>
            split at found
            · cases found
              exact ⟨0, rfl, by rw [closes]; rfl⟩
            · exact later found
        · exact later found

/-- The parenthesis found is behind the one at the index, and a character. -/
theorem findMatchingParen_place {openIdx close : Nat}
    (found : findMatchingParen content openIdx = some close) :
    openIdx < close ∧ IsBoundary content close := by
  unfold findMatchingParen at found
  split at found
  · next opens =>
      obtain ⟨further, rfl, there⟩ := closeParen_byte found
      rw [List.getElem?_drop] at there
      refine ⟨?_, isBoundary_ascii there (by decide)⟩
      rcases Nat.eq_zero_or_pos further with none | some
      · rw [none, Nat.add_zero, opens] at there
        cases there
      · omega
  · cases found

variable (patterns : PerfPatterns)

variable (file : String)

theorem effectsWithoutDeps_isSome
    (content : List Char) : (patterns.effectsWithoutDeps file content).isSome = true := by
  unfold PerfPatterns.effectsWithoutDeps
  rw [eachItem_isSome_iff]
  intro place _
  split
  · rfl
  · next close found =>
      obtain ⟨behind, boundary⟩ := findMatchingParen_place found
      refine (isSome_map_some _ _).trans (textSlice_isSome_iff.mpr ?_)
      exact ⟨by omega, place.boundary_stop, boundary⟩

theorem buttons_isSome (patterns : A11yPatterns) (file : String) (content : List Char) :
    (patterns.buttons file content).isSome = true := by
  unfold A11yPatterns.buttons
  rw [eachItem_isSome_iff]
  intro captures _
  obtain ⟨rest, sliced⟩ := Option.isSome_iff_exists.mp (rest_isSome captures.full)
  simp only [sliced, Option.bind_eq_bind, Option.bind_some]
  refine (isSome_map_some _ _).trans (textSlice_isSome_iff.mpr ?_)
  split
  · next offset found =>
      have inner := isBoundary_findText found
      have inside : offset ≤ (utf8 rest).length := boundary_le inner
      refine ⟨Nat.le_add_right _ _, captures.full.boundary_stop, ?_⟩
      exact (textSlice_boundary_iff sliced inside).mp inner
  · exact ⟨boundary_le captures.full.boundary_stop, captures.full.boundary_stop,
      isBoundary_length content⟩

theorem unusedNamed_isSome (patterns : RefactorPatterns) (file : String) (content : List Char) :
    (patterns.unusedNamed file content).isSome = true := by
  unfold RefactorPatterns.unusedNamed
  rw [eachItem_isSome_iff]
  intro captures _
  exact (isSome_map_some _ _).trans (rest_isSome captures.full)

theorem unusedDefault_isSome (patterns : RefactorPatterns) (file : String)
    (content : List Char) : (patterns.unusedDefault file content).isSome = true := by
  unfold RefactorPatterns.unusedDefault
  rw [eachItem_isSome_iff]
  intro captures _
  exact (isSome_map_some _ _).trans (rest_isSome captures.full)

theorem needleAt_isSome (place : Nat) (needles : List (List UInt8)) :
    (needleAt bytes place needles).isSome = true := by
  induction needles with
  | nil => rfl
  | cons needle needles ih =>
      unfold needleAt
      split
      · next fits =>
          obtain ⟨here, sliced⟩ := Option.isSome_iff_exists.mp
            (byteSlice_isSome_iff.mpr ⟨Nat.le_add_right place needle.length, fits⟩)
          rw [sliced]
          simp only [Option.bind_eq_bind, Option.bind_some]
          split
          · rfl
          · exact ih
      · exact ih

/-- The value is inside the bytes. -/
theorem quotedAt_eq (quoteIdx : Nat) :
    ∃ result, quotedAt bytes quoteIdx = some result ∧
      ∀ start stop, result = some (start, stop) → start ≤ stop ∧ stop ≤ bytes.length := by
  have nothing : ∀ start stop, (none : Option (Nat × Nat)) = some (start, stop) →
      start ≤ stop ∧ stop ≤ bytes.length := by
    intro start stop impossible
    cases impossible
  unfold quotedAt
  split
  · next inside =>
      rw [List.getElem?_eq_getElem inside]
      simp only [Option.bind_eq_bind, Option.bind_some]
      split
      · obtain ⟨rest, sliced⟩ := Option.isSome_iff_exists.mp
          (byteSlice_isSome_iff.mpr ⟨Nat.succ_le_of_lt inside, Nat.le_refl bytes.length⟩)
        have size : rest.length = bytes.length - (quoteIdx + 1) := by
          unfold byteSlice at sliced
          rw [if_pos ⟨Nat.succ_le_of_lt inside, Nat.le_refl _⟩] at sliced
          cases sliced
          rw [List.length_drop, List.length_take, Nat.min_self]
        rw [sliced]
        simp only [Option.bind_some]
        split
        · next length found =>
            have before := (List.findIdx?_eq_some_iff_getElem.mp found).1
            refine ⟨_, rfl, ?_⟩
            intro start stop same
            cases same
            omega
        · exact ⟨none, rfl, nothing⟩
      · exact ⟨none, rfl, nothing⟩
  · exact ⟨none, rfl, nothing⟩

theorem classAttrsFrom_isSome (bytes rest : List UInt8) (place skip : Nat) :
    (classAttrsFrom bytes rest place skip).isSome = true := by
  induction rest generalizing place skip with
  | nil =>
      unfold classAttrsFrom
      rfl
  | cons byte rest ih =>
      cases skip with
      | succ skip =>
          unfold classAttrsFrom
          exact ih _ _
      | zero =>
          unfold classAttrsFrom
          obtain ⟨hit, found⟩ := Option.isSome_iff_exists.mp (needleAt_isSome bytes place classNeedles)
          rw [found]
          simp only [Option.bind_eq_bind, Option.bind_some]
          cases hit with
          | none => exact ih _ _
          | some length =>
              obtain ⟨value, quoted, inside⟩ := quotedAt_eq bytes (place + length)
              simp only [quoted, Option.bind_some]
              cases value with
              | none => exact ih _ _
              | some ends =>
                  obtain ⟨start, stop⟩ := ends
                  obtain ⟨inner, sliced⟩ := Option.isSome_iff_exists.mp
                    (byteSlice_isSome_iff.mpr (inside start stop rfl))
                  obtain ⟨more, walked⟩ := Option.isSome_iff_exists.mp
                    (ih (place + 1) (stop - place))
                  simp only [sliced, walked, Option.bind_some]
                  split
                  · rfl
                  · rfl

/-! ### Windows -/

/-- Every window of fixed width that the scanners cut begins and ends between
characters. -/
structure WindowsAligned (registry : Registry) (file : Path) (content : List Char) : Prop where
  lookaheads : containsText content "React.memo" = false → containsText content "memo(" = false →
    ∀ place ∈ registry.perf.jsxMapLoop.findIter content,
      IsBoundary content (min (place.stop + 200) (utf8 content).length)
  loops : ∀ place ∈ registry.perf.arrayFrom.findIter content,
    BlockAligned 2048 80 content place.start
  asyncs : isRust file = true → ∀ place ∈ registry.perf.rustUnwrap.findIter content,
    BlockAligned 4096 200 content place.start
  handlers : ∀ place ∈ registry.security.ipcHandler.findIter content,
    IsBoundary content (min (place.stop + 400) (utf8 content).length)

theorem unmemoizedItems_isSome_iff (content : List Char) :
    (patterns.unmemoizedItems file content).isSome = true ↔
      (containsText content "React.memo" = false → containsText content "memo(" = false →
        ∀ place ∈ patterns.jsxMapLoop.findIter content,
          IsBoundary content (min (place.stop + 200) (utf8 content).length)) := by
  unfold PerfPatterns.unmemoizedItems
  split
  · next memo =>
      refine iff_of_true rfl ?_
      intro noReact noMemo
      rw [noReact, noMemo] at memo
      cases memo
  · next memo =>
      rw [Bool.not_eq_true, Bool.or_eq_false_iff] at memo
      rw [eachItem_isSome_iff]
      constructor
      · intro all _ _ place member
        exact (lookahead_isSome_iff place 200).mp ((isSome_map_some _ _).symm.trans
          (all place member))
      · intro all place member
        exact (isSome_map_some _ _).trans
          ((lookahead_isSome_iff place 200).mpr (all memo.1 memo.2 place member))

theorem arraysInLoops_isSome_iff (content : List Char) :
    (patterns.arraysInLoops file content).isSome = true ↔
      ∀ place ∈ patterns.arrayFrom.findIter content,
        BlockAligned 2048 80 content place.start := by
  unfold PerfPatterns.arraysInLoops
  rw [eachItem_isSome_iff]
  refine forall₂_congr ?_
  intro place _
  exact (iff_of_eq (congrArg (· = true) (isSome_map_some _ _))).trans
    (insideBlock_isSome_iff place.boundary_start)

theorem unwrapsInAsync_isSome_iff (file : Path) (content : List Char) :
    (patterns.unwrapsInAsync file content).isSome = true ↔
      (isRust file = true → ∀ place ∈ patterns.rustUnwrap.findIter content,
        BlockAligned 4096 200 content place.start) := by
  unfold PerfPatterns.unwrapsInAsync
  split
  · next rust =>
      rw [eachItem_isSome_iff, forall_prop_of_true rust]
      refine forall₂_congr ?_
      intro place _
      exact (iff_of_eq (congrArg (· = true) (isSome_map_some _ _))).trans
        (insideBlock_isSome_iff place.boundary_start)
  · next other => exact iff_of_true rfl (fun rust => absurd rust other)

theorem unvalidatedHandlers_isSome_iff (patterns : SecurityPatterns) (file : String)
    (content : List Char) :
    (patterns.unvalidatedHandlers file content).isSome = true ↔
      ∀ place ∈ patterns.ipcHandler.findIter content,
        IsBoundary content (min (place.stop + 400) (utf8 content).length) := by
  unfold SecurityPatterns.unvalidatedHandlers
  rw [eachItem_isSome_iff]
  refine forall₂_congr ?_
  intro place _
  exact (iff_of_eq (congrArg (· = true) (isSome_map_some _ _))).trans
    (lookahead_isSome_iff place 400)

/-! ### Scans -/

theorem themeScan_isSome (scanner : ThemeScanner) (file : Path) (content : List Char) :
    (scanner.scan file content).isSome = true :=
  (isSome_map_some _ _).trans (classAttrsFrom_isSome _ _ _ _)

theorem a11yScan_isSome (patterns : A11yPatterns) (file : Path) (content : List Char) :
    (patterns.scan file content).isSome = true :=
  (isSome_map_some _ _).trans (buttons_isSome patterns file content)

theorem refactorScan_isSome (patterns : RefactorPatterns) (file : Path) (content : List Char) :
    (patterns.scan file content).isSome = true := by
  obtain ⟨named, found⟩ := Option.isSome_iff_exists.mp (unusedNamed_isSome patterns file content)
  unfold RefactorPatterns.scan
  rw [found]
  exact (isSome_map_some _ _).trans (unusedDefault_isSome patterns file content)

theorem securityScan_isSome_iff (patterns : SecurityPatterns) (file : Path) (content : List Char) :
    (patterns.scan file content).isSome = true ↔
      (patterns.unvalidatedHandlers file content).isSome = true :=
  iff_of_eq (congrArg (· = true) (isSome_map_some _ _))

theorem perfScan_isSome_iff (file : Path) (content : List Char) :
    (patterns.scan file content).isSome = true ↔
      (patterns.unmemoizedItems file content).isSome = true ∧
        (patterns.arraysInLoops file content).isSome = true ∧
          (patterns.unwrapsInAsync file content).isSome = true := by
  obtain ⟨effects, found⟩ := Option.isSome_iff_exists.mp
    (effectsWithoutDeps_isSome patterns file content)
  unfold PerfPatterns.scan
  rw [found]
  cases patterns.unmemoizedItems file content with
  | none => simp
  | some items =>
      cases patterns.arraysInLoops file content with
      | none => simp
      | some arrays =>
          cases patterns.unwrapsInAsync file content with
          | none => simp
          | some unwraps => simp

/-- Every scan returns, exactly where every window is aligned. -/
theorem scans_isSome_iff (registry : Registry) (file : Path) (content : List Char) :
    (∀ scanner ∈ registry.all, (scanner.scan file content).isSome = true) ↔
      WindowsAligned registry file content := by
  have perf := perfScan_isSome_iff registry.perf file content
  have security := securityScan_isSome_iff registry.security file content
  rw [unmemoizedItems_isSome_iff, arraysInLoops_isSome_iff, unwrapsInAsync_isSome_iff] at perf
  rw [unvalidatedHandlers_isSome_iff] at security
  constructor
  · intro all
    obtain ⟨lookaheads, loops, asyncs⟩ := perf.mp (all (perfScanner registry.perf)
      (by simp [Registry.all]))
    exact ⟨lookaheads, loops, asyncs, security.mp (all (securityScanner registry.security)
      (by simp [Registry.all]))⟩
  · intro aligned scanner member
    simp only [Registry.all, List.mem_cons, List.not_mem_nil, or_false] at member
    rcases member with rfl | rfl | rfl | rfl | rfl | rfl | rfl | rfl | rfl | rfl
    · exact themeScan_isSome _ _ _
    · rfl
    · exact security.mpr aligned.handlers
    · exact a11yScan_isSome _ _ _
    · exact perf.mpr ⟨aligned.lookaheads, aligned.loops, aligned.asyncs⟩
    · rfl
    · rfl
    · rfl
    · rfl
    · exact refactorScan_isSome _ _ _

/-! ### A window that ends inside a character -/

/-- So many characters from a position on. -/
def stretch (content : List Char) (position length : Nat) : Match content :=
  { before := content.take position
    matched := (content.drop position).take length
    after := (content.drop position).drop length
    whole := by rw [List.take_append_drop, List.take_append_drop] }

def quiet : Pattern :=
  { findIter := fun _ => [] }

def quietGroup : GroupPattern :=
  { capturesIter := fun _ => [] }

/-- The matches in a text that begins with ".map((x)=>" and goes on without another. -/
def mapRegistry : Registry :=
  { theme := { patterns := { hexColor := quiet, cssFnColor := quiet, twColorClass := quiet }
               extraAllowlist := [] }
    typesTs :=
      { anyAnnotation := quiet
        asAny := quiet
        nonNullAssertion := quiet
        defaultExport := quiet
        funcParams :=
          { capturesIter := fun content =>
              [{ full := stretch content 5 3, group := stretch content 6 1 }] }
        isAlphabetic := Char.isAlpha }
    security :=
      { skKey := quiet, akiaKey := quiet, ghPat := quiet, passwordAssign := quiet
        dynamicEvalCall := quiet, newFunction := quiet, riskyInnerHtml := quiet
        ipcHandler := quiet, sqlConcat := quiet, rustUnsafeBlock := quiet }
    a11y :=
      { buttonOpen := quietGroup, imgTag := quietGroup, anchorTag := quietGroup
        ariaLabel := quiet, altAttr := quiet, hrefAttr := quiet, focusVisible := quiet }
    perf :=
      { jsxMapLoop := { findIter := fun content => [stretch content 0 10] }
        useEffect := quiet, syncIo := quiet, setState := quiet, objectKeysForeach := quiet
        arrayFrom := quiet, rustUnwrap := quiet }
    constraints := []
    ipc :=
      { mainChannel := quietGroup, rendererChannel := quietGroup, contextBridge := quiet
        objectKey := quietGroup }
    declaredChannels := []
    markdown := { backtickPath := quietGroup, mdLink := quietGroup }
    exists? := none
    catalog := []
    refactor :=
      { importNamed := quietGroup, importDefault := quietGroup, fnDecl := quietGroup
        varDecl := quietGroup, typeDecl := quietGroup, word := fun _ => none } }

/-- The two bytes of the accented letter are the 200th and the 201st behind the match. -/
def mapContent : List Char :=
  ".map((x)=>".toList ++ List.replicate 199 ' ' ++ ['é']

theorem map_scan_panics :
    ¬ ∀ (registry : Registry) (file : Path) (content : List Char),
      ∀ scanner ∈ registry.all, (scanner.scan file content).isSome = true := by
  intro always
  have returns := always mapRegistry "a.jsx" mapContent (perfScanner mapRegistry.perf)
    (by simp [Registry.all])
  have panics : ((perfScanner mapRegistry.perf).scan "a.jsx" mapContent).isSome = false := by
    decide +kernel
  rw [panics] at returns
  cases returns

end Mneme.Scanners
