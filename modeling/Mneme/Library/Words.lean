/-
The words of a text: the longest runs of characters that satisfy a test.

Each character of a word is spelled by zero or more characters.  Read one after
the other, the words are the spelled characters that pass the test.
-/

import Mathlib.Data.List.Basic

namespace Mneme.Library

/-- The words read so far, and the one that is open. -/
structure Words where
  read : List (List Char) := []
  current : List Char := []

namespace Words

def next (word : Char → Bool) (spell : Char → List Char) (words : Words) (char : Char) : Words :=
  if word char = true then { words with current := words.current ++ spell char }
  else if words.current = [] then words
  else { read := words.read ++ [words.current], current := [] }

def close (words : Words) : List (List Char) :=
  if words.current = [] then words.read else words.read ++ [words.current]

end Words

def wordsOf (word : Char → Bool) (spell : Char → List Char) (text : List Char) :
    List (List Char) :=
  (text.foldl (Words.next word spell) {}).close

section Reading

variable {word : Char → Bool} {spell : Char → List Char}

theorem Words.close_flatten (words : Words) :
    words.close.flatten = words.read.flatten ++ words.current := by
  unfold Words.close
  split
  · next empty => rw [empty, List.append_nil]
  · simp

theorem Words.next_flatten (words : Words) (char : Char) :
    (words.next word spell char).read.flatten ++ (words.next word spell char).current =
      words.read.flatten ++ words.current ++ if word char = true then spell char else [] := by
  unfold Words.next
  split
  · exact (List.append_assoc _ _ _).symm
  · split
    · exact (List.append_nil _).symm
    · simp

variable (text : List Char)

theorem Words.fold_flatten (words : Words) :
    (text.foldl (Words.next word spell) words).read.flatten ++
        (text.foldl (Words.next word spell) words).current =
      words.read.flatten ++ words.current ++ (text.filter word).flatMap spell := by
  induction text generalizing words with
  | nil => simp
  | cons char text ih =>
      rw [List.foldl_cons, ih, Words.next_flatten, List.append_assoc, List.filter_cons]
      split <;> simp

/-- The characters of all words together. -/
theorem wordsOf_flatten : (wordsOf word spell text).flatten = (text.filter word).flatMap spell := by
  unfold wordsOf
  rw [Words.close_flatten, Words.fold_flatten]
  rfl

/-- The words there would be if the text ended here. -/
def Words.count (words : Words) : Nat :=
  words.read.length + if words.current = [] then 0 else 1

theorem Words.close_length (words : Words) : words.close.length = words.count := by
  unfold Words.close Words.count
  split
  · rfl
  · exact List.length_append

theorem Words.count_next (words : Words) (char : Char) :
    (words.next word spell char).count ≤ words.count + 1 := by
  unfold Words.next Words.count
  split
  · dsimp only
    split <;> omega
  · split
    · omega
    · rw [List.length_append]
      simp

theorem Words.count_fold (words : Words) :
    (text.foldl (Words.next word spell) words).count ≤ words.count + text.length := by
  induction text generalizing words with
  | nil => exact Nat.le_refl _
  | cons char text ih =>
      have step := @Words.count_next word spell words char
      have rest := ih (words.next word spell char)
      rw [List.foldl_cons, List.length_cons]
      omega

/-- No more words than characters. -/
theorem wordsOf_length : (wordsOf word spell text).length ≤ text.length := by
  have bound := @Words.count_fold word spell text {}
  have nothing : Words.count {} = 0 := rfl
  rw [nothing, Nat.zero_add] at bound
  unfold wordsOf
  rw [Words.close_length]
  exact bound

variable {text : List Char}

/-- Words depend on the test and the spelling of the characters there are. -/
theorem wordsOf_congr {other : Char → Bool} {respell : Char → List Char}
    (tests : ∀ char ∈ text, word char = other char)
    (spells : ∀ char ∈ text, word char = true → spell char = respell char) :
    wordsOf word spell text = wordsOf other respell text := by
  have together : text.foldl (Words.next word spell) {} =
      text.foldl (Words.next other respell) {} := by
    apply List.foldl_rel rfl
    intro char member words others same
    subst same
    unfold Words.next
    rw [← tests char member]
    split
    · next inside => rw [spells char member inside]
    · rfl
  unfold wordsOf
  rw [together]

/-- The finished words are not empty, and all characters so far are of words. -/
structure Words.Sound (word : Char → Bool) (words : Words) : Prop where
  nonempty : ∀ read ∈ words.read, read ≠ []
  passes : ∀ read ∈ words.read, ∀ char ∈ read, word char = true
  open_passes : ∀ char ∈ words.current, word char = true

variable {words : Words}

theorem Words.Sound.next (sound : words.Sound word) (char : Char) :
    (words.next word (fun char => [char]) char).Sound word := by
  unfold Words.next
  split
  · next passes =>
      refine ⟨sound.nonempty, sound.passes, ?_⟩
      intro other member
      rcases List.mem_append.mp member with before | now
      · exact sound.open_passes other before
      · rw [List.mem_singleton.mp now]
        exact passes
  · split
    · exact sound
    · next some_char =>
        refine ⟨?_, ?_, fun _ impossible => absurd impossible List.not_mem_nil⟩
        · intro read member
          rcases List.mem_append.mp member with before | now
          · exact sound.nonempty read before
          · rw [List.mem_singleton.mp now]
            exact some_char
        · intro read member
          rcases List.mem_append.mp member with before | now
          · exact sound.passes read before
          · rw [List.mem_singleton.mp now]
            exact sound.open_passes

theorem Words.Sound.fold (sound : words.Sound word) (text : List Char) :
    (text.foldl (Words.next word (fun char => [char])) words).Sound word := by
  induction text generalizing words with
  | nil => exact sound
  | cons char text ih => exact ih (sound.next char)

theorem Words.Sound.close (sound : words.Sound word) :
    ∀ read ∈ words.close, read ≠ [] ∧ ∀ char ∈ read, word char = true := by
  intro read member
  unfold Words.close at member
  split at member
  · exact ⟨sound.nonempty read member, sound.passes read member⟩
  · next some_char =>
      rcases List.mem_append.mp member with before | now
      · exact ⟨sound.nonempty read before, sound.passes read before⟩
      · rw [List.mem_singleton.mp now]
        exact ⟨some_char, sound.open_passes⟩

/-- A word is not empty, and all its characters pass the test. -/
theorem wordsOf_sound :
    ∀ read ∈ wordsOf word (fun char => [char]) text,
      read ≠ [] ∧ ∀ char ∈ read, word char = true := by
  have start : Words.Sound word {} :=
    ⟨fun _ impossible => absurd impossible List.not_mem_nil,
      fun _ impossible => absurd impossible List.not_mem_nil,
      fun _ impossible => absurd impossible List.not_mem_nil⟩
  exact (start.fold text).close

theorem wordsOf_none (none : ∀ char ∈ text, word char = false) : wordsOf word spell text = [] := by
  have still : text.foldl (Words.next word spell) {} = {} := by
    induction text with
    | nil => rfl
    | cons char text ih =>
        have skipped : Words.next word spell {} char = {} := by
          unfold Words.next
          rw [none char List.mem_cons_self, if_neg Bool.false_ne_true, if_pos rfl]
        rw [List.foldl_cons, skipped]
        exact ih (fun other member => none other (List.mem_cons_of_mem _ member))
  unfold wordsOf
  rw [still]
  rfl

variable {char : Char}

/-- A character of no word ends the word that is open. -/
theorem Words.next_break (words : Words) (apart : word char = false) :
    words.next word spell char = { read := words.close, current := [] } := by
  unfold Words.next Words.close
  rw [apart, if_neg Bool.false_ne_true]
  split
  · next empty =>
      cases words
      cases empty
      rfl
  · rfl

theorem wordsOf_break (text : List Char) (apart : word char = false) :
    wordsOf word spell (text ++ [char]) = wordsOf word spell text := by
  unfold wordsOf
  rw [List.foldl_append, List.foldl_cons, List.foldl_nil, Words.next_break _ apart]
  rfl

theorem Words.fold_word (words : Words) (inside : ∀ char ∈ text, word char = true) :
    text.foldl (Words.next word (fun char => [char])) words =
      { words with current := words.current ++ text } := by
  induction text generalizing words with
  | nil =>
      rw [List.append_nil]
      rfl
  | cons char text ih =>
      have first : words.next word (fun char => [char]) char =
          { words with current := words.current ++ [char] } :=
        if_pos (inside char List.mem_cons_self)
      rw [List.foldl_cons, first, ih _ (fun other member => inside other (List.mem_cons_of_mem _ member)),
        List.append_assoc]
      rfl

theorem wordsOf_word (inside : ∀ char ∈ text, word char = true) (some_char : text ≠ []) :
    wordsOf word (fun char => [char]) text = [text] := by
  unfold wordsOf
  rw [Words.fold_word _ inside]
  exact if_neg some_char

/-- A word behind a character of no word. -/
theorem wordsOf_append_word (front : List Char)
    (apart : word char = false) (inside : ∀ char ∈ text, word char = true) (some_char : text ≠ []) :
    wordsOf word (fun char => [char]) (front ++ [char] ++ text) =
      wordsOf word (fun char => [char]) front ++ [text] := by
  unfold wordsOf
  rw [List.foldl_append, List.foldl_append, List.foldl_cons, List.foldl_nil,
    Words.next_break _ apart, Words.fold_word _ inside]
  exact if_neg some_char

end Reading

end Mneme.Library
