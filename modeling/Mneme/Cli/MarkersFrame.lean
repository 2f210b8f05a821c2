/-
What an injection leaves alone, and injecting the same body again.

A block is the text from the first start sentinel to the first end sentinel behind
it.  The hash that its header records decides whether it may be replaced; a header
without a hash comes from an older format, and its block is replaced.
-/

import Mneme.Cli.Markers

namespace Mneme.Cli.Markers

open Mneme.Common Mneme.Library

/-! ### The header that the code writes is the header that it reads -/

variable {rest pattern : List Char}

theorem trimStartMatches_once (more : Nat) (stops : pattern.isPrefixOf rest = false) :
    trimStartMatches pattern (more + 1) (pattern ++ rest) = rest := by
  have starts : pattern.isPrefixOf (pattern ++ rest) = true :=
    List.isPrefixOf_iff_prefix.mpr (List.prefix_append _ _)
  unfold trimStartMatches
  rw [if_pos starts, List.drop_left]
  cases more with
  | zero => rfl
  | succ more =>
      unfold trimStartMatches
      rw [stops]
      rfl

theorem trimEndMatches_once (nonempty : pattern ≠ [])
    (stops : pattern.reverse.isPrefixOf rest.reverse = false) :
    trimEndMatches pattern (rest ++ pattern) = rest := by
  obtain ⟨more, count⟩ := Nat.exists_eq_succ_of_ne_zero
    (show (rest ++ pattern).length ≠ 0 from fun empty =>
      nonempty (List.append_eq_nil_iff.mp (List.length_eq_zero_iff.mp empty)).2)
  unfold trimEndMatches
  rw [count, List.reverse_append, trimStartMatches_once more stops, List.reverse_reverse]

theorem dropWhile_first {test : Char → Bool} {first : Char}
    (kept : test first = false) : (first :: rest).dropWhile test = first :: rest := by
  rw [List.dropWhile_cons, if_neg (by rw [kept]; exact Bool.false_ne_true)]

/-- One space at each end of a text is trimmed. -/
theorem trim_spaces {core : List Char} {first last : Char} (starts : core.head? = some first)
    (ends : core.getLast? = some last) (opens : isWhitespace first = false)
    (closes : isWhitespace last = false) :
    trim (String.ofList (' ' :: (core ++ [' ']))) = String.ofList core := by
  have space : isWhitespace ' ' = true := by decide
  have reversed : core.reverse.head? = some last := by
    rw [List.head?_reverse]
    exact ends
  unfold trim trimMatches
  rw [String.toList_ofList, List.dropWhile_cons, if_pos space]
  cases core with
  | nil => cases starts
  | cons head tail =>
      cases starts
      rw [List.cons_append, dropWhile_first opens, ← List.cons_append, List.reverse_append]
      cases turned : (first :: tail).reverse with
      | nil =>
          rw [turned] at reversed
          cases reversed
      | cons final others =>
          rw [turned] at reversed
          cases reversed
          rw [List.reverse_singleton, List.singleton_append, List.dropWhile_cons, if_pos space,
            dropWhile_first closes, ← turned, List.reverse_reverse]

theorem visible_of_all {text : List Char} (all : (text.all fun char => !isWhitespace char) = true) :
    ∀ char ∈ text, isWhitespace char = false := by
  intro char member
  have shown := List.all_eq_true.mp all char member
  rw [Bool.not_eq_true'] at shown
  exact shown

variable (bytes : List UInt8)

theorem hexLower_visible : ∀ char ∈ (hexLower bytes).toList, isWhitespace char = false := by
  intro char member
  exact @visible_of_all hexDigits rfl char (hexLower_digits bytes char member)

/-- The words of the header, between the comment signs. -/
def headerWords (hash : String) : List Char :=
  "mneme-start".toList ++ ' ' :: ("v1.0".toList ++ ' ' :: ("sha256=".toList ++ hash.toList))

theorem splitWhitespace_header :
    splitWhitespace (String.ofList (headerWords (hexLower bytes))) =
      ["mneme-start", "v1.0", "sha256=" ++ hexLower bytes] := by
  have name : ∀ char ∈ "mneme-start".toList, isWhitespace char = false :=
    visible_of_all rfl
  have version : ∀ char ∈ "v1.0".toList, isWhitespace char = false :=
    visible_of_all rfl
  have label : ∀ char ∈ "sha256=".toList, isWhitespace char = false :=
    visible_of_all rfl
  have hash : ∀ char ∈ "sha256=".toList ++ (hexLower bytes).toList, isWhitespace char = false := by
    intro char member
    rcases List.mem_append.mp member with inLabel | inHash
    · exact label char inLabel
    · exact hexLower_visible bytes char inHash
  have chars : (String.ofList (headerWords (hexLower bytes))).toList =
      headerWords (hexLower bytes) := String.toList_ofList
  have joined : "sha256=" ++ hexLower bytes =
      String.ofList ("sha256=".toList ++ (hexLower bytes).toList) := by
    rw [String.ofList_append, String.ofList_toList, String.ofList_toList]
  unfold splitWhitespace
  rw [chars, joined]
  unfold headerWords
  rw [List.splitOnP_append_cons_of_forall_mem name ' ' (by decide),
    List.splitOnP_append_cons_of_forall_mem version ' ' (by decide),
    List.splitOnP_eq_singleton hash]
  rfl

theorem written_header (hash : String) :
    markerStartPrefix.toList ++ headerText hash ++ "-->".toList =
      "<!--".toList ++ (' ' :: (headerWords hash ++ [' ']) ++ "-->".toList) := by
  unfold headerText headerWords
  simp only [String.toList_append, List.append_assoc, List.cons_append]
  rfl

theorem stripPrefix_append (lead text : String) : stripPrefix lead (lead ++ text) = some text := by
  have starts : lead.toList.isPrefixOf (lead ++ text).toList = true := by
    rw [String.toList_append]
    exact List.isPrefixOf_iff_prefix.mpr (List.prefix_append _ _)
  unfold stripPrefix
  rw [if_pos starts, String.toList_append, ← String.length_toList, List.drop_left,
    String.ofList_toList]

theorem headerWords_ends :
    ∃ last, (headerWords (hexLower bytes)).getLast? = some last ∧ isWhitespace last = false := by
  unfold headerWords
  cases hash : (hexLower bytes).toList with
  | nil => exact ⟨'=', rfl, by decide⟩
  | cons first rest =>
      have nonempty := List.cons_ne_nil first rest
      have inside : (first :: rest).getLast nonempty ∈ (hexLower bytes).toList := by
        rw [hash]
        exact List.getLast_mem nonempty
      refine ⟨(first :: rest).getLast nonempty, ?_, hexLower_visible bytes _ inside⟩
      rw [← List.cons_append, ← List.append_assoc, ← List.cons_append, ← List.append_assoc,
        List.getLast?_append_of_ne_nil _ nonempty]
      exact List.getLast?_eq_some_getLast nonempty

/-- The hash that an injection writes is the one that the next reads. -/
theorem recorded_written :
    (parseStartHeader (markerStartPrefix.toList ++ headerText (hexLower bytes) ++
      "-->".toList)).2 = some (hexLower bytes) := by
  obtain ⟨last, ends, visible⟩ := headerWords_ends bytes
  have front : ∀ rest : List Char, "<!--".toList.isPrefixOf (' ' :: rest) = false := fun _ => rfl
  have back : "-->".toList.reverse.isPrefixOf
      (' ' :: (headerWords (hexLower bytes) ++ [' '])).reverse = false := by
    rw [List.reverse_cons, List.reverse_append]
    rfl
  have trimmed : trim (String.ofList (trimEndMatches "-->".toList (trimStartMatches "<!--".toList
      ("<!--".toList ++ (' ' :: (headerWords (hexLower bytes) ++ [' ']) ++ "-->".toList)).length
      ("<!--".toList ++ (' ' :: (headerWords (hexLower bytes) ++ [' ']) ++ "-->".toList))))) =
        String.ofList (headerWords (hexLower bytes)) := by
    rw [List.length_append, Nat.add_comm]
    change trim (String.ofList (trimEndMatches _ (trimStartMatches _ (_ + 3 + 1) _))) = _
    rw [List.cons_append, trimStartMatches_once _ (front _), ← List.cons_append,
      trimEndMatches_once (by decide) back]
    exact trim_spaces rfl ends (by decide) visible
  unfold parseStartHeader
  dsimp only
  rw [written_header, trimmed, splitWhitespace_header]
  change (List.filterMap (stripPrefix "sha256=") ["sha256=" ++ hexLower bytes]).getLast? = _
  rw [List.filterMap_cons_some (stripPrefix_append _ _)]
  rfl

/-! ### The block that is found -/

variable {found : MarkerBlock}

/-- What is found is the text from the first start sentinel to the end sentinel. -/
theorem find_split {text : String} (present : find text = some found) :
    ∃ header, text = found.before ++
        (markerStartPrefix ++ header ++ "-->" ++ found.body ++ markerEnd) ++ found.after ∧
      cutAt markerStartPrefix.toList found.before.toList = none := by
  unfold find at present
  obtain ⟨⟨front, opened⟩, started, present⟩ := Option.bind_eq_some_iff.mp present
  obtain ⟨⟨header, rest⟩, closed, present⟩ := Option.bind_eq_some_iff.mp present
  obtain ⟨⟨body, after⟩, ended, present⟩ := Option.bind_eq_some_iff.mp present
  dsimp only at closed ended
  cases present
  refine ⟨String.ofList header, ?_, ?_⟩
  · apply String.toList_inj.mp
    simp only [String.toList_append, String.toList_ofList, List.append_assoc]
    rw [(cutAt_eq_some started).1, (cutAt_eq_some closed).1, (cutAt_eq_some ended).1]
  · rw [String.toList_ofList]
    exact cutAt_front_free (by decide) started

variable (digest : ByteArray → List UInt8)

/-- The block that an injection wrote is found, also where its body was edited. -/
theorem find_edited {existing before written edited after : String}
    (split : existing = before ++ (markerStartPrefix ++ String.ofList (headerText
      (computeBodyHash (fun bytes => hexLower (digest bytes)) written)) ++ "-->" ++
        edited ++ markerEnd) ++ after)
    (unmarked : cutAt markerStartPrefix.toList before.toList = none)
    (unended : cutAt markerEnd.toList edited.toList = none) :
    ∃ version, find existing = some
      { before := before
        body := edited
        after := after
        version := version
        recordedHash :=
          some (computeBodyHash (fun bytes => hexLower (digest bytes)) written) } := by
  have chars : existing.toList = before.toList ++ (markerStartPrefix.toList ++
      (headerText (hexLower (digest written.toUTF8)) ++ ("-->".toList ++
        (edited.toList ++ (markerEnd.toList ++ after.toList))))) := by
    rw [split]
    simp only [String.toList_append, String.toList_ofList, List.append_assoc]
    rfl
  have ended : cutAt markerEnd.toList (edited.toList ++ (markerEnd.toList ++ after.toList)) =
      some (edited.toList, after.toList) := cutAt_separator (by decide) unended _
  have found := find_block chars unmarked (dash_not_in_header _) ended
  rw [recorded_written, String.ofList_toList, String.ofList_toList, String.ofList_toList] at found
  exact ⟨_, found⟩

/-- The block that an injection wrote is found again, with the hash of its body. -/
theorem find_written {before after body : String}
    (unmarked : cutAt markerStartPrefix.toList before.toList = none)
    (free : cutAt markerEnd.toList body.toList = none) :
    ∃ version, find (before ++ renderBlock (fun bytes => hexLower (digest bytes)) body ++ after) =
      some
        { before := before
          body := ensureSurroundingNewlines body
          after := after
          version := version
          recordedHash := some (computeBodyHash (fun bytes => hexLower (digest bytes))
            (ensureSurroundingNewlines body)) } := by
  have split : before ++ renderBlock (fun bytes => hexLower (digest bytes)) body ++ after =
      before ++ (markerStartPrefix ++ String.ofList (headerText
        (computeBodyHash (fun bytes => hexLower (digest bytes))
          (ensureSurroundingNewlines body))) ++ "-->" ++ ensureSurroundingNewlines body ++
            markerEnd) ++ after := by
    apply String.toList_inj.mp
    rw [String.toList_append, String.toList_append, renderBlock_toList]
    simp only [String.toList_append, String.toList_ofList, List.append_assoc]
  exact find_edited digest split unmarked ((marker_in_normalized body).mpr free)

/-! ### Injecting over a block -/

variable (sha256 : ByteArray → String)

theorem bodyMatchesRecordedHash_iff (block : MarkerBlock) :
    block.bodyMatchesRecordedHash sha256 = false ↔
      ∃ recorded, block.recordedHash = some recorded ∧
        computeBodyHash sha256 block.body ≠ recorded := by
  unfold MarkerBlock.bodyMatchesRecordedHash
  cases block.recordedHash with
  | none =>
      apply iff_of_false (ne_of_beq_false rfl)
      intro edited
      obtain ⟨_, absent, _⟩ := edited
      cases absent
  | some recorded =>
      dsimp only
      rw [beq_eq_false_iff_ne]
      constructor
      · intro other
        exact ⟨recorded, rfl, other⟩
      · intro edited
        obtain ⟨_, same, other⟩ := edited
        cases same
        exact other

theorem inject_found {existing : String}
    (body : String) (force : Bool) (present : find existing = some found) :
    inject sha256 existing body force =
      if !found.bodyMatchesRecordedHash sha256 && !force then none
      else some (found.before ++ renderBlock sha256 body ++ found.after) := by
  unfold inject
  dsimp only
  rw [present]

theorem inject_found_eq_none {existing : String}
    (body : String) (force : Bool) (present : find existing = some found) :
    inject sha256 existing body force = none ↔
      force = false ∧ ∃ recorded, found.recordedHash = some recorded ∧
        computeBodyHash sha256 found.body ≠ recorded := by
  rw [inject_found sha256 body force present, ← bodyMatchesRecordedHash_iff]
  cases force <;> cases found.bodyMatchesRecordedHash sha256 <;> simp

theorem inject_found_eq_some {sha256 : ByteArray → String} {existing injected body : String}
    {force : Bool} (present : find existing = some found)
    (done : inject sha256 existing body force = some injected) :
    injected = found.before ++ renderBlock sha256 body ++ found.after := by
  rw [inject_found sha256 body force present] at done
  obtain ⟨_, same⟩ := Option.ite_none_left_eq_some.mp done
  exact (Option.some.inj same).symm

/-- Injecting the body of a block once more gives the same text. -/
theorem inject_written {before after body : String}
    (unmarked : cutAt markerStartPrefix.toList before.toList = none)
    (free : cutAt markerEnd.toList body.toList = none) (force : Bool) :
    inject (fun bytes => hexLower (digest bytes))
        (before ++ renderBlock (fun bytes => hexLower (digest bytes)) body ++ after) body force =
      some (before ++ renderBlock (fun bytes => hexLower (digest bytes)) body ++ after) := by
  obtain ⟨version, found⟩ := @find_written digest before after body unmarked free
  cases again : inject (fun bytes => hexLower (digest bytes))
      (before ++ renderBlock (fun bytes => hexLower (digest bytes)) body ++ after) body force with
  | none =>
      obtain ⟨_, recorded, same, other⟩ := (inject_found_eq_none _ body force found).mp again
      exact absurd (Option.some.inj same) other
  | some injected => rw [inject_found_eq_some found again]

end Mneme.Cli.Markers
