/-
Substring search with `LIKE`: the pattern of a query and the texts it takes.

The pattern escapes the wildcards of the query but not the escape character.
-/

import Mneme.Common.Text
import Mneme.Library.Like

namespace Mneme.Store

open Common Library

/-- `str::replace` of a character -/
def replaceChar (char : Char) (replacement : List Char) (text : List Char) : List Char :=
  text.flatMap (fun each => if each = char then replacement else [each])

/-- `query.replace('%', r"\%").replace('_', r"\_")` -/
def escapeWildcards (query : String) : List Char :=
  replaceChar '_' ['\\', '_'] (replaceChar '%' ['\\', '%'] query.toList)

/-- `format!("%{}%", ..)` -/
def likePattern (query : String) : List Char :=
  '%' :: (escapeWildcards query ++ ['%'])

/-- `text LIKE ?1 ESCAPE '\'`, where letters of ASCII are compared without case. -/
def takesLike (query text : String) : Bool :=
  Like.like Char.toLower '\\' (likePattern query) text.toList

/-- The query is a part of the text, letters of ASCII without case. -/
def ContainsIgnoringCase (query text : String) : Prop :=
  query.toList.map Char.toLower <:+: text.toList.map Char.toLower

/-! ### The pattern, character by character -/

def escapeChar (char : Char) : List Char :=
  if char = '%' ∨ char = '_' then ['\\', char] else [char]

variable (query : String)

theorem escapeWildcards_eq : escapeWildcards query = query.toList.flatMap escapeChar := by
  unfold escapeWildcards replaceChar
  rw [List.flatMap_assoc]
  congr 1
  funext char
  unfold escapeChar
  by_cases percent : char = '%'
  · subst percent
    rfl
  · by_cases underscore : char = '_'
    · subst underscore
      rfl
    · rw [if_neg percent, if_neg (not_or.mpr ⟨percent, underscore⟩), List.flatMap_singleton,
        if_neg underscore]

variable {char : Char}

theorem tokens_escapeChar (plain : char ≠ '\\') (rest : List Char) :
    Like.tokens '\\' (escapeChar char ++ rest) =
      (Like.tokens '\\' rest).map (fun read => .literal char :: read) := by
  unfold escapeChar
  split
  · exact Like.tokens_escape _ _ _
  · rename_i ordinary
    rw [not_or] at ordinary
    rw [List.singleton_append, Like.tokens_plain plain, Like.token_literal ordinary.1 ordinary.2]

/-- A query without the escape character is read as it stands. -/
theorem tokens_escaped {query : List Char} (free : '\\' ∉ query) :
    Like.tokens '\\' (query.flatMap escapeChar ++ ['%']) =
      some (query.map .literal ++ [.any]) := by
  induction query with
  | nil => rfl
  | cons char query ih =>
      rw [List.mem_cons, not_or] at free
      rw [List.flatMap_cons, List.append_assoc, tokens_escapeChar (Ne.symm free.1), ih free.2]
      rfl

theorem takesLike_iff {query : String} (free : '\\' ∉ query.toList) (text : String) :
    takesLike query text = true ↔ ContainsIgnoringCase query text := by
  unfold takesLike Like.like likePattern
  rw [Like.tokens_plain (by decide), escapeWildcards_eq, tokens_escaped free]
  exact Like.takes_inside

/-! ### A query with the escape character -/

/-- The shortest of the texts that the pattern of a query takes: the escape
character is lost before another character, and makes a wildcard of the escape
of a `%` or a `_` after it. -/
def shortestTaken : List Char → List Char
  | [] => []
  | [char] => if char = '\\' then ['%'] else [char]
  | char :: next :: rest =>
      if char = '\\' then
        if next = '_' then '\\' :: '-' :: shortestTaken rest
        else if next = '%' then '\\' :: shortestTaken rest
        else next :: shortestTaken rest
      else char :: shortestTaken (next :: rest)

theorem shortestTaken_other {next : Char} (one : next ≠ '_') (any : next ≠ '%') (rest : List Char) :
    shortestTaken ('\\' :: next :: rest) = next :: shortestTaken rest := by
  rw [shortestTaken, if_pos rfl, if_neg one, if_neg any]

theorem shortestTaken_plain (plain : char ≠ '\\') (rest : List Char) :
    shortestTaken (char :: rest) = char :: shortestTaken rest := by
  cases rest with
  | nil => exact if_neg plain
  | cons next rest => exact if_neg plain

theorem shortestTaken_length (query : List Char) : (shortestTaken query).length ≤ query.length := by
  induction query using shortestTaken.induct with
  | case1 => exact Nat.le_refl _
  | case2 => exact Nat.le_refl _
  | case3 char plain => rw [shortestTaken_plain plain]; exact Nat.le_refl _
  | case4 rest ih => exact Nat.succ_le_succ (Nat.succ_le_succ ih)
  | case5 rest _ ih => exact Nat.succ_le_succ (Nat.le_succ_of_le ih)
  | case6 next rest one any ih =>
      rw [shortestTaken_other one any]
      exact Nat.succ_le_succ (Nat.le_succ_of_le ih)
  | case7 char next rest plain ih =>
      rw [shortestTaken_plain plain]
      exact Nat.succ_le_succ ih

/-- The text is the query itself only where nothing in the query is misread. -/
theorem free_of_shortestTaken {query : List Char}
    (same : (shortestTaken query).map Char.toLower = query.map Char.toLower) : '\\' ∉ query := by
  have lengths := congrArg List.length same
  rw [List.length_map, List.length_map] at lengths
  induction query using shortestTaken.induct with
  | case1 => exact List.not_mem_nil
  | case2 => exact absurd same (by decide)
  | case3 char plain => exact fun member => plain (List.mem_singleton.mp member).symm
  | case4 rest ih =>
      have heads := congrArg (fun text => text[1]?) same
      change some '-' = some '_' at heads
      exact absurd heads (by decide)
  | case5 rest _ ih =>
      have shorter := shortestTaken_length rest
      change (shortestTaken rest).length + 1 = rest.length + 2 at lengths
      omega
  | case6 next rest one any ih =>
      have shorter := shortestTaken_length rest
      rw [shortestTaken_other one any, List.length_cons, List.length_cons, List.length_cons] at lengths
      omega
  | case7 char next rest plain ih =>
      rw [shortestTaken_plain plain] at same lengths
      rw [List.mem_cons, not_or]
      exact ⟨Ne.symm plain, ih (List.cons.inj same).2 (Nat.succ.inj lengths)⟩

theorem like_escapeChar (plain : char ≠ '\\') (rest text : List Char) :
    Like.like Char.toLower '\\' (escapeChar char ++ rest) (char :: text) =
      Like.like Char.toLower '\\' rest text := by
  unfold escapeChar
  split
  · rw [List.cons_append, List.singleton_append, Like.like_escape, beq_self_eq_true, Bool.true_and]
  · rename_i ordinary
    rw [not_or] at ordinary
    rw [List.singleton_append, Like.like_literal plain ordinary.1 ordinary.2, beq_self_eq_true,
      Bool.true_and]

theorem like_shortestTaken (query : List Char) :
    Like.like Char.toLower '\\' (query.flatMap escapeChar ++ ['%']) (shortestTaken query) =
      true := by
  induction query using shortestTaken.induct with
  | case1 => rfl
  | case2 => rfl
  | case3 char plain =>
      rw [shortestTaken_plain plain, List.flatMap_singleton, like_escapeChar plain]
      rfl
  | case4 rest ih =>
      -- The backslash takes the one that was to escape the `_`.
      change Like.like _ _ ('\\' :: '\\' :: '_' :: (rest.flatMap escapeChar ++ ['%']))
        ('\\' :: '-' :: shortestTaken rest) = true
      rw [Like.like_escape, Like.like_one (by decide), ih]
      rfl
  | case5 rest _ ih =>
      change Like.like _ _ ('\\' :: '\\' :: '%' :: (rest.flatMap escapeChar ++ ['%']))
        ('\\' :: shortestTaken rest) = true
      rw [Like.like_escape, Like.like_any (by decide) ih]
      rfl
  | case6 next rest one any ih =>
      have escaped : escapeChar next = [next] := if_neg (not_or.mpr ⟨any, one⟩)
      rw [shortestTaken_other one any, List.flatMap_cons, List.flatMap_cons, escaped]
      change Like.like _ _ ('\\' :: next :: (rest.flatMap escapeChar ++ ['%']))
        (next :: shortestTaken rest) = true
      rw [Like.like_escape, ih, beq_self_eq_true]
      rfl
  | case7 char next rest plain ih =>
      rw [shortestTaken_plain plain, List.flatMap_cons, List.append_assoc, like_escapeChar plain]
      exact ih

theorem takesLike_shortestTaken :
    takesLike query (String.ofList (shortestTaken query.toList)) = true := by
  unfold takesLike likePattern
  rw [String.toList_ofList, escapeWildcards_eq]
  exact Like.like_any (by decide) (like_shortestTaken query.toList)

theorem not_contains_shortestTaken {query : String} (misread : '\\' ∈ query.toList) :
    ¬ ContainsIgnoringCase query (String.ofList (shortestTaken query.toList)) := by
  intro inside
  unfold ContainsIgnoringCase at inside
  rw [String.toList_ofList] at inside
  have shorter : ((shortestTaken query.toList).map Char.toLower).length ≤
      (query.toList.map Char.toLower).length := by
    rw [List.length_map, List.length_map]
    exact shortestTaken_length query.toList
  exact free_of_shortestTaken (inside.eq_of_length_le shorter).symm misread

/-- What the pattern of a query takes is what contains the query, where the
query has no backslash and nowhere else. -/
theorem takesLike_contains_iff :
    (∀ text, takesLike query text = true ↔ ContainsIgnoringCase query text) ↔
      '\\' ∉ query.toList := by
  constructor
  · intro substring misread
    exact not_contains_shortestTaken misread
      ((substring _).mp (takesLike_shortestTaken query))
  · intro free text
    exact takesLike_iff free text

end Mneme.Store
