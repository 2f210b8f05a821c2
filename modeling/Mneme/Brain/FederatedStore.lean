/-
The similarity of fingerprints and the query for the most similar ones.

A sketch is the sketch of a set of tokens: in each slot the greatest bound below
their hashes.  The numbers of an f32 are rationals, rounded after each operation.
-/

import Mathlib.Algebra.Order.Field.Basic
import Mathlib.Algebra.Order.Field.Rat
import Mathlib.Data.List.Zip
import Mneme.Brain.Federated
import Mneme.Common.Floats
import Mneme.Library.Selection

namespace Mneme.Brain.Federated

open Common Library

/-! ### Sketches of sets -/

section Sketches

variable (sha256 : List UInt8 → Digest)

/-- The hash of a token in a slot. -/
def slotHash (index : Nat) (token : Token) : UInt32 :=
  hash32Salted sha256 (utf8 token) (UInt32.ofNat index)

/-- In each slot the greatest number below the hashes of the tokens. -/
def SketchOf (tokens : Set Token) (k : Nat) (sketch : List UInt32) : Prop :=
  sketch.length = k ∧ ∀ (index : Nat) (slot : UInt32), sketch[index]? = some slot →
    ∀ bound, bound ≤ slot ↔ ∀ token ∈ tokens, bound ≤ slotHash sha256 index token

variable {sha256}

variable {tokens : Set Token} {k : Nat}

/-- A set has one sketch. -/
theorem SketchOf.unique {left right : List UInt32}
    (first : SketchOf sha256 tokens k left) (second : SketchOf sha256 tokens k right) :
    left = right := by
  apply List.ext_getElem (first.1.trans second.1.symm)
  intro index inLeft inRight
  have boundLeft := first.2 index _ (List.getElem?_eq_getElem inLeft)
  have boundRight := second.2 index _ (List.getElem?_eq_getElem inRight)
  apply UInt32.le_antisymm
  · exact (boundRight _).mpr ((boundLeft _).mp (UInt32.le_refl _))
  · exact (boundLeft _).mpr ((boundRight _).mp (UInt32.le_refl _))

theorem le_min_uint32 (bound left right : UInt32) :
    bound ≤ min left right ↔ bound ≤ left ∧ bound ≤ right := by
  change bound ≤ (if left ≤ right then left else right) ↔ _
  split
  · next below => exact ⟨fun under => ⟨under, UInt32.le_trans under below⟩, fun both => both.1⟩
  · next above =>
      have below := UInt32.le_of_lt (UInt32.not_le.mp above)
      exact ⟨fun under => ⟨UInt32.le_trans under below, under⟩, fun both => both.2⟩

/-- The slotwise minimum is the sketch of the union. -/
theorem SketchOf.union {left right : Set Token} {first second : List UInt32}
    (ofLeft : SketchOf sha256 left k first) (ofRight : SketchOf sha256 right k second) :
    SketchOf sha256 (left ∪ right) k (List.zipWith min first second) := by
  refine ⟨?_, ?_⟩
  · rw [List.length_zipWith, ofLeft.1, ofRight.1, Nat.min_self]
  · intro index slot there bound
    obtain ⟨one, other, inFirst, inSecond, rfl⟩ := List.getElem?_zipWith_eq_some.mp there
    rw [le_min_uint32, ofLeft.2 index one inFirst bound, ofRight.2 index other inSecond bound]
    constructor
    · intro both token member
      exact member.elim (both.1 token) (both.2 token)
    · intro all
      exact ⟨fun token member => all token (Or.inl member),
        fun token member => all token (Or.inr member)⟩

/-- The empty set leaves every slot at its largest number. -/
theorem sketchOf_empty (k : Nat) :
    SketchOf sha256 ∅ k (List.replicate k (UInt32.ofNat 0xFFFFFFFF)) := by
  refine ⟨List.length_replicate, ?_⟩
  intro index slot there bound
  have largest := (List.mem_replicate.mp (List.mem_of_getElem? there)).2
  rw [largest]
  apply iff_of_true
  · rw [UInt32.le_iff_toNat_le]
    exact Nat.le_of_lt_succ bound.toNat_lt
  · intro token impossible
    exact absurd impossible (Set.notMem_empty token)

variable {sketch : List UInt32}

/-- One more token is one more of the set. -/
theorem SketchOf.lower (ofTokens : SketchOf sha256 tokens k sketch) (token : Token) :
    SketchOf sha256 (insert token tokens) k (lowerSlots sha256 sketch token) := by
  refine ⟨(lowerSlots_length sha256 sketch token).trans ofTokens.1, ?_⟩
  intro index slot there bound
  unfold lowerSlots at there
  rw [List.getElem?_mapIdx] at there
  obtain ⟨before, held, rfl⟩ := Option.map_eq_some_iff.mp there
  have under := ofTokens.2 index before held bound
  dsimp only
  rw [Set.forall_mem_insert, ← under]
  change _ ↔ bound ≤ slotHash sha256 index token ∧ _
  change bound ≤ (if slotHash sha256 index token < before then slotHash sha256 index token
    else before) ↔ _
  split
  · next lower =>
      exact ⟨fun below => ⟨below, UInt32.le_trans below (UInt32.le_of_lt lower)⟩, fun both => both.1⟩
  · next notLower =>
      have above := UInt32.not_lt.mp notLower
      exact ⟨fun below => ⟨UInt32.le_trans below above, below⟩, fun both => both.2⟩

theorem SketchOf.fold (ofTokens : SketchOf sha256 tokens k sketch) (more : List Token) :
    SketchOf sha256 ({token | token ∈ more} ∪ tokens) k (more.foldl (lowerSlots sha256) sketch) := by
  induction more generalizing tokens sketch with
  | nil =>
      have none : ({token | token ∈ ([] : List Token)} : Set Token) = ∅ :=
        Set.eq_empty_of_forall_notMem (fun _ => List.not_mem_nil)
      rw [none, Set.empty_union]
      exact ofTokens
  | cons token rest ih =>
      have moved : ({other | other ∈ token :: rest} : Set Token) ∪ tokens =
          {other | other ∈ rest} ∪ insert token tokens := by
        ext other
        simp only [List.mem_cons, Set.mem_union, Set.mem_ofPred_eq, Set.mem_insert_iff]
        tauto
      rw [moved, List.foldl_cons]
      exact ih (ofTokens.lower token)

/-- The sketch of some tokens is that of their set. -/
theorem sketchOf_minhashK (tokens : List Token) (k : Nat) :
    SketchOf sha256 {token | token ∈ tokens} k (minhashK sha256 tokens k) := by
  have folded := (@sketchOf_empty sha256 k).fold tokens
  rw [Set.union_empty] at folded
  unfold minhashK
  dsimp only
  split
  · next nothing =>
      rw [nothing] at folded ⊢
      exact folded
  · exact folded

end Sketches

/-! ### Similarity -/

/-- The rounding of an f32 operation. -/
structure Rounding where
  round : Rat → Rat
  monotone : ∀ left right, left ≤ right → round left ≤ round right
  zero : round 0 = 0
  one : round 1 = 1

def exactRounding : Rounding :=
  { round := fun number => number
    monotone := fun _ _ below => below
    zero := rfl
    one := rfl }

namespace PatternFingerprint

variable (rounding : Rounding)

/-- The share of the slots in which two sketches agree. -/
def jaccard (left right : PatternFingerprint) : Rat :=
  if left.minhash.length ≠ right.minhash.length ∨ left.minhash = [] then 0
  else
    let matching := (left.minhash.zip right.minhash).countP (fun pair => pair.1 = pair.2)
    rounding.round (rounding.round matching / rounding.round left.minhash.length)

/-- `u64::count_ones` -/
def countOnes (bits : UInt64) : Nat :=
  (List.range 64).countP (fun index => bits.toNat.testBit index)

def simhashSimilarity (left right : PatternFingerprint) : Rat :=
  let hamming := rounding.round (countOnes (left.simhash ^^^ right.simhash))
  rounding.round (1 - rounding.round (hamming / 64))

/-- The blend of both. -/
def similarity (left right : PatternFingerprint) : Rat :=
  rounding.round (rounding.round (1 / 2 * left.simhashSimilarity rounding right) +
    rounding.round (1 / 2 * left.jaccard rounding right))

variable {rounding}

theorem jaccard_comm (left right : PatternFingerprint) :
    left.jaccard rounding right = right.jaccard rounding left := by
  unfold jaccard
  dsimp only
  by_cases same : left.minhash.length = right.minhash.length
  · have empties : left.minhash = [] ↔ right.minhash = [] := by
      rw [← List.length_eq_zero_iff, same, List.length_eq_zero_iff]
    have swapped : (left.minhash.zip right.minhash).countP (fun pair => pair.1 = pair.2) =
        (right.minhash.zip left.minhash).countP (fun pair => pair.1 = pair.2) := by
      rw [← List.zip_swap, List.countP_map]
      congr 1
      funext pair
      exact decide_eq_decide.mpr eq_comm
    rw [swapped, same]
    apply if_congr
    · exact or_congr (not_congr ⟨fun _ => rfl, fun _ => rfl⟩) empties
    · rfl
    · rfl
  · rw [if_pos (Or.inl same), if_pos (Or.inl (Ne.symm same))]

theorem jaccard_bounds (left right : PatternFingerprint) :
    0 ≤ left.jaccard rounding right ∧ left.jaccard rounding right ≤ 1 := by
  unfold jaccard
  dsimp only
  split
  · exact ⟨le_refl 0, by decide⟩
  · next compared =>
      obtain ⟨_, some_slot⟩ := not_or.mp compared
      have slots : 1 ≤ left.minhash.length := List.length_pos_iff.mpr some_slot
      have matches_le : (left.minhash.zip right.minhash).countP (fun pair => pair.1 = pair.2) ≤
          left.minhash.length := by
        refine Nat.le_trans List.countP_le_length ?_
        rw [List.length_zip]
        exact Nat.min_le_left _ _
      have divisor : 0 < rounding.round left.minhash.length := by
        have large := rounding.monotone 1 left.minhash.length (by exact_mod_cast slots)
        rw [rounding.one] at large
        exact lt_of_lt_of_le (by decide) large
      have least := rounding.monotone 0
        ((left.minhash.zip right.minhash).countP (fun pair => pair.1 = pair.2) : Nat)
        (by exact_mod_cast Nat.zero_le _)
      rw [rounding.zero] at least
      have most := rounding.monotone _ _ (Nat.cast_le.mpr matches_le)
      constructor
      · rw [← rounding.zero]
        exact rounding.monotone _ _ (div_nonneg least (le_of_lt divisor))
      · rw [← rounding.one]
        exact rounding.monotone _ _ ((div_le_one divisor).mpr most)

theorem jaccard_of_same {left right : PatternFingerprint} (same : left.minhash = right.minhash)
    (some_slot : left.minhash ≠ []) : left.jaccard rounding right = 1 := by
  have all : (left.minhash.zip right.minhash).countP (fun pair => pair.1 = pair.2) =
      left.minhash.length := by
    rw [← same]
    generalize left.minhash = slots
    induction slots with
    | nil => rfl
    | cons slot rest ih =>
        rw [List.zip_cons_cons, @List.countP_cons_of_pos _ (fun pair => decide (pair.1 = pair.2))
          (slot, slot) _ (decide_eq_true rfl), ih]
        rfl
  have slots : 1 ≤ left.minhash.length := List.length_pos_iff.mpr some_slot
  have large := rounding.monotone 1 left.minhash.length (by exact_mod_cast slots)
  rw [rounding.one] at large
  have divisor : rounding.round left.minhash.length ≠ 0 :=
    ne_of_gt (lt_of_lt_of_le (by decide) large)
  unfold jaccard
  dsimp only
  rw [if_neg (not_or.mpr ⟨not_not.mpr (congrArg List.length same), some_slot⟩), all,
    div_self divisor, rounding.one]

end PatternFingerprint

theorem computeFingerprint_minhash (tables : UnicodeTables) (sha256 : List UInt8 → Digest)
    (now : Int) (content : List Char) (patternKind : String) :
    (computeFingerprint tables sha256 now content patternKind).minhash =
      minhashK sha256 (tokenize tables content) MINHASH_K := rfl

/-- A sketch is that of a set of tokens, the sketch of a union the slotwise
minimum; the estimate is symmetric, a share, and 1 for one set. -/
theorem sketches_of_sets (sha256 : List UInt8 → Digest) :
    (∀ left right : List Token, (∀ token, token ∈ left ↔ token ∈ right) →
        ∀ k, minhashK sha256 left k = minhashK sha256 right k) ∧
      (∀ left right both : List Token, (∀ token, token ∈ both ↔ token ∈ left ∨ token ∈ right) →
        ∀ k, minhashK sha256 both k =
          List.zipWith min (minhashK sha256 left k) (minhashK sha256 right k)) ∧
      ∀ (rounding : Rounding) (left right : PatternFingerprint),
        left.jaccard rounding right = right.jaccard rounding left ∧
        (0 ≤ left.jaccard rounding right ∧ left.jaccard rounding right ≤ 1) ∧
        ∀ tokens others : List Token, (∀ token, token ∈ tokens ↔ token ∈ others) →
          left.minhash = minhashK sha256 tokens MINHASH_K →
            right.minhash = minhashK sha256 others MINHASH_K → left.jaccard rounding right = 1 := by
  have sameSet : ∀ left right : List Token, (∀ token, token ∈ left ↔ token ∈ right) →
      ∀ k, minhashK sha256 left k = minhashK sha256 right k := by
    intro left right same k
    have sets : ({token | token ∈ left} : Set Token) = {token | token ∈ right} := Set.ext same
    have first := @sketchOf_minhashK sha256 left k
    rw [sets] at first
    exact first.unique (sketchOf_minhashK right k)
  refine ⟨sameSet, ?_, ?_⟩
  · intro left right both joined k
    have sets : ({token | token ∈ both} : Set Token) =
        {token | token ∈ left} ∪ {token | token ∈ right} := Set.ext joined
    have first := @sketchOf_minhashK sha256 both k
    rw [sets] at first
    exact first.unique ((sketchOf_minhashK left k).union (sketchOf_minhashK right k))
  · intro rounding left right
    refine ⟨PatternFingerprint.jaccard_comm left right, PatternFingerprint.jaccard_bounds left right,
      ?_⟩
    intro tokens others same ofTokens ofOthers
    apply PatternFingerprint.jaccard_of_same
    · rw [ofTokens, ofOthers]
      exact sameSet tokens others same MINHASH_K
    · intro nothing
      have width := minhashK_length sha256 tokens MINHASH_K
      rw [← ofTokens, nothing] at width
      exact absurd width (by decide)

theorem sketches_of_letters :
    minhashK (fun _ => Vector.replicate 32 0) [['a'], ['b'], ['a']] 3 =
        minhashK (fun _ => Vector.replicate 32 0) [['b'], ['a']] 3 ∧
      minhashK (fun _ => Vector.replicate 32 0) [['b'], ['a']] 3 =
        List.zipWith min (minhashK (fun _ => Vector.replicate 32 0) [['a']] 3)
          (minhashK (fun _ => Vector.replicate 32 0) [['b']] 3) ∧
      (computeFingerprint englishTables (fun _ => Vector.replicate 32 0) 0 "a b a".toList
        "snippet").jaccard exactRounding (computeFingerprint englishTables
          (fun _ => Vector.replicate 32 0) 1 "b a".toList "snippet") = 1 := by
  obtain ⟨sets, unions, estimates⟩ := sketches_of_sets (fun _ => Vector.replicate 32 0)
  refine ⟨?_, ?_, ?_⟩
  · apply sets
    intro token
    simp only [List.mem_cons, List.not_mem_nil, or_false]
    tauto
  · apply unions
    intro token
    rw [List.mem_cons, List.mem_singleton, List.mem_singleton, or_comm]
  · apply (estimates exactRounding _ _).2.2 [['a'], ['b'], ['a']] [['b'], ['a']]
    · intro token
      simp only [List.mem_cons, List.not_mem_nil, or_false]
      tauto
    · have tokens : tokenize englishTables "a b a".toList = [['a'], ['b'], ['a']] := rfl
      rw [computeFingerprint_minhash, tokens]
    · have tokens : tokenize englishTables "b a".toList = [['b'], ['a']] := rfl
      rw [computeFingerprint_minhash, tokens]

/-! ### The store -/

/-- A row of `pattern_fingerprints`, as far as the query reads it. -/
structure FederatedRow where
  patternKind : String
  simhash : Int64
  minhash : List UInt8
  astShape : List Char
  spanTokens : Int
  createdAt : Int

/-- The row that `index_local` inserts. -/
def indexRow (fp : PatternFingerprint) : FederatedRow :=
  { patternKind := fp.patternKind
    simhash := fp.simhash.toInt64
    minhash := serialize fp.minhash
    astShape := fp.astShape
    spanTokens := fp.spanTokens.toNat
    createdAt := fp.createdAt }

/-- The number of words, then the words. -/
def deserialize (bytes : List UInt8) : Option (List UInt32) :=
  let count := leValue (bytes.take 8)
  if bytes.length < 8 + count * 4 then none
  else some (f32Chunks ((bytes.drop 8).take (count * 4)))

def rowToFp (row : FederatedRow) : Option PatternFingerprint :=
  (deserialize row.minhash).map (fun minhash =>
    { patternKind := row.patternKind
      simhash := row.simhash.toUInt64
      minhash
      astShape := row.astShape
      spanTokens := UInt32.ofNat (row.spanTokens % 2 ^ 32).toNat
      createdAt := row.createdAt })

theorem deserialize_serialize {sketch : List UInt32} (small : sketch.length < 2 ^ 64) :
    deserialize (serialize sketch) = some sketch := by
  have front : (serialize sketch).take 8 = leBytes 8 sketch.length :=
    List.take_left' (leBytes_length 8 sketch.length)
  have back : (serialize sketch).drop 8 = f32Bytes sketch :=
    List.drop_left' (leBytes_length 8 sketch.length)
  have count : leValue (leBytes 8 sketch.length) = sketch.length := by
    rw [leValue_leBytes]
    exact Nat.mod_eq_of_lt small
  have width : (serialize sketch).length = 8 + sketch.length * 4 := by
    have whole := congrArg List.length (List.take_append_drop 8 (serialize sketch))
    rw [front, back, List.length_append, leBytes_length, f32Bytes_length] at whole
    exact whole.symm
  have all : (f32Bytes sketch).take (sketch.length * 4) = f32Bytes sketch := by
    rw [← f32Bytes_length]
    exact List.take_length
  unfold deserialize
  dsimp only
  rw [front, count, width, if_neg (Nat.lt_irrefl _), back, all, f32Chunks_f32Bytes]

theorem rowToFp_indexRow {fp : PatternFingerprint} (small : fp.minhash.length < 2 ^ 64) :
    rowToFp (indexRow fp) = some fp := by
  unfold rowToFp indexRow
  dsimp only
  rw [deserialize_serialize small, Option.map_some]
  congr 1
  have tokens : ((fp.spanTokens.toNat : Int) % 2 ^ 32).toNat = fp.spanTokens.toNat := by
    have bound := fp.spanTokens.toNat_lt
    omega
  rw [tokens, UInt32.ofNat_toNat]
  rfl

/-- `ORDER BY created_at DESC` -/
def laterRow (left right : FederatedRow) : Prop :=
  right.createdAt ≤ left.createdAt

instance : DecidableRel laterRow := fun left right =>
  inferInstanceAs (Decidable (right.createdAt ≤ left.createdAt))

abbrev ScoredFp := PatternFingerprint × Rat

/-- By descending score. -/
def higherSimilarity (left right : ScoredFp) : Prop :=
  right.2 ≤ left.2

instance : DecidableRel higherSimilarity := fun left right =>
  inferInstanceAs (Decidable (right.2 ≤ left.2))

instance : Std.Total higherSimilarity :=
  ⟨fun left right => le_total right.2 left.2⟩

instance : IsTrans ScoredFp higherSimilarity :=
  ⟨fun _ _ _ first second => le_trans second first⟩

/-- A fingerprint with its similarity to a probe. -/
def scored (rounding : Rounding) (fp candidate : PatternFingerprint) : ScoredFp :=
  (candidate, fp.similarity rounding candidate)

/-- The limit of the statement. -/
def candidateLimit : Nat := 512

/-- `FederatedStore::query_similar`; a row that cannot be read is an error. -/
def querySimilar (rounding : Rounding) (fp : PatternFingerprint) (k : Nat)
    (rows : List FederatedRow) : Option (List ScoredFp) :=
  let selected := ((rows.filter (fun row => row.patternKind = fp.patternKind)).insertionSort
    laterRow).take candidateLimit
  (selected.mapM rowToFp).map (fun candidates =>
    ((candidates.map (scored rounding fp)).insertionSort higherSimilarity).take k)

/-- The fingerprints of the probe's kind, the latest first. -/
def latest (fp : PatternFingerprint) (stored : List PatternFingerprint) : List PatternFingerprint :=
  (stored.filter (fun other => other.patternKind = fp.patternKind)).insertionSort
    (fun left right => right.createdAt ≤ left.createdAt)

/-- The answer is the most similar of all fingerprints of the probe's kind. -/
def FindsBest (rounding : Rounding) (fp : PatternFingerprint) (k : Nat)
    (stored : List PatternFingerprint) : Prop :=
  ∃ hits, querySimilar rounding fp k (stored.map indexRow) = some hits ∧
    Selection.TopOf higherSimilarity k
      ((stored.filter (fun other => other.patternKind = fp.patternKind)).map (scored rounding fp)) hits

/-- For each fingerprint behind the 512 latest, as many of these as are asked for
are at least as similar. -/
def OlderBeaten (rounding : Rounding) (fp : PatternFingerprint) (k : Nat)
    (stored : List PatternFingerprint) : Prop :=
  ∀ older ∈ (latest fp stored).drop candidateLimit,
    k ≤ ((latest fp stored).take candidateLimit).countP (fun kept =>
      fp.similarity rounding older ≤ fp.similarity rounding kept)

section Query

variable {rounding : Rounding} {fp : PatternFingerprint} {k : Nat} {stored : List PatternFingerprint}

theorem selected_rows (fp : PatternFingerprint) (stored : List PatternFingerprint) :
    (((stored.map indexRow).filter (fun row => row.patternKind = fp.patternKind)).insertionSort
      laterRow).take candidateLimit = ((latest fp stored).take candidateLimit).map indexRow := by
  have filtered : (stored.map indexRow).filter (fun row => row.patternKind = fp.patternKind) =
      (stored.filter (fun other => other.patternKind = fp.patternKind)).map indexRow :=
    List.filter_map
  have sorted := List.map_insertionSort (fun left right : PatternFingerprint =>
    right.createdAt ≤ left.createdAt) laterRow indexRow
      (stored.filter (fun other => other.patternKind = fp.patternKind))
      (fun _ _ _ _ => Iff.rfl)
  rw [filtered, ← sorted, List.map_take]
  rfl

theorem mapM_rowToFp {some_stored : List PatternFingerprint}
    (small : ∀ other ∈ some_stored, other.minhash.length < 2 ^ 64) :
    (some_stored.map indexRow).mapM rowToFp = some some_stored := by
  induction some_stored with
  | nil => rfl
  | cons other rest ih =>
      rw [List.map_cons, List.mapM_cons, rowToFp_indexRow (small other List.mem_cons_self),
        ih (fun later member => small later (List.mem_cons_of_mem _ member))]
      rfl

theorem latest_perm (fp : PatternFingerprint) (stored : List PatternFingerprint) :
    (latest fp stored).Perm (stored.filter (fun other => other.patternKind = fp.patternKind)) :=
  List.perm_insertionSort _ _

/-- The query ranks the 512 latest fingerprints. -/
theorem querySimilar_rows (small : ∀ other ∈ stored, other.minhash.length < 2 ^ 64) :
    querySimilar rounding fp k (stored.map indexRow) =
      some (((((latest fp stored).take candidateLimit).map (scored rounding fp)).insertionSort
        higherSimilarity).take k) := by
  have inside : ∀ other ∈ (latest fp stored).take candidateLimit,
      other.minhash.length < 2 ^ 64 := by
    intro other member
    exact small other (List.mem_filter.mp
      ((latest_perm fp stored).subset (List.mem_of_mem_take member))).1
  unfold querySimilar
  dsimp only
  rw [selected_rows, mapM_rowToFp inside]
  rfl

/-- A query finds the most similar fingerprints exactly when no older one beats
what the latest have to offer. -/
theorem findsBest_iff (small : ∀ other ∈ stored, other.minhash.length < 2 ^ 64) :
    FindsBest rounding fp k stored ↔ OlderBeaten rounding fp k stored := by
  have split : ((((latest fp stored).take candidateLimit).map (scored rounding fp)) ++
      (((latest fp stored).drop candidateLimit).map (scored rounding fp))).Perm
        ((stored.filter (fun other => other.patternKind = fp.patternKind)).map
          (scored rounding fp)) := by
    rw [← List.map_append, List.take_append_drop]
    exact (latest_perm fp stored).map _
  have pooled := @Selection.topOf_pool_iff _ higherSimilarity _ _ _ _ _ _ split k
  unfold FindsBest
  rw [querySimilar_rows small]
  constructor
  · intro found
    obtain ⟨hits, returned, top⟩ := found
    cases returned
    intro older member
    have enough := pooled.mp top _ (List.mem_map_of_mem member)
    rw [List.countP_map] at enough
    exact enough
  · intro beaten
    refine ⟨_, rfl, pooled.mpr ?_⟩
    intro other member
    obtain ⟨older, behind, rfl⟩ := List.mem_map.mp member
    rw [List.countP_map]
    exact beaten older behind

end Query

/-! ### An older match -/

/-- A fingerprint of some sketch and time. -/
def sketched (simhash : UInt64) (slot : UInt32) (createdAt : Int) : PatternFingerprint :=
  { patternKind := "func_signature", simhash, minhash := List.replicate 2 slot, astShape := [],
    spanTokens := 1, createdAt }

theorem findsBest_iff_sketched :
    FindsBest exactRounding (sketched 0 0 9) 1 [sketched 0 0 1, sketched 1 0 2] ↔
      OlderBeaten exactRounding (sketched 0 0 9) 1 [sketched 0 0 1, sketched 1 0 2] := by
  apply findsBest_iff
  intro other member
  rcases List.mem_cons.mp member with first | second
  · rw [first]
    decide
  · rw [List.mem_singleton.mp second]
    decide

/-- The same fingerprint as the probe is behind 512 later ones. -/
theorem older_match_missed :
    ¬ ∀ (rounding : Rounding) (fp : PatternFingerprint) (k : Nat)
      (stored : List PatternFingerprint),
      (∀ other ∈ stored, other.minhash.length < 2 ^ 64) → FindsBest rounding fp k stored := by
  intro always
  have small : ∀ other ∈ List.replicate 512 (sketched 1 1 2) ++ [sketched 0 0 1],
      other.minhash.length < 2 ^ 64 := by
    intro other member
    rcases List.mem_append.mp member with later | first
    · rw [(List.mem_replicate.mp later).2]
      decide
    · rw [List.mem_singleton.mp first]
      decide
  obtain ⟨hits, returned, top⟩ := always exactRounding (sketched 0 0 9) 1 _ small
  have answered : (querySimilar exactRounding (sketched 0 0 9) 1
      ((List.replicate 512 (sketched 1 1 2) ++ [sketched 0 0 1]).map indexRow)).map
        (List.map Prod.snd) = some [63 / 128] := by
    decide +kernel
  rw [returned] at answered
  have scores := Option.some.inj answered
  have match_stored : scored exactRounding (sketched 0 0 9) (sketched 0 0 1) ∈
      ((List.replicate 512 (sketched 1 1 2) ++ [sketched 0 0 1]).filter
        (fun other => other.patternKind = (sketched 0 0 9).patternKind)).map
          (scored exactRounding (sketched 0 0 9)) :=
    List.mem_map_of_mem (List.mem_filter.mpr
      ⟨List.mem_append_right _ (List.mem_singleton_self _), decide_eq_true rfl⟩)
  have match_score : (scored exactRounding (sketched 0 0 9) (sketched 0 0 1)).2 = 1 := by
    decide +kernel
  have kept_score : (63 / 128 : Rat) ∈ hits.map Prod.snd := by
    rw [scores]
    exact List.mem_cons_self
  obtain ⟨kept, held, score⟩ := List.mem_map.mp kept_score
  rcases top.chosen_or_behind match_stored with chosen | behind
  · have there := List.mem_map_of_mem (f := Prod.snd) chosen
    rw [scores, match_score] at there
    exact absurd there (by decide +kernel)
  · have below := behind kept held
    unfold higherSimilarity at below
    rw [match_score, score] at below
    exact absurd below (by decide +kernel)

end Mneme.Brain.Federated
