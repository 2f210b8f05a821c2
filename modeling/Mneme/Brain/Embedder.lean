/-
The embedder and its cache: one text at a time or many in a batch, which looks up what is
cached, has the rest computed together and puts the vectors back to their places.

The backend and the hash of a text are parameters.  Where the hash is injective and the
backend computes a batch text by text, the cache holds nothing but what the backend says of
some text, and a batch is the list of what each text gives on its own.
-/

import Mathlib.Data.List.Forall2
import Mathlib.Data.List.Induction
import Mneme.Common.Floats
import Mneme.Library.Run

namespace Mneme.Brain.Embedder

open Common Transition

abbrev Text := List Char

abbrev Vector := List F32

def embeddingDim : Nat := 384

def zeroVec : Vector :=
  List.replicate embeddingDim 0

variable {Key BrainError : Type}

/-! ### Backends -/

structure Backend (BrainError : Type) where
  embedOne : Text → Except BrainError Vector
  embedBatch : List Text → Except BrainError (List Vector)

def Backend.uninitialized : Backend BrainError :=
  { embedOne := fun _ => .ok zeroVec
    embedBatch := fun texts => .ok (List.replicate texts.length zeroVec) }

/-- The hashing trick. -/
def Backend.fallback (hashingEmbed : Text → Vector) : Backend BrainError :=
  { embedOne := fun text => .ok (hashingEmbed text)
    embedBatch := fun texts => .ok (texts.map hashingEmbed) }

/-- A batch is computed text by text, up to the first error. -/
def Backend.Batched (backend : Backend BrainError) : Prop :=
  ∀ texts, backend.embedBatch texts = texts.mapM backend.embedOne

/-- The fallback computes a batch text by text. -/
theorem fallback_batched (hashingEmbed : Text → Vector) :
    (Backend.fallback hashingEmbed : Backend BrainError).Batched := by
  intro texts
  induction texts with
  | nil => rfl
  | cons text texts ih =>
      rw [List.mapM_cons, ← ih]
      rfl

/-! ### The cache -/

/-- A `DashMap`. -/
abbrev Cache (Key : Type) := Key → Option Vector

def Cache.empty : Cache Key := fun _ => none

def Cache.insert [DecidableEq Key] (cache : Cache Key) (key : Key) (vector : Vector) : Cache Key :=
  Function.update cache key (some vector)

section Embed

variable [DecidableEq Key] (hashKey : Text → Key) (backend : Backend BrainError)

def embed (cache : Cache Key) (text : Text) : Except BrainError Vector × Cache Key :=
  match cache (hashKey text) with
  | some vector => (.ok vector, cache)
  | none =>
      match backend.embedOne text with
      | .error error => (.error error, cache)
      | .ok vector => (.ok vector, cache.insert (hashKey text) vector)

/-- What the first loop of a batch fills: the places, and what is to compute for which of them. -/
structure Lookup where
  out : List (Option Vector)
  toComputeIdx : List Nat
  toComputeText : List Text

def lookUp (cache : Cache Key) (found : Lookup) (placed : Text × Nat) : Lookup :=
  match cache (hashKey placed.1) with
  | some vector => { found with out := found.out.set placed.2 (some vector) }
  | none =>
      { found with
        toComputeIdx := found.toComputeIdx ++ [placed.2]
        toComputeText := found.toComputeText ++ [placed.1] }

def lookUpAll (cache : Cache Key) (texts : List Text) : Lookup :=
  texts.zipIdx.foldl (lookUp hashKey cache)
    { out := List.replicate texts.length none, toComputeIdx := [], toComputeText := [] }

/-- One turn of the second loop: the cache and the places. -/
def scatter (texts : List Text) (state : Cache Key × List (Option Vector)) (slot : Nat × Vector) :
    Cache Key × List (Option Vector) :=
  match texts[slot.1]? with
  | some text => (state.1.insert (hashKey text) slot.2, state.2.set slot.1 (some slot.2))
  | none => state

def embedBatch (cache : Cache Key) (texts : List Text) :
    Except BrainError (List Vector) × Cache Key :=
  if texts.isEmpty then (.ok [], cache)
  else
    let found := lookUpAll hashKey cache texts
    if found.toComputeText.isEmpty then (.ok (found.out.map (fun place => place.getD zeroVec)), cache)
    else
      match backend.embedBatch found.toComputeText with
      | .error error => (.error error, cache)
      | .ok computed =>
          let (cache, out) := (found.toComputeIdx.zip computed).foldl (scatter hashKey texts)
            (cache, found.out)
          (.ok (out.map (fun place => place.getD zeroVec)), cache)

inductive Operation where
  | embed (text : Text)
  | embedBatch (texts : List Text)
  | clearCache

def next (cache : Cache Key) : Operation → Option (Cache Key)
  | .embed text => some (embed hashKey backend cache text).2
  | .embedBatch texts => some (embedBatch hashKey backend cache texts).2
  | .clearCache => some Cache.empty

end Embed

/-! ### What the cache holds -/

section Correct

variable {hashKey : Text → Key} {backend : Backend BrainError} {cache : Cache Key}

/-- Every vector in the cache is that of a text with its key. -/
def Correct (hashKey : Text → Key) (backend : Backend BrainError) (cache : Cache Key) : Prop :=
  ∀ key vector, cache key = some vector →
    ∃ text, hashKey text = key ∧ backend.embedOne text = .ok vector

theorem Correct.empty : Correct hashKey backend Cache.empty := by
  intro key vector impossible
  cases impossible

variable {vector : Vector} {text : Text}

theorem Correct.hit (correct : Correct hashKey backend cache)
    (injective : Function.Injective hashKey)
    (hit : cache (hashKey text) = some vector) : backend.embedOne text = .ok vector := by
  obtain ⟨other, same, computed⟩ := correct _ vector hit
  rw [← injective same]
  exact computed

/-! ### The first loop -/

/-- What is found when the texts up to a place have been looked up. -/
structure Looked (hashKey : Text → Key) (cache : Cache Key) (front : List Text) (size : Nat)
    (found : Lookup) : Prop where
  length : found.out.length = size
  places : ∀ place < size,
    found.out[place]? = some (front[place]?.bind (fun text => cache (hashKey text)))
  texts : found.toComputeText = front.filter (fun text => (cache (hashKey text)).isNone)
  parallel : List.Forall₂ (fun place text => front[place]? = some text) found.toComputeIdx
    found.toComputeText
  missed : ∀ place text, front[place]? = some text → cache (hashKey text) = none →
    place ∈ found.toComputeIdx

theorem Looked.step {front : List Text} {size : Nat} {found : Lookup}
    (looked : Looked hashKey cache front size found) (text : Text) (room : front.length < size) :
    Looked hashKey cache (front ++ [text]) size
      (lookUp hashKey cache found (text, front.length)) := by
  have earlier : ∀ {place : Nat} {other : Text}, front[place]? = some other →
      (front ++ [text])[place]? = some other := by
    intro place other there
    rw [List.getElem?_append_left (List.getElem?_eq_some_iff.mp there).1, there]
  have cases_ : ∀ {place : Nat} {other : Text}, (front ++ [text])[place]? = some other →
      front[place]? = some other ∨ place = front.length ∧ other = text := by
    intro place other there
    rcases Nat.lt_trichotomy place front.length with before | here | behind
    · rw [List.getElem?_append_left before] at there
      exact Or.inl there
    · rw [here, List.getElem?_concat_length] at there
      injection there with there
      exact Or.inr ⟨here, there.symm⟩
    · rw [List.getElem?_eq_none (by simp; omega)] at there
      cases there
  unfold lookUp
  cases hit : cache (hashKey text) with
  | some vector =>
      refine ⟨by rw [List.length_set, looked.length], ?_, ?_, ?_, ?_⟩
      · intro place inside
        by_cases here : place = front.length
        · rw [here, List.getElem?_set_self (by rw [looked.length]; exact room),
            List.getElem?_concat_length, Option.bind_some, hit]
        · rw [List.getElem?_set_ne (Ne.symm here), looked.places place inside]
          congr 2
          by_cases before : place < front.length
          · rw [List.getElem?_append_left before]
          · rw [List.getElem?_eq_none (by omega), List.getElem?_eq_none (by simp; omega)]
      · rw [List.filter_append, List.filter_cons_of_neg (by simp [hit]), List.filter_nil,
          List.append_nil]
        exact looked.texts
      · exact looked.parallel.imp (fun _ _ there => earlier there)
      · intro place other there missing
        rcases cases_ there with before | ⟨_, same⟩
        · exact looked.missed place other before missing
        · rw [same, hit] at missing
          cases missing
  | none =>
      refine ⟨looked.length, ?_, ?_, ?_, ?_⟩
      · intro place inside
        rw [looked.places place inside]
        by_cases here : place = front.length
        · rw [here, List.getElem?_concat_length, List.getElem?_eq_none (Nat.le_refl _),
            Option.bind_some, Option.bind_none, hit]
        · congr 2
          by_cases before : place < front.length
          · rw [List.getElem?_append_left before]
          · rw [List.getElem?_eq_none (by omega), List.getElem?_eq_none (by simp; omega)]
      · rw [List.filter_append, List.filter_cons_of_pos (by simp [hit]), List.filter_nil,
          ← looked.texts]
      · exact List.rel_append (looked.parallel.imp (fun _ _ there => earlier there))
          (List.Forall₂.cons List.getElem?_concat_length List.Forall₂.nil)
      · intro place other there missing
        rcases cases_ there with before | ⟨here, _⟩
        · exact List.mem_append_left _ (looked.missed place other before missing)
        · rw [here]
          exact List.mem_append_right _ (List.mem_singleton_self _)

theorem looked_all (texts : List Text) :
    Looked hashKey cache texts texts.length (lookUpAll hashKey cache texts) := by
  unfold lookUpAll
  suffices every : ∀ front rest, front ++ rest = texts →
      Looked hashKey cache front texts.length (front.zipIdx.foldl (lookUp hashKey cache)
        { out := List.replicate texts.length none, toComputeIdx := [], toComputeText := [] }) from
    every texts [] (List.append_nil texts)
  intro front
  induction front using List.reverseRecOn with
  | nil =>
      intro rest _
      refine ⟨List.length_replicate, ?_, rfl, List.Forall₂.nil, ?_⟩
      · intro place inside
        exact List.getElem?_replicate_of_lt inside
      · intro place text impossible
        cases impossible
  | append_singleton front text ih =>
      intro rest split
      rw [List.append_assoc] at split
      have room : front.length < texts.length := by
        rw [← split, List.length_append]
        simp
      rw [List.zipIdx_append, List.foldl_append, Nat.zero_add]
      exact (ih ([text] ++ rest) split).step text room

/-! ### The second loop -/

/-- What is filled when these slots are still to come. -/
structure Filled (hashKey : Text → Key) (backend : Backend BrainError) (texts : List Text)
    (slots : List Nat) (state : Cache Key × List (Option Vector)) : Prop where
  correct : Correct hashKey backend state.1
  length : state.2.length = texts.length
  sound : ∀ (place : Nat) (vector : Vector), state.2[place]? = some (some vector) →
    ∃ text, texts[place]? = some text ∧ backend.embedOne text = .ok vector
  missing : ∀ place : Nat, state.2[place]? = some none → place ∈ slots

variable {texts : List Text}

/-- Texts whose places are all filled have these vectors. -/
theorem mapM_of_filled {out : List (Option Vector)}
    (places : List.Forall₂ (fun text place => ∃ vector, place = some vector ∧
      backend.embedOne text = .ok vector) texts out) :
    texts.mapM backend.embedOne = .ok (out.map (fun place => place.getD zeroVec)) := by
  induction places with
  | nil => rfl
  | cons there places ih =>
      obtain ⟨vector, rfl, computed⟩ := there
      rw [List.mapM_cons, computed, ih]
      rfl

variable {state : Cache Key × List (Option Vector)}

theorem Filled.vectors (filled : Filled hashKey backend texts [] state) :
    texts.mapM backend.embedOne = .ok (state.2.map (fun place => place.getD zeroVec)) := by
  apply mapM_of_filled
  rw [List.forall₂_iff_get]
  refine ⟨filled.length.symm, ?_⟩
  intro place inside inside'
  have there : state.2[place]? = some (state.2.get ⟨place, inside'⟩) :=
    List.getElem?_eq_getElem inside'
  cases held : state.2.get ⟨place, inside'⟩ with
  | none =>
      rw [held] at there
      cases filled.missing place there
  | some vector =>
      rw [held] at there
      obtain ⟨text, here, computed⟩ := filled.sound place vector there
      rw [List.getElem?_eq_getElem inside] at here
      injection here with here
      exact ⟨vector, rfl, by rw [List.get_eq_getElem, here, computed]⟩

/-- The first error among the texts that are not cached is the first one of all. -/
theorem mapM_error_of_filter {missing : Text → Bool} {error : BrainError}
    (known : ∀ text ∈ texts, missing text = false → ∃ vector, backend.embedOne text = .ok vector)
    (failed : (texts.filter missing).mapM backend.embedOne = .error error) :
    texts.mapM backend.embedOne = .error error := by
  induction texts with
  | nil => cases failed
  | cons text texts ih =>
      have later := ih (fun other member => known other (List.mem_cons_of_mem _ member))
      rw [List.mapM_cons]
      cases here : missing text with
      | false =>
          obtain ⟨vector, computed⟩ := known text List.mem_cons_self here
          rw [List.filter_cons_of_neg (by rw [here]; exact Bool.false_ne_true)] at failed
          rw [computed, later failed]
          rfl
      | true =>
          rw [List.filter_cons_of_pos here, List.mapM_cons] at failed
          cases computed : backend.embedOne text with
          | error other =>
              rw [computed] at failed
              exact failed
          | ok vector =>
              rw [computed] at failed
              cases rest : (texts.filter missing).mapM backend.embedOne with
              | ok vectors =>
                  rw [rest] at failed
                  cases failed
              | error other =>
                  rw [rest] at failed
                  rw [later (rest.trans failed)]
                  rfl

/-! ### What goes into the cache -/

variable [DecidableEq Key]

theorem Correct.insert (correct : Correct hashKey backend cache)
    (computed : backend.embedOne text = .ok vector) :
    Correct hashKey backend (cache.insert (hashKey text) vector) := by
  intro key other there
  unfold Cache.insert at there
  by_cases same : key = hashKey text
  · rw [same, Function.update_self] at there
    injection there with there
    exact ⟨text, same.symm, there ▸ computed⟩
  · rw [Function.update_of_ne same] at there
    exact correct key other there

theorem embed_of_correct (correct : Correct hashKey backend cache)
    (injective : Function.Injective hashKey) (text : Text) :
    (embed hashKey backend cache text).1 = backend.embedOne text ∧
      Correct hashKey backend (embed hashKey backend cache text).2 := by
  unfold embed
  cases hit : cache (hashKey text) with
  | some vector => exact ⟨(correct.hit injective hit).symm, correct⟩
  | none =>
      cases computed : backend.embedOne text with
      | error error => exact ⟨rfl, correct⟩
      | ok vector => exact ⟨rfl, correct.insert computed⟩

theorem Filled.scatter {slot : Nat} {slots : List Nat}
    (filled : Filled hashKey backend texts (slot :: slots) state)
    (there : texts[slot]? = some text) (computed : backend.embedOne text = .ok vector) :
    Filled hashKey backend texts slots (scatter hashKey texts state (slot, vector)) := by
  have inside : slot < state.2.length := by
    rw [filled.length]
    exact (List.getElem?_eq_some_iff.mp there).1
  unfold Embedder.scatter
  rw [there]
  refine ⟨filled.correct.insert computed, by rw [List.length_set, filled.length], ?_, ?_⟩
  · intro place other filledIn
    by_cases same : slot = place
    · rw [← same, List.getElem?_set_self inside] at filledIn
      injection filledIn with filledIn
      injection filledIn with filledIn
      rw [← same, ← filledIn]
      exact ⟨text, there, computed⟩
    · rw [List.getElem?_set_ne same] at filledIn
      exact filled.sound place other filledIn
  · intro place empty
    by_cases same : slot = place
    · rw [← same, List.getElem?_set_self inside] at empty
      cases empty
    · rw [List.getElem?_set_ne same] at empty
      exact (List.mem_cons.mp (filled.missing place empty)).resolve_left (Ne.symm same)

theorem Filled.scatterAll {slots : List Nat} {missing : List Text} {vectors : List Vector}
    (filled : Filled hashKey backend texts slots state)
    (parallel : List.Forall₂ (fun place text => texts[place]? = some text) slots missing)
    (computed : missing.mapM backend.embedOne = .ok vectors) :
    Filled hashKey backend texts [] ((slots.zip vectors).foldl (Embedder.scatter hashKey texts) state) := by
  induction parallel generalizing vectors state with
  | nil => exact filled
  | cons there parallel ih =>
      rename_i slot text slots missing
      rw [List.mapM_cons] at computed
      cases first : backend.embedOne text with
      | error error =>
          rw [first] at computed
          cases computed
      | ok vector =>
          cases later : missing.mapM backend.embedOne with
          | error error =>
              rw [first, later] at computed
              cases computed
          | ok rest =>
              rw [first, later] at computed
              injection computed with computed
              rw [← computed, List.zip_cons_cons, List.foldl_cons]
              exact ih (filled.scatter there first) later

theorem embedBatch_of_correct (correct : Correct hashKey backend cache)
    (injective : Function.Injective hashKey) (batched : backend.Batched) (texts : List Text) :
    (embedBatch hashKey backend cache texts).1 = texts.mapM backend.embedOne ∧
      Correct hashKey backend (embedBatch hashKey backend cache texts).2 := by
  have looked : Looked hashKey cache texts texts.length (lookUpAll hashKey cache texts) :=
    looked_all texts
  have known : ∀ text ∈ texts, (cache (hashKey text)).isNone = false →
      ∃ vector, backend.embedOne text = .ok vector := by
    intro text _ some_
    cases hit : cache (hashKey text) with
    | none =>
        rw [hit] at some_
        cases some_
    | some vector => exact ⟨vector, correct.hit injective hit⟩
  have filled : Filled hashKey backend texts (lookUpAll hashKey cache texts).toComputeIdx
      (cache, (lookUpAll hashKey cache texts).out) := by
    have place_of : ∀ {place : Nat} {held : Option Vector},
        (lookUpAll hashKey cache texts).out[place]? = some held →
          ∃ text, texts[place]? = some text ∧ cache (hashKey text) = held := by
      intro place held there
      have inside := (List.getElem?_eq_some_iff.mp there).1
      rw [looked.length] at inside
      rw [looked.places place inside, List.getElem?_eq_getElem inside, Option.bind_some] at there
      injection there with there
      exact ⟨_, List.getElem?_eq_getElem inside, there⟩
    refine ⟨correct, looked.length, ?_, ?_⟩
    · intro place vector there
      obtain ⟨text, here, hit⟩ := place_of there
      exact ⟨text, here, correct.hit injective hit⟩
    · intro place there
      obtain ⟨text, here, missed⟩ := place_of there
      exact looked.missed place text here missed
  unfold embedBatch
  split
  · rename_i empty
    rw [List.isEmpty_iff.mp empty]
    exact ⟨rfl, correct⟩
  · dsimp only
    split
    · rename_i none_
      -- With nothing to compute no slot is left.
      have slots : (lookUpAll hashKey cache texts).toComputeIdx = [] := by
        have sizes := looked.parallel.length_eq
        rw [List.isEmpty_iff.mp none_] at sizes
        exact List.length_eq_zero_iff.mp sizes
      rw [slots] at filled
      exact ⟨filled.vectors.symm, correct⟩
    · rw [batched]
      cases computed : (lookUpAll hashKey cache texts).toComputeText.mapM backend.embedOne with
      | error error =>
          rw [looked.texts] at computed
          exact ⟨(mapM_error_of_filter known computed).symm, correct⟩
      | ok vectors =>
          have all := filled.scatterAll looked.parallel computed
          exact ⟨all.vectors.symm, all.correct⟩

theorem correct_of_reachable (injective : Function.Injective hashKey) (batched : backend.Batched)
    (reachable : Reachable (next hashKey backend) Cache.empty cache) :
    Correct hashKey backend cache := by
  obtain ⟨history, run⟩ := reachable
  induction run with
  | start => exact Correct.empty
  | @step history before after operation _ taken ih =>
      cases operation with
      | embed text =>
          injection taken with taken
          rw [← taken]
          exact (embed_of_correct ih injective text).2
      | embedBatch texts =>
          injection taken with taken
          rw [← taken]
          exact (embedBatch_of_correct ih injective batched texts).2
      | clearCache =>
          injection taken with taken
          rw [← taken]
          exact Correct.empty

/-- In every cache that calls can leave, a batch is what each text gives on its own, in order and
up to the first error, and leaves vectors of texts under their own keys only. -/
theorem embedBatch_eq_embed (injective : Function.Injective hashKey) (batched : backend.Batched)
    (reachable : Reachable (next hashKey backend) Cache.empty cache) (texts : List Text) :
    (embedBatch hashKey backend cache texts).1 =
        texts.mapM (fun text => (embed hashKey backend cache text).1) ∧
      ∀ (text : Text) (vector : Vector),
        (embedBatch hashKey backend cache texts).2 (hashKey text) = some vector →
          backend.embedOne text = .ok vector := by
  have correct := correct_of_reachable injective batched reachable
  obtain ⟨vectors, after⟩ := embedBatch_of_correct correct injective batched texts
  have single : (fun text => (embed hashKey backend cache text).1) = backend.embedOne :=
    funext (fun text => (embed_of_correct correct injective text).1)
  rw [vectors, single]
  exact ⟨rfl, fun text vector held => after.hit injective held⟩

end Correct

/-- Texts are their own keys, and a vector holds the length of its text. -/
def lengths : Backend Unit :=
  .fallback (fun text => [UInt32.ofNat text.length])

def warm : Cache Text :=
  (embed id lengths Cache.empty ['a']).2

/-- A hit, and a miss that stands twice in the batch. -/
theorem warm_batch :
    (embedBatch id lengths warm [['a'], ['b', 'c'], ['b', 'c']]).1 =
        [['a'], ['b', 'c'], ['b', 'c']].mapM (fun text => (embed id lengths warm text).1) ∧
      ∀ (text : Text) (vector : Vector),
        (embedBatch id lengths warm [['a'], ['b', 'c'], ['b', 'c']]).2 (id text) = some vector →
          lengths.embedOne text = .ok vector :=
  embedBatch_eq_embed Function.injective_id (fallback_batched _)
    ⟨_, Run.step Run.start
      (show next id lengths Cache.empty (.embed ['a']) = some warm from rfl)⟩ _

end Mneme.Brain.Embedder
