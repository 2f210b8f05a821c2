/-
The incremental parser: a cache of the last tree of each file, shared by the calls.

Each locked access to the cache is one step, so between the look into the cache and the
store of a new tree any other call may have its steps.  tree-sitter and the content hash
are parameters.  A call may end at any time with an error of the parser pool.
-/

import Mneme.Library.Lru
import Mneme.Library.Run
import Mneme.Parsers.InputEdit
import Mneme.Parsers.Language

namespace Mneme.Parsers.Incremental

open Library Transition

/-- `parse` is given the edited old tree, if there is one. -/
structure TreeSitter (Tree : Type) where
  parse : Language → Bytes → Option Tree → Option Tree
  edit : Tree → InputEdit → Tree

structure CachedTree (Tree Digest : Type) where
  tree : Tree
  bytes : Bytes
  hash : Digest

structure IncrementalParse (Tree : Type) where
  tree : Tree
  incremental : Bool
  unchanged : Bool

/-- The arguments of `parse_file`. -/
structure Request where
  path : String
  lang : Language
  bytes : Bytes

/-- A call that has looked into the cache and has a tree to parse. -/
structure Pending (Tree Digest : Type) where
  request : Request
  cached : Option (CachedTree Tree Digest)

structure IncrementalParser (Tree Digest : Type) where
  cache : Lru String (CachedTree Tree Digest)
  calls : Nat → Option (Pending Tree Digest)
  answers : List (Request × IncrementalParse Tree)

inductive ParserStep where
  | lookup (call : Nat) (request : Request)
  | finish (call : Nat)
  | fail (call : Nat)
  | forget (path : String)

variable {Tree Digest : Type}

def withCapacity (capacity : Nat) : IncrementalParser Tree Digest :=
  { cache := Lru.empty (max capacity 1), calls := fun _ => none, answers := [] }

/-- Byte-identical content is not parsed again. -/
def shortCircuit [DecidableEq Digest] (hash : Bytes → Digest) (request : Request) :
    Option (CachedTree Tree Digest) → Option (IncrementalParse Tree)
  | none => none
  | some entry =>
      if entry.hash = hash request.bytes then
        some { tree := entry.tree, incremental := true, unchanged := true }
      else none

def preparedOld (sitter : TreeSitter Tree) (pending : Pending Tree Digest) : Option Tree :=
  pending.cached.map (fun entry =>
    sitter.edit entry.tree (computeInputEdit entry.bytes pending.request.bytes))

def IncrementalParser.endCall (parser : IncrementalParser Tree Digest) (call : Nat) :
    IncrementalParser Tree Digest :=
  { parser with calls := Function.update parser.calls call none }

section Steps

variable [DecidableEq Digest] (hash : Bytes → Digest) (sitter : TreeSitter Tree)

/-- The look into the cache: the call is answered at once, or goes on with what it saw. -/
def lookupStep (parser : IncrementalParser Tree Digest) (call : Nat) (request : Request) :
    IncrementalParser Tree Digest :=
  let (cached, cache) := parser.cache.get request.path
  match shortCircuit hash request cached with
  | some result => { parser with cache, answers := parser.answers ++ [(request, result)] }
  | none =>
      { parser with cache, calls := Function.update parser.calls call (some { request, cached }) }

/-- The parse and the store of the new tree; a parse without a tree is an error. -/
def finishStep (parser : IncrementalParser Tree Digest) (call : Nat)
    (pending : Pending Tree Digest) : IncrementalParser Tree Digest :=
  let request := pending.request
  match sitter.parse request.lang request.bytes (preparedOld sitter pending) with
  | none => parser.endCall call
  | some newTree =>
      { parser.endCall call with
        cache := parser.cache.put request.path
          { tree := newTree, bytes := request.bytes, hash := hash request.bytes }
        answers := parser.answers ++ [(request,
          { tree := newTree, incremental := pending.cached.isSome, unchanged := false })] }

def next (parser : IncrementalParser Tree Digest) :
    ParserStep → Option (IncrementalParser Tree Digest)
  | .lookup call request =>
      if (parser.calls call).isSome then none else some (lookupStep hash parser call request)
  | .finish call => (parser.calls call).map (finishStep hash sitter parser call)
  | .fail call => if (parser.calls call).isSome then some (parser.endCall call) else none
  | .forget path => some { parser with cache := parser.cache.pop path }

/-- The tree is the one that the bytes have in the language. -/
def FreshTree (lang : Language) (bytes : Bytes) (tree : Tree) : Prop :=
  sitter.parse lang bytes none = some tree

def AnswersFresh (parser : IncrementalParser Tree Digest) : Prop :=
  ∀ answer ∈ parser.answers, FreshTree sitter answer.1.lang answer.1.bytes answer.2.tree

/-- A parse that is given a correct edit of a tree of the same language has the tree of
a parse that is given none. -/
def CorrectIncrement : Prop :=
  ∀ lang old new tree edit again, FreshTree sitter lang old tree → CorrectEdit old new edit →
    sitter.parse lang new (some (sitter.edit tree edit)) = some again →
      FreshTree sitter lang new again

/-- The tree that is cached for the path, if there is one, is of the language asked for. -/
def SameLanguage (parser : IncrementalParser Tree Digest) : ParserStep → Prop
  | .lookup _ request =>
      ∀ entry, parser.cache.lookup request.path = some entry →
        FreshTree sitter request.lang entry.bytes entry.tree
  | _ => True

/-- Hashes are those of the bytes; calls under way have seen trees of their language. -/
structure Consistent (parser : IncrementalParser Tree Digest) : Prop where
  hashes : ∀ entry ∈ parser.cache.entries, entry.2.hash = hash entry.2.bytes
  pending : ∀ call pending, parser.calls call = some pending →
    ∀ entry, pending.cached = some entry →
      FreshTree sitter pending.request.lang entry.bytes entry.tree
  answers : AnswersFresh sitter parser

end Steps

section Transparency

variable {hash : Bytes → Digest} {sitter : TreeSitter Tree}
variable {parser : IncrementalParser Tree Digest}

variable {pending : Pending Tree Digest}

theorem parse_fresh (correct : CorrectIncrement sitter)
    {newTree : Tree} (same : ∀ entry, pending.cached = some entry →
      FreshTree sitter pending.request.lang entry.bytes entry.tree)
    (parsed : sitter.parse pending.request.lang pending.request.bytes
      (preparedOld sitter pending) = some newTree) :
    FreshTree sitter pending.request.lang pending.request.bytes newTree := by
  unfold preparedOld at parsed
  cases cached : pending.cached with
  | none =>
      rw [cached] at parsed
      exact parsed
  | some entry =>
      rw [cached] at parsed
      exact correct _ _ _ _ _ _ (same entry cached)
        (computeInputEdit_correct entry.bytes pending.request.bytes) parsed

variable {call : Nat}

/-- What holds of every call under way holds when one of them is started anew or ended. -/
theorem waits_update {Call : Type} {calls : Nat → Option Call} {good : Call → Prop}
    (all : ∀ call pending, calls call = some pending → good pending)
    {changed : Option Call} (new : ∀ pending, changed = some pending → good pending) :
    ∀ other pending, Function.update calls call changed other = some pending → good pending := by
  intro other pending waits
  by_cases this : other = call
  · rw [this, Function.update_self] at waits
    exact new pending waits
  · rw [Function.update_of_ne this] at waits
    exact all other pending waits

theorem Consistent.endCall (consistent : Consistent hash sitter parser) (call : Nat) :
    Consistent hash sitter (parser.endCall call) := by
  exact ⟨consistent.hashes, waits_update consistent.pending (by simp), consistent.answers⟩

theorem withCapacity_consistent (capacity : Nat) :
    Consistent hash sitter (withCapacity capacity) := by
  refine ⟨?_, ?_, ?_⟩
  · intro entry member
    cases member
  · intro call pending waits
    cases waits
  · intro answer member
    cases member

variable [DecidableEq Digest]

theorem shortCircuit_fresh (injective : Function.Injective hash) {request : Request}
    {cached : Option (CachedTree Tree Digest)} {result : IncrementalParse Tree}
    (circuit : shortCircuit hash request cached = some result)
    (hashed : ∀ entry, cached = some entry → entry.hash = hash entry.bytes)
    (same : ∀ entry, cached = some entry →
      FreshTree sitter request.lang entry.bytes entry.tree) :
    FreshTree sitter request.lang request.bytes result.tree := by
  cases cached with
  | none => cases circuit
  | some entry =>
      simp only [shortCircuit] at circuit
      split at circuit
      · rename_i equal
        cases circuit
        rw [hashed entry rfl] at equal
        rw [← injective equal]
        exact same entry rfl
      · cases circuit

theorem Consistent.lookupStep (consistent : Consistent hash sitter parser)
    (injective : Function.Injective hash) {request : Request}
    (same : SameLanguage sitter parser (.lookup call request)) :
    Consistent hash sitter (lookupStep hash parser call request) := by
  have found := parser.cache.get_fst request.path
  have hashes : ∀ entry ∈ (parser.cache.get request.path).2.entries,
      entry.2.hash = hash entry.2.bytes :=
    fun entry member => consistent.hashes entry (Lru.mem_get member)
  unfold Incremental.lookupStep
  generalize parser.cache.get request.path = got at found hashes ⊢
  obtain ⟨cached, cache⟩ := got
  dsimp only at found hashes ⊢
  have seen : ∀ entry, cached = some entry →
      FreshTree sitter request.lang entry.bytes entry.tree := by
    intro entry held
    exact same entry (found.symm.trans held)
  split
  · rename_i result circuit
    refine ⟨hashes, consistent.pending, ?_⟩
    intro answer member
    rcases List.mem_append.mp member with earlier | last
    · exact consistent.answers answer earlier
    · rw [List.mem_singleton.mp last]
      refine shortCircuit_fresh injective circuit ?_ seen
      intro entry held
      exact consistent.hashes (request.path, entry)
        (Lru.mem_of_lookup (found.symm.trans held))
  · refine ⟨hashes, waits_update consistent.pending ?_, consistent.answers⟩
    intro pending waits
    cases waits
    exact seen

omit [DecidableEq Digest] in
theorem Consistent.finishStep (consistent : Consistent hash sitter parser)
    (correct : CorrectIncrement sitter) (waits : parser.calls call = some pending) :
    Consistent hash sitter (finishStep hash sitter parser call pending) := by
  have ended := consistent.endCall call
  unfold Incremental.finishStep
  dsimp only
  split
  · exact ended
  · rename_i newTree parsed
    refine ⟨?_, ended.pending, ?_⟩
    · intro entry member
      rcases Lru.mem_put member with rfl | old
      · rfl
      · exact consistent.hashes entry old
    · intro answer member
      rcases List.mem_append.mp member with earlier | last
      · exact consistent.answers answer earlier
      · rw [List.mem_singleton.mp last]
        exact parse_fresh correct (consistent.pending call pending waits) parsed

theorem Consistent.next (injective : Function.Injective hash)
    (correct : CorrectIncrement sitter) (step : ParserStep)
    (after : IncrementalParser Tree Digest) (consistent : Consistent hash sitter parser)
    (same : SameLanguage sitter parser step) (taken : next hash sitter parser step = some after) :
    Consistent hash sitter after := by
  cases step with
  | lookup call request =>
      simp only [Incremental.next] at taken
      split at taken
      · cases taken
      · cases taken
        exact consistent.lookupStep injective same
  | finish call =>
      obtain ⟨pending, waits, same⟩ := Option.map_eq_some_iff.mp taken
      rw [← same]
      exact consistent.finishStep correct waits
  | fail call =>
      simp only [Incremental.next] at taken
      split at taken
      · cases taken
        exact consistent.endCall call
      · cases taken
  | forget path =>
      cases taken
      exact ⟨fun entry member => consistent.hashes entry (Lru.mem_pop member),
        consistent.pending, consistent.answers⟩

end Transparency

/-- However the calls interleave, each answer is the tree of a fresh parse if no call
finds a tree of another language in the cache. -/
theorem answers_fresh [DecidableEq Digest] {hash : Bytes → Digest} {sitter : TreeSitter Tree}
    (injective : Function.Injective hash) (correct : CorrectIncrement sitter) {capacity : Nat}
    {history : List (IncrementalParser Tree Digest × ParserStep)}
    {final : IncrementalParser Tree Digest}
    (run : Run (next hash sitter) (withCapacity capacity) history final)
    (same : Respects (SameLanguage sitter) history) :
    Throughout (AnswersFresh sitter) history final := by
  have consistent := run.throughout_of_respects (withCapacity_consistent capacity)
    (fun state step after held respected taken =>
      held.next injective correct step after respected taken) same
  exact ⟨fun taken member => (consistent.1 taken member).answers, consistent.2.answers⟩

/-! ### The language of a cached tree -/

section OneLanguage

variable [DecidableEq Digest] {hash : Bytes → Digest} {sitter : TreeSitter Tree}
variable {parser : IncrementalParser Tree Digest}

/-- Every call for a path asks for the language of the path. -/
def AsksFor (langOf : String → Language) (_ : IncrementalParser Tree Digest) :
    ParserStep → Prop
  | .lookup _ request => request.lang = langOf request.path
  | _ => True

structure PathLanguages (sitter : TreeSitter Tree) (langOf : String → Language)
    (parser : IncrementalParser Tree Digest) : Prop where
  cached : ∀ entry ∈ parser.cache.entries,
    FreshTree sitter (langOf entry.1) entry.2.bytes entry.2.tree
  pending : ∀ call pending, parser.calls call = some pending →
    pending.request.lang = langOf pending.request.path

variable {langOf : String → Language}

omit [DecidableEq Digest] in
theorem PathLanguages.sameLanguage (languages : PathLanguages sitter langOf parser)
    {step : ParserStep} (asks : AsksFor langOf parser step) : SameLanguage sitter parser step := by
  cases step with
  | lookup call request =>
      intro entry found
      have fresh := languages.cached (request.path, entry) (Lru.mem_of_lookup found)
      have lang : request.lang = langOf request.path := asks
      rw [lang]
      exact fresh
  | finish call => trivial
  | fail call => trivial
  | forget path => trivial

omit [DecidableEq Digest] in
theorem PathLanguages.endCall (languages : PathLanguages sitter langOf parser) (call : Nat) :
    PathLanguages sitter langOf (parser.endCall call) := by
  exact ⟨languages.cached, waits_update languages.pending (by simp)⟩

theorem PathLanguages.lookupStep (languages : PathLanguages sitter langOf parser) {call : Nat}
    {request : Request} (asks : request.lang = langOf request.path) :
    PathLanguages sitter langOf (lookupStep hash parser call request) := by
  have cached : ∀ entry ∈ (parser.cache.get request.path).2.entries,
      FreshTree sitter (langOf entry.1) entry.2.bytes entry.2.tree :=
    fun entry member => languages.cached entry (Lru.mem_get member)
  unfold Incremental.lookupStep
  dsimp only
  split
  · exact ⟨cached, languages.pending⟩
  · refine ⟨cached, waits_update languages.pending ?_⟩
    intro pending waits
    cases waits
    exact asks

omit [DecidableEq Digest] in
theorem PathLanguages.finishStep (languages : PathLanguages sitter langOf parser)
    (correct : CorrectIncrement sitter) (consistent : Consistent hash sitter parser) {call : Nat}
    {pending : Pending Tree Digest} (waits : parser.calls call = some pending) :
    PathLanguages sitter langOf (finishStep hash sitter parser call pending) := by
  have ended := languages.endCall call
  unfold Incremental.finishStep
  dsimp only
  split
  · exact ended
  · rename_i newTree parsed
    refine ⟨?_, ended.pending⟩
    intro entry member
    rcases Lru.mem_put member with rfl | old
    · rw [← languages.pending call pending waits]
      exact parse_fresh correct (consistent.pending call pending waits) parsed
    · exact languages.cached entry old

theorem PathLanguages.next (languages : PathLanguages sitter langOf parser)
    (correct : CorrectIncrement sitter) (consistent : Consistent hash sitter parser)
    {step : ParserStep} {after : IncrementalParser Tree Digest}
    (asks : AsksFor langOf parser step) (taken : next hash sitter parser step = some after) :
    PathLanguages sitter langOf after := by
  cases step with
  | lookup call request =>
      simp only [Incremental.next] at taken
      split at taken
      · cases taken
      · cases taken
        exact languages.lookupStep asks
  | finish call =>
      obtain ⟨pending, waits, same⟩ := Option.map_eq_some_iff.mp taken
      rw [← same]
      exact languages.finishStep correct consistent waits
  | fail call =>
      simp only [Incremental.next] at taken
      split at taken
      · cases taken
        exact languages.endCall call
      · cases taken
  | forget path =>
      cases taken
      exact ⟨fun entry member => languages.cached entry (Lru.mem_pop member), languages.pending⟩

/-- So the cache is transparent where each path keeps its language. -/
theorem one_language_fresh (injective : Function.Injective hash)
    (correct : CorrectIncrement sitter) {capacity : Nat}
    {history : List (IncrementalParser Tree Digest × ParserStep)}
    {final : IncrementalParser Tree Digest}
    (run : Run (Incremental.next hash sitter) (withCapacity capacity) history final)
    (asks : Respects (AsksFor langOf) history) :
    Throughout (AnswersFresh sitter) history final := by
  have initial : Consistent hash sitter (withCapacity capacity) ∧
      PathLanguages sitter langOf (withCapacity capacity : IncrementalParser Tree Digest) := by
    refine ⟨withCapacity_consistent capacity, ?_, ?_⟩
    · intro entry member
      cases member
    · intro call pending waits
      cases waits
  have preserved : ∀ (state : IncrementalParser Tree Digest) step after,
      Consistent hash sitter state ∧ PathLanguages sitter langOf state →
        AsksFor langOf state step → Incremental.next hash sitter state step = some after →
          Consistent hash sitter after ∧ PathLanguages sitter langOf after := by
    intro state step after both asked taken
    exact ⟨both.1.next injective correct step after (both.2.sameLanguage asked) taken,
      both.2.next correct both.1 asked taken⟩
  have held := @Run.throughout_of_respects _ _ _ _
    (fun state => Consistent hash sitter state ∧ PathLanguages sitter langOf state)
    (AsksFor langOf) initial preserved _ _ run asks
  exact ⟨fun taken member => (held.1 taken member).1.answers, held.2.1.answers⟩

end OneLanguage

/-! ### A file that changes its language -/

/-- Trees that are their language and their text. -/
def labelled : TreeSitter (Language × Bytes) :=
  { parse := fun lang bytes _ => some (lang, bytes), edit := fun tree _ => tree }

theorem labelled_correct : CorrectIncrement labelled := by
  intro lang old new tree edit again _ _ parsed
  exact parsed

/-- The bytes of `<T>x`. -/
def cast : Bytes := [60, 84, 62, 120]

def asTypeScript : Request :=
  { path := "a.ts", lang := .typeScript, bytes := cast }

def asTsx : Request :=
  { path := "a.ts", lang := .tsx, bytes := cast }

def parsedOnce : IncrementalParser (Language × Bytes) Bytes :=
  finishStep id labelled (lookupStep id (withCapacity 1000) 0 asTypeScript) 0
    { request := asTypeScript, cached := none }

theorem parsedOnce_run : Run (next id labelled) (withCapacity 1000)
    [(withCapacity 1000, .lookup 0 asTypeScript),
      (lookupStep id (withCapacity 1000) 0 asTypeScript, .finish 0)] parsedOnce :=
  (Run.start.step rfl).step rfl

theorem one_language_fresh_once : Throughout (AnswersFresh labelled)
    [(withCapacity 1000, ParserStep.lookup 0 asTypeScript),
      (lookupStep id (withCapacity 1000) 0 asTypeScript, ParserStep.finish 0)] parsedOnce := by
  refine one_language_fresh Function.injective_id labelled_correct parsedOnce_run
    (?_ : Respects (AsksFor fun _ => .typeScript) _)
  intro taken member
  simp only [List.mem_cons, List.not_mem_nil, or_false] at member
  rcases member with rfl | rfl
  · rfl
  · trivial

theorem parsed_again_fresh : Throughout (AnswersFresh labelled)
    [(withCapacity 1000, ParserStep.lookup 0 asTypeScript),
      (lookupStep id (withCapacity 1000) 0 asTypeScript, ParserStep.finish 0),
      (parsedOnce, ParserStep.lookup 1 asTypeScript)] (lookupStep id parsedOnce 1 asTypeScript) := by
  have again : next id labelled parsedOnce (.lookup 1 asTypeScript) =
      some (lookupStep id parsedOnce 1 asTypeScript) := rfl
  refine answers_fresh Function.injective_id labelled_correct (parsedOnce_run.step again) ?_
  intro taken member
  simp only [List.mem_cons, List.not_mem_nil, or_false] at member
  rcases member with rfl | rfl | rfl
  · intro entry found
    cases found
  · trivial
  · intro entry found
    cases found
    rfl

theorem tsx_answered_as_typeScript : Function.Injective (id : Bytes → Bytes) ∧
    CorrectIncrement labelled ∧
      ¬ ∀ capacity history final, Run (next id labelled) (withCapacity capacity) history final →
        AnswersFresh labelled final := by
  refine ⟨Function.injective_id, labelled_correct, ?_⟩
  intro always
  have again : next id labelled parsedOnce (.lookup 1 asTsx) =
      some (lookupStep id parsedOnce 1 asTsx) := rfl
  have fresh := always 1000 _ _ (parsedOnce_run.step again)
  have answered := fresh
    (asTsx, { tree := (.typeScript, cast), incremental := true, unchanged := true })
    (List.mem_append_right _ (List.mem_singleton_self _))
  cases answered

end Mneme.Parsers.Incremental
