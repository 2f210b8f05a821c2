/-
The router's re-encoding of a job into the line its worker reads.

The router keeps a table of language tags of its own; the parse worker reads a
tag by the names its language type has on the wire.
-/

import Mneme.Workers.Pipeline

namespace Mneme.Supervisor

open Common Parsers Workers

/-- The router's table, over lowercase extensions. -/
def languageTag : String → Option String
  | "rs" => some "rust"
  | "py" => some "python"
  | "ts" | "tsx" => some "typescript"
  | "js" | "jsx" | "mjs" | "cjs" => some "javascript"
  | "go" => some "go"
  | "java" => some "java"
  | "c" | "h" => some "c"
  | "cpp" | "cc" | "hpp" | "hh" | "cxx" => some "cpp"
  | "md" | "markdown" => some "markdown"
  | "json" => some "json"
  | "toml" => some "toml"
  | "yaml" | "yml" => some "yaml"
  | _ => none

def inferLanguageTag (path : Path) : Option String :=
  (extension path).bind (fun ext => languageTag (toAsciiLowercase ext))

/-- `readToString` is the file system: the text of a readable UTF-8 file, or
the message of the error. -/
def encodeForWorker (readToString : Path → Except String String) (id : JobId) :
    Job → Except String Json
  | .parse filePath _ =>
      match readToString filePath with
      | .error error => .error s!"read {filePath}: {error}"
      | .ok content =>
          match inferLanguageTag filePath with
          | none => .error s!"no language for {filePath}"
          | some language =>
              .ok (.object [("job_id", .nat id), ("file_path", .string filePath),
                ("language", .string language), ("content", .string content)])
  | .scan filePath astId _ =>
      match readToString filePath with
      | .error error => .error s!"read {filePath}: {error}"
      | .ok content =>
          .ok (.object [("job_id", .nat id), ("file_path", .string filePath),
            ("content", .string content), ("ast_id", .option .nat astId),
            ("scanner_filter", .array [])])
  | .embed nodeQualified text _ =>
      .ok (.object [("job_id", .nat id), ("node_qualified", .string nodeQualified),
        ("text", .string text)])
  | .ingest mdFile _ =>
      .ok (.object [("job_id", .nat id), ("md_file", .string mdFile)])

/-! ### The two tables of languages -/

/-- A tag of the table, read by the wire names, is the language of the
extension, unless it is one of the two that the wire names hyphenate. -/
theorem language_of_tag {ext tag : String} (noDot : '.' ∉ ext.toList)
    (tagged : languageTag (toAsciiLowercase ext) = some tag)
    (notTypeScript : tag ≠ "typescript") (notJavaScript : tag ≠ "javascript") :
    ∃ language, Language.fromExtension ext = some language ∧
      Language.ofSerdeName tag = some language := by
  have bare : Language.stripDot ext = ext := by
    unfold Language.stripDot
    split
    · rename_i rest starts
      rw [starts] at noDot
      exact absurd List.mem_cons_self noDot
    · rfl
  unfold Language.fromExtension
  rw [bare]
  unfold languageTag at tagged
  split at tagged <;> rename_i lowered <;> cases tagged <;> simp only [lowered] <;>
    first
      | exact absurd rfl notTypeScript
      | exact absurd rfl notJavaScript
      | exact ⟨_, rfl, by decide⟩

theorem special_of_tag {name ext tag : String} {language : Language}
    (found : extensionOf name.toList = some ext.toList)
    (tagged : languageTag (toAsciiLowercase ext) = some tag)
    (special : Language.specialFilename name = some language) :
    Language.ofSerdeName tag = some language := by
  have lowered : extensionOf (toAsciiLowercase name).toList =
      some (toAsciiLowercase ext).toList := by
    unfold toAsciiLowercase
    rw [String.toList_ofList, String.toList_ofList, extensionOf_map Char.toLower toLower_eq_dot,
      found, Option.map_some]
  -- A special name whose lowercase form has this extension, or none.
  have cut : ∀ whole, toAsciiLowercase name = whole →
      extensionOf whole.toList = some (toAsciiLowercase ext).toList := by
    intro whole same
    rw [← same]
    exact lowered
  have known : ∀ whole suffix, toAsciiLowercase name = whole →
      extensionOf whole.toList = some suffix → languageTag (String.ofList suffix) = some tag := by
    intro whole suffix same short
    rw [cut whole same, Option.some.injEq] at short
    rw [← short, String.ofList_toList]
    exact tagged
  unfold Language.specialFilename at special
  split at special
  · rename_i same
    cases cut _ same
  · rename_i same
    cases cut _ same
  · rename_i same
    cases cut _ same
  · rename_i same
    cases cut _ same
  · rename_i same
    cases cut _ same
  · rename_i same
    have named : some "toml" = some tag := known _ ['t', 'o', 'm', 'l'] same rfl
    cases named
    cases special
    decide
  · rename_i same
    have named : some "toml" = some tag := known _ ['t', 'o', 'm', 'l'] same rfl
    cases named
    cases special
    decide
  · rename_i same
    have named : some "json" = some tag := known _ ['j', 's', 'o', 'n'] same rfl
    cases named
    cases special
    decide
  · rename_i same
    have named : some "json" = some tag := known _ ['j', 's', 'o', 'n'] same rfl
    cases named
    cases special
    decide
  · cases special

/-- Where the two tables know a file name, they agree on its language, but for
the two hyphenated names. -/
theorem fromFilename_of_tag {path : Path} {tag : String} (tagged : inferLanguageTag path = some tag)
    (notTypeScript : tag ≠ "typescript") (notJavaScript : tag ≠ "javascript") :
    ∃ language, Language.fromFilename path = some language ∧
      Language.ofSerdeName tag = some language := by
  unfold inferLanguageTag at tagged
  obtain ⟨ext, hasExtension, named⟩ := Option.bind_eq_some_iff.mp tagged
  have both := hasExtension
  unfold extension at both
  obtain ⟨name, hasName, cut⟩ := Option.bind_eq_some_iff.mp both
  obtain ⟨chars, found, same⟩ := Option.map_eq_some_iff.mp cut
  have found : extensionOf name.toList = some ext.toList := by
    rw [found, ← same, String.toList_ofList]
  unfold Language.fromFilename
  rw [hasName, Option.bind_some]
  cases special : Language.specialFilename name with
  | some language => exact ⟨language, rfl, special_of_tag found named special⟩
  | none =>
      obtain ⟨language, byExtension, byTag⟩ :=
        language_of_tag (extensionOf_noDot found) named notTypeScript notJavaScript
      rw [hasExtension]
      exact ⟨language, byExtension, byTag⟩

/-! ### What arrives at the worker -/

/-- The jobs a client may submit: the file of a parse or scan job is readable,
and the router's table knows the extension of a file to parse. -/
def Submittable (readToString : Path → Except String String) : Job → Prop
  | .parse filePath _ => (∃ content, readToString filePath = .ok content) ∧
      ∃ tag, inferLanguageTag filePath = some tag
  | .scan filePath _ _ => ∃ content, readToString filePath = .ok content
  | _ => True

/-- The worker received this very job.  The node of an embedding job is a name
for the router and a number for the brain, so it is not compared. -/
def SameJob (readToString : Path → Except String String) (id : JobId) : Job → Received → Prop
  | .parse filePath _, .parse received =>
      received.jobId = id ∧ received.filePath = filePath ∧
        readToString filePath = .ok received.content ∧
        Language.fromFilename filePath = some received.language
  | .scan filePath astId _, .scan received =>
      received.jobId = id ∧ received.filePath = filePath ∧
        readToString filePath = .ok received.content ∧ received.astId = astId ∧
        received.scannerFilter = []
  | .embed _ text _, .brain (.embed receivedId _ receivedText) =>
      receivedId = id ∧ receivedText = text
  | .ingest mdFile _, .ingest received => received.jobId = id ∧ received.mdFile = mdFile
  | _, _ => False

/-- The line the router writes for the job is read by its worker, as the same
job, wherever in the worker's stdin it comes. -/
def Survives (readToString : Path → Except String String) (id : JobId) (job : Job) : Prop :=
  ∃ line, encodeForWorker readToString id job = .ok line ∧
    ∀ first, ∃ received, receive job.poolPrefix first line = some received ∧
      SameJob readToString id job received

/-- The jobs whose line the worker understands. -/
def Understood : Job → Prop
  | .parse filePath _ =>
      inferLanguageTag filePath ≠ some "typescript" ∧ inferLanguageTag filePath ≠ some "javascript"
  | .scan _ _ _ => True
  | .embed _ _ _ => False
  | .ingest _ _ => True

variable (id : JobId)

theorem parse_received (filePath content tag : String) (first : Bool) :
    receive "parser-worker-" first (.object [("job_id", .nat id), ("file_path", .string filePath),
        ("language", .string tag), ("content", .string content)]) =
      (Language.ofSerdeName tag).map (fun language =>
        .parse { filePath, language, content, prevTreeId := none, contentHash := none,
                 jobId := id }) := by
  have decoded : ParseJob.ofJson (.object [("job_id", .nat id), ("file_path", .string filePath),
      ("language", .string tag), ("content", .string content)]) =
      (Language.ofSerdeName tag).bind (fun language =>
        some { filePath, language, content, prevTreeId := none, contentHash := none,
               jobId := id }) := rfl
  unfold receive
  rw [decoded]
  cases Language.ofSerdeName tag <;> rfl

theorem scan_received (filePath content : String) (astId : Option Nat) (first : Bool) :
    receive "scanner-worker-" first (.object [("job_id", .nat id), ("file_path", .string filePath),
        ("content", .string content), ("ast_id", .option .nat astId),
        ("scanner_filter", .array [])]) =
      some (.scan { filePath, content, astId, scannerFilter := [], jobId := id }) := by
  cases astId with
  | none => cases first <;> rfl
  | some astId => cases first <;> rfl

/-- The router's line has three members, none of them a variant. -/
theorem embed_received (nodeQualified text : String) (first : Bool) :
    receive "brain-worker" first (.object [("job_id", .nat id),
      ("node_qualified", .string nodeQualified), ("text", .string text)]) = none := rfl

theorem ingest_received (mdFile : String) (first : Bool) :
    receive "md-ingest-worker" first (.object [("job_id", .nat id), ("md_file", .string mdFile)]) =
      some (.ingest { jobId := id, mdFile }) := rfl

section Kinds

variable {readToString : Path → Except String String} {id : JobId}

theorem parse_survives_iff {filePath shardRoot content tag : String}
    (read : readToString filePath = .ok content) (tagged : inferLanguageTag filePath = some tag) :
    Survives readToString id (.parse filePath shardRoot) ↔
      Understood (.parse filePath shardRoot) := by
  have encoded : encodeForWorker readToString id (.parse filePath shardRoot) =
      .ok (.object [("job_id", .nat id), ("file_path", .string filePath),
        ("language", .string tag), ("content", .string content)]) := by
    simp only [encodeForWorker, read, tagged]
  constructor
  · intro survives
    obtain ⟨line, sent, received⟩ := survives
    rw [encoded] at sent
    cases sent
    obtain ⟨job, arrived, _⟩ := received true
    change receive "parser-worker-" true _ = some job at arrived
    rw [parse_received] at arrived
    obtain ⟨language, named, _⟩ := Option.map_eq_some_iff.mp arrived
    constructor
    · intro same
      rw [tagged] at same
      cases same
      have unknown : Language.ofSerdeName "typescript" = none := by decide
      rw [unknown] at named
      cases named
    · intro same
      rw [tagged] at same
      cases same
      have unknown : Language.ofSerdeName "javascript" = none := by decide
      rw [unknown] at named
      cases named
  · intro understood
    obtain ⟨language, expected, named⟩ := fromFilename_of_tag tagged
      (fun same => understood.1 (by rw [tagged, same]))
      (fun same => understood.2 (by rw [tagged, same]))
    refine ⟨_, encoded, ?_⟩
    intro first
    have arrived := parse_received id filePath content tag first
    rw [named, Option.map_some] at arrived
    exact ⟨_, arrived, rfl, rfl, read, expected⟩

theorem scan_survives {filePath shardRoot content : String} {astId : Option Nat}
    (read : readToString filePath = .ok content) :
    Survives readToString id (.scan filePath astId shardRoot) := by
  have encoded : encodeForWorker readToString id (.scan filePath astId shardRoot) =
      .ok (.object [("job_id", .nat id), ("file_path", .string filePath),
        ("content", .string content), ("ast_id", .option .nat astId),
        ("scanner_filter", .array [])]) := by
    simp only [encodeForWorker, read]
  refine ⟨_, encoded, ?_⟩
  intro first
  exact ⟨_, scan_received id filePath content astId first, rfl, rfl, read, rfl, rfl⟩

theorem embed_lost (nodeQualified text shardRoot : String) :
    ¬ Survives readToString id (.embed nodeQualified text shardRoot) := by
  intro survives
  obtain ⟨line, sent, received⟩ := survives
  cases sent
  obtain ⟨job, arrived, _⟩ := received true
  change receive "brain-worker" true _ = some job at arrived
  rw [embed_received] at arrived
  cases arrived

theorem ingest_survives (mdFile shardRoot : String) :
    Survives readToString id (.ingest mdFile shardRoot) := by
  refine ⟨_, rfl, ?_⟩
  intro first
  exact ⟨_, ingest_received id mdFile first, rfl, rfl⟩

end Kinds

theorem survives_iff_understood (readToString : Path → Except String String) (id : JobId)
    (job : Job) (submittable : Submittable readToString job) :
    Survives readToString id job ↔ Understood job := by
  cases job with
  | parse filePath shardRoot =>
      obtain ⟨⟨content, read⟩, tag, tagged⟩ := submittable
      exact parse_survives_iff read tagged
  | scan filePath astId shardRoot =>
      obtain ⟨content, read⟩ := submittable
      exact iff_of_true (scan_survives read) trivial
  | embed nodeQualified text shardRoot =>
      exact iff_of_false (embed_lost nodeQualified text shardRoot) (fun impossible => impossible)
  | ingest mdFile shardRoot => exact iff_of_true (ingest_survives mdFile shardRoot) trivial

theorem survives_iff_understood_rust :
    Survives (fun _ => .ok "fn main() {}") 1 (.parse "/src/main.rs" "/shard") ↔
      Understood (.parse "/src/main.rs" "/shard") :=
  survives_iff_understood _ 1 _ ⟨⟨_, rfl⟩, "rust", rfl⟩

theorem typescript_lost :
    ¬ ∀ (readToString : Path → Except String String) (id : JobId) (job : Job),
        Submittable readToString job → Survives readToString id job := by
  intro always
  obtain ⟨line, sent, received⟩ := always (fun _ => .ok "let x = 1;") 1
    (.parse "/src/app.ts" "/shard") ⟨⟨_, rfl⟩, "typescript", rfl⟩
  cases sent
  obtain ⟨job, arrived, _⟩ := received true
  have unread : receive "parser-worker-" true (.object [("job_id", .nat 1),
      ("file_path", .string "/src/app.ts"), ("language", .string "typescript"),
      ("content", .string "let x = 1;")]) = none := rfl
  change receive "parser-worker-" true _ = some job at arrived
  rw [unread] at arrived
  cases arrived

end Mneme.Supervisor
