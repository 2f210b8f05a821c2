/-
The mneme entry of an MCP config, merged and stripped.

JSON and TOML objects are maps: a value that is printed and read back has the same
member at each key, in whatever order the library keeps them.
-/

import Mneme.Cli.McpEdits
import Mneme.Library.Fallible

namespace Mneme.Cli.Platforms

open Mneme.Common Mneme.Library

section

variable {Value : Type}

/-! ### Texts -/

/-- Parsing and printing are correct on a class of values: what is printed is read back
with the same members, and values that are alike are printed alike. -/
structure ReadsBack (shape : Shape Value) (Held : Value → Prop) (parse : String → Option Value)
    (print : Value → Option String) : Prop where
  held : ∀ text value, parse text = some value → Held value
  again : ∀ value, Held value → ∃ text other, print value = some text ∧
    parse text = some other ∧ Alike shape other value
  ordered : ∀ left right, Held left → Held right → Alike shape left right →
    print left = print right

/-- The edits do not leave a class of values. -/
structure Closed {shape : Shape Value} {entry : Value} (edit : EntryEdit shape entry)
    (Held : Value → Prop) : Prop where
  merged : ∀ value other, Held value → edit.merge value = some other → Held other
  stripped : ∀ value other, Held value → edit.strip value = some other → Held other

/-- Two functions on texts carry out the edits of a value. -/
structure CarriesOut {shape : Shape Value} {entry : Value} (edit : EntryEdit shape entry)
    (start parse : String → Option Value) (print : Value → Option String)
    (mergeText stripText : String → Except CliError String) : Prop where
  merges : ∀ existing text, mergeText existing = .ok text ↔
    ∃ value merged, start existing = some value ∧ edit.merge value = some merged ∧
      print merged = some text
  strips : ∀ existing text, stripText existing = .ok text ↔
    ∃ value, parse existing = some value ∧ print ((edit.strip value).getD value) = some text

/-- Merging once more changes nothing; what was merged and what is stripped of it is the
value there was but for the entry. -/
def KeepsOthers {shape : Shape Value} {entry : Value} (edit : EntryEdit shape entry)
    (start parse : String → Option Value) (mergeText stripText : String → Except CliError String)
    (existing merged : String) : Prop :=
  mergeText merged = .ok merged ∧
    ∃ value after stripped final, start existing = some value ∧
      parse merged = some after ∧ edit.Kept (some entry) value after ∧
      stripText merged = .ok stripped ∧
      parse stripped = some final ∧ edit.Kept none value final

theorem keeps_others {shape : Shape Value} {entry : Value} {edit : EntryEdit shape entry}
    {Held : Value → Prop} {start parse : String → Option Value} {print : Value → Option String}
    {mergeText stripText : String → Except CliError String}
    (reads : ReadsBack shape Held parse print) (closed : Closed edit Held)
    (carries : CarriesOut edit start parse print mergeText stripText)
    (starts : ∀ text value, parse text = some value → start text = some value)
    {existing merged : String} (held : ∀ value, start existing = some value → Held value)
    (done : mergeText existing = .ok merged) :
    KeepsOthers edit start parse mergeText stripText existing merged := by
  obtain ⟨value, other, started, edited, printed⟩ := (carries.merges _ _).mp done
  have otherHeld := closed.merged _ _ (held _ started) edited
  obtain ⟨text, after, shown, read, alike⟩ := reads.again other otherHeld
  rw [printed] at shown
  cases shown
  have kept := edit.kept_merge _ _ _ edited alike
  -- The second merge starts from what the first printed.
  obtain ⟨twice, again, near⟩ := edit.merge_again _ _ _ edited alike
  have afterHeld := reads.held _ _ read
  have same := reads.ordered _ _ (closed.merged _ _ afterHeld again) otherHeld near
  have once : mergeText merged = .ok merged :=
    (carries.merges _ _).mpr ⟨after, twice, starts _ _ read, again, same.trans printed⟩
  obtain ⟨stripped, gone, each⟩ := edit.strip_kept _ _ kept
  obtain ⟨rest, final, shown, readRest, close⟩ :=
    reads.again stripped (closed.stripped _ _ afterHeld gone)
  have undone : stripText merged = .ok rest := by
    apply (carries.strips _ _).mpr
    refine ⟨after, read, ?_⟩
    rw [gone, Option.getD_some]
    exact shown
  exact ⟨once, value, after, rest, final, started, read, kept, undone, readRest,
    each final close⟩

end

/-! ### JSON -/

def jsonTable? : Json → Option (List (String × Json))
  | .object fields => some fields
  | _ => none

def jsonShape : Shape Json where
  table := Json.object
  table? := jsonTable?
  array := Json.array
  array? := Json.array?
  table?_eq value members := by cases value <;> simp [jsonTable?]
  array?_eq value items := by cases value <;> simp [Json.array?]
  apart members items := by simp

/-- Values that are alike are the same string, if any. -/
theorem string?_alike {one other : Json} (alike : Alike jsonShape one other) :
    one.string? = other.string? := by
  cases alike with
  | same => rfl
  | table => rfl
  | array => rfl

theorem namedMneme_alike (one other : Json) (alike : Alike jsonShape one other) :
    namedMneme one = namedMneme other := by
  cases alike with
  | same => rfl
  | array => rfl
  | @table left right keys members =>
      change decide ((left.lookup "name").bind Json.string? = some "mneme") =
        decide ((right.lookup "name").bind Json.string? = some "mneme")
      cases found : left.lookup "name" with
      | none => rw [(keys "name").mp found]
      | some one =>
          cases shown : right.lookup "name" with
          | none =>
              rw [(keys "name").mpr shown] at found
              cases found
          | some other =>
              rw [Option.bind_some, Option.bind_some,
                string?_alike (members "name" one other found shown)]

def mnemeArrayEntry : Json :=
  .object (setField mnemeMcpEntryFields "name" (.string "mneme"))

theorem namedMneme_entry : namedMneme mnemeArrayEntry = true := rfl

/-- The `mcpServers` object with the member `mneme`. -/
def jsonObjectEdit : EntryEdit jsonShape mnemeMcpEntry :=
  (memberEdit jsonShape mnemeMcpEntry "mneme").within "mcpServers" (.object [])

/-- The `mcpServers` array with the item whose name is `mneme`. -/
def jsonArrayEdit : EntryEdit jsonShape mnemeArrayEntry :=
  (itemEdit jsonShape mnemeArrayEntry namedMneme namedMneme_entry namedMneme_alike).within "mcpServers"
    (.array [])

def jsonRead (host : Host) (text : String) : Option Json :=
  host.fromStr (stripBom text)

/-- What a merge starts from. -/
def jsonStart (host : Host) (blank : Json) (text : String) : Option Json :=
  if trim (stripBom text) = "" then some blank else jsonRead host text

def jsonPrint (host : Host) (value : Json) : Option String :=
  some (host.toStringPretty value ++ "\n")

variable {host : Host}

variable {text : String} {value : Json}

theorem parseJson_eq_ok : parseJson host text = .ok value ↔ host.fromStr text = some value := by
  unfold parseJson
  cases host.fromStr text with
  | none => simp
  | some other => simp

theorem parseJsonOr_eq_ok {blank : Json} :
    parseJsonOr host blank (stripBom text) = .ok value ↔
      jsonStart host blank text = some value := by
  unfold parseJsonOr jsonStart
  split
  · simp
  · exact parseJson_eq_ok

variable {message : String}

theorem asObject_eq_ok {fields : List (String × Json)} :
    asObject value message = .ok fields ↔ jsonTable? value = some fields := by
  cases value <;> simp [asObject, jsonTable?]

theorem asArray_eq_ok {items : List Json} :
    asArray value message = .ok items ↔ value.array? = some items := by
  cases value <;> simp [asArray, Json.array?]

theorem jsonObject_merges (host : Host) (existing text : String) :
    mergeMcpJsonObject host existing = .ok text ↔
      ∃ value merged, jsonStart host (.object []) existing = some value ∧
        jsonObjectEdit.merge value = some merged ∧ jsonPrint host merged = some text := by
  constructor
  · intro done
    unfold mergeMcpJsonObject at done
    obtain ⟨value, started, done⟩ := bind_eq_ok.mp done
    obtain ⟨root, isObject, done⟩ := bind_eq_ok.mp done
    obtain ⟨servers, inside, done⟩ := bind_eq_ok.mp done
    cases done
    exact ⟨value, _, parseJsonOr_eq_ok.mp started,
      EntryEdit.within_merge.mpr ⟨root, _, asObject_eq_ok.mp isObject,
        Option.map_eq_some_iff.mpr ⟨servers, asObject_eq_ok.mp inside, rfl⟩, rfl⟩, rfl⟩
  · intro found
    obtain ⟨value, merged, started, edited, printed⟩ := found
    obtain ⟨root, member, isObject, set, rfl⟩ := EntryEdit.within_merge.mp edited
    obtain ⟨servers, inside, rfl⟩ := Option.map_eq_some_iff.mp set
    have same := congrArg (@Except.ok CliError String) (Option.some.inj printed)
    unfold mergeMcpJsonObject
    rw [parseJsonOr_eq_ok.mpr started]
    dsimp only [Bind.bind, Except.bind]
    rw [asObject_eq_ok.mpr isObject]
    dsimp only
    rw [asObject_eq_ok.mpr inside]
    exact same

theorem jsonArray_merges (host : Host) (existing text : String) :
    mergeMcpJsonArray host existing = .ok text ↔
      ∃ value merged, jsonStart host (.object [("mcpServers", .array [])]) existing = some value ∧
        jsonArrayEdit.merge value = some merged ∧ jsonPrint host merged = some text := by
  constructor
  · intro done
    unfold mergeMcpJsonArray at done
    obtain ⟨value, started, done⟩ := bind_eq_ok.mp done
    obtain ⟨root, isObject, done⟩ := bind_eq_ok.mp done
    obtain ⟨servers, inside, done⟩ := bind_eq_ok.mp done
    cases done
    exact ⟨value, _, parseJsonOr_eq_ok.mp started,
      EntryEdit.within_merge.mpr ⟨root, _, asObject_eq_ok.mp isObject,
        Option.map_eq_some_iff.mpr ⟨servers, asArray_eq_ok.mp inside, rfl⟩, rfl⟩, rfl⟩
  · intro found
    obtain ⟨value, merged, started, edited, printed⟩ := found
    obtain ⟨root, member, isObject, set, rfl⟩ := EntryEdit.within_merge.mp edited
    obtain ⟨servers, inside, rfl⟩ := Option.map_eq_some_iff.mp set
    have same := congrArg (@Except.ok CliError String) (Option.some.inj printed)
    unfold mergeMcpJsonArray
    rw [parseJsonOr_eq_ok.mpr started]
    dsimp only [Bind.bind, Except.bind]
    rw [asObject_eq_ok.mpr isObject]
    dsimp only
    rw [asArray_eq_ok.mpr inside]
    exact same

theorem stripMcpJsonObject_eq (host : Host) (existing : String) :
    stripMcpJsonObject host existing =
      (parseJson host (stripBom existing)).map (fun value =>
        host.toStringPretty ((jsonObjectEdit.strip value).getD value) ++ "\n") := by
  unfold stripMcpJsonObject
  cases parseJson host (stripBom existing) with
  | error error => rfl
  | ok value =>
      cases value with
      | object root =>
          change _ = Except.ok (host.toStringPretty
            ((((root.lookup "mcpServers").bind _).map _).getD (Json.object root)) ++ "\n")
          dsimp only [Bind.bind, Except.bind, Pure.pure, Except.pure]
          cases root.lookup "mcpServers" with
          | none => rfl
          | some servers => cases servers <;> rfl
      | _ => rfl

theorem stripMcpJsonArray_eq (host : Host) (existing : String) :
    stripMcpJsonArray host existing =
      (parseJson host (stripBom existing)).map (fun value =>
        host.toStringPretty ((jsonArrayEdit.strip value).getD value) ++ "\n") := by
  unfold stripMcpJsonArray
  cases parseJson host (stripBom existing) with
  | error error => rfl
  | ok value =>
      cases value with
      | object root =>
          change _ = Except.ok (host.toStringPretty
            ((((root.lookup "mcpServers").bind _).map _).getD (Json.object root)) ++ "\n")
          dsimp only [Bind.bind, Except.bind, Pure.pure, Except.pure]
          cases root.lookup "mcpServers" with
          | none => rfl
          | some servers => cases servers <;> rfl
      | _ => rfl

theorem json_strips {stripText : String → Except CliError String} {change : Json → Json}
    (same : ∀ existing, stripText existing = (parseJson host (stripBom existing)).map (fun value =>
      host.toStringPretty (change value) ++ "\n")) (existing text : String) :
    stripText existing = .ok text ↔
      ∃ value, jsonRead host existing = some value ∧ jsonPrint host (change value) = some text := by
  rw [same, map_eq_ok]
  constructor
  · intro found
    obtain ⟨value, read, printed⟩ := found
    exact ⟨value, parseJson_eq_ok.mp read, congrArg some printed⟩
  · intro found
    obtain ⟨value, read, printed⟩ := found
    exact ⟨value, parseJson_eq_ok.mpr read, Option.some.inj printed⟩

theorem jsonObject_carriesOut (host : Host) :
    CarriesOut jsonObjectEdit (jsonStart host (.object [])) (jsonRead host) (jsonPrint host)
      (mergeMcp host .jsonObject) (stripMcp host .jsonObject) :=
  ⟨jsonObject_merges host, json_strips (stripMcpJsonObject_eq host)⟩

theorem jsonArray_carriesOut (host : Host) :
    CarriesOut jsonArrayEdit (jsonStart host (.object [("mcpServers", .array [])]))
      (jsonRead host) (jsonPrint host) (mergeMcp host .jsonArray) (stripMcp host .jsonArray) :=
  ⟨jsonArray_merges host, json_strips (stripMcpJsonArray_eq host)⟩

/-- A blank text and a text with a byte order mark are no JSON, and on a class of values
printing and parsing are correct. -/
structure JsonText (host : Host) (Held : Json → Prop) : Prop where
  blank : ∀ text, trim text = "" → host.fromStr text = none
  mark : ∀ text, host.fromStr ("\ufeff" ++ text) = none
  held : ∀ text value, host.fromStr text = some value → Held value
  again : ∀ value, Held value →
    ∃ other, host.fromStr (host.toStringPretty value ++ "\n") = some other ∧
      Alike jsonShape other value
  ordered : ∀ left right, Held left → Held right → Alike jsonShape left right →
    host.toStringPretty left = host.toStringPretty right

variable {Held : Json → Prop}

/-- What is parsed has no byte order mark. -/
theorem JsonText.stripBom_eq (texts : JsonText host Held) (read : host.fromStr text = some value) :
    stripBom text = text := by
  unfold stripBom Markers.stripPrefix
  split
  · next starts =>
      obtain ⟨rest, split⟩ := List.isPrefixOf_iff_prefix.mp starts
      have whole : text = "\ufeff" ++ String.ofList rest := by
        have chars : (String.ofList rest).toList = rest := String.toList_ofList
        apply String.toList_inj.mp
        rw [String.toList_append, chars]
        exact split.symm
      rw [whole, texts.mark] at read
      cases read
  · rfl

theorem JsonText.readsBack (texts : JsonText host Held) :
    ReadsBack jsonShape Held (jsonRead host) (jsonPrint host) where
  held text value read := texts.held _ value read
  again value inside := by
    obtain ⟨other, read, alike⟩ := texts.again value inside
    refine ⟨_, other, rfl, ?_, alike⟩
    unfold jsonRead
    rw [texts.stripBom_eq read]
    exact read
  ordered left right inLeft inRight alike := by
    unfold jsonPrint
    rw [texts.ordered left right inLeft inRight alike]

theorem JsonText.starts (texts : JsonText host Held)
    (blank : Json) (text : String) (value : Json) (read : jsonRead host text = some value) :
    jsonStart host blank text = some value := by
  unfold jsonStart
  rw [if_neg]
  · exact read
  · intro empty
    unfold jsonRead at read
    rw [texts.blank _ empty] at read
    cases read

/-! ### TOML -/

def tomlTable? : Toml → Option (List (String × Toml))
  | .table entries => some entries
  | _ => none

def tomlArray? : Toml → Option (List Toml)
  | .array items => some items
  | _ => none

def tomlShape : Shape Toml where
  table := Toml.table
  table? := tomlTable?
  array := Toml.array
  array? := tomlArray?
  table?_eq value members := by cases value <;> simp [tomlTable?]
  array?_eq value items := by cases value <;> simp [tomlArray?]
  apart members items := by simp

def mnemeTomlEntry : Toml :=
  .table
    [("command", .string "mneme"),
      ("args", .array [.string "mcp", .string "stdio"]),
      ("env", .table [("MNEME_LOG", .string "info")])]

/-- The `mcp_servers` table with the member `mneme`. -/
def tomlEdit : EntryEdit tomlShape mnemeTomlEntry :=
  (memberEdit tomlShape mnemeTomlEntry "mneme").within "mcp_servers" (.table [])

def tomlStart (host : Host) (text : String) : Option Toml :=
  if trim text = "" then some (.table []) else host.parseToml text

variable {doc : Toml}

theorem parseTomlText_eq_ok :
    parseTomlText host text = .ok doc ↔ host.parseToml text = some doc := by
  unfold parseTomlText
  cases host.parseToml text with
  | none => simp
  | some other => simp

theorem printTomlText_eq_ok :
    printTomlText host doc = .ok text ↔ host.tomlToStringPretty doc = some text := by
  unfold printTomlText
  cases host.tomlToStringPretty doc with
  | none => simp
  | some other => simp

theorem asTable_eq_ok {value : Toml} {entries : List (String × Toml)} :
    asTable value message = .ok entries ↔ tomlTable? value = some entries := by
  cases value <;> simp [asTable, tomlTable?]

theorem tomlStart_eq_ok :
    (if trim text = "" then Except.ok (Toml.table []) else parseTomlText host text) = .ok doc ↔
      tomlStart host text = some doc := by
  unfold tomlStart
  split
  · simp
  · exact parseTomlText_eq_ok

theorem mergeMcpToml_eq (host : Host) (existing : String) :
    mergeMcpToml host existing =
      (if trim existing = "" then Except.ok (Toml.table [])
        else parseTomlText host existing).bind (fun doc =>
          (asTable doc "TOML root is not a table").bind (fun root =>
            (asTable ((root.lookup "mcp_servers").getD (.table []))
              "`mcp_servers` is not a TOML table").bind (fun servers =>
                printTomlText host (.table (setField root "mcp_servers"
                  (.table (setField servers "mneme" mnemeTomlEntry))))))) := by
  unfold mergeMcpToml
  dsimp only
  split <;> rfl

theorem toml_merges (host : Host) (existing text : String) :
    mergeMcpToml host existing = .ok text ↔
      ∃ value merged, tomlStart host existing = some value ∧
        tomlEdit.merge value = some merged ∧ host.tomlToStringPretty merged = some text := by
  rw [mergeMcpToml_eq]
  constructor
  · intro done
    obtain ⟨value, started, done⟩ := bind_eq_ok.mp done
    obtain ⟨root, isTable, done⟩ := bind_eq_ok.mp done
    obtain ⟨servers, inside, done⟩ := bind_eq_ok.mp done
    exact ⟨value, _, tomlStart_eq_ok.mp started,
      EntryEdit.within_merge.mpr ⟨root, _, asTable_eq_ok.mp isTable,
        Option.map_eq_some_iff.mpr ⟨servers, asTable_eq_ok.mp inside, rfl⟩, rfl⟩,
      printTomlText_eq_ok.mp done⟩
  · intro found
    obtain ⟨value, merged, started, edited, printed⟩ := found
    obtain ⟨root, member, isTable, set, rfl⟩ := EntryEdit.within_merge.mp edited
    obtain ⟨servers, inside, rfl⟩ := Option.map_eq_some_iff.mp set
    rw [tomlStart_eq_ok.mpr started]
    dsimp only [Except.bind]
    rw [asTable_eq_ok.mpr isTable]
    dsimp only
    rw [asTable_eq_ok.mpr inside]
    exact printTomlText_eq_ok.mpr printed

theorem stripMcpToml_eq (host : Host) (existing : String) :
    stripMcpToml host existing =
      (parseTomlText host existing).bind (fun doc =>
        printTomlText host ((tomlEdit.strip doc).getD doc)) := by
  unfold stripMcpToml
  cases parseTomlText host existing with
  | error error => rfl
  | ok doc =>
      cases doc with
      | table root =>
          change _ = printTomlText host
            ((((root.lookup "mcp_servers").bind _).map _).getD (Toml.table root))
          dsimp only [Bind.bind, Except.bind]
          cases root.lookup "mcp_servers" with
          | none => rfl
          | some servers => cases servers <;> rfl
      | _ => rfl

theorem toml_carriesOut (host : Host) :
    CarriesOut tomlEdit (tomlStart host) host.parseToml host.tomlToStringPretty
      (mergeMcp host .toml) (stripMcp host .toml) where
  merges := toml_merges host
  strips existing text := by
    change stripMcpToml host existing = .ok text ↔ _
    rw [stripMcpToml_eq, bind_eq_ok]
    constructor
    · intro found
      obtain ⟨doc, read, printed⟩ := found
      exact ⟨doc, parseTomlText_eq_ok.mp read, printTomlText_eq_ok.mp printed⟩
    · intro found
      obtain ⟨doc, read, printed⟩ := found
      exact ⟨doc, parseTomlText_eq_ok.mpr read, printTomlText_eq_ok.mpr printed⟩

/-- A blank text is the empty table, and on a class of values printing and parsing are
correct. -/
structure TomlText (host : Host) (Held : Toml → Prop) : Prop where
  blank : ∀ text doc, trim text = "" → host.parseToml text = some doc → doc = .table []
  readsBack : ReadsBack tomlShape Held host.parseToml host.tomlToStringPretty

theorem TomlText.starts {Held : Toml → Prop} (texts : TomlText host Held)
    (text : String) (doc : Toml) (read : host.parseToml text = some doc) :
    tomlStart host text = some doc := by
  unfold tomlStart
  split
  · next empty => rw [texts.blank text doc empty read]
  · exact read

/-! ### Every format -/

/-- In every format the merge of the mneme entry is carried out once and takes nothing
but the entry, and the strip leaves all else as it was. -/
theorem mergeMcp_keeps_others (host : Host) :
    (∀ Held : Json → Prop, JsonText host Held →
      (Closed jsonObjectEdit Held → ∀ existing merged,
        (∀ value, jsonStart host (.object []) existing = some value → Held value) →
        mergeMcp host .jsonObject existing = .ok merged →
          KeepsOthers jsonObjectEdit (jsonStart host (.object [])) (jsonRead host)
            (mergeMcp host .jsonObject) (stripMcp host .jsonObject) existing merged) ∧
      (Closed jsonArrayEdit Held → ∀ existing merged,
        (∀ value, jsonStart host (.object [("mcpServers", .array [])]) existing = some value →
          Held value) →
        mergeMcp host .jsonArray existing = .ok merged →
          KeepsOthers jsonArrayEdit (jsonStart host (.object [("mcpServers", .array [])]))
            (jsonRead host) (mergeMcp host .jsonArray) (stripMcp host .jsonArray) existing
            merged)) ∧
    (∀ Held : Toml → Prop, TomlText host Held → Closed tomlEdit Held → ∀ existing merged,
      (∀ value, tomlStart host existing = some value → Held value) →
      mergeMcp host .toml existing = .ok merged →
        KeepsOthers tomlEdit (tomlStart host) host.parseToml (mergeMcp host .toml)
          (stripMcp host .toml) existing merged) := by
  refine ⟨fun Held texts => ⟨?_, ?_⟩, ?_⟩
  · intro closed existing merged held done
    exact keeps_others texts.readsBack closed (jsonObject_carriesOut host) (texts.starts _) held
      done
  · intro closed existing merged held done
    exact keeps_others texts.readsBack closed (jsonArray_carriesOut host) (texts.starts _) held
      done
  · intro Held texts closed existing merged held done
    exact keeps_others texts.readsBack closed (toml_carriesOut host) texts.starts held done

/-- A config with another server, without and with the mneme entry. -/
def otherServer : Json :=
  .object [("mcpServers", .object [("other", .object [])])]

def bothServers : Json :=
  .object [("mcpServers", .object [("other", .object []), ("mneme", mnemeMcpEntry)])]

def otherText : String :=
  "\x7b\n  \"mcpServers\": \x7b\n    \"other\": \x7b\x7d\n  \x7d\n\x7d"

def bothText : String :=
  "\x7b\n  \"mcpServers\": \x7b\n    \"mneme\": \x7b\n      \"args\": [\n        \"mcp\",\n" ++
  "        \"stdio\"\n      ],\n      \"command\": \"mneme\",\n      \"env\": \x7b\n" ++
  "        \"MNEME_LOG\": \"info\"\n      \x7d,\n      \"transport\": \"stdio\"\n    \x7d,\n" ++
  "    \"other\": \x7b\x7d\n  \x7d\n\x7d"

def hasMneme (value : Json) : Bool :=
  ((getField value "mcpServers").bind (fun servers => getField servers "mneme")).isSome

/-- The library on the two configs. -/
def twoConfigs : Host where
  fromStr text :=
    if text = otherText ++ "\n" then some otherServer
    else if text = bothText ++ "\n" then some bothServers else none
  toStringPretty value := if hasMneme value then bothText else otherText
  parseToml _ := none
  tomlToStringPretty _ := none
  sha256 _ := ""
  clock _ := 0
  home := []
  currentDir := []
  codeUserConfigDir := []
  version := "0.3.0"

theorem twoConfigs_fromStr (read : twoConfigs.fromStr text = some value) :
    (text = otherText ++ "\n" ∧ value = otherServer) ∨
      (text = bothText ++ "\n" ∧ value = bothServers) := by
  unfold twoConfigs at read
  dsimp only at read
  split at read
  · next other => exact Or.inl ⟨other, (Option.some.inj read).symm⟩
  · split at read
    · next both => exact Or.inr ⟨both, (Option.some.inj read).symm⟩
    · cases read

theorem twoConfigs_other : twoConfigs.fromStr (otherText ++ "\n") = some otherServer := by
  unfold twoConfigs
  dsimp only
  rw [if_pos rfl]

theorem twoConfigs_both : twoConfigs.fromStr (bothText ++ "\n") = some bothServers := by
  have apart : bothText ++ "\n" ≠ otherText ++ "\n" := by decide +kernel
  unfold twoConfigs
  dsimp only
  rw [if_neg apart, if_pos rfl]

theorem members_alike {left right : List (String × Json)}
    (alike : Alike jsonShape (.object left) (.object right)) (key : String) :
    Matches (Alike jsonShape) (left.lookup key) (right.lookup key) := by
  obtain ⟨members, same, matched⟩ := @Alike.of_table _ jsonShape _ right alike
  cases same
  exact matched key

/-- One has the entry and the other has not. -/
theorem hasMneme_alike {one other : List (String × Json)}
    (alike : Alike jsonShape (.object [("mcpServers", .object one)])
      (.object [("mcpServers", .object other)])) :
    one.lookup "mneme" = none ↔ other.lookup "mneme" = none :=
  (members_alike ((members_alike alike "mcpServers").2 _ _ rfl rfl) "mneme").1

theorem twoConfigs_text :
    JsonText twoConfigs (fun value => value = otherServer ∨ value = bothServers) where
  blank text empty := by
    cases read : twoConfigs.fromStr text with
    | none => rfl
    | some value =>
        rcases twoConfigs_fromStr read with other | both
        · rw [other.1] at empty
          exact absurd empty (by decide +kernel)
        · rw [both.1] at empty
          exact absurd empty (by decide +kernel)
  mark text := by
    cases read : twoConfigs.fromStr ("\ufeff" ++ text) with
    | none => rfl
    | some value =>
        have first : ("\ufeff" ++ text).toList.head? = some (Char.ofNat 0xfeff) := by
          rw [String.toList_append]
          rfl
        rcases twoConfigs_fromStr read with other | both
        · rw [other.1] at first
          exact absurd first (by decide +kernel)
        · rw [both.1] at first
          exact absurd first (by decide +kernel)
  held text value read := (twoConfigs_fromStr read).imp And.right And.right
  again value inside := by
    rcases inside with other | both
    · rw [other]
      exact ⟨otherServer, twoConfigs_other, Alike.same _⟩
    · rw [both]
      exact ⟨bothServers, twoConfigs_both, Alike.same _⟩
  ordered left right inLeft inRight alike := by
    rcases inLeft with rfl | rfl
    · rcases inRight with rfl | rfl
      · rfl
      · have absent := (hasMneme_alike alike).mp rfl
        cases absent
    · rcases inRight with rfl | rfl
      · have absent := (hasMneme_alike alike).mpr rfl
        cases absent
      · rfl

theorem twoConfigs_closed :
    Closed jsonObjectEdit (fun value => value = otherServer ∨ value = bothServers) where
  merged value other inside done := by
    rcases inside with rfl | rfl
    · exact Or.inr (Option.some.inj done).symm
    · exact Or.inr (Option.some.inj done).symm
  stripped value other inside done := by
    rcases inside with rfl | rfl
    · exact Or.inl (Option.some.inj done).symm
    · exact Or.inl (Option.some.inj done).symm

/-- The config of another server, merged and stripped. -/
theorem otherServer_kept :
    KeepsOthers jsonObjectEdit (jsonStart twoConfigs (.object [])) (jsonRead twoConfigs)
      (mergeMcp twoConfigs .jsonObject) (stripMcp twoConfigs .jsonObject)
      (otherText ++ "\n") (bothText ++ "\n") := by
  have read : jsonRead twoConfigs (otherText ++ "\n") = some otherServer := by
    unfold jsonRead
    rw [twoConfigs_text.stripBom_eq twoConfigs_other]
    exact twoConfigs_other
  have started : jsonStart twoConfigs (.object []) (otherText ++ "\n") = some otherServer :=
    twoConfigs_text.starts _ _ _ read
  have held : ∀ value, jsonStart twoConfigs (.object []) (otherText ++ "\n") = some value →
      value = otherServer ∨ value = bothServers := by
    intro value same
    rw [started] at same
    exact Or.inl (Option.some.inj same).symm
  have done : mergeMcp twoConfigs .jsonObject (otherText ++ "\n") = .ok (bothText ++ "\n") :=
    (jsonObject_merges twoConfigs _ _).mpr ⟨otherServer, bothServers, started, rfl, rfl⟩
  exact ((mergeMcp_keeps_others twoConfigs).1 _ twoConfigs_text).1 twoConfigs_closed _ _ held done

end Mneme.Cli.Platforms
