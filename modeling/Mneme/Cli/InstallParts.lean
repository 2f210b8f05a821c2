/-
What one part of an install writes and records.

Every target has a name of a fixed list, and no backup has one of them.  A part writes
its target, its alias and its snapshot; a manifest or a config that is written is
recorded, a hook file only where a backup of it is found.
-/

import Mneme.Cli.Receipts
import Mneme.Library.Fallible

namespace Mneme.Cli.Receipts

open Platforms Mneme.Common Mneme.Library

/-! ### Names -/

def targetNames : List String :=
  ["AGENTS.md", "CLAUDE.md", ".windsurfrules", "GEMINI.md", "CONVENTIONS.md",
    "copilot-instructions.md", "mneme.md", "QODER.md", "QWEN.md", ".mcp.json", ".claude.json",
    "config.toml", "mcp.json", "mcp_config.json", "settings.json", "config.json",
    ".opencode.json", ".aider.conf.yml", "hooks.json", "mneme.toml", "mneme.kiro.hook",
    "mneme.ts"]

/-- The file that a part of an install writes. -/
def partTarget (host : Host) (ctx : AdapterContext) (part : Part) : Option Place :=
  match part.piece with
  | .manifest => some (manifestPath host ctx part.platform)
  | .mcp => some (mcpConfigPath host ctx part.platform)
  | .hooks => hookPath host ctx part.platform

theorem manifestPath_name (host : Host) (ctx : AdapterContext) (platform : Platform) :
    (manifestPath host ctx platform).name ∈ targetNames := by
  obtain ⟨scope, root, force⟩ := ctx
  cases platform <;> cases scope <;> simp [manifestPath, targetNames]

theorem mcpConfigPath_name (host : Host) (ctx : AdapterContext) (platform : Platform) :
    (mcpConfigPath host ctx platform).name ∈ targetNames := by
  obtain ⟨scope, root, force⟩ := ctx
  cases platform <;> cases scope <;> simp [mcpConfigPath, targetNames]

variable {path : Place} {ctx : AdapterContext} {host : Host} {platform : Platform}

theorem hookPath_name (hooked : hookPath host ctx platform = some path) :
    path.name ∈ targetNames := by
  cases platform <;> simp [hookPath] at hooked <;> subst hooked <;> simp [targetNames]

variable {part : Part}

theorem partTarget_name (target : partTarget host ctx part = some path) :
    path.name ∈ targetNames := by
  obtain ⟨platform, piece⟩ := part
  cases piece with
  | manifest =>
      cases target
      exact manifestPath_name host ctx platform
  | mcp =>
      cases target
      exact mcpConfigPath_name host ctx platform
  | hooks => exact hookPath_name target

/-- No target looks like a backup, and an alias does not look like a snapshot. -/
theorem targetNames_plain : ∀ name ∈ targetNames,
    ".bak".toList.isSuffixOf name.toList = false ∧ cutAt ".mneme-".toList name.toList = none ∧
      cutAt ".mneme-".toList (aliasOf ⟨[], name⟩).name.toList = none ∧
      (Place.mk [] name).extension ≠ some "" := by
  decide +kernel

theorem targetNames_stems : ∀ name ∈ targetNames,
    cutAt ".mneme-".toList (Place.mk [] name).fileStem.toList = none ∧
      ∀ other ∈ targetNames, other = (Place.mk [] name).fileStem → other = name := by
  decide +kernel

/-! ### Hook files are no other targets -/

/-- The last directory and the name. -/
def placeKey (place : Place) : Option String × String :=
  (place.directory.getLast?, place.name)

def hookKeys : List (Option String × String) :=
  [(some ".cursor", "hooks.json"), (some ".qoder", "settings.json"),
    (some "commands", "mneme.toml"), (some "hooks", "mneme.kiro.hook"),
    (some "plugins", "mneme.ts"), (some "workflows", "mneme.md")]

theorem manifestPath_key (host : Host) (ctx : AdapterContext) (platform : Platform) :
    placeKey (manifestPath host ctx platform) ∉ hookKeys := by
  obtain ⟨scope, root, force⟩ := ctx
  cases platform <;> cases scope <;> simp [manifestPath, placeKey, hookKeys]

theorem mcpConfigPath_key (host : Host) (ctx : AdapterContext) (platform : Platform) :
    placeKey (mcpConfigPath host ctx platform) ∉ hookKeys := by
  obtain ⟨scope, root, force⟩ := ctx
  cases platform <;> cases scope <;> simp [mcpConfigPath, placeKey, hookKeys]

theorem hookPath_key (hooked : hookPath host ctx platform = some path) :
    placeKey path ∈ hookKeys := by
  cases platform <;> simp [hookPath] at hooked <;> subst hooked <;> simp [placeKey, hookKeys]

theorem hookPath_platform {left right : Platform} (first : hookPath host ctx left = some path)
    (second : hookPath host ctx right = some path) : left = right := by
  rw [← second] at first
  have keys := congrArg (Option.map placeKey) first
  cases left <;> simp [hookPath] at second first <;> cases right <;>
    simp [hookPath, placeKey] at second keys ⊢

/-- Only the hook part of one platform writes its hook file. -/
theorem hookPath_part (hooked : hookPath host ctx platform = some path)
    (target : partTarget host ctx part = some path) : part = ⟨platform, .hooks⟩ := by
  obtain ⟨other, piece⟩ := part
  cases piece with
  | manifest =>
      cases target
      exact absurd (hookPath_key hooked) (manifestPath_key host ctx other)
  | mcp =>
      cases target
      exact absurd (hookPath_key hooked) (mcpConfigPath_key host ctx other)
  | hooks =>
      have same : other = platform := hookPath_platform target hooked
      rw [same]

/-! ### Snapshots and backups -/

def endsInBak (place : Place) : Bool :=
  ".bak".toList.isSuffixOf place.name.toList

theorem withExtension_endsInBak (path : Place) (lead : String) :
    endsInBak (path.withExtension (lead ++ ".bak")) = true := by
  refine List.isSuffixOf_iff_suffix.mpr ⟨(path.fileStem ++ "." ++ lead).toList, ?_⟩
  simp [Place.withExtension]

theorem snapshotOf_endsInBak (path : Place) (now : String) :
    endsInBak (snapshotOf path now) = true := by
  unfold snapshotOf extensionWithMnemeBak
  split
  · split
    · exact withExtension_endsInBak path _
    · exact withExtension_endsInBak path _
  · exact withExtension_endsInBak path _

theorem aliasOf_endsInBak (path : Place) : endsInBak (aliasOf path) = true := by
  have bare : endsInBak (path.withExtension "bak") = true := by
    refine List.isSuffixOf_iff_suffix.mpr ⟨path.fileStem.toList, ?_⟩
    simp [Place.withExtension]
  unfold aliasOf extensionWithBak
  split
  · split
    · exact bare
    · exact withExtension_endsInBak path _
  · exact bare

/-- The place has the name of a target, or its stem, before the mark of a snapshot. -/
def IsBackupOf (target place : Place) : Prop :=
  place.directory = target.directory ∧ ∃ lead, (lead = target.name ∨ lead = target.fileStem) ∧
    ∃ rest, place.name.toList = lead.toList ++ (".mneme-".toList ++ rest)

theorem snapshotOf_name (named : path.extension ≠ some "") (now : String) :
    ∃ rest, (snapshotOf path now).name.toList = path.name.toList ++ (".mneme-".toList ++ rest) := by
  refine ⟨(now ++ ".bak").toList, ?_⟩
  unfold snapshotOf extensionWithMnemeBak
  cases ext : extensionOf path.name.toList with
  | none =>
      have none_ : path.extension = none := by
        unfold Place.extension
        rw [ext]
        rfl
      have stem : path.fileStem = path.name := by
        unfold Place.fileStem
        rw [ext]
      rw [none_]
      simp [Place.withExtension, stem]
  | some chars =>
      have some_ : path.extension = some (String.ofList chars) := by
        unfold Place.extension
        rw [ext]
        rfl
      have stem : path.fileStem.toList ++ '.' :: chars = path.name.toList := by
        unfold Place.fileStem
        rw [ext, ← String.length_toList]
        simpa using extensionOf_split ext
      rw [some_] at named ⊢
      have kept : String.ofList chars ≠ "" := fun same => named (congrArg some same)
      simp only [if_neg kept, Place.withExtension]
      rw [← stem]
      simp

theorem target_plain (target : path.name ∈ targetNames) : endsInBak path = false :=
  (targetNames_plain path.name target).1

theorem snapshotOf_isBackupOf (target : path.name ∈ targetNames) (now : String) :
    IsBackupOf path (snapshotOf path now) := by
  have named : path.extension ≠ some "" := (targetNames_plain path.name target).2.2.2
  exact ⟨rfl, path.name, Or.inl rfl, snapshotOf_name named now⟩

variable {target path place : Place}

/-- A snapshot of one target is a backup of no other. -/
theorem target_of_snapshot {now : String}
    (named : path.name ∈ targetNames) (other : target.name ∈ targetNames)
    (backup : IsBackupOf target (snapshotOf path now)) : path = target := by
  obtain ⟨directory, lead, which, rest, shape⟩ := backup
  have extended : path.extension ≠ some "" := (targetNames_plain path.name named).2.2.2
  obtain ⟨tail, name⟩ := snapshotOf_name extended now
  rw [name] at shape
  have plain := (targetNames_plain path.name named).2.1
  have same : path.name = target.name := by
    rcases which with rfl | rfl
    · exact String.toList_inj.mp (separator_unique (by decide) plain
        (targetNames_plain target.name other).2.1 shape)
    · have stems := targetNames_stems target.name other
      exact stems.2 path.name named
        (String.toList_inj.mp (separator_unique (by decide) plain stems.1 shape))
  have places : path.directory = target.directory := directory
  cases path
  cases target
  cases same
  cases places
  rfl

theorem backup_ne {other : Place} (backup : IsBackupOf target place)
    (plain : cutAt ".mneme-".toList other.name.toList = none) : place ≠ other := by
  intro same
  obtain ⟨_, lead, _, rest, shape⟩ := backup
  rw [same] at shape
  exact not_contains plain _ _ shape

theorem startsWith_iff (lead text : String) :
    startsWith lead text = true ↔ ∃ rest, text.toList = lead.toList ++ rest := by
  unfold startsWith
  rw [List.isPrefixOf_iff_prefix]
  exact ⟨fun ⟨rest, shape⟩ => ⟨rest, shape.symm⟩, fun ⟨rest, shape⟩ => ⟨rest, shape.symm⟩⟩

theorem candidate_iff (target place : Place) :
    (place.directory = target.directory ∧
      (startsWith (target.name ++ ".mneme-") place.name ||
        startsWith (target.fileStem ++ ".mneme-") place.name) = true) ↔
      IsBackupOf target place := by
  unfold IsBackupOf
  rw [Bool.or_eq_true, startsWith_iff, startsWith_iff]
  simp only [String.toList_append, List.append_assoc]
  constructor
  · intro both
    refine ⟨both.1, ?_⟩
    rcases both.2 with byName | byStem
    · exact ⟨target.name, Or.inl rfl, byName⟩
    · exact ⟨target.fileStem, Or.inr rfl, byStem⟩
  · intro both
    obtain ⟨directory, lead, which, named⟩ := both
    refine ⟨directory, ?_⟩
    rcases which with rfl | rfl
    · exact Or.inl named
    · exact Or.inr named

variable {machine : Machine}

theorem findLatestMnemeBak_isBackupOf
    (found : findLatestMnemeBak machine target = some place) : IsBackupOf target place := by
  have member := List.mem_of_mem_head? found
  rw [List.mem_mergeSort, List.mem_filter] at member
  exact (candidate_iff target place).mp (of_decide_eq_true member.2)

theorem findLatestMnemeBak_isSome
    (present : (machine.files.lookup place).isSome = true) (backup : IsBackupOf target place) :
    (findLatestMnemeBak machine target).isSome = true := by
  unfold findLatestMnemeBak
  rw [List.isSome_head?]
  intro none_
  have member : place ∈ machine.files.keys := AList.lookup_isSome.mp present
  have absent : place ∉ ([] : List Place) := List.not_mem_nil
  rw [← none_, List.mem_mergeSort, List.mem_filter] at absent
  exact absent ⟨member, decide_eq_true ((candidate_iff target place).mpr backup)⟩

/-! ### One write -/

theorem lookup_backupThenWrite (host : Host) (machine : Machine) (path : Place)
    (contents : String) :
    (backupThenWrite host machine path contents).files.lookup path = some contents.toUTF8 := by
  unfold backupThenWrite
  split
  · exact AList.lookup_insert _
  · exact AList.lookup_insert _

/-- Besides the file, only its alias and the snapshot of this second are written. -/
theorem lookup_backupThenWrite_other (host : Host) (machine : Machine)
    (contents : String) (other : place ≠ path) (noAlias : place ≠ aliasOf path)
    (noSnapshot : place ≠ snapshotOf path (chronoLikeUtcStamp (host.clock machine.reads))) :
    (backupThenWrite host machine path contents).files.lookup place =
      machine.files.lookup place := by
  unfold backupThenWrite
  split
  · exact AList.lookup_insert_ne other
  · simp only [Machine.carryOut_write]
    rw [AList.lookup_insert_ne other, AList.lookup_insert_ne noAlias,
      AList.lookup_insert_ne noSnapshot]

theorem lookup_backupThenWrite_plain (host : Host) (machine : Machine)
    (contents : String) (other : place ≠ path) (plain : endsInBak place = false) :
    (backupThenWrite host machine path contents).files.lookup place =
      machine.files.lookup place := by
  apply lookup_backupThenWrite_other host machine contents other
  · intro same
    rw [same, aliasOf_endsInBak] at plain
    cases plain
  · intro same
    rw [same, snapshotOf_endsInBak] at plain
    cases plain

/-- The snapshot holds what the file held. -/
theorem lookup_backupThenWrite_snapshot (host : Host)
    (contents : String) {current : ByteArray} (present : machine.files.lookup path = some current)
    (target : path.name ∈ targetNames) :
    (backupThenWrite host machine path contents).files.lookup
      (snapshotOf path (chronoLikeUtcStamp (host.clock machine.reads))) = some current := by
  have backup := snapshotOf_isBackupOf target (chronoLikeUtcStamp (host.clock machine.reads))
  have names := targetNames_plain path.name target
  have noAlias : cutAt ".mneme-".toList (aliasOf path).name.toList = none := names.2.2.1
  unfold backupThenWrite
  rw [present]
  simp only [Machine.carryOut_write]
  rw [AList.lookup_insert_ne (backup_ne backup names.2.1),
    AList.lookup_insert_ne (backup_ne backup noAlias)]
  exact AList.lookup_insert _

/-! ### What a part writes -/

variable {machine after : Machine}

theorem writeManifest_ok (written : writeManifest host ctx platform machine = .ok after) :
    ∃ text, after = backupThenWrite host machine (manifestPath host ctx platform) text := by
  unfold writeManifest at written
  obtain ⟨existing, _, injected⟩ := bind_eq_ok.mp written
  split at injected
  · cases injected
  · cases injected
    exact ⟨_, rfl⟩

theorem writeMcpConfigDefault_ok {format : McpFormat}
    (written : writeMcpConfigDefault host path format machine = .ok after) :
    ∃ text, after = backupThenWrite host machine path text := by
  unfold writeMcpConfigDefault at written
  obtain ⟨existing, _, read⟩ := bind_eq_ok.mp written
  obtain ⟨merged, _, done⟩ := bind_eq_ok.mp read
  cases done
  exact ⟨merged, rfl⟩

theorem zedWriteMcpConfig_ok (written : zedWriteMcpConfig host path machine = .ok after) :
    ∃ text, after = backupThenWrite host machine path text := by
  unfold zedWriteMcpConfig at written
  obtain ⟨existing, _, read⟩ := bind_eq_ok.mp written
  obtain ⟨value, _, parsed⟩ := bind_eq_ok.mp read
  obtain ⟨root, _, rooted⟩ := bind_eq_ok.mp parsed
  obtain ⟨servers, _, done⟩ := bind_eq_ok.mp rooted
  cases done
  exact ⟨_, rfl⟩

/-- A config that has the section already is the one thing left as it is. -/
theorem writeMcpConfig_ok (written : writeMcpConfig host ctx platform machine = .ok after) :
    after = machine ∨
      ∃ text, after = backupThenWrite host machine (mcpConfigPath host ctx platform) text := by
  unfold writeMcpConfig at written
  dsimp only at written
  split at written
  · unfold aiderWriteMcpConfig at written
    obtain ⟨existing, _, read⟩ := bind_eq_ok.mp written
    split at read
    · cases read
      exact Or.inl rfl
    · cases read
      exact Or.inr ⟨_, rfl⟩
  · exact Or.inr (zedWriteMcpConfig_ok written)
  · exact Or.inr (writeMcpConfigDefault_ok written)

theorem cursorWriteHooks_ok (written : cursorWriteHooks host path machine = .ok after) :
    ∃ text, after = backupThenWrite host machine path text := by
  unfold cursorWriteHooks at written
  obtain ⟨existing, _, read⟩ := bind_eq_ok.mp written
  obtain ⟨value, _, parsed⟩ := bind_eq_ok.mp read
  obtain ⟨root, _, rooted⟩ := bind_eq_ok.mp parsed
  obtain ⟨edited, _, first⟩ := bind_eq_ok.mp rooted
  obtain ⟨run, _, second⟩ := bind_eq_ok.mp first
  obtain ⟨started, _, done⟩ := bind_eq_ok.mp second
  cases done
  exact ⟨_, rfl⟩

theorem qoderWriteHooks_ok (written : qoderWriteHooks host path machine = .ok after) :
    ∃ text, after = backupThenWrite host machine path text := by
  unfold qoderWriteHooks at written
  obtain ⟨existing, _, read⟩ := bind_eq_ok.mp written
  obtain ⟨value, _, parsed⟩ := bind_eq_ok.mp read
  obtain ⟨root, _, rooted⟩ := bind_eq_ok.mp parsed
  obtain ⟨hooks, _, done⟩ := bind_eq_ok.mp rooted
  cases done
  exact ⟨_, rfl⟩

theorem writeHooks_ok (written : writeHooks host ctx platform machine = .ok (some (path, after))) :
    hookPath host ctx platform = some path ∧
      ((∃ text, after = backupThenWrite host machine path text) ∨
        ∃ text, after = writeFile machine path text) := by
  unfold writeHooks at written
  split at written
  · cases written
  · rename_i hook hooked
    split at written
    · obtain ⟨value, wrote, same⟩ := map_eq_ok.mp written
      cases same
      exact ⟨hooked, Or.inl (cursorWriteHooks_ok wrote)⟩
    · obtain ⟨value, wrote, same⟩ := map_eq_ok.mp written
      cases same
      exact ⟨hooked, Or.inl (qoderWriteHooks_ok wrote)⟩
    · cases written
      exact ⟨hooked, Or.inr ⟨_, rfl⟩⟩
    · cases written
      exact ⟨hooked, Or.inr ⟨_, rfl⟩⟩
    · cases written
      exact ⟨hooked, Or.inr ⟨_, rfl⟩⟩
    · cases written
      exact ⟨hooked, Or.inr ⟨_, rfl⟩⟩
    · cases written

/-! ### What a part records -/

/-- The record of one file, if there is one. -/
inductive Recorded (host : Host) (target : Place) (before after : Machine) :
    List ReceiptAction → Prop
  | modified {backup : Place} {shaBefore : String} :
      findLatestMnemeBak after target = some backup →
      Recorded host target before after
        [.fileModified target backup shaBefore (sha256OfFile host after target)]
  | created : before.files.lookup target = none →
      Recorded host target before after [.fileCreated target (sha256OfFile host after target)]
  | unrecorded : Recorded host target before after []

def registered (part : Part) (target : Place) : List ReceiptAction :=
  if part.piece = .mcp then [.mcpRegistered part.platform.id target] else []

/-- A part writes its target, records it and may register it. -/
structure Took (host : Host) (ctx : AdapterContext) (part : Part) (before after : Progress)
    (target : Place) (files : List ReceiptAction) : Prop where
  isTarget : partTarget host ctx part = some target
  frame : ∀ place, place ≠ target → endsInBak place = false →
    after.machine.files.lookup place = before.machine.files.lookup place
  recorded : Recorded host target before.machine after.machine files
  actions : after.actions = before.actions ++ (files ++ registered part target)
  quiet : files = [] → part.piece ≠ .hooks →
    after.machine.files.lookup target = before.machine.files.lookup target

theorem recordWrite_recorded (host : Host) (before after : Machine) (target : Place) :
    Recorded host target before after (recordWrite host before after target) := by
  unfold recordWrite
  split
  · split
    · rename_i backup found
      exact Recorded.modified found
    · exact Recorded.unrecorded
  · rename_i absent
    exact Recorded.created (by simpa using absent)

/-- A written file is always recorded: its own snapshot is found. -/
theorem recordWrite_ne_nil (host : Host) (before : Machine) (text : String)
    (named : target.name ∈ targetNames) :
    recordWrite host before (backupThenWrite host before target text) target ≠ [] := by
  unfold recordWrite
  split
  · rename_i present
    obtain ⟨current, held⟩ := Option.isSome_iff_exists.mp present
    have kept := lookup_backupThenWrite_snapshot host text held named
    have found := findLatestMnemeBak_isSome (Option.isSome_iff_exists.mpr ⟨current, kept⟩)
      (snapshotOf_isBackupOf named _)
    obtain ⟨backup, same⟩ := Option.isSome_iff_exists.mp found
    rw [same]
    exact List.cons_ne_nil _ _
  · exact List.cons_ne_nil _ _

theorem recordHooks_recorded (host : Host) (before after : Machine) (target : Place) :
    Recorded host target before after (recordHooks host after target) := by
  unfold recordHooks
  split
  · rename_i backup found
    exact Recorded.modified found
  · exact Recorded.unrecorded

theorem installPart_took
    {before after : Progress} (done : installPart host ctx before part = .ok after) :
    after = before ∨ ∃ target files, Took host ctx part before after target files := by
  obtain ⟨platform, piece⟩ := part
  cases piece with
  | manifest =>
      obtain ⟨machine, written, same⟩ := bind_eq_ok.mp done
      obtain ⟨text, wrote⟩ := writeManifest_ok written
      have named := manifestPath_name host ctx platform
      cases same
      refine Or.inr ⟨_, _, rfl, ?_, recordWrite_recorded host _ _ _, ?_, ?_⟩
      · intro place other plain
        rw [wrote]
        exact lookup_backupThenWrite_plain host _ text other plain
      · exact congrArg _ (List.append_nil _).symm
      · intro none_ _
        rw [wrote] at none_
        exact absurd none_ (recordWrite_ne_nil host _ text named)
  | mcp =>
      obtain ⟨machine, written, same⟩ := bind_eq_ok.mp done
      have named := mcpConfigPath_name host ctx platform
      cases same
      refine Or.inr ⟨_, _, rfl, ?_, recordWrite_recorded host _ _ _, rfl, ?_⟩
      · intro place other plain
        rcases writeMcpConfig_ok written with same | ⟨text, wrote⟩
        · rw [same]
        · rw [wrote]
          exact lookup_backupThenWrite_plain host _ text other plain
      · intro none_ _
        rcases writeMcpConfig_ok written with same | ⟨text, wrote⟩
        · rw [same]
        · rw [wrote] at none_
          exact absurd none_ (recordWrite_ne_nil host _ text named)
  | hooks =>
      obtain ⟨hook, written, same⟩ := bind_eq_ok.mp done
      cases hook with
      | none =>
          cases same
          exact Or.inl rfl
      | some wrote =>
          obtain ⟨path, machine⟩ := wrote
          cases same
          obtain ⟨hooked, how⟩ := writeHooks_ok written
          refine Or.inr ⟨path, _, hooked, ?_, recordHooks_recorded host _ _ _, ?_, ?_⟩
          · intro place other plain
            rcases how with ⟨text, rfl⟩ | ⟨text, rfl⟩
            · exact lookup_backupThenWrite_plain host _ text other plain
            · exact AList.lookup_insert_ne other
          · exact congrArg _ (List.append_nil _).symm
          · intro _ other
            exact absurd rfl other

end Mneme.Cli.Receipts
