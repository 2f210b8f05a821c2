/-
What the rollback of an install run restores.

The run takes the files on part by part, and the rollback takes them back part by
part: where a part is undone as it was recorded, the recorded files are again as they
were before it.
-/

import Mneme.Cli.InstallParts

namespace Mneme.Cli.Receipts

open Platforms Mneme.Common Mneme.Library Transition

/-! ### Undoing a part -/

def recordedFile : ReceiptAction → Option Place
  | .fileModified path _ _ _ => some path
  | .fileCreated path _ => some path
  | .mcpRegistered _ hostFile => some hostFile
  | .pathAdded _ => none
  | .defenderExcluded _ => none

/-- The files that a receipt records. -/
def recordedFiles (actions : List ReceiptAction) : List Place :=
  actions.filterMap recordedFile

def recordedBackup : ReceiptAction → Option Place
  | .fileModified _ backup _ _ => some backup
  | _ => none

def recordedBackups (actions : List ReceiptAction) : List Place :=
  actions.filterMap recordedBackup

/-- The text of the config in user scope without the entry. -/
def entryRemoved (host : Host) (platform : Platform) (machine : Machine) :
    Except CliError String := do
  let existing ← readToString machine (userConfigPath host platform)
  stripMcp host (mcpFormat platform) existing

theorem removeMcpEntry_eq (host : Host) (platform : Platform) (machine : Machine) :
    removeMcpEntry host (userConfigPath host platform) (mcpFormat platform) machine =
      (entryRemoved host platform machine).map
        (backupThenWrite host machine (userConfigPath host platform)) := by
  unfold removeMcpEntry entryRemoved
  cases readToString machine (userConfigPath host platform) with
  | error error => rfl
  | ok existing => rfl

theorem rollbackMcpEntry_eq (host : Host) (platform : Platform) (machine : Machine) :
    rollbackMcpEntry host platform.id machine =
      match entryRemoved host platform machine with
      | .error error => .error (.mcp error)
      | .ok text => .ok (backupThenWrite host machine (userConfigPath host platform) text) := by
  unfold rollbackMcpEntry
  rw [Platform.fromId_id]
  dsimp only
  rw [removeMcpEntry_eq]
  cases entryRemoved host platform machine with
  | error error => rfl
  | ok text => rfl

variable {platform : Platform}

variable {host : Host} {text : String}

variable {machine : Machine}

theorem entryRemoved_of_read
    (read : readToString machine (userConfigPath host platform) = .ok text) :
    entryRemoved host platform machine = stripMcp host (mcpFormat platform) text := by
  unfold entryRemoved
  rw [read]
  rfl

theorem entryRemoved_congr {left right : Machine}
    (same : left.files.lookup (userConfigPath host platform) =
      right.files.lookup (userConfigPath host platform)) :
    entryRemoved host platform left = entryRemoved host platform right := by
  unfold entryRemoved readToString
  rw [same]

theorem present_of_entryRemoved (removed : entryRemoved host platform machine = .ok text) :
    ∃ content, machine.files.lookup (userConfigPath host platform) = some content := by
  obtain ⟨existing, read, _⟩ := bind_eq_ok.mp removed
  unfold readToString at read
  cases present : machine.files.lookup (userConfigPath host platform) with
  | none =>
      rw [present] at read
      cases read
  | some content => exact ⟨content, rfl⟩

theorem userConfigPath_name (host : Host) (platform : Platform) :
    (userConfigPath host platform).name ∈ targetNames :=
  mcpConfigPath_name host _ platform

def undoAll (host : Host) (actions : List ReceiptAction) (done : Machine × RollbackSummary) :
    Machine × RollbackSummary :=
  actions.reverse.foldl (undoAction host) done

theorem undoAll_append (host : Host) (earlier later : List ReceiptAction)
    (done : Machine × RollbackSummary) :
    undoAll host (earlier ++ later) done = undoAll host earlier (undoAll host later done) := by
  unfold undoAll
  rw [List.reverse_append, List.foldl_append]

theorem undoAll_cons (host : Host) (action : ReceiptAction) (later : List ReceiptAction)
    (done : Machine × RollbackSummary) :
    undoAll host (action :: later) done = undoAction host (undoAll host later done) action := by
  unfold undoAll
  rw [List.reverse_cons, List.foldl_append]
  rfl

theorem undoAll_nil (host : Host) (done : Machine × RollbackSummary) :
    undoAll host [] done = done := rfl

/-- How the rollback of a finished run stands when it has come back to a point of it. -/
structure Follows (host : Host) (done now : Progress) (undone : Machine × RollbackSummary) :
    Prop where
  files : ∀ path ∈ recordedFiles done.actions,
    undone.1.files.lookup path = now.machine.files.lookup path
  backups : ∀ backup ∈ recordedBackups done.actions,
    undone.1.files.lookup backup = done.machine.files.lookup backup
  later : done.machine.reads ≤ undone.1.reads
  calm : ∀ skipped ∈ undone.2.skipped, skipped.2.drifted = false

/-- What every receipt of an install run is like. -/
structure Sound (done : Progress) : Prop where
  files : ∀ path ∈ recordedFiles done.actions, path.name ∈ targetNames
  backups : ∀ backup ∈ recordedBackups done.actions,
    ∃ target ∈ recordedFiles done.actions, IsBackupOf target backup

/-- The config is the same text without the entry, and a snapshot of it that takes the
place of a recorded backup holds the same. -/
def KeepsConfig (host : Host) (done : Progress) (platform : Platform) (machine : Machine) : Prop :=
  ∀ text, entryRemoved host platform machine = .ok text →
    machine.files.lookup (userConfigPath host platform) = some text.toUTF8 ∧
      ∀ reading, done.machine.reads ≤ reading →
        snapshotOf (userConfigPath host platform) (chronoLikeUtcStamp (host.clock reading)) ∈
            recordedBackups done.actions →
          done.machine.files.lookup
              (snapshotOf (userConfigPath host platform)
                (chronoLikeUtcStamp (host.clock reading))) =
            some text.toUTF8

section Undo

variable {done : Progress}

variable {undone : Machine × RollbackSummary}

variable {now : Progress}

theorem settle_error_follows
    (follows : Follows host done now undone) (action : ReceiptAction) {error : RollbackError}
    (calm : error.drifted = false) :
    Follows host done now (settle action undone (.error error)) := by
  refine ⟨follows.files, follows.backups, follows.later, ?_⟩
  intro skipped member
  rcases List.mem_append.mp member with old | new
  · exact follows.calm skipped old
  · rw [List.mem_singleton.mp new]
    exact calm

theorem registration_follows (sound : Sound done)
    (follows : Follows host done now undone) (platform : Platform) (hostFile : Place)
    (keeps : userConfigPath host platform ∈ recordedFiles done.actions →
      KeepsConfig host done platform now.machine) :
    Follows host done now (undoAction host undone (.mcpRegistered platform.id hostFile)) := by
  change Follows host done now (settle _ undone (rollbackMcpEntry host platform.id undone.1))
  rw [rollbackMcpEntry_eq]
  cases removed : entryRemoved host platform undone.1 with
  | error error => exact settle_error_follows follows _ rfl
  | ok text =>
      have named := userConfigPath_name host platform
      have names := targetNames_plain (userConfigPath host platform).name named
      have noAlias : cutAt ".mneme-".toList
          (aliasOf (userConfigPath host platform)).name.toList = none := names.2.2.1
      obtain ⟨content, present⟩ := present_of_entryRemoved removed
      refine ⟨?_, ?_, ?_, follows.calm⟩
      · intro path inside
        by_cases config : path = userConfigPath host platform
        · subst config
          have same := follows.files _ inside
          rw [entryRemoved_congr same] at removed
          exact (lookup_backupThenWrite host undone.1 _ text).trans
            (keeps inside text removed).1.symm
        · exact (lookup_backupThenWrite_plain host undone.1 text config
            (target_plain (sound.files path inside))).trans (follows.files path inside)
      · intro backup inside
        obtain ⟨target, recorded, isBackup⟩ := sound.backups backup inside
        by_cases snapshot : backup = snapshotOf (userConfigPath host platform)
            (chronoLikeUtcStamp (host.clock undone.1.reads))
        · subst snapshot
          have own := target_of_snapshot named (sound.files target recorded) isBackup
          subst own
          have same := follows.files _ recorded
          have kept := keeps recorded text (entryRemoved_congr same ▸ removed)
          rw [kept.2 undone.1.reads follows.later inside]
          rw [same, kept.1] at present
          cases present
          exact lookup_backupThenWrite_snapshot host text (same.trans kept.1) named
        · exact (lookup_backupThenWrite_other host undone.1 text
            (backup_ne isBackup names.2.1) (backup_ne isBackup noAlias) snapshot).trans
              (follows.backups backup inside)
      · refine Nat.le_trans follows.later ?_
        change undone.1.reads ≤ (backupThenWrite host undone.1 _ text).reads
        unfold backupThenWrite
        split
        · exact Nat.le_refl _
        · exact Nat.le_succ _

theorem not_drifted (follows : Follows host done now undone) {path : Place}
    (inside : path ∈ recordedFiles done.actions) :
    hasDrifted host undone.1 path (sha256OfFile host now.machine path) = false := by
  unfold hasDrifted sha256OfFile
  rw [follows.files path inside]
  simp

variable {now before : Progress}

theorem modification_follows (sound : Sound done) (follows : Follows host done now undone)
    {path backup : Place} (shaBefore : String) (inside : path ∈ recordedFiles done.actions)
    (named : backup ∈ recordedBackups done.actions)
    (restores : ∃ content, before.machine.files.lookup path = some content ∧
      done.machine.files.lookup backup = some content)
    (frame : ∀ other ∈ recordedFiles done.actions, other ≠ path →
      now.machine.files.lookup other = before.machine.files.lookup other) :
    Follows host done before (undoAction host undone
      (.fileModified path backup shaBefore (sha256OfFile host now.machine path))) := by
  obtain ⟨content, was, held⟩ := restores
  change Follows host done before (settle _ undone (rollbackFileModified host path backup
    (sha256OfFile host now.machine path) undone.1))
  unfold rollbackFileModified
  rw [not_drifted follows inside, if_neg Bool.false_ne_true, follows.backups backup named, held]
  refine ⟨?_, ?_, follows.later, follows.calm⟩
  · intro other recorded
    by_cases same : other = path
    · subst same
      exact (AList.lookup_insert _).trans was.symm
    · exact (AList.lookup_insert_ne same).trans
        ((follows.files other recorded).trans (frame other recorded same))
  · intro other kept
    obtain ⟨target, _, isBackup⟩ := sound.backups other kept
    have apart := backup_ne isBackup (targetNames_plain path.name (sound.files path inside)).2.1
    exact (AList.lookup_insert_ne apart).trans (follows.backups other kept)

theorem creation_follows (sound : Sound done) (follows : Follows host done now undone)
    {path : Place} (inside : path ∈ recordedFiles done.actions)
    (absent : before.machine.files.lookup path = none)
    (frame : ∀ other ∈ recordedFiles done.actions, other ≠ path →
      now.machine.files.lookup other = before.machine.files.lookup other) :
    Follows host done before (undoAction host undone
      (.fileCreated path (sha256OfFile host now.machine path))) := by
  change Follows host done before (settle _ undone (rollbackFileCreated host path
    (sha256OfFile host now.machine path) undone.1))
  unfold rollbackFileCreated
  rw [not_drifted follows inside]
  split
  · rename_i gone
    refine ⟨?_, follows.backups, follows.later, follows.calm⟩
    intro other recorded
    by_cases same : other = path
    · subst same
      rw [absent]
      exact Option.isNone_iff_eq_none.mp gone
    · exact (follows.files other recorded).trans (frame other recorded same)
  · rw [if_neg Bool.false_ne_true]
    refine ⟨?_, ?_, follows.later, follows.calm⟩
    · intro other recorded
      by_cases same : other = path
      · subst same
        exact (AList.lookup_erase _ _).trans absent.symm
      · exact (AList.lookup_erase_ne same).trans
          ((follows.files other recorded).trans (frame other recorded same))
    · intro other kept
      obtain ⟨target, _, isBackup⟩ := sound.backups other kept
      have apart := backup_ne isBackup (targetNames_plain path.name (sound.files path inside)).2.1
      exact (AList.lookup_erase_ne apart).trans (follows.backups other kept)

end Undo

/-- What the part leaves behind. -/
def partAfter (host : Host) (ctx : AdapterContext) (before : Progress) (part : Part) : Progress :=
  match installPart host ctx before part with
  | .error _ => before
  | .ok after => after

/-- The actions that the part adds to the receipt. -/
def partActions (host : Host) (ctx : AdapterContext) (before : Progress) (part : Part) :
    List ReceiptAction :=
  (partAfter host ctx before part).actions.drop before.actions.length

/-- At the end of the run each backup of the part holds what the file held before the
part; and a config that is recorded stays as it is when the rollback removes the entry. -/
structure Undoable (host : Host) (ctx : AdapterContext) (done before : Progress) (part : Part) :
    Prop where
  restores : ∀ path backup shaBefore shaAfter,
    .fileModified path backup shaBefore shaAfter ∈ partActions host ctx before part →
      ∃ content, before.machine.files.lookup path = some content ∧
        done.machine.files.lookup backup = some content
  keeps : part.piece = .mcp →
    userConfigPath host part.platform ∈ recordedFiles done.actions →
      KeepsConfig host done part.platform (partAfter host ctx before part).machine

def installStep (host : Host) (ctx : AdapterContext) (before : Progress) (part : Part) :
    Option Progress :=
  (installPart host ctx before part).toOption

/-! ### Whole runs -/

section Runs

variable {ctx : AdapterContext}

variable {before after : Progress}

variable {part : Part}

theorem installStep_eq_some (taken : installStep host ctx before part = some after) :
    installPart host ctx before part = .ok after := by
  unfold installStep at taken
  cases done : installPart host ctx before part with
  | error error =>
      rw [done] at taken
      cases taken
  | ok value =>
      rw [done] at taken
      cases taken
      rfl

theorem partAfter_of_ok (done : installPart host ctx before part = .ok after) :
    partAfter host ctx before part = after := by
  unfold partAfter
  rw [done]

variable {target path : Place}

variable {files : List ReceiptAction}

theorem Took.partActions (took : Took host ctx part before after target files)
    (done : installPart host ctx before part = .ok after) :
    partActions host ctx before part = files ++ registered part target := by
  unfold Receipts.partActions
  rw [partAfter_of_ok done, took.actions, List.drop_left]

/-- A part of a run records nothing, or what is said of the step it takes. -/
theorem partActions_cases (before : Progress) (part : Part) :
    partActions host ctx before part = [] ∨ ∃ after target files,
      installPart host ctx before part = .ok after ∧
        Took host ctx part before after target files ∧
        partActions host ctx before part = files ++ registered part target := by
  cases done : installPart host ctx before part with
  | error error =>
      refine Or.inl ?_
      unfold partActions partAfter
      rw [done]
      exact List.drop_length
  | ok after =>
      rcases installPart_took done with same | ⟨target, files, took⟩
      · refine Or.inl ?_
        unfold partActions
        rw [partAfter_of_ok done, same]
        exact List.drop_length
      · exact Or.inr ⟨after, target, files, rfl, took, took.partActions done⟩

variable {action : ReceiptAction}

theorem target_of_recorded {before after : Machine}
    (recorded : Recorded host target before after files)
    (member : action ∈ files ++ registered part target)
    (named : recordedFile action = some path) : path = target := by
  rcases List.mem_append.mp member with file | registration
  · cases recorded with
    | modified found =>
        rw [List.mem_singleton.mp file] at named
        exact (Option.some.inj named).symm
    | created absent =>
        rw [List.mem_singleton.mp file] at named
        exact (Option.some.inj named).symm
    | unrecorded => cases file
  · unfold registered at registration
    split at registration
    · rw [List.mem_singleton.mp registration] at named
      exact (Option.some.inj named).symm
    · cases registration

variable {before start final : Progress}

theorem target_of_partActions (member : action ∈ partActions host ctx before part)
    (named : recordedFile action = some path) : partTarget host ctx part = some path := by
  rcases partActions_cases before part with none_ | ⟨after, target, files, _, took, same⟩
  · rw [none_] at member
    cases member
  · rw [same] at member
    rw [target_of_recorded took.recorded member named]
    exact took.isTarget

theorem backup_of_partActions {backup : Place} (member : action ∈ partActions host ctx before part)
    (named : recordedBackup action = some backup) :
    ∃ path, recordedFile action = some path ∧ IsBackupOf path backup := by
  rcases partActions_cases before part with none_ | ⟨after, target, files, _, took, same⟩
  · rw [none_] at member
    cases member
  · rw [same] at member
    rcases List.mem_append.mp member with file | registration
    · cases took.recorded with
      | modified found =>
          rw [List.mem_singleton.mp file] at named ⊢
          cases named
          exact ⟨target, rfl, findLatestMnemeBak_isBackupOf found⟩
      | created absent =>
          rw [List.mem_singleton.mp file] at named
          cases named
      | unrecorded => cases file
    · unfold registered at registration
      split at registration
      · rw [List.mem_singleton.mp registration] at named
        cases named
      · cases registration

variable {history : List (Progress × Part)}

/-- The receipt of a run is what its parts add, one after the other. -/
theorem actions_of_run
    (fresh : start.actions = []) (run : Run (installStep host ctx) start history final) :
    final.actions =
      history.flatMap (fun taken => partActions host ctx taken.1 taken.2) := by
  induction run with
  | start => exact fresh
  | @step history state after part _ taken ih =>
      have done := installStep_eq_some taken
      rw [List.flatMap_append, List.flatMap_singleton, ← ih]
      rcases installPart_took done with same | ⟨target, files, took⟩
      · unfold partActions
        rw [partAfter_of_ok done, same, List.drop_length, List.append_nil]
      · rw [took.partActions done]
        exact took.actions

theorem sound_of_run
    (fresh : start.actions = []) (run : Run (installStep host ctx) start history final) :
    Sound final := by
  have actions := actions_of_run fresh run
  refine ⟨?_, ?_⟩
  · intro path inside
    obtain ⟨action, member, named⟩ := List.mem_filterMap.mp inside
    rw [actions] at member
    obtain ⟨taken, _, among⟩ := List.mem_flatMap.mp member
    exact partTarget_name (target_of_partActions among named)
  · intro backup inside
    obtain ⟨action, member, named⟩ := List.mem_filterMap.mp inside
    rw [actions] at member
    obtain ⟨taken, present, among⟩ := List.mem_flatMap.mp member
    obtain ⟨path, file, isBackup⟩ := backup_of_partActions among named
    refine ⟨path, List.mem_filterMap.mpr ⟨action, ?_, file⟩, isBackup⟩
    rw [actions]
    exact List.mem_flatMap.mpr ⟨taken, present, among⟩

end Runs

section Rollback

variable {ctx : AdapterContext} {done : Progress}

variable {undone : Machine × RollbackSummary}

/-- One part is undone: the registration leaves the config, then the file goes back. -/
theorem part_follows (sound : Sound done) {before after : Progress} {part : Part}
    {target : Place} {files : List ReceiptAction}
    (took : Took host ctx part before after target files)
    (ok : installPart host ctx before part = .ok after)
    (members : ∀ action ∈ partActions host ctx before part, action ∈ done.actions)
    (own : part.piece = .hooks → target ∈ recordedFiles done.actions → files ≠ [])
    (undoable : Undoable host ctx done before part) (follows : Follows host done after undone) :
    Follows host done before (undoAll host (files ++ registered part target) undone) := by
  have actions := took.partActions ok
  rw [undoAll_append]
  have registration :
      Follows host done after (undoAll host (registered part target) undone) := by
    unfold registered
    split
    · rename_i mcp
      have keeps := undoable.keeps mcp
      rw [partAfter_of_ok ok] at keeps
      exact registration_follows sound follows part.platform target keeps
    · exact follows
  have frame : ∀ other ∈ recordedFiles done.actions, other ≠ target →
      after.machine.files.lookup other = before.machine.files.lookup other := by
    intro other inside different
    exact took.frame other different (target_plain (sound.files other inside))
  have isRecorded : ∀ action ∈ files, action ∈ done.actions := by
    intro action member
    apply members
    rw [actions]
    exact List.mem_append_left _ member
  cases kind : took.recorded with
  | @modified backup shaBefore found =>
      have member := isRecorded _ List.mem_cons_self
      refine modification_follows sound registration shaBefore
        (List.mem_filterMap.mpr ⟨_, member, rfl⟩) (List.mem_filterMap.mpr ⟨_, member, rfl⟩)
        ?_ frame
      apply undoable.restores target backup shaBefore (sha256OfFile host after.machine target)
      rw [actions]
      exact List.mem_append_left _ List.mem_cons_self
  | created absent =>
      have member := isRecorded _ List.mem_cons_self
      exact creation_follows sound registration (List.mem_filterMap.mpr ⟨_, member, rfl⟩)
        absent frame
  | unrecorded =>
      refine ⟨?_, registration.backups, registration.later, registration.calm⟩
      intro path inside
      refine (registration.files path inside).trans ?_
      by_cases same : path = target
      · subst same
        by_cases hooks : part.piece = .hooks
        · exact absurd rfl (own hooks inside)
        · exact took.quiet rfl hooks
      · exact frame path inside same

theorem undo_follows {full : List (Progress × Part)} (sound : Sound done)
    (actions : done.actions = full.flatMap (fun taken => partActions host ctx taken.1 taken.2))
    (once : (full.map Prod.snd).Nodup) (undoable : Respects (Undoable host ctx done) full)
    {start now : Progress} {history : List (Progress × Part)} (fresh : start.actions = [])
    (run : Run (installStep host ctx) start history now) (within : ∀ taken ∈ history, taken ∈ full)
    (follows : Follows host done now undone) :
    Follows host done start (undoAll host now.actions undone) := by
  induction run generalizing undone with
  | start =>
      rw [fresh]
      exact follows
  | @step history state after part _ taken ih =>
      have ok := installStep_eq_some taken
      have here : (state, part) ∈ full :=
        within _ (List.mem_append_right _ (List.mem_singleton_self _))
      have earlier : ∀ taken ∈ history, taken ∈ full :=
        fun taken member => within taken (List.mem_append_left _ member)
      rcases installPart_took ok with same | ⟨target, files, took⟩
      · rw [same] at follows ⊢
        exact ih earlier follows
      · rw [took.actions, undoAll_append]
        apply ih earlier
        refine part_follows sound took ok ?_ ?_ (undoable _ here) follows
        · intro action member
          rw [actions]
          exact List.mem_flatMap.mpr ⟨_, here, member⟩
        · intro hooks inside none_
          obtain ⟨action, member, named⟩ := List.mem_filterMap.mp inside
          rw [actions] at member
          obtain ⟨other, present, among⟩ := List.mem_flatMap.mp member
          have hooked : hookPath host ctx part.platform = some target := by
            have isTarget := took.isTarget
            unfold partTarget at isTarget
            rw [hooks] at isTarget
            exact isTarget
          have label : other.2 = part := by
            rw [hookPath_part hooked (target_of_partActions among named), ← hooks]
          have only : other = (state, part) :=
            List.inj_on_of_nodup_map once present here label
          rw [only] at among
          have nothing : partActions host ctx state part = [] := by
            rw [took.partActions ok, none_]
            unfold registered
            rw [hooks]
            rfl
          rw [nothing] at among
          cases among

end Rollback

/-! ### Configs that change -/

variable {skipped : ReceiptAction × RollbackError}

theorem settle_skipped (action : ReceiptAction) (done : Machine × RollbackSummary)
    (outcome : Except RollbackError Machine)
    (member : skipped ∈ done.2.skipped) : skipped ∈ (settle action done outcome).2.skipped := by
  cases outcome with
  | error error => exact List.mem_append_left _ member
  | ok machine => exact member

theorem undoAll_skipped (host : Host) (actions : List ReceiptAction)
    (done : Machine × RollbackSummary)
    (member : skipped ∈ done.2.skipped) : skipped ∈ (undoAll host actions done).2.skipped := by
  induction actions with
  | nil => exact member
  | cons action rest ih =>
      rw [undoAll_cons]
      cases action with
      | fileModified path backup shaBefore shaAfter => exact settle_skipped _ _ _ ih
      | fileCreated path shaAfter => exact settle_skipped _ _ _ ih
      | pathAdded entry => exact settle_skipped _ _ _ ih
      | defenderExcluded path => exact ih
      | mcpRegistered platform hostFile => exact settle_skipped _ _ _ ih

/-- A created config whose text changes when the entry is removed is found drifted:
the registration is undone before the file. -/
theorem changed_config_drifts
    {earlier : List ReceiptAction} {hostFile : Place} {shaAfter text : String}
    (removed : entryRemoved host platform machine = .ok text)
    (known : shaAfter ≠ "") (digested : host.sha256 text.toUTF8 ≠ "")
    (changed : host.sha256 text.toUTF8 ≠ shaAfter) :
    (.fileCreated (userConfigPath host platform) shaAfter,
        .modifiedAfterCreation (userConfigPath host platform)) ∈
      (rollback host (earlier ++ [.fileCreated (userConfigPath host platform) shaAfter,
        .mcpRegistered platform.id hostFile]) machine).2.skipped := by
  change _ ∈ (undoAll host _ _).2.skipped
  rw [undoAll_append]
  apply undoAll_skipped
  rw [undoAll_cons, undoAll_cons, undoAll_nil]
  dsimp only [undoAction]
  rw [rollbackMcpEntry_eq, removed]
  have written := lookup_backupThenWrite host machine (userConfigPath host platform) text
  have drifted : hasDrifted host (backupThenWrite host machine (userConfigPath host platform) text)
      (userConfigPath host platform) shaAfter = true := by
    unfold hasDrifted sha256OfFile
    rw [written]
    simp only [Bool.and_eq_true, decide_eq_true_eq]
    exact ⟨⟨known, changed⟩, digested⟩
  dsimp only [settle]
  unfold rollbackFileCreated
  rw [written, drifted]
  exact List.mem_append_right _ (List.mem_singleton_self _)

/-! ### The run of an install -/

/-- The parts that were carried out, each with what was done before it. -/
def partsHistory (host : Host) (ctx : AdapterContext) :
    List Part → Progress → List (Progress × Part)
  | [], _ => []
  | part :: rest, progress =>
      match installPart host ctx progress part with
      | .error _ => []
      | .ok after => (progress, part) :: partsHistory host ctx rest after

def installHistory (host : Host) (ctx : AdapterContext) (skips : Skips) :
    List Platform → Progress → List (Progress × Part)
  | [], _ => []
  | platform :: rest, progress =>
      partsHistory host ctx (partsOf skips platform) progress ++
        installHistory host ctx skips rest (installOne host ctx skips platform progress)

section Install

variable (host : Host) (ctx : AdapterContext) (skips : Skips)

theorem partsHistory_run (parts : List Part) (progress : Progress) :
    Run (installStep host ctx) progress (partsHistory host ctx parts progress)
      (installParts host ctx parts progress) := by
  induction parts generalizing progress with
  | nil => exact Run.start
  | cons part rest ih =>
      unfold partsHistory installParts
      cases done : installPart host ctx progress part with
      | error error => exact Run.start
      | ok after =>
          refine Run.prepend ?_ (ih after)
          unfold installStep
          rw [done]
          rfl

theorem partsHistory_parts (parts : List Part) (progress : Progress) :
    ((partsHistory host ctx parts progress).map Prod.snd).Sublist parts := by
  induction parts generalizing progress with
  | nil => exact List.Sublist.refl _
  | cons part rest ih =>
      unfold partsHistory
      cases installPart host ctx progress part with
      | error error => exact List.nil_sublist _
      | ok after => exact (ih after).cons_cons part

theorem installHistory_run (platforms : List Platform) (progress : Progress) :
    Run (installStep host ctx) progress (installHistory host ctx skips platforms progress)
      (install host ctx skips platforms progress) := by
  induction platforms generalizing progress with
  | nil => exact Run.start
  | cons platform rest ih =>
      exact (partsHistory_run host ctx (partsOf skips platform) progress).append
        (ih (installOne host ctx skips platform progress))

theorem installHistory_parts (platforms : List Platform) (progress : Progress) :
    ((installHistory host ctx skips platforms progress).map Prod.snd).Sublist
      (platforms.flatMap (partsOf skips)) := by
  induction platforms generalizing progress with
  | nil => exact List.Sublist.refl _
  | cons platform rest ih =>
      unfold installHistory
      rw [List.map_append, List.flatMap_cons]
      exact (partsHistory_parts host ctx _ progress).append (ih _)

theorem partsOf_platform {platform : Platform} {part : Part}
    (member : part ∈ partsOf skips platform) : part.platform = platform := by
  unfold partsOf at member
  obtain ⟨manifest, mcp, hooks⟩ := skips
  cases manifest <;> cases mcp <;> cases hooks <;> simp at member <;> aesop

theorem partsOf_nodup (platform : Platform) : (partsOf skips platform).Nodup := by
  unfold partsOf
  obtain ⟨manifest, mcp, hooks⟩ := skips
  cases manifest <;> cases mcp <;> cases hooks <;> simp

theorem parts_nodup {platforms : List Platform} (distinct : platforms.Nodup) :
    (platforms.flatMap (partsOf skips)).Nodup := by
  rw [List.nodup_flatMap]
  refine ⟨fun platform _ => partsOf_nodup skips platform, ?_⟩
  refine distinct.imp ?_
  intro left right different part first second
  exact different ((partsOf_platform skips first).symm.trans (partsOf_platform skips second))

theorem targets_nodup (asked : Option Platform) (detect : Platform → Bool) :
    (targets asked detect).Nodup := by
  cases asked with
  | none =>
      have known : Platform.allKnown.Nodup := by decide
      unfold targets
      exact known.filter _
  | some platform => exact List.nodup_singleton platform

end Install

/-- Every file of the receipt is as it was, and no action was skipped as drifted. -/
def RestoresAll (host : Host) (before : Machine) (done : Progress) : Prop :=
  (∀ path ∈ recordedFiles done.actions,
    (rollback host done.actions done.machine).1.files.lookup path = before.files.lookup path) ∧
    ∀ skipped ∈ (rollback host done.actions done.machine).2.skipped, skipped.2.drifted = false

/-- An install run begins with an empty receipt. -/
def begun (machine : Machine) : Progress :=
  { machine, actions := [] }

def installed (host : Host) (ctx : AdapterContext) (skips : Skips) (asked : Option Platform)
    (detect : Platform → Bool) (machine : Machine) : Progress :=
  install host ctx skips (targets asked detect) (begun machine)

/-- Where each part of an install run can be undone as it was recorded, the rollback of
its receipt restores every recorded file and finds none of them drifted. -/
theorem rollback_restores (host : Host) (ctx : AdapterContext) (skips : Skips)
    (asked : Option Platform) (detect : Platform → Bool) (machine : Machine)
    (undoable : Respects (Undoable host ctx (installed host ctx skips asked detect machine))
      (installHistory host ctx skips (targets asked detect) (begun machine))) :
    RestoresAll host machine (installed host ctx skips asked detect machine) := by
  have run : Run (installStep host ctx) (begun machine) _
      (installed host ctx skips asked detect machine) :=
    installHistory_run host ctx skips (targets asked detect) (begun machine)
  have once := (parts_nodup skips (targets_nodup asked detect)).sublist
    (installHistory_parts host ctx skips (targets asked detect) (begun machine))
  have follows : Follows host (installed host ctx skips asked detect machine)
      (installed host ctx skips asked detect machine)
      ((installed host ctx skips asked detect machine).machine, ⟨[], [], []⟩) :=
    ⟨fun _ _ => rfl, fun _ _ => rfl, Nat.le_refl _, fun _ none_ => absurd none_ List.not_mem_nil⟩
  have restored := undo_follows (sound_of_run rfl run) (actions_of_run rfl run) once undoable rfl
    run (fun _ member => member) follows
  exact ⟨restored.files, restored.calm⟩

/-- A config with the entry and no other member, as it is printed. -/
def configWithEntry : String :=
  "\x7b\n  \"mcpServers\": \x7b\n    \"mneme\": \x7b\n      \"command\": \"mneme\",\n" ++
  "      \"args\": [\n        \"mcp\",\n        \"stdio\"\n      ],\n      \"env\": \x7b\n" ++
  "        \"MNEME_LOG\": \"info\"\n      \x7d,\n      \"transport\": \"stdio\"\n    \x7d\n" ++
  "  \x7d\n\x7d"

def configWithoutEntry : String :=
  "\x7b\n  \"mcpServers\": \x7b\x7d\n\x7d"

/-- The digests of these texts and of a config of another format. -/
def digest (text : String) : String :=
  if text = "model: gpt-4o\n" then
    "80d2f8ec4025ce81e9315c1a29e411a91658f3f2b6d3c2a29d77164eb061770e"
  else if text = "model: gpt-4o\n" ++ aiderSnippet then
    "cbadd94c0653387c60bbd4c2596140129627b6973e91468ab8e92cd1af863d9d"
  else if text = configWithEntry ++ "\n" then
    "1aa564a021487f767b6e39c825e68f51226badbc132c994077a8c038e50cb053"
  else if text = configWithoutEntry ++ "\n" then
    "d8e397af03b5b032f21d0aa967086f0c78b33c87b76f2e9898ae0a144df7de02"
  else ""

/-- A host on which it is always the same second. -/
def oneSecond : Host :=
  { fromStr := fun text =>
      if text = "\x7b\x7d" then some (.object [])
      else if text = configWithEntry ++ "\n" then
        some (.object [("mcpServers", .object [("mneme", mnemeMcpEntry)])])
      else none
    toStringPretty := fun value =>
      match value with
      | .object [("mcpServers", .object [])] => configWithoutEntry
      | _ => configWithEntry
    parseToml := fun _ => none
    tomlToStringPretty := fun _ => none
    sha256 := fun bytes => ((String.fromUTF8? bytes).map digest).getD ""
    clock := fun _ => 1777046400
    home := ["home", "dev"]
    currentDir := ["home", "dev"]
    codeUserConfigDir := ["home", "dev", ".config", "Code", "User"]
    version := "0.3.0" }

def userScope : AdapterContext :=
  { scope := .user, projectRoot := ["home", "dev"], force := false }

def noFiles : Machine :=
  { files := ∅, reads := 0, operations := [] }

/-- What the installer asks for. -/
def mcpOnly : Skips :=
  { manifest := true, mcp := false, hooks := true }

theorem fromUTF8?_toUTF8 (text : String) : String.fromUTF8? text.toUTF8 = some text := by
  unfold String.fromUTF8?
  exact dif_pos text.isValidUTF8

theorem oneSecond_sha256 (text : String) : oneSecond.sha256 text.toUTF8 = digest text := by
  change ((String.fromUTF8? text.toUTF8).map digest).getD "" = digest text
  rw [fromUTF8?_toUTF8]
  rfl

def claudeConfig : Place :=
  userConfigPath oneSecond .claudeCode

def claudeWritten : Machine :=
  writeFile noFiles claudeConfig (configWithEntry ++ "\n")

theorem claude_digest : sha256OfFile oneSecond claudeWritten claudeConfig = digest (configWithEntry ++ "\n") := by
  unfold sha256OfFile claudeWritten writeFile
  rw [Machine.carryOut_write, AList.lookup_insert]
  exact oneSecond_sha256 _

variable {ctx : AdapterContext}

theorem installParts_single {part : Part}
    {before after : Progress} (done : installPart host ctx before part = .ok after) :
    installParts host ctx [part] before = after := by
  unfold installParts
  rw [done]
  rfl

variable {detect : Platform → Bool}

/-- A run of one part. -/
theorem installed_single {skips : Skips} {part : Part}
    {after : Progress} (parts : partsOf skips platform = [part])
    (done : installPart host ctx (begun machine) part = .ok after) :
    installed host ctx skips (some platform) detect machine = after := by
  unfold installed install targets
  rw [List.foldl_cons, List.foldl_nil]
  unfold installOne
  rw [parts]
  exact installParts_single done

theorem claude_installed :
    installed oneSecond userScope mcpOnly (some .claudeCode) (fun _ => false) noFiles =
      { machine := claudeWritten
        actions := [.fileCreated claudeConfig (sha256OfFile oneSecond claudeWritten claudeConfig),
          .mcpRegistered Platform.claudeCode.id claudeConfig] } := by
  have written : writeMcpConfig oneSecond userScope .claudeCode noFiles = .ok claudeWritten := by
    rfl
  refine @installed_single _ _ _ _ _ _ ⟨.claudeCode, .mcp⟩ _ rfl ?_
  unfold installPart installMcp begun
  generalize claudeWritten = after at written ⊢
  dsimp only
  rw [written]
  rfl

theorem claude_removed :
    entryRemoved oneSecond .claudeCode claudeWritten = .ok (configWithoutEntry ++ "\n") := by
  have read : readToString claudeWritten claudeConfig = .ok (configWithEntry ++ "\n") := by
    unfold readToString claudeWritten writeFile
    rw [Machine.carryOut_write, AList.lookup_insert, Option.bind_some, fromUTF8?_toUTF8]
  have stripped : stripMcp oneSecond .jsonObject (configWithEntry ++ "\n") =
      .ok (configWithoutEntry ++ "\n") := by
    decide +kernel
  exact (entryRemoved_of_read read).trans stripped

theorem installed_config_drifts : ¬ RestoresAll oneSecond noFiles
    (installed oneSecond userScope mcpOnly (some .claudeCode) (fun _ => false) noFiles) := by
  intro restores
  have known : sha256OfFile oneSecond claudeWritten claudeConfig ≠ "" := by
    rw [claude_digest]
    decide +kernel
  have digested : oneSecond.sha256 (configWithoutEntry ++ "\n").toUTF8 ≠ "" := by
    rw [oneSecond_sha256]
    decide +kernel
  have changed : oneSecond.sha256 (configWithoutEntry ++ "\n").toUTF8 ≠
      sha256OfFile oneSecond claudeWritten claudeConfig := by
    rw [oneSecond_sha256, claude_digest]
    decide +kernel
  rw [claude_installed] at restores
  revert known digested changed restores
  generalize sha256OfFile oneSecond claudeWritten claudeConfig = shaAfter
  intro restores known digested changed
  unfold claudeConfig at restores
  have drifted := @changed_config_drifts .claudeCode oneSecond claudeWritten []
    (userConfigPath oneSecond .claudeCode) shaAfter _ claude_removed known digested changed
  rw [List.nil_append] at drifted
  unfold RestoresAll at restores
  dsimp only at restores
  have calm := restores.2 _ drifted
  cases calm

theorem installHistory_single {skips : Skips} {part : Part}
    {after : Progress} (parts : partsOf skips platform = [part])
    (done : installPart host ctx (begun machine) part = .ok after) :
    installHistory host ctx skips (targets (some platform) detect) (begun machine) =
      [(begun machine, part)] := by
  unfold targets installHistory
  rw [parts]
  unfold partsHistory
  rw [done]
  rfl

theorem aiderWriteMcpConfig_of {path : Place} (existing : readOr machine path "" = .ok text)
    (absent : (cutAt aiderMarker.toList text.toList).isSome = false) :
    aiderWriteMcpConfig host path machine =
      .ok (backupThenWrite host machine path (text ++ aiderSnippet)) := by
  unfold aiderWriteMcpConfig
  refine bind_eq_ok.mpr ⟨text, existing, ?_⟩
  rw [absent]
  rfl

def aiderConfig : Place :=
  userConfigPath oneSecond .aider

def aiderSnapshot : Place :=
  ⟨["home", "dev"], ".aider.conf.yml.mneme-20260424-160000.bak"⟩

/-- A config of aider without the section. -/
def withAider : Machine :=
  { files := (∅ : Files).insert aiderConfig "model: gpt-4o\n".toUTF8, reads := 0, operations := [] }

def aiderWritten : Machine :=
  backupThenWrite oneSecond withAider aiderConfig ("model: gpt-4o\n" ++ aiderSnippet)

theorem aider_present : withAider.files.lookup aiderConfig = some "model: gpt-4o\n".toUTF8 :=
  AList.lookup_insert _

theorem aider_written : writeMcpConfig oneSecond userScope .aider withAider = .ok aiderWritten := by
  have existing : readOr withAider aiderConfig "" = .ok "model: gpt-4o\n" := by
    unfold readOr readToString
    rw [aider_present, Option.bind_some, fromUTF8?_toUTF8]
    rfl
  exact aiderWriteMcpConfig_of existing (by decide +kernel)

def aiderInstalled : Progress :=
  { machine := aiderWritten
    actions := [.fileModified aiderConfig aiderSnapshot (sha256OfFile oneSecond withAider aiderConfig)
        (sha256OfFile oneSecond aiderWritten aiderConfig),
      .mcpRegistered Platform.aider.id aiderConfig] }

theorem aider_part : installPart oneSecond userScope (begun withAider) ⟨.aider, .mcp⟩ =
    .ok aiderInstalled := by
  have present : (withAider.files.lookup aiderConfig).isSome = true := by
    rw [aider_present]
    rfl
  have found : findLatestMnemeBak aiderWritten aiderConfig = some aiderSnapshot := by
    decide +kernel
  have recorded : recordWrite oneSecond withAider aiderWritten aiderConfig =
      [.fileModified aiderConfig aiderSnapshot (sha256OfFile oneSecond withAider aiderConfig)
        (sha256OfFile oneSecond aiderWritten aiderConfig)] := by
    unfold recordWrite
    rw [if_pos present, found]
  have path : mcpConfigPath oneSecond userScope .aider = aiderConfig := rfl
  have written := aider_written
  unfold aiderInstalled installPart installMcp begun
  rw [path]
  generalize aiderWritten = after at written recorded ⊢
  dsimp only
  rw [written]
  change Except.ok (Progress.mk after ([] ++ (recordWrite oneSecond withAider after aiderConfig ++
    [.mcpRegistered Platform.aider.id aiderConfig]))) = _
  rw [recorded]
  rfl

/-- The text is no JSON, so the rollback leaves it to the backup. -/
theorem aider_kept : ∃ error, entryRemoved oneSecond .aider aiderWritten = .error error := by
  have read : readToString aiderWritten aiderConfig = .ok ("model: gpt-4o\n" ++ aiderSnippet) := by
    unfold readToString aiderWritten
    rw [lookup_backupThenWrite, Option.bind_some, fromUTF8?_toUTF8]
  have stripped : stripMcp oneSecond .jsonObject ("model: gpt-4o\n" ++ aiderSnippet) =
      .error .json := by
    decide +kernel
  exact ⟨.json, (entryRemoved_of_read read).trans stripped⟩

theorem aider_restored : RestoresAll oneSecond withAider
    (installed oneSecond userScope mcpOnly (some .aider) (fun _ => false) withAider) := by
  apply rollback_restores
  rw [installed_single rfl aider_part, installHistory_single rfl aider_part]
  intro taken member
  rw [List.mem_singleton.mp member]
  refine ⟨?_, ?_⟩
  · intro path backup shaBefore shaAfter recorded
    have actions : partActions oneSecond userScope (begun withAider) ⟨.aider, .mcp⟩ =
        aiderInstalled.actions := by
      unfold partActions
      rw [partAfter_of_ok aider_part]
      rfl
    rw [actions] at recorded
    have only := (List.mem_cons.mp recorded).resolve_right (fun later => by
      have other := List.mem_singleton.mp later
      cases other)
    cases only
    refine ⟨_, aider_present, ?_⟩
    have held := lookup_backupThenWrite_snapshot oneSecond ("model: gpt-4o\n" ++ aiderSnippet)
      aider_present (userConfigPath_name oneSecond .aider)
    have named : snapshotOf aiderConfig (chronoLikeUtcStamp (oneSecond.clock withAider.reads)) =
        aiderSnapshot := by decide +kernel
    rw [named] at held
    exact held
  · intro _ _ text removed
    obtain ⟨error, failed⟩ := aider_kept
    rw [partAfter_of_ok aider_part] at removed
    exact absurd (removed.symm.trans failed) (by intro same; cases same)

end Mneme.Cli.Receipts
