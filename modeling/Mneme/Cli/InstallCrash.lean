/-
What a crash in an install run leaves on disk.

The receipt is saved as a whole when all platforms are done, so up to then nothing on
disk says what the run has written.
-/

import Mneme.Cli.Rollback

namespace Mneme.Cli.Receipts

open Platforms Mneme.Library Transition

/-! ### The operations of a run -/

/-- The files and the receipts that are saved. -/
structure Disk where
  files : Files
  receipts : List (List ReceiptAction)

inductive RunOperation where
  | file (operation : FileOperation)
  | saveReceipt (actions : List ReceiptAction)

/-- Receipts are only added: each has an id of its own. -/
def Disk.perform (disk : Disk) : RunOperation → Disk
  | .file operation => { disk with files := operation.apply disk.files }
  | .saveReceipt actions => { disk with receipts := disk.receipts ++ [actions] }

def Disk.machine (disk : Disk) (reads : Nat) : Machine :=
  { files := disk.files, reads, operations := [] }

/-- All that an install run does on disk, in order.  An empty receipt is not saved. -/
def runOperations (done : Progress) : List RunOperation :=
  done.machine.operations.map .file ++
    (if done.actions.isEmpty then [] else [.saveReceipt done.actions])

/-- The manifests, configs and hook files are the user's; the backups are not. -/
def UserFile (host : Host) (ctx : AdapterContext) (path : Place) : Prop :=
  ∃ part, partTarget host ctx part = some path

/-- The operations so far say what became of the files. -/
def Logged (start : Files) (machine : Machine) : Prop :=
  machine.files = machine.operations.foldl FileOperation.apply start

section Parts

variable {host : Host} {ctx : AdapterContext} {start : Files}

theorem Logged.carryOut {machine : Machine} (logged : Logged start machine)
    (operation : FileOperation) : Logged start (machine.carryOut operation) := by
  unfold Logged Machine.carryOut
  rw [List.foldl_append, ← logged]
  rfl

theorem Logged.backupThenWrite {machine : Machine} (logged : Logged start machine) (path : Place)
    (text : String) : Logged start (backupThenWrite host machine path text) := by
  unfold Platforms.backupThenWrite
  split
  · exact logged.carryOut _
  · rename_i current _
    have backedUp := (logged.carryOut (.write (snapshotOf path
      (Common.chronoLikeUtcStamp (host.clock machine.reads))) current)).carryOut
        (.write (aliasOf path) current)
    exact backedUp.carryOut (.write path text.toUTF8)

theorem Logged.installPart {before after : Progress} {part : Part}
    (logged : Logged start before.machine) (done : installPart host ctx before part = .ok after) :
    Logged start after.machine := by
  obtain ⟨platform, piece⟩ := part
  cases piece with
  | manifest =>
      obtain ⟨machine, written, same⟩ := bind_eq_ok.mp done
      obtain ⟨text, wrote⟩ := writeManifest_ok written
      cases same
      rw [wrote]
      exact logged.backupThenWrite _ text
  | mcp =>
      obtain ⟨machine, written, same⟩ := bind_eq_ok.mp done
      cases same
      rcases writeMcpConfig_ok written with kept | ⟨text, wrote⟩
      · rw [kept]
        exact logged
      · rw [wrote]
        exact logged.backupThenWrite _ text
  | hooks =>
      obtain ⟨hook, written, same⟩ := bind_eq_ok.mp done
      cases hook with
      | none =>
          cases same
          exact logged
      | some wrote =>
          obtain ⟨path, machine⟩ := wrote
          cases same
          rcases (writeHooks_ok written).2 with ⟨text, rfl⟩ | ⟨text, rfl⟩
          · exact logged.backupThenWrite _ text
          · exact logged.carryOut _

theorem Logged.run {first final : Progress} {history : List (Progress × Part)}
    (logged : Logged start first.machine)
    (run : Run (installStep host ctx) first history final) : Logged start final.machine := by
  induction run with
  | start => exact logged
  | step _ taken ih => exact ih.installPart (installStep_eq_some taken)

end Parts

section Runs

variable (host : Host) (ctx : AdapterContext) (skips : Skips) (asked : Option Platform)
  (detect : Platform → Bool)

theorem installed_logged (disk : Disk) (reads : Nat) :
    Logged disk.files
      (installed host ctx skips asked detect (disk.machine reads)).machine := by
  have run : Run (installStep host ctx) (begun (disk.machine reads)) _
      (installed host ctx skips asked detect (disk.machine reads)) :=
    installHistory_run host ctx skips (targets asked detect) (begun (disk.machine reads))
  have logged : Logged disk.files (begun (disk.machine reads)).machine := rfl
  exact logged.run run

theorem perform_files (operations : List FileOperation) (disk : Disk) :
    (operations.map .file).foldl Disk.perform disk =
      { disk with files := operations.foldl FileOperation.apply disk.files } := by
  induction operations generalizing disk with
  | nil => rfl
  | cons operation rest ih =>
      rw [List.map_cons, List.foldl_cons, ih]
      rfl

/-- The disk after a crash behind so many operations of the run. -/
def crashed (disk : Disk) (reads count : Nat) : Disk :=
  afterCrash Disk.perform
    (runOperations (installed host ctx skips asked detect (disk.machine reads))) disk count

/-- The run has written the file before the crash. -/
def WrittenBefore (disk : Disk) (reads count : Nat) (path : Place) : Prop :=
  ∃ contents, .file (.write path contents) ∈
    (runOperations (installed host ctx skips asked detect (disk.machine reads))).take count

/-- The receipt names the file, and its rollback on the disk gives it back. -/
def RestoredBy (before : Files) (disk : Disk) (path : Place) (receipt : List ReceiptAction) :
    Prop :=
  path ∈ recordedFiles receipt ∧
    ∀ reads, (rollback host receipt (disk.machine reads)).1.files.lookup path = before.lookup path

/-- Every user file that was written is restored by one of the receipts. -/
def Restorable (disk : Disk) (reads count : Nat) (receipts : List (List ReceiptAction)) : Prop :=
  ∀ path, UserFile host ctx path →
    WrittenBefore host ctx skips asked detect disk reads count path →
      ∃ receipt ∈ receipts, RestoredBy host disk.files
        (crashed host ctx skips asked detect disk reads count) path receipt

/-- Every user file that was written is restored by a receipt that the crash left. -/
def Recoverable (disk : Disk) (reads count : Nat) : Prop :=
  Restorable host ctx skips asked detect disk reads count
    (crashed host ctx skips asked detect disk reads count).receipts

theorem file_operations_keep (operations : List FileOperation) :
    ∀ operation ∈ operations.map RunOperation.file, ∀ disk : Disk,
      (disk.perform operation).receipts = disk.receipts := by
  intro operation member disk
  obtain ⟨inner, _, same⟩ := List.mem_map.mp member
  cases same
  rfl

/-- The receipt comes last. -/
theorem before_receipt {done : Progress} {count : Nat}
    (between : count < (runOperations done).length) : count ≤ done.machine.operations.length := by
  unfold runOperations at between
  rw [List.length_append, List.length_map] at between
  split at between
  · exact Nat.le_of_lt between
  · rw [List.length_singleton] at between
    omega

variable {disk : Disk} {reads count : Nat}

/-- Between the operations of a run the receipts are those of earlier runs. -/
theorem receipts_crashed (between : count <
      (runOperations (installed host ctx skips asked detect (disk.machine reads))).length) :
    (crashed host ctx skips asked detect disk reads count).receipts = disk.receipts := by
  have early := before_receipt between
  unfold crashed
  generalize installed host ctx skips asked detect (disk.machine reads) = done at early ⊢
  have early : count ≤ (done.machine.operations.map RunOperation.file).length := by
    rw [List.length_map]
    exact early
  unfold runOperations
  rw [afterCrash_append _ _ _ _ early]
  exact afterCrash_frame Disk.receipts (file_operations_keep done.machine.operations) disk count

/-- Where no earlier run has left a receipt, nothing that was written can be recovered. -/
theorem recoverable_iff_unwritten (reads count : Nat) (none_ : disk.receipts = [])
    (between : count <
      (runOperations (installed host ctx skips asked detect (disk.machine reads))).length) :
    Recoverable host ctx skips asked detect disk reads count ↔
      ∀ path, UserFile host ctx path →
        ¬ WrittenBefore host ctx skips asked detect disk reads count path := by
  unfold Recoverable
  rw [receipts_crashed host ctx skips asked detect between, none_]
  constructor
  · intro restorable path user written
    obtain ⟨receipt, member, _⟩ := restorable path user written
    cases member
  · intro unwritten path user written
    exact absurd written (unwritten path user)

end Runs

/-! ### The first install of a config -/

def bareDisk : Disk :=
  { files := ∅, receipts := [] }

theorem claude_between (count : Nat) (early : count ≤ 1) :
    count < (runOperations (installed oneSecond userScope mcpOnly (some .claudeCode)
      (fun _ => false) (bareDisk.machine 0))).length := by
  have same : bareDisk.machine 0 = noFiles := rfl
  rw [same, claude_installed]
  unfold runOperations claudeWritten writeFile noFiles Machine.carryOut
  simp only [List.nil_append, List.map_singleton, List.isEmpty_cons, Bool.false_eq_true,
    if_false, List.length_append, List.length_singleton]
  omega

theorem claude_written_before : WrittenBefore oneSecond userScope mcpOnly (some .claudeCode)
    (fun _ => false) bareDisk 0 1 claudeConfig := by
  have same : bareDisk.machine 0 = noFiles := rfl
  unfold WrittenBefore
  rw [same, claude_installed]
  refine ⟨(configWithEntry ++ "\n").toUTF8, ?_⟩
  unfold runOperations claudeWritten writeFile noFiles Machine.carryOut
  simp only [List.nil_append, List.map_singleton, List.singleton_append, List.take_succ_cons]
  exact List.mem_cons_self

end Mneme.Cli.Receipts
