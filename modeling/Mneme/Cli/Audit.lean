/-
Audits that the command line runs itself: what the scan worker reports above a
severity floor is written to the findings of the project.

The scanners are a parameter: what they find in one file.
-/

import Mneme.Library.Run
import Mneme.Scanners.Finding
import Mneme.Scanners.Orchestrator

namespace Mneme.Cli

open Common Scanners Transition

def severityRank : Severity → Nat
  | .critical => 0
  | .error => 1
  | .warning => 2
  | .info => 3

/-- A full audit of a project as it is at that time. -/
structure FullAudit where
  builder : IgnoreBuilder
  root : Names
  tree : FileTree
  severityFloor : Severity
  /-- The second in which the insert of each finding runs. -/
  clock : Nat → Nat
  /-- `FindingsWriter::open` and the transaction succeed. -/
  writable : Bool

/-- The findings that the scan worker reports, file by file. -/
def reportedFindings (scan : Names × String → List Finding) (audit : FullAudit) : List Finding :=
  (runOrchestrator
    { scope := "full", builder := audit.builder, root := audit.root, recent := fun _ => false }
    audit.tree).jobs.flatMap scan

def keptFindings (scan : Names × String → List Finding) (audit : FullAudit) : List Finding :=
  (reportedFindings scan audit).filter (fun finding =>
    severityRank finding.severity ≤ severityRank audit.severityFloor)

/-- The batch of `write_findings`; nothing is done for an empty one. -/
def persistFindings (scan : Names × String → List Finding) (audit : FullAudit) (shard : FindingsShard) :
    FindingsShard :=
  if audit.writable then
    shard.writeFindings ((keptFindings scan audit).zipIdx.map
      (fun numbered => (audit.clock numbered.2, numbered.1)))
  -- A failure is logged and the audit goes on.
  else shard

/-- The findings of a project and what the last audit kept. -/
structure Audited where
  shard : FindingsShard := { }
  last : Option (List Finding) := none

def auditStep (scan : Names × String → List Finding) (state : Audited) (audit : FullAudit) :
    Option Audited :=
  some { shard := persistFindings scan audit state.shard, last := some (keptFindings scan audit) }

/-- The open rows are the findings of an audit, each once, and the row of any other
finding is resolved. -/
structure Mirrors (shard : FindingsShard) (findings : List Finding) : Prop where
  exact : shard.openColumns.Perm (findings.map columns)
  resolved : ∀ row ∈ shard.rows, row.columns ∉ findings.map columns → row.resolvedAt ≠ none

def LastMirrored (state : Audited) : Prop :=
  ∀ findings, state.last = some findings → Mirrors state.shard findings

/-- The audit adds to a shard without open findings, or it cannot write and keeps
what is open anyway. -/
def Refreshes (scan : Names × String → List Finding) (state : Audited) (audit : FullAudit) : Prop :=
  if audit.writable then state.shard.openColumns = []
  else state.shard.openColumns.Perm ((keptFindings scan audit).map columns)

variable (scan : Names × String → List Finding)

/-- A row that is open is among the findings, so the others are resolved. -/
theorem mirrors_iff (shard : FindingsShard) (findings : List Finding) :
    Mirrors shard findings ↔ shard.openColumns.Perm (findings.map columns) := by
  constructor
  · exact Mirrors.exact
  · intro exact
    refine ⟨exact, fun row stored gone open_ => gone ?_⟩
    rw [← exact.mem_iff]
    exact List.mem_map_of_mem (List.mem_filter.mpr ⟨stored, decide_eq_true open_⟩)

theorem persistFindings_openColumns (audit : FullAudit) (shard : FindingsShard) :
    (persistFindings scan audit shard).openColumns =
      if audit.writable then shard.openColumns ++ (keptFindings scan audit).map columns
      else shard.openColumns := by
  unfold persistFindings
  split
  · rw [FindingsShard.writeFindings_openColumns, List.map_map]
    have findings : (keptFindings scan audit).zipIdx.map Prod.fst = keptFindings scan audit :=
      List.zipIdx_map_fst _ _
    nth_rewrite 2 [← findings]
    rw [List.map_map, List.map_map]
    rfl
  · rfl

theorem refreshes_iff (state : Audited) (audit : FullAudit) :
    LastMirrored { shard := persistFindings scan audit state.shard, last := some (keptFindings scan audit) } ↔
      Refreshes scan state audit := by
  unfold LastMirrored
  simp only [Option.some.injEq, forall_eq']
  rw [mirrors_iff, persistFindings_openColumns]
  unfold Refreshes
  split
  · constructor
    · intro exact
      have lengths := exact.length_eq
      rw [List.length_append] at lengths
      exact List.length_eq_zero_iff.mp (by omega)
    · intro none
      rw [none, List.nil_append]
  · exact Iff.rfl

/-- In a run of audits the open findings are those of the last one throughout,
exactly where each audit found none open or had nothing to change. -/
theorem last_audit_mirrored_iff {history : List (Audited × FullAudit)} {final : Audited}
    (run : Run (auditStep scan) { } history final) :
    Throughout LastMirrored history final ↔ Respects (Refreshes scan) history := by
  refine run.throughout_iff_respects (fun _ never => by cases never) (fun _ held => held) ?_ ?_
  · intro state audit after _ refreshes taken
    cases taken
    exact (refreshes_iff scan state audit).mpr refreshes
  · intro state audit after _ taken mirrored
    cases taken
    exact (refreshes_iff scan state audit).mp mirrored

theorem normal_a : NormalName "a.rs" := by decide

/-- A project of one file. -/
def oneFileAudit : FullAudit :=
  { builder := fun _ => none
    root := []
    tree := .dir (.cons ⟨"a.rs", normal_a⟩ (.file (some ByteArray.empty)) .nil)
    severityFloor := .info
    clock := id
    writable := true }

def syncFinding : Finding :=
  Finding.newLine "perf.sync-io" .error "/a.rs" 1 0 1
    "Synchronous I/O blocks the event loop — use async equivalents."

theorem first_audit_mirrored :
    ∃ history final, Run (auditStep (fun _ => [syncFinding])) { } history final ∧
      history.map Prod.snd = [oneFileAudit] ∧ Throughout LastMirrored history final := by
  have run : Run (auditStep (fun _ => [syncFinding])) { } [({ }, oneFileAudit)] _ :=
    Run.start.step rfl
  refine ⟨_, _, run, rfl, (last_audit_mirrored_iff _ run).mpr ?_⟩
  intro taken member
  rw [List.mem_singleton.mp member]
  unfold Refreshes
  rw [if_pos (by decide)]
  rfl

/-- Auditing the same project once more adds every finding once more. -/
theorem audits_accumulate :
    ¬ ∀ (scan : Names × String → List Finding) (history : List (Audited × FullAudit))
      (final : Audited), Run (auditStep scan) { } history final →
        Throughout LastMirrored history final := by
  intro always
  obtain ⟨history, final, run, _, tested⟩ := Run.of_trace (auditStep (fun _ => [syncFinding])) { }
    [oneFileAudit, oneFileAudit] (fun _ final => final.last.any (fun findings =>
      findings.length < final.shard.openColumns.length)) (by decide +kernel)
  obtain ⟨findings, last, more⟩ := (Option.any_eq_true _ _).mp tested
  have same := ((always _ history final run).2 findings last).exact.length_eq
  rw [List.length_map] at same
  have fewer := of_decide_eq_true more
  omega

end Mneme.Cli
