/-
When every line the router wrote is answered by exactly one report.

In each worker the job ids only move from stage to stage, but for the steps
that let one go; so at a quiescent state the reports are for the lines exactly
when no step of the run let a job id go.
-/

import Mneme.Workers.ParseWorker
import Mneme.Workers.ScanWorker
import Mneme.Workers.BrainWorker

namespace Mneme.Workers

open Common Transition

/-- One report for each line with a job id. -/
def EachReported (lines : List Nat) (reports : List Report) : Prop :=
  ∀ id, id ≠ 0 → (reports.map Prod.fst).count id = lines.count id

/-- No step of the run let go of a job id that was to be reported. -/
def Lossless {State Event : Type} (lost : State → Event → List Nat) (state : State)
    (event : Event) : Prop :=
  ∀ id, id ≠ 0 → id ∉ lost state event

variable {stdin : List Line}

theorem parse_reported_iff {parsers : Nat}
    {history : List (ParseWorker × ParseEvent)} {final : ParseWorker}
    (run : Run ParseWorker.step (ParseWorker.start parsers stdin) history final)
    (quiescent : final.Quiescent) :
    EachReported (stdin.map Line.jobId) final.reports ↔
      Respects (Lossless ParseWorker.lost) history := by
  have kept := run.count_eq_iff_respects
    (fun _ _ _ taken id counted => ParseWorker.conserved taken id counted)
  rw [ParseWorker.quiescent_ids quiescent, ParseWorker.start_ids] at kept
  exact kept

theorem scan_reported_iff {tasks : Nat}
    {history : List (ScanWorker × ScanEvent)} {final : ScanWorker}
    (run : Run ScanWorker.step (ScanWorker.start tasks stdin) history final)
    (quiescent : final.Quiescent) :
    EachReported (stdin.map Line.jobId) final.reports ↔
      Respects (Lossless ScanWorker.lost) history := by
  have kept := run.count_eq_iff_respects
    (fun _ _ _ taken id counted => ScanWorker.conserved taken id counted)
  rw [ScanWorker.quiescent_ids quiescent, ScanWorker.start_ids] at kept
  exact kept

theorem brain_reported_iff {history : List (BrainWorker × BrainEvent)} {final : BrainWorker}
    (run : Run BrainWorker.step (BrainWorker.start stdin) history final)
    (quiescent : final.Quiescent) :
    EachReported (stdin.map BrainWorker.lineId) final.reports ↔
      Respects (Lossless BrainWorker.lost) history := by
  have kept := run.count_eq_iff_respects
    (fun _ _ _ taken id counted => BrainWorker.conserved taken id counted)
  rw [BrainWorker.quiescent_ids quiescent, BrainWorker.start_ids] at kept
  exact kept

/-- A quiescent worker has answered every line exactly when its run let go of
no job id. -/
theorem each_reported_iff_lossless (stdin : List Line) (parsers tasks : Nat) :
    (∀ history final, Run ParseWorker.step (ParseWorker.start parsers stdin) history final →
      final.Quiescent →
        (EachReported (stdin.map Line.jobId) final.reports ↔
          Respects (Lossless ParseWorker.lost) history)) ∧
    (∀ history final, Run ScanWorker.step (ScanWorker.start tasks stdin) history final →
      final.Quiescent →
        (EachReported (stdin.map Line.jobId) final.reports ↔
          Respects (Lossless ScanWorker.lost) history)) ∧
    (∀ history final, Run BrainWorker.step (BrainWorker.start stdin) history final →
      final.Quiescent →
        (EachReported (stdin.map BrainWorker.lineId) final.reports ↔
          Respects (Lossless BrainWorker.lost) history)) := by
  refine ⟨?_, ?_, ?_⟩
  · intro history final run quiescent
    exact parse_reported_iff run quiescent
  · intro history final run quiescent
    exact scan_reported_iff run quiescent
  · intro history final run quiescent
    exact brain_reported_iff run quiescent

/-- A line for the parse worker, as the router writes it. -/
def parseLine (language : String) : Line :=
  .json (.object [("file_path", .string "a.rs"), ("language", .string language),
    ("content", .string ""), ("job_id", .nat 5)])

def answeredTrace : List ParseEvent :=
  [.readLine, .sendJob, .recv 0, .handled 0 (.ok ⟨1, 0, 0, 2, false⟩), .sendResult 0, .emit]

theorem each_reported_iff_lossless_answered :
    ∃ history final,
      Run ParseWorker.step (ParseWorker.start 1 [parseLine "rust"]) history final ∧
      history.map Prod.snd = answeredTrace ∧ final.reports.map Prod.fst = [5] ∧
      (EachReported [5] final.reports ↔ Respects (Lossless ParseWorker.lost) history) := by
  obtain ⟨history, final, run, labels, passed⟩ := Run.of_trace ParseWorker.step
    (ParseWorker.start 1 [parseLine "rust"]) answeredTrace
    (fun _ state => decide (state.reports.map Prod.fst = [5]) && state.idle) (by decide)
  obtain ⟨reported, idle⟩ := Bool.and_eq_true_iff.mp passed
  exact ⟨history, final, run, labels, of_decide_eq_true reported,
    (each_reported_iff_lossless [parseLine "rust"] 1 1).1 history final run
      (ParseWorker.quiescent_of_idle idle)⟩

/-- The language tag is not one the worker knows; the line is logged and
dropped. -/
theorem undecodable_line_unreported :
    ¬ ∀ parsers stdin history final,
      Run ParseWorker.step (ParseWorker.start parsers stdin) history final → final.Quiescent →
        EachReported (stdin.map Line.jobId) final.reports := by
  intro always
  obtain ⟨history, final, run, _, passed⟩ := Run.of_trace ParseWorker.step
    (ParseWorker.start 1 [parseLine "typescript"]) [.readLine]
    (fun _ state => decide (state.reports.map Prod.fst = []) && state.idle) (by decide)
  obtain ⟨unreported, idle⟩ := Bool.and_eq_true_iff.mp passed
  have counted := always 1 [parseLine "typescript"] history final run
    (ParseWorker.quiescent_of_idle idle) 5 (by decide)
  rw [of_decide_eq_true unreported] at counted
  exact absurd counted (by decide)

end Mneme.Workers
