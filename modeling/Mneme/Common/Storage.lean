/-
The storage layers of a project, one database file each, and the errors of the
store.
-/

import Mathlib.Data.List.Nodup

namespace Mneme.Common

/-- The hash that names a project's shard folder. -/
abbrev ProjectId := String

inductive DbLayer where
  | graph
  | history
  | toolCache
  | tasks
  | semantic
  | git
  | memory
  | errors
  | multimodal
  | deps
  | tests
  | perf
  | findings
  | agents
  | refactors
  | contracts
  | insights
  | liveState
  | telemetry
  | corpus
  | audit
  | wiki
  | architecture
  | conventions
  | federated
  | metaDb
deriving DecidableEq, Repr

namespace DbLayer

def fileName : DbLayer → String
  | .graph => "graph.db"
  | .history => "history.db"
  | .toolCache => "tool_cache.db"
  | .tasks => "tasks.db"
  | .semantic => "semantic.db"
  | .git => "git.db"
  | .memory => "memory.db"
  | .errors => "errors.db"
  | .multimodal => "multimodal.db"
  | .deps => "deps.db"
  | .tests => "tests.db"
  | .perf => "perf.db"
  | .findings => "findings.db"
  | .agents => "agents.db"
  | .refactors => "refactors.db"
  | .contracts => "contracts.db"
  | .insights => "insights.db"
  | .liveState => "livestate.db"
  | .telemetry => "telemetry.db"
  | .corpus => "corpus.db"
  | .audit => "audit.db"
  | .wiki => "wiki.db"
  | .architecture => "architecture.db"
  | .conventions => "conventions.db"
  | .federated => "federated.db"
  | .metaDb => "meta.db"

def allPerProject : List DbLayer :=
  [.graph, .history, .toolCache, .tasks, .semantic, .git, .memory, .errors, .multimodal, .deps,
    .tests, .perf, .findings, .agents, .refactors, .contracts, .insights, .liveState, .telemetry,
    .corpus, .audit, .wiki, .architecture, .conventions, .federated]

end DbLayer

inductive DbError where
  | notFound
  | corrupted (detail : String)
  | locked (holder : String) (since : Nat)
  | timeout (elapsedMs : Nat)
  | schemaMismatch (expected found : Nat)
  | serializationFailure
  | diskFull (availableBytes : Nat)
  | permissionDenied
  | internalPanic (backtrace : String)
  | sqlite (message : String)
deriving DecidableEq, Repr

end Mneme.Common
