import Mneme.Brain.ClusterNodes
import Mneme.Brain.Conventions
import Mneme.Brain.EmbedFlush
import Mneme.Brain.Embedder
import Mneme.Brain.FederatedStore
import Mneme.Brain.Moves
import Mneme.Brain.Nearest
import Mneme.Brain.OpenQuestions
import Mneme.Brain.RetrievalOrder
import Mneme.Brain.Silhouette
import Mneme.Brain.Wiki
import Mneme.Cli.Audit
import Mneme.Cli.BuildLock
import Mneme.Cli.CallEdges
import Mneme.Cli.CivilDates
import Mneme.Cli.FullTextQueries
import Mneme.Cli.InstallCrash
import Mneme.Cli.Ipc
import Mneme.Cli.MarkersFrame
import Mneme.Cli.McpEntries
import Mneme.Common.JobIdCounter
import Mneme.Livebus.Discipline
import Mneme.Livebus.EventPayload
import Mneme.Mcp.BlastRadius
import Mneme.Mcp.CompactionGuard
import Mneme.Mcp.Constraints
import Mneme.Mcp.Cycles
import Mneme.Mcp.DependencyChain
import Mneme.Mcp.DriftFindings
import Mneme.Mcp.FederatedSimilar
import Mneme.Mcp.IdentityAgreement
import Mneme.Mcp.IpcClient
import Mneme.Mcp.ProjectShard
import Mneme.Mcp.RefactorRuns
import Mneme.Mcp.StepPlan
import Mneme.Mcp.StepResume
import Mneme.Parsers.Incremental
import Mneme.Scanners.Betweenness
import Mneme.Scanners.RefactorFixes
import Mneme.Scanners.StoreIpc
import Mneme.Store.FullTextSeed
import Mneme.Store.Idempotency
import Mneme.Store.SnapshotSafety
import Mneme.Supervisor.DebounceWindow
import Mneme.Supervisor.DrainLoop
import Mneme.Supervisor.Pools
import Mneme.Supervisor.QueueOrder
import Mneme.Supervisor.QueueSafety
import Mneme.Supervisor.Recovery
import Mneme.Supervisor.ReindexJobs
import Mneme.Supervisor.RestartBudget
import Mneme.Supervisor.StuckChild
import Mneme.Supervisor.WorkerExit
import Mneme.Vscode.BlastRoundTrip
import Mneme.Vscode.LiveBusClient
import Mneme.Workers.Reporting
import Mneme.Parsers.ParserPool
import Mneme.Supervisor.LogRing
