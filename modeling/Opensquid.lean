import Opensquid.Lib.Steps
import Opensquid.Lib.FoldOrder
import Opensquid.Lib.IsoInstant
import Opensquid.WorkGraph.Replay
import Opensquid.WorkGraph.Cursor
import Opensquid.WorkGraph.Claims
import Opensquid.WorkGraph.HarnessReconciled
import Opensquid.Machine.Flat
import Opensquid.Durable.Resume
import Opensquid.AgentBridge.Turns
import Opensquid.AgentBridge.AgentLoop
import Opensquid.AgentBridge.InboxExact
import Opensquid.AgentBridge.SessionManager
import Opensquid.Chat.InboxDrain
import Opensquid.Chat.InboundWatch
import Opensquid.Chat.LiveSessionLease
import Opensquid.Loop.Converge
import Opensquid.Loop.Reaper
import Opensquid.Ralph.Cause
import Opensquid.Ralph.HandoffOnce
import Opensquid.RateLimit
import Opensquid.Audit.FreshVerdict
import Opensquid.Hooks.PreToolCall
import Opensquid.Guard.SafetyFloor
import Opensquid.Guard.ReadOnlyBash
import Opensquid.Channels.Routing
import Opensquid.Rag.LineageCycle
import Opensquid.Rag.WedgeFiled
import Opensquid.Rag.MemoryIndex
import Opensquid.Runtime.AutomationBuffer
import Opensquid.Runtime.LogTails
import Opensquid.Runtime.OneShotCapture
import Opensquid.Runtime.StreamingOutcome
import Opensquid.Runtime.WebhookServer
import Opensquid.Loop.ActorCall
import Opensquid.Runtime.FsmHistory
import Opensquid.Mcp.LogPhase
import Opensquid.Mcp.IpAddress
import Opensquid.Mcp.WebFetch
import Opensquid.Packs.CompileV2
import Opensquid.Runtime.ScheduleOutcome
import Opensquid.Rag.WedgePromotion
import Opensquid.Durable.CanonicalJson
import Opensquid.Durable.MemoCache
import Opensquid.Durable.Resumer
import Opensquid.Machine.Settle
import Opensquid.Machine.HistoryMemory
import Opensquid.Processes.ControlledProcess
import Opensquid.Processes.ControlRequests
import Opensquid.Hooks.TranscriptTasks
import Opensquid.Rag.Consolidate
import Opensquid.Loop.FinishedAncestors
import Opensquid.Loop.PlanAudit
import Opensquid.Packs.CompositeResolver
import Opensquid.Rag.MemoryUpdate
import Opensquid.Evaluator.RoundTrip
import Opensquid.Ralph.StageMetrics
import Opensquid.Runtime.Versioning
import Opensquid.Runtime.Bus
import Opensquid.Runtime.TruncateUtf8
import Opensquid.Kanban.MapStore
import Opensquid.Runtime.RunBounded
import Opensquid.Runtime.FileWatcher
import Opensquid.Hooks.Dispatch
import Opensquid.Loop.Driver
import Opensquid.Ralph.LoopOwner
import Opensquid.Machine.ClearRun
import Opensquid.Audit.Credit
import Opensquid.Audit.Admission
import Opensquid.Evaluator.Condition
import Opensquid.Setup.GitHooks
import Opensquid.Setup.ManagedBlock
import Opensquid.Guard.ProgressFloor
