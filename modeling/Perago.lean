import Perago.AttemptAgreement
import Perago.AttemptInvariants
import Perago.AttemptNames
import Perago.ConductorRuntime.AttemptFence
import Perago.ConductorRuntime.Attribution
import Perago.ConductorRuntime.BusyGauge
import Perago.ConductorRuntime.Delivery
import Perago.ConductorRuntime.Drain
import Perago.ConductorRuntime.EventOrder
import Perago.ConductorRuntime.Joining
import Perago.ConductorRuntime.Lease
import Perago.ConductorRuntime.Leftovers
import Perago.ConductorRuntime.Models
import Perago.ConductorRuntime.ProcessExecutor
import Perago.ConductorRuntime.ProcessGc
import Perago.ConductorRuntime.ProcessIpc
import Perago.ConductorRuntime.ProcessRuntime
import Perago.ConductorRuntime.Quiescence
import Perago.ConductorRuntime.Reports
import Perago.ConductorRuntime.Restarts
import Perago.ConductorRuntime.Returns
import Perago.ConductorRuntime.Shutdown
import Perago.ConductorRuntime.SlotSafety
import Perago.ConductorRuntime.SlotTable
import Perago.ConductorRuntime.Spared
import Perago.ConductorRuntime.Supervisor
import Perago.ConductorRuntime.ThreadWorker
import Perago.ConductorRuntime.Unattended
import Perago.ConductorRuntime.Workers
import Perago.Config
import Perago.ConfigLoading
import Perago.ConfigReading
import Perago.Decimal
import Perago.Dotenv
import Perago.Effect.Agreement
import Perago.Effect.Process
import Perago.EffectContract
import Perago.EffectOrder
import Perago.Execution
import Perago.FailureOutput
import Perago.FailureReports
import Perago.FailureTransport
import Perago.GuardrailScope
import Perago.GuardrailSurvival
import Perago.Guards
import Perago.Json
import Perago.JsonSchema
import Perago.LakefsInvariants
import Perago.LakefsObjects
import Perago.LakefsReturns
import Perago.LakefsRuntime
import Perago.LakefsServer
import Perago.LinearHistory
import Perago.LocalCleanup
import Perago.Metrics.InMemory
import Perago.Metrics.Labels
import Perago.Metrics.Otel
import Perago.Metrics.Samples
import Perago.MetricsNeutral
import Perago.Models
import Perago.NoopDetection
import Perago.ObjectGraph
import Perago.Parsing.Lines
import Perago.Pathlib.Glob
import Perago.Publication
import Perago.Pydantic.Interpreter
import Perago.Pydantic.Models
import Perago.Pydantic.ReadBack
import Perago.Python
import Perago.Result
import Perago.ResultContract
import Perago.Segments
import Perago.StagingCleanup
import Perago.Startup
import Perago.SupervisorLock
import Perago.TaskControls
import Perago.TaskLoading
import Perago.TaskModule
import Perago.Taskdef.Acceptance
import Perago.Taskdef.Document
import Perago.Taskdef.Emitted
import Perago.Taskdef.ExtraPolicy
import Perago.Taskdef.InlineRefs
import Perago.Taskdef.Inlined
import Perago.Taskdef.InputContract
import Perago.Taskdef.Metadata
import Perago.Taskdef.ModelGraph
import Perago.Taskdef.Positions
import Perago.Taskdef.Schema
import Perago.Taskdef.ServedTask
import Perago.Transition.Machine
import Perago.Traversal.Worklist
import Perago.WorkerIdentity
import Perago.Workspace.Confinement
import Perago.Workspace.Disk
import Perago.Workspace.Gc
import Perago.Workspace.GcDue
import Perago.Workspace.GcIsolation
import Perago.Workspace.GcRuns
import Perago.Workspace.GcScope
import Perago.Workspace.Lifecycle
import Perago.Workspace.Objects
import Perago.Workspace.Paths
import Perago.Workspace.PrefixScope
import Perago.Workspace.Snapshot
import Perago.Workspace.Sync
