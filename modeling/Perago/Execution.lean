import Perago.Guards
import Mathlib.Algebra.GroupWithZero.Nat

/-!
# Workspace attempts

`run_workspace_task_attempt` over callbacks that may return, raise or take the
process down. The locals that its `finally` clause reads are kept in a frame,
together with the calls made so far.
-/

namespace Perago

open Effect
open ConductorRuntime (ConductorTaskAttempt)

/-! ## Parameters -/

structure StagedWorkspace where
  repository : String
  branch : String
  commit : String

/-- The labels of a runtime metric of one workspace operation. -/
structure RuntimeMetric where
  name : String
  taskName : String
  operation : String

/-- A recorder whose methods never raise. -/
structure MetricRecorder (σ : Type) where
  runtimeTimerEnter : RuntimeMetric → σ → σ
  runtimeTimerExit : RuntimeMetric → σ → σ
  runtimeHistogram : RuntimeMetric → Nat → σ → σ

/-- `MetricSpec`, as far as a workspace attempt reads it. -/
structure MetricSpec where
  workspaceIo : Bool

/-- A loaded task. The pydantic models are functions: `validateParams` with
`strict_params` applied, `validateResult` from a raw result to its JSON dump. -/
structure TaskDefinition (σ : Type) where
  name : String
  workspace : Option WorkspaceSpec
  metrics : Option MetricSpec
  validateParams : PyValue → Except PyException PyValue
  validateResult : PyValue → Except PyException PyValue
  fn : Path → PyValue → Option (MetricRecorder σ) → Proc PyException σ PyValue

structure WorkspaceCallbacks (σ : Type) where
  downloadWorkspace : WorkspaceInput → WorkspaceSpec → Path → Proc PyException σ Unit
  loadCurrentAttempt : ConductorTaskAttempt → Proc PyException σ ConductorTaskAttempt
  stageWorkspace : Path → WorkspaceInput → WorkspaceSpec → TaskExecutionContext →
    Proc PyException σ StagedWorkspace
  publishWorkspace : StagedWorkspace → WorkspaceInput → WorkspaceSpec → TaskExecutionContext →
    Proc PyException σ String
  cleanupStaging : StagedWorkspace → Proc PyException σ Unit
  completeNoopWorkspace : Option (WorkspaceInput → WorkspaceSpec → TaskExecutionContext →
    Proc PyException σ String)

/-- The arguments of `run_workspace_task_attempt`. -/
structure WorkspaceAttempt (σ : Type) where
  task : TaskDefinition σ
  inputData : PyValue
  attempt : ConductorTaskAttempt
  workspaceRoot : Path
  callbacks : WorkspaceCallbacks σ
  ownerWorkerId : Option String
  executionId : Option String
  metrics : Option (MetricRecorder σ)
  failureReasonMaxLength : MaxLength
  /-- The nested calls that the interpreter allows when an exception is handled. -/
  nestingLimit : Nat

/-! ## The frame of a call -/

inductive SnapshotEntry where
  | symlink (path target : Text)
  | file (path : Text) (digest : String)
  deriving DecidableEq

/-- What an attempt did, in order: its external calls and the call of the body, each with
what it returned or raised, its guardrail checks, the snapshots it took of a writable
workspace, and their comparison. -/
inductive Event where
  | download (outcome : Except PyException Unit)
  | snapshot (outcome : Except PyException (List SnapshotEntry))
  | guardrails (phase : GuardrailPhase) (outcome : Except PyException Unit)
  | body (outcome : Except PyException PyValue)
  | compared (changed : Bool)
  | loadCurrentAttempt (outcome : Except PyException ConductorTaskAttempt)
  | stage (outcome : Except PyException StagedWorkspace)
  | publish (staged : StagedWorkspace) (outcome : Except PyException String)
  | noop (outcome : Except PyException String)
  | cleanupStaging (staged : StagedWorkspace) (outcome : Except PyException Unit)

/-- `snapshotWorlds` are the worlds in which the snapshots were taken. -/
structure Frame (σ : Type) where
  world : σ
  events : List Event
  snapshotWorlds : List σ
  workspaceDir : Option Path
  staged : Option StagedWorkspace

variable {σ α : Type}

def Frame.enter (world : σ) : Frame σ :=
  { world := world, events := [], snapshotWorlds := [], workspaceDir := none, staged := none }

/-- A procedure of the world, run in a frame. -/
def Frame.lift (f : Proc PyException σ α) : Proc PyException (Frame σ) α :=
  .zoom Frame.world (fun w F => { F with world := w }) f

def Frame.note (e : Event) : Proc PyException (Frame σ) Unit :=
  .modify fun F => { F with events := F.events ++ [e] }

/-- A call that is recorded, with what it returned or raised. -/
def Frame.call (record : Except PyException α → Event) (f : Proc PyException σ α) :
    Proc PyException (Frame σ) α := do
  let a ← .tryExcept (lift f) fun exc => do
    note (record (.error exc))
    .raise exc
  note (record (.ok a))
  return a

variable (host : Host σ)

/-! ## Snapshots of the local workspace -/

/-- `_file_digest`. -/
def fileDigest (path : Path) : Proc PyException σ String := do
  let bytes ← host.readBytes path
  return host.sha256 bytes

/-- The loop body of `_snapshot_workspace`. -/
def snapshotEntry (workspaceDir : Path) (e : LocalEntry) :
    Proc PyException σ (Option SnapshotEntry) :=
  if pathName e.parts = attemptWorkspaceMarker then pure none
  else match e.kind with
    | .symlink => do
      let target ← host.readlink (workspaceDir ++ e.parts)
      return some (.symlink (joinSlash e.parts) target)
    | .file => do
      let digest ← fileDigest host (workspaceDir ++ e.parts)
      return some (.file (joinSlash e.parts) digest)
    | .directory | .special => pure none

/-- `_snapshot_workspace`. -/
def snapshotWorkspace (workspaceDir : Path) : Proc PyException σ (List SnapshotEntry) := do
  let tree ← host.rglob workspaceDir
  .gather (snapshotEntry host workspaceDir) (sortedEntries tree.entries)

/-- The loop body of `_workspace_file_bytes`. -/
def entryBytes (workspaceDir : Path) (e : LocalEntry) : Proc PyException σ (Option Nat) :=
  if e.kind ≠ .file ∨ pathName e.parts = attemptWorkspaceMarker then pure none
  else some <$> host.fileSize (workspaceDir ++ e.parts)

/-- `_workspace_file_bytes`. -/
def workspaceFileBytes (workspaceDir : Path) : Proc PyException σ Nat := do
  let tree ← host.rglob workspaceDir
  let sizes ← .gather (entryBytes host workspaceDir) tree.entries
  return sizes.sum

variable {host} {I : σ → Prop} {W : PyException → Prop} {C : σ → Prop}

theorem snapshotWorkspace_keeps (hh : host.Keeps I W C) (dir : Path) :
    Keeps I W C (snapshotWorkspace host dir) := by
  refine (hh.rglob dir).bind fun tree => .gather fun e => ?_
  unfold snapshotEntry
  split
  · exact .pure
  · cases e.kind with
    | symlink => exact (hh.readlink _).bind fun _ => .pure
    | file => exact ((hh.readBytes _).bind fun _ => .pure).bind fun _ => .pure
    | directory | special => exact .pure

theorem workspaceFileBytes_keeps (hh : host.Keeps I W C) (dir : Path) :
    Keeps I W C (workspaceFileBytes host dir) := by
  refine (hh.rglob dir).bind fun tree => .bind (.gather fun e => ?_) fun _ => .pure
  unfold entryBytes
  split
  · exact .pure
  · exact (hh.fileSize _).map

variable (host)

/-! ## The attempt fence -/

/-- What `assert_current_attempt_snapshot` asks of a fresh snapshot. -/
def CurrentAttempt (task fresh : ConductorTaskAttempt) : Prop :=
  fresh.status = "IN_PROGRESS" ∧ fresh.workflowInstanceId = task.workflowInstanceId ∧
    fresh.taskId = task.taskId ∧ fresh.retryCount = task.retryCount

instance (task fresh : ConductorTaskAttempt) : Decidable (CurrentAttempt task fresh) :=
  inferInstanceAs (Decidable (_ ∧ _))

/-- `StaleAttemptError(task.task_id)`. -/
def staleAttempt (task : ConductorTaskAttempt) : PyException :=
  .mk' .staleAttemptError task.taskId

/-- `assert_current_attempt_snapshot`. -/
def assertCurrentAttemptSnapshot (task fresh : ConductorTaskAttempt) : Except PyException Unit :=
  if CurrentAttempt task fresh then .ok () else .error (staleAttempt task)

/-! ## The task body -/

def missingInput : PyException :=
  .mk' .taskInputError "workspace task input must contain workspace and params"

def missingRecorder : PyException :=
  .mk' .taskInputError "metrics-enabled task invocation requires a MetricRecorder"

variable (a : WorkspaceAttempt σ)

/-- `input_data["workspace"]` and `input_data["params"]`, when both are there. -/
def wrappedInput (inputData : PyValue) : Except PyException (PyValue × PyValue) :=
  match inputData.get? "workspace", inputData.get? "params" with
  | some workspace, some params => .ok (workspace, params)
  | _, _ => .error missingInput

/-- The call of `task.fn`. -/
def invokeFn (workspaceDir : Path) (params : PyValue) : Proc PyException (Frame σ) PyValue :=
  match a.task.metrics, a.metrics with
  | none, _ => Frame.call .body (a.task.fn workspaceDir params none)
  | some _, none => .raise missingRecorder
  | some _, some metrics => Frame.call .body (a.task.fn workspaceDir params (some metrics))

/-- `_check_phase_guardrails`, recorded. -/
def checkGuardrailsPhase (workspaceDir : Path) (guardrails : List WorkspaceGuardrail)
    (phase : GuardrailPhase) : Proc PyException (Frame σ) Unit :=
  Frame.call (.guardrails phase) (checkPhaseGuardrails host workspaceDir guardrails phase)

/-- `invoke_workspace_task_body`: the dump of the validated result. -/
def invokeWorkspaceTaskBody (spec : WorkspaceSpec) (workspaceDir : Path) :
    Proc PyException (Frame σ) PyValue := do
  let (workspace, params) ← .ofExcept (wrappedInput a.inputData)
  let _ ← .ofExcept (WorkspaceRef.validate workspace)
  let params ← .ofExcept (a.task.validateParams params)
  checkGuardrailsPhase host workspaceDir spec.pre .pre
  let raw ← invokeFn a workspaceDir params
  let result ← .ofExcept (a.task.validateResult raw)
  checkGuardrailsPhase host workspaceDir spec.post .post
  return result

/-! ## Metrics around the callbacks -/

/-- `_workspace_io_metrics_enabled`: the recorder to use. -/
def workspaceIoMetrics : Option (MetricRecorder σ) :=
  if a.task.metrics.any (·.workspaceIo) then a.metrics else none

/-- `with metrics.runtime_timer(...)`: the timer records on an exception too. -/
def withRuntimeTimer (metrics : MetricRecorder σ) (operation : String)
    (f : Proc PyException (Frame σ) α) : Proc PyException (Frame σ) α := do
  let metric : RuntimeMetric := ⟨"workspace_io_duration_seconds", a.task.name, operation⟩
  Frame.lift (.modify (metrics.runtimeTimerEnter metric))
  .tryFinally f (Frame.lift (.modify (metrics.runtimeTimerExit metric)))

def recordWorkspaceIoBytes (metrics : MetricRecorder σ) (operation : String) (bytes : Nat) :
    Proc PyException (Frame σ) Unit :=
  Frame.lift (.modify (metrics.runtimeHistogram
    ⟨"workspace_io_bytes", a.task.name, operation⟩ bytes))

/-! ## The phases of an attempt -/

/-- The workspace of an attempt that is under way. -/
structure Prepared where
  spec : WorkspaceSpec
  input : WorkspaceInput
  workspaceDir : Path
  execution : TaskExecutionContext

/-- The first lines of the `try` block, up to the local workspace. -/
def beginAttempt (spec : WorkspaceSpec) (execution : TaskExecutionContext)
    (owner : WorkspaceOwner) : Proc PyException (Frame σ) Prepared := do
  let (workspace, _) ← .ofExcept (wrappedInput a.inputData)
  let input ← .ofExcept (WorkspaceRef.validate workspace)
  let workspaceDir ← Frame.lift (prepareAttemptWorkspace host a.workspaceRoot execution owner)
  .modify fun F => { F with workspaceDir := some workspaceDir }
  return { spec := spec, input := input, workspaceDir := workspaceDir, execution := execution }

variable (p : Prepared)

def callDownload : Proc PyException (Frame σ) Unit :=
  Frame.call .download (a.callbacks.downloadWorkspace p.input p.spec p.workspaceDir)

def downloadInput : Proc PyException (Frame σ) Unit :=
  match workspaceIoMetrics a with
  | some metrics => do
    withRuntimeTimer a metrics "download" (callDownload a p)
    let bytes ← Frame.lift (workspaceFileBytes host p.workspaceDir)
    recordWorkspaceIoBytes a metrics "download" bytes
  | none => callDownload a p

/-- `assert_current_attempt_snapshot(attempt, load_current_attempt(attempt))`. -/
def checkFence : Proc PyException (Frame σ) Unit := do
  let fresh ← Frame.call .loadCurrentAttempt (a.callbacks.loadCurrentAttempt a.attempt)
  .ofExcept (assertCurrentAttemptSnapshot a.attempt fresh)

/-- `staged = stage_workspace(...)`. -/
def callStage : Proc PyException (Frame σ) StagedWorkspace := do
  let staged ← Frame.call .stage
    (a.callbacks.stageWorkspace p.workspaceDir p.input p.spec p.execution)
  .modify fun F => { F with staged := some staged }
  return staged

def stageChanges : Proc PyException (Frame σ) StagedWorkspace :=
  match workspaceIoMetrics a with
  | some metrics => do
    let bytes ← Frame.lift (workspaceFileBytes host p.workspaceDir)
    let staged ← withRuntimeTimer a metrics "upload" (callStage a p)
    recordWorkspaceIoBytes a metrics "upload" bytes
    return staged
  | none => callStage a p

/-- The publish timer around the call that moves the target branch. -/
def withPublishTimer (f : Proc PyException (Frame σ) String) :
    Proc PyException (Frame σ) String :=
  match workspaceIoMetrics a with
  | some metrics => withRuntimeTimer a metrics "publish" f
  | none => f

def publishStaged (staged : StagedWorkspace) : Proc PyException (Frame σ) String :=
  withPublishTimer a (Frame.call (.publish staged)
    (a.callbacks.publishWorkspace staged p.input p.spec p.execution))

/-- `_complete_noop_workspace`. -/
def completeNoop : Proc PyException (Frame σ) String :=
  withPublishTimer a (match a.callbacks.completeNoopWorkspace with
    | some completeNoopWorkspace =>
      Frame.call .noop (completeNoopWorkspace p.input p.spec p.execution)
    | none => .raise (.mk' .taskInputError
        "complete_noop_workspace callback is required for writable no-op workspace completion"))

/-- The completed result of an attempt whose output ref is `ref`. -/
def completeWith (ref : String) (result : PyValue) :
    Proc PyException (Frame σ) RuntimeTaskResult := do
  let output ← .ofExcept (p.input.publishedOutput ref)
  return completedResult [(.str "workspace", output.modelDump), (.str "result", result)]

/-- How an attempt whose body succeeded completes. -/
inductive Completion where
  | readOnly
  | unchanged
  | changed
  deriving DecidableEq

/-- `_snapshot_workspace(workspace_dir)`, recorded. -/
def takeSnapshot (workspaceDir : Path) : Proc PyException (Frame σ) (List SnapshotEntry) := do
  .modify fun F => { F with snapshotWorlds := F.snapshotWorlds ++ [F.world] }
  Frame.call .snapshot (snapshotWorkspace host workspaceDir)

/-- From the download to the comparison of the snapshots. -/
def runBody : Proc PyException (Frame σ) (PyValue × Completion) := do
  downloadInput host a p
  let initialSnapshot ← if p.spec.readOnly then pure none
    else some <$> takeSnapshot host p.workspaceDir
  let result ← invokeWorkspaceTaskBody host a p.spec p.workspaceDir
  if p.spec.readOnly then return (result, .readOnly)
  else
    let finalSnapshot ← takeSnapshot host p.workspaceDir
    let changed := decide (some finalSnapshot ≠ initialSnapshot)
    Frame.note (.compared changed)
    return (result, if changed then .changed else .unchanged)

/-- The three completion paths. -/
def complete (result : PyValue) : Completion → Proc PyException (Frame σ) RuntimeTaskResult
  | .readOnly => completeWith p p.input.ref result
  | .unchanged => do
    checkFence a
    let ref ← completeNoop a p
    completeWith p ref result
  | .changed => do
    checkFence a
    let staged ← stageChanges host a p
    checkFence a
    let ref ← publishStaged a p staged
    completeWith p ref result

/-- The `try` block. -/
def attemptBlock (spec : WorkspaceSpec) (execution : TaskExecutionContext)
    (owner : WorkspaceOwner) : Proc PyException (Frame σ) RuntimeTaskResult := do
  let p ← beginAttempt host a spec execution owner
  let (result, completion) ← runBody host a p
  complete host a p result completion

/-- `_cleanup_staging_safely`: an exception is logged. -/
def cleanupStagingSafely (staged : StagedWorkspace) : Proc PyException (Frame σ) Unit :=
  .tryExcept (Frame.call (.cleanupStaging staged) (a.callbacks.cleanupStaging staged))
    fun _ => pure ()

/-- `if staged is not None` of the `finally` block. -/
def cleanupStaged : Proc PyException (Frame σ) Unit := do
  match ← .get Frame.staged with
  | some staged => cleanupStagingSafely a staged
  | none => pure ()

/-- `if workspace_dir is not None` of the `finally` block. -/
def cleanupLocal : Proc PyException (Frame σ) Unit := do
  match ← .get Frame.workspaceDir with
  | some workspaceDir => discard <| Frame.lift (cleanupAttemptWorkspaceSafely host workspaceDir)
  | none => pure ()

/-- The `finally` block. -/
def finishAttempt (owner : WorkspaceOwner) : Proc PyException (Frame σ) Unit := do
  cleanupStaged a
  cleanupLocal host
  Frame.lift (.modify (host.unregisterOwner owner.token))

/-- From the `try` statement to the end, in the frame of the call. -/
def guardedAttempt (spec : WorkspaceSpec) (execution : TaskExecutionContext)
    (owner : WorkspaceOwner) : Proc PyException (Frame σ) RuntimeTaskResult :=
  .tryFinally
    (.tryExcept (attemptBlock host a spec execution owner) fun exc =>
      .ofExcept (resultForException a.nestingLimit exc a.failureReasonMaxLength))
    (finishAttempt host a owner)

/-- What the call sets up before its `try` block: the execution and its owner. A new
id is drawn whenever `execution_id` is not a non-empty string. -/
def openAttempt (s : σ) : TaskExecutionContext × WorkspaceOwner × σ :=
  let (executionId, s) := match a.executionId with
    | some executionId => if executionId ≠ "" then (executionId, s) else host.uuid4Hex s
    | none => host.uuid4Hex s
  let workerId := match a.ownerWorkerId with
    | some workerId => if workerId ≠ "" then workerId else host.workerId
    | none => host.workerId
  let (owner, s) := newWorkspaceOwner host workerId s
  ({ attempt := a.attempt, executionId := executionId }, owner, host.registerOwner owner.token s)

/-- `run_workspace_task_attempt`, in its frame. -/
def runInFrame (spec : WorkspaceSpec) (s : σ) : Outcome PyException RuntimeTaskResult × Frame σ :=
  let (execution, owner, s) := openAttempt host a s
  guardedAttempt host a spec execution owner (.enter s)

/-- `run_workspace_task_attempt`. -/
def runWorkspaceTaskAttempt : Proc PyException σ RuntimeTaskResult := fun s =>
  match a.task.workspace with
  | none => (.error (.mk' .taskInputError
      "run_workspace_task_attempt only supports workspace tasks"), s)
  | some spec =>
    let (o, F) := runInFrame host a spec s
    (o, F.world)

/-! ## A task to run -/

/-- A task without guardrails that leaves the given tree behind. -/
def leavingTree {σ : Type} (leave : σ → σ) : TaskDefinition σ where
  name := "task"
  workspace := some ⟨rootPrefix, [], [], false⟩
  metrics := none
  validateParams := .ok
  validateResult := .ok
  fn _ _ _ := do
    .modify leave
    return .none

/-- The input of the example runs, from the given commit. -/
def inputFrom (ref : String) : PyValue :=
  .dict [(.str "workspace", .dict [(.str "repository", .str "repository"),
    (.str "branch", .str "main"), (.str "refType", .str "commit"), (.str "ref", .str ref)]),
    (.str "params", .dict [])]

end Perago
