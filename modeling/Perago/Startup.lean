import Perago.TaskLoading
import Perago.Taskdef.ServedTask
import Perago.WorkerIdentity

/-!
# Starting workers

`perago start` compares the configuration with the task before it starts a supervisor, and
every process of the supervisor does so again for what it needs itself. The gate asks for
exactly what the processes ask for, and for an instance id besides.
-/

namespace Perago.Startup

open TaskModule (Statement Process)

variable {M : Type}

/-! ## The processes of a supervisor -/

def requireConductor (config : RuntimeConfig) : Except PyException ConductorConfig :=
  match config.conductor with
  | none => .error (runtimeConfigError "CONDUCTOR_SERVER_URL is required for perago start")
  | some conductor => .ok conductor

def missingMetrics : PyException := runtimeConfigError
  "OTEL_EXPORTER_OTLP_METRICS_ENDPOINT is required for metrics-enabled tasks"

/-- The settings of an `OtelMetricRecorder`, where one is wanted. -/
def recorderFor (wanted : Bool) (config : RuntimeConfig) :
    Except PyException (Option MetricsConfig) :=
  if wanted then
    match config.metrics with
    | none => .error missingMetrics
    | some metrics => .ok (some metrics)
  else .ok none

/-- What `LakeFSWorkspaceRuntime.from_config` is given. -/
structure LakefsSetup where
  config : LakeFSConfig
  publishBudget : Option PublishBudget

def missingLakefs : PyException :=
  runtimeConfigError "LakeFS config is required for workspace tasks"

def lakefsRuntimeForTask (task : TaskModule.TaskDefinition M) (config : RuntimeConfig) :
    Except PyException (Option LakefsSetup) :=
  if task.hasWorkspace then
    match config.lakefs with
    | none => .error missingLakefs
    | some lakefs => .ok (some
      { config := lakefs
        publishBudget :=
          if task.workspace.any (·.readOnly) then none else task.controls.publishBudget })
  else .ok none

/-- `task.metrics.worker_capacity`, for a task with metrics. -/
def wantsCapacity (task : TaskModule.TaskDefinition M) : Bool :=
  task.metrics.any (·.workerCapacity)

def peragoInstanceId (config : RuntimeConfig) : Option Text :=
  config.metrics.bind (·.instanceId)

/-- What a process finds when it comes up, its module apart. The clients and recorders that it
makes are taken to be made from any settings. -/
structure ChildHost where
  inherited : Env
  pid : Nat
  startedAt : String
  logRoot : Path

structure BrokerSetup where
  workerId : Text
  conductor : ConductorConfig
  capacityMetrics : Option MetricsConfig
  peragoInstanceId : Option Text
  failureReasonMaxLength : Nat

structure ExecutorSetup where
  workerId : Text
  workspaceRoot : Text
  workspaceRuntime : Option LakefsSetup
  metrics : Option MetricsConfig
  failureReasonMaxLength : Nat

structure ThreadSetup where
  workerId : Text
  conductor : ConductorConfig
  workspaceRoot : Text
  workspaceRuntime : Option LakefsSetup
  metrics : Option MetricsConfig
  capacityMetrics : Option MetricsConfig
  peragoInstanceId : Option Text
  failureReasonMaxLength : Nat

section

variable (host : ChildHost) (config : RuntimeConfig) (moduleTarget : Text)
  (load : Except PyException (TaskModule.TaskDefinition M))

/-- `_broker_process_main`, up to the call that serves. -/
def brokerProcessMain : Except PyException BrokerSetup := do
  let task ← load
  let runtime ← prepareWorkerRuntime host.logRoot moduleTarget
    (host.inherited.update (brokerEnvironment config.workerIdPrefix)) host.pid host.startedAt
  let conductor ← requireConductor config
  let capacityMetrics ← recorderFor (wantsCapacity task) config
  return {
    workerId := runtime.workerId
    conductor := conductor
    capacityMetrics := capacityMetrics
    peragoInstanceId := peragoInstanceId config
    failureReasonMaxLength := config.failureReasonMaxLength }

/-- `_process_executor_main`, up to the loop. -/
def processExecutorMain (childEnv : Env) : Except PyException ExecutorSetup := do
  let task ← load
  let runtime ← prepareWorkerRuntime host.logRoot moduleTarget
    (host.inherited.update childEnv) host.pid host.startedAt
  let lakefs ← lakefsRuntimeForTask task config
  let metrics ← recorderFor task.metrics.isSome config
  return {
    workerId := runtime.workerId
    workspaceRoot := config.workspaceRoot
    workspaceRuntime := lakefs
    metrics := metrics
    failureReasonMaxLength := config.failureReasonMaxLength }

/-- `_thread_runner_main`, up to the call that runs. -/
def threadRunnerMain : Except PyException ThreadSetup := do
  let task ← load
  let runtime ← prepareWorkerRuntime host.logRoot moduleTarget
    (host.inherited.update (brokerEnvironment config.workerIdPrefix)) host.pid host.startedAt
  let conductor ← requireConductor config
  let lakefs ← lakefsRuntimeForTask task config
  let metrics ← recorderFor task.metrics.isSome config
  return {
    workerId := runtime.workerId
    conductor := conductor
    workspaceRoot := config.workspaceRoot
    workspaceRuntime := lakefs
    metrics := metrics
    capacityMetrics := if wantsCapacity task then metrics else none
    peragoInstanceId := peragoInstanceId config
    failureReasonMaxLength := config.failureReasonMaxLength }

end

/-! ## The commands -/

/-- Where the commands run: the interpreter, the settings, the model classes of the task
module, what pydantic generates for them, and the Conductor server. `taskdefExists` makes the
client and asks it, and raises what either raises. -/
structure Site (M : Type) where
  isidentifier : Text → Bool
  probe : Text → Except PyException Unit
  tempRoot : Text
  processEnv : Env
  dotenvEnv : Env
  stack : Nat
  classes : M → Taskdef.ModelClass M
  modelJsonSchema : M → Members
  workspaceInputSchema : Members
  workspaceOutputSchema : Members
  taskdefExists : ConductorConfig → String → Except PyException Bool
  repr : String → String

/-- A command ends well, with a message on the standard error stream, or with a traceback. -/
inductive CommandEnd (α : Type) where
  | done (a : α)
  | failed (message : String)
  | escaped (exc : PyException)

def stopException : InlineStop → PyException
  | .recursion => .mk' (.other "RecursionError") "maximum recursion depth exceeded"
  | .raised exc => exc

section

variable [DecidableEq M] [Fintype M] (site : Site M)

def Site.loadConfig (target : String) : Except PyException RuntimeConfig :=
  loadRuntimeConfig site.probe (text target) site.tempRoot site.processEnv site.dotenvEnv true

def Site.loadTask (target : String) (source : Option (List (Statement M))) (p : Process M) :
    Except PyException (TaskModule.TaskDefinition M) × Process M :=
  Process.loadModuleTask site.isidentifier target source p

def Site.document (task : TaskModule.TaskDefinition M) : Except PyException Members :=
  (Taskdef.buildTaskdef site.stack site.classes site.modelJsonSchema site.workspaceInputSchema
    site.workspaceOutputSchema task).mapError stopException

variable (target : String) (source : Option (List (Statement M))) (p : Process M)

/-- The `try` block of `check`; that of `extract` writes the document besides. -/
def checkTask : Except PyException (RuntimeConfig × TaskModule.TaskDefinition M × Members) := do
  let config ← site.loadConfig target
  let task ← (site.loadTask target source p).1
  Taskdef.validateNoRootTaskModels site.classes task
  let document ← site.document task
  return (config, task, document)

def requireThat (condition : Bool) (exc : PyException) : Except PyException Unit :=
  if condition then .ok () else .error exc

/-- The `try` block of `start`. -/
def startChecks : Except PyException (RuntimeConfig × TaskModule.TaskDefinition M) := do
  let config ← site.loadConfig target
  let conductor ← requireConductor config
  let task ← (site.loadTask target source p).1
  requireThat (!task.hasWorkspace || config.lakefs.isSome) missingLakefs
  requireThat (!task.metrics.isSome || config.metrics.isSome) missingMetrics
  requireThat (!wantsCapacity task || (peragoInstanceId config).isSome) (runtimeConfigError
    "PERAGO_INSTANCE_ID is required when worker_capacity metrics are enabled")
  Taskdef.validateNoRootTaskModels site.classes task
  let _ ← site.document task
  let known ← site.taskdefExists conductor task.name
  requireThat known (runtimeConfigError ("Conductor TaskDef " ++ site.repr task.name ++
    " is not registered; run perago extract and register it before start"))
  return (config, task)

/-- The exceptions whose text a command reports as it is. An exception is an `Exception`: what
ends the interpreter, raised by the module that is loaded, passes through both commands. -/
def isReported (exc : PyException) : Bool :=
  exc.cls ∈ [.taskDefinitionError, .other "RuntimeConfigError", .validationError,
    .other "PydanticInvalidForJsonSchema"]

def message (exc : PyException) : String := exc.text.getD ""

def check : CommandEnd (RuntimeConfig × TaskModule.TaskDefinition M) :=
  match checkTask site target source p with
  | .ok (config, task, _) => .done (config, task)
  | .error exc => if isReported exc then .failed (message exc) else .escaped exc

/-- The arguments of the supervisor, where one is started. -/
def start (executionMode : Option ExecutionMode) :
    CommandEnd (RuntimeConfig × TaskModule.TaskDefinition M × ExecutionMode) :=
  match startChecks site target source p with
  | .ok (config, task) => .done (config, task, executionMode.getD config.executionMode)
  | .error exc =>
    if isReported exc then .failed (message exc)
    else .failed ("failed to validate Conductor TaskDef: " ++ message exc)

end

/-! ## What is asked for -/

variable {config : RuntimeConfig} {task : TaskModule.TaskDefinition M} {host : ChildHost}
  {moduleTarget : Text} {load : Except PyException (TaskModule.TaskDefinition M)}

/-- What a task needs of the configuration when it is served. -/
structure Runnable (config : RuntimeConfig) (task : TaskModule.TaskDefinition M) : Prop where
  conductor : config.conductor.isSome
  lakefs : task.hasWorkspace → config.lakefs.isSome
  metrics : task.metrics.isSome → config.metrics.isSome

theorem requireConductor_eq_ok_iff {conductor : ConductorConfig} :
    requireConductor config = .ok conductor ↔ config.conductor = some conductor := by
  unfold requireConductor
  cases config.conductor with
  | none => simp
  | some c => simp

theorem requireThat_eq_ok_iff {condition : Bool} {exc : PyException} :
    requireThat condition exc = .ok () ↔ condition = true := by
  cases condition <;> simp [requireThat]

theorem recorderFor_eq_ok_iff {wanted : Bool} {recorder : Option MetricsConfig} :
    recorderFor wanted config = .ok recorder ↔
      (wanted → config.metrics.isSome) ∧
        recorder = if wanted then config.metrics else none := by
  unfold recorderFor
  cases wanted with
  | false => simpa using eq_comm
  | true =>
    cases config.metrics with
    | none => simp
    | some metrics => simpa using eq_comm

/-- The LakeFS settings of a task that has a workspace. -/
def lakefsSetup (task : TaskModule.TaskDefinition M) (config : RuntimeConfig) :
    Option LakefsSetup :=
  if task.hasWorkspace then
    config.lakefs.map fun lakefs =>
      { config := lakefs
        publishBudget :=
          if task.workspace.any (·.readOnly) then none else task.controls.publishBudget }
  else none

theorem lakefsRuntimeForTask_eq_ok_iff {setup : Option LakefsSetup} :
    lakefsRuntimeForTask task config = .ok setup ↔
      (task.hasWorkspace → config.lakefs.isSome) ∧ setup = lakefsSetup task config := by
  unfold lakefsRuntimeForTask lakefsSetup
  cases task.hasWorkspace with
  | false => simpa using eq_comm
  | true =>
    cases config.lakefs with
    | none => simp
    | some lakefs => simpa using eq_comm

theorem wantsCapacity_metrics (h : wantsCapacity task = true) : task.metrics.isSome := by
  unfold wantsCapacity at h
  cases metrics : task.metrics with
  | none => simp [metrics] at h
  | some spec => rfl

/-! ## Processes that come up -/

/-- The broker has a recorder exactly for a task with capacity metrics. -/
structure BrokerSetup.Fits (broker : BrokerSetup) (config : RuntimeConfig)
    (task : TaskModule.TaskDefinition M) : Prop where
  workerId : broker.workerId = brokerWorkerId config.workerIdPrefix
  conductor : config.conductor = some broker.conductor
  capacityMetrics : broker.capacityMetrics = if wantsCapacity task then config.metrics else none
  recorder : broker.capacityMetrics.isSome = wantsCapacity task
  peragoInstanceId : broker.peragoInstanceId = Startup.peragoInstanceId config

/-- An executor has a recorder exactly for a task with metrics, and a LakeFS runtime exactly
for one with a workspace. -/
structure ExecutorSetup.Fits (executor : ExecutorSetup) (config : RuntimeConfig)
    (task : TaskModule.TaskDefinition M) (workerId : Option Text) : Prop where
  workerId : some executor.workerId = workerId
  workspaceRuntime : executor.workspaceRuntime = lakefsSetup task config
  lakefs : executor.workspaceRuntime.isSome = task.hasWorkspace
  recorder : executor.metrics.isSome = task.metrics.isSome

/-- The thread runner has what the broker and an executor have together. -/
structure ThreadSetup.Fits (runner : ThreadSetup) (config : RuntimeConfig)
    (task : TaskModule.TaskDefinition M) : Prop where
  workerId : runner.workerId = brokerWorkerId config.workerIdPrefix
  conductor : config.conductor = some runner.conductor
  workspaceRuntime : runner.workspaceRuntime = lakefsSetup task config
  lakefs : runner.workspaceRuntime.isSome = task.hasWorkspace
  recorder : runner.metrics.isSome = task.metrics.isSome
  capacity : runner.capacityMetrics.isSome = wantsCapacity task
  peragoInstanceId : runner.peragoInstanceId = Startup.peragoInstanceId config

theorem lakefsSetup_isSome (given : task.hasWorkspace → config.lakefs.isSome) :
    (lakefsSetup task config).isSome = task.hasWorkspace := by
  unfold lakefsSetup
  cases has : task.hasWorkspace with
  | false => simp
  | true => simpa using given has

theorem recorder_isSome {wanted : Bool} (given : wanted → config.metrics.isSome) :
    (if wanted then config.metrics else none).isSome = wanted := by
  cases wanted with
  | false => rfl
  | true => simpa using given

theorem ok_bind {α β : Type} {x : Except PyException α} {f : α → Except PyException β} {a : α}
    {b : β} (hx : x = .ok a) (hf : f a = .ok b) : x >>= f = .ok b := by
  rw [hx]
  exact hf

theorem fits_of_brokerProcessMain (valid : IsWorkerId config.workerIdPrefix)
    (found : load = .ok task) {broker : BrokerSetup}
    (main : brokerProcessMain host config moduleTarget load = .ok broker) :
    broker.Fits config task ∧ config.conductor.isSome ∧
      (wantsCapacity task → config.metrics.isSome) := by
  obtain ⟨_, same, main⟩ := ok_of_bind main
  obtain rfl := Except.ok.inj (found.symm.trans same)
  obtain ⟨runtime, prepared, main⟩ := ok_of_bind main
  obtain ⟨runtime', prepared', id, -⟩ := prepareWorkerRuntime_broker valid host.inherited
    host.logRoot moduleTarget host.pid host.startedAt
  obtain rfl := Except.ok.inj (prepared'.symm.trans prepared)
  obtain ⟨conductor, here, main⟩ := ok_of_bind main
  obtain ⟨_, recorded, main⟩ := ok_of_bind main
  obtain ⟨given, rfl⟩ := recorderFor_eq_ok_iff.mp recorded
  cases main
  rw [requireConductor_eq_ok_iff] at here
  exact ⟨⟨id, here, rfl, recorder_isSome given, rfl⟩, Option.isSome_of_eq_some here, given⟩

/-- The broker comes up for a configuration that has what it asks for. -/
theorem brokerProcessMain_iff (valid : IsWorkerId config.workerIdPrefix) (found : load = .ok task) :
    (∃ broker, brokerProcessMain host config moduleTarget load = .ok broker) ↔
      config.conductor.isSome ∧ (wantsCapacity task → config.metrics.isSome) := by
  constructor
  · rintro ⟨broker, main⟩
    exact (fits_of_brokerProcessMain valid found main).2
  · rintro ⟨hasConductor, given⟩
    obtain ⟨conductor, here⟩ := Option.isSome_iff_exists.mp hasConductor
    obtain ⟨runtime, prepared, -⟩ := prepareWorkerRuntime_broker valid host.inherited
      host.logRoot moduleTarget host.pid host.startedAt
    exact ⟨_, ok_bind found (ok_bind prepared (ok_bind (requireConductor_eq_ok_iff.mpr here)
      (ok_bind (recorderFor_eq_ok_iff.mpr ⟨given, rfl⟩) rfl)))⟩

theorem fits_of_processExecutorMain {childEnv : Env} {workerId : Text} (nonempty : workerId ≠ [])
    (own : childEnv "PERAGO_WORKER_ID" = some workerId) (found : load = .ok task)
    {executor : ExecutorSetup}
    (main : processExecutorMain host config moduleTarget load childEnv = .ok executor) :
    executor.Fits config task (some workerId) ∧ (task.hasWorkspace → config.lakefs.isSome) ∧
      (task.metrics.isSome → config.metrics.isSome) := by
  obtain ⟨_, same, main⟩ := ok_of_bind main
  obtain rfl := Except.ok.inj (found.symm.trans same)
  obtain ⟨runtime, prepared, main⟩ := ok_of_bind main
  obtain ⟨runtime', prepared', id, -⟩ := prepareWorkerRuntime_of_id nonempty own host.inherited
    host.logRoot moduleTarget host.pid host.startedAt
  obtain rfl := Except.ok.inj (prepared'.symm.trans prepared)
  obtain ⟨_, set, main⟩ := ok_of_bind main
  obtain ⟨stored, rfl⟩ := lakefsRuntimeForTask_eq_ok_iff.mp set
  obtain ⟨_, recorded, main⟩ := ok_of_bind main
  obtain ⟨given, rfl⟩ := recorderFor_eq_ok_iff.mp recorded
  cases main
  exact ⟨⟨congrArg some id, rfl, lakefsSetup_isSome stored, recorder_isSome given⟩, stored, given⟩

theorem processExecutorMain_iff {childEnv : Env} {workerId : Text} (nonempty : workerId ≠ [])
    (own : childEnv "PERAGO_WORKER_ID" = some workerId) (found : load = .ok task) :
    (∃ executor, processExecutorMain host config moduleTarget load childEnv = .ok executor) ↔
      (task.hasWorkspace → config.lakefs.isSome) ∧
        (task.metrics.isSome → config.metrics.isSome) := by
  constructor
  · rintro ⟨executor, main⟩
    exact (fits_of_processExecutorMain nonempty own found main).2
  · rintro ⟨stored, given⟩
    obtain ⟨runtime, prepared, -⟩ := prepareWorkerRuntime_of_id nonempty own host.inherited
      host.logRoot moduleTarget host.pid host.startedAt
    exact ⟨_, ok_bind found (ok_bind prepared
      (ok_bind (lakefsRuntimeForTask_eq_ok_iff.mpr ⟨stored, rfl⟩)
        (ok_bind (recorderFor_eq_ok_iff.mpr ⟨given, rfl⟩) rfl)))⟩

theorem fits_of_threadRunnerMain (valid : IsWorkerId config.workerIdPrefix)
    (found : load = .ok task) {runner : ThreadSetup}
    (main : threadRunnerMain host config moduleTarget load = .ok runner) :
    runner.Fits config task ∧ Runnable config task := by
  obtain ⟨_, same, main⟩ := ok_of_bind main
  obtain rfl := Except.ok.inj (found.symm.trans same)
  obtain ⟨runtime, prepared, main⟩ := ok_of_bind main
  obtain ⟨runtime', prepared', id, -⟩ := prepareWorkerRuntime_broker valid host.inherited
    host.logRoot moduleTarget host.pid host.startedAt
  obtain rfl := Except.ok.inj (prepared'.symm.trans prepared)
  obtain ⟨conductor, here, main⟩ := ok_of_bind main
  obtain ⟨_, set, main⟩ := ok_of_bind main
  obtain ⟨stored, rfl⟩ := lakefsRuntimeForTask_eq_ok_iff.mp set
  obtain ⟨_, recorded, main⟩ := ok_of_bind main
  obtain ⟨given, rfl⟩ := recorderFor_eq_ok_iff.mp recorded
  cases main
  rw [requireConductor_eq_ok_iff] at here
  have recorder := recorder_isSome given
  refine ⟨⟨id, here, rfl, lakefsSetup_isSome stored, recorder, ?_, rfl⟩,
    Option.isSome_of_eq_some here, stored, given⟩
  cases capacity : wantsCapacity task with
  | false => rfl
  | true => exact recorder.trans (wantsCapacity_metrics capacity)

theorem threadRunnerMain_iff (valid : IsWorkerId config.workerIdPrefix) (found : load = .ok task) :
    (∃ runner, threadRunnerMain host config moduleTarget load = .ok runner) ↔
      Runnable config task := by
  constructor
  · rintro ⟨runner, main⟩
    exact (fits_of_threadRunnerMain valid found main).2
  · rintro ⟨hasConductor, stored, given⟩
    obtain ⟨conductor, here⟩ := Option.isSome_iff_exists.mp hasConductor
    obtain ⟨runtime, prepared, -⟩ := prepareWorkerRuntime_broker valid host.inherited
      host.logRoot moduleTarget host.pid host.startedAt
    exact ⟨_, ok_bind found (ok_bind prepared (ok_bind (requireConductor_eq_ok_iff.mpr here)
      (ok_bind (lakefsRuntimeForTask_eq_ok_iff.mpr ⟨stored, rfl⟩)
        (ok_bind (recorderFor_eq_ok_iff.mpr ⟨given, rfl⟩) rfl))))⟩

/-! ## The module in the processes -/

theorem loadModuleTask_of_imported {isidentifier : Text → Bool} {target : String}
    {source : Option (List (Statement M))} {p q : Process M}
    (valid : Process.isModuleTarget isidentifier target)
    (imported : Process.importModule target source p = (.ok (), q)) :
    Process.loadModuleTask isidentifier target source p =
      (Process.singleTask target (Process.uniqueTasks []
        ((q.tasksOf target).filter fun task => task.2.fn.module = target)), q) := by
  rw [Process.loadModuleTask, if_pos valid, imported]

theorem known_of_imported {target : String} {source : Option (List (Statement M))}
    {p q : Process M} (imported : Process.importModule target source p = (.ok (), q)) :
    target ∈ q.modules := by
  unfold Process.importModule at imported
  split at imported
  · next old =>
    cases imported
    exact old
  · split at imported
    · cases imported
    · split at imported
      · cases imported
      · cases imported
        exact List.mem_cons_self

/-- A process that loads the module once more gets the definition it has. -/
theorem loadModuleTask_again {isidentifier : Text → Bool} {target : String}
    {source : Option (List (Statement M))} {p : Process M}
    (found : (Process.loadModuleTask isidentifier target source p).1 = .ok task) :
    (Process.loadModuleTask isidentifier target source
      (Process.loadModuleTask isidentifier target source p).2).1 = .ok task := by
  by_cases valid : Process.isModuleTarget isidentifier target = true
  · cases imported : Process.importModule target source p with
    | mk result q =>
      cases result with
      | error exc =>
        rw [Process.loadModuleTask, if_pos valid, imported] at found
        cases found
      | ok done =>
        have again : Process.importModule target source q = (.ok (), q) :=
          if_pos (known_of_imported imported)
        rw [loadModuleTask_of_imported valid imported] at found ⊢
        rw [loadModuleTask_of_imported valid again]
        exact found
  · rw [Process.loadModuleTask, if_neg valid] at found
    cases found

/-! ## The gate -/

section

variable [DecidableEq M] [Fintype M] {site : Site M} {target : String}
  {source : Option (List (Statement M))} {p : Process M}

theorem startChecks_eq_ok_iff (loaded : site.loadConfig target = .ok config)
    (found : (site.loadTask target source p).1 = .ok task) :
    startChecks site target source p = .ok (config, task) ↔
      Runnable config task ∧ (wantsCapacity task → (peragoInstanceId config).isSome) ∧
      Taskdef.validateNoRootTaskModels site.classes task = .ok () ∧
      (∃ document, site.document task = .ok document) ∧
      ∃ conductor, config.conductor = some conductor ∧
        site.taskdefExists conductor task.name = .ok true := by
  constructor
  · intro started
    obtain ⟨_, same, started⟩ := ok_of_bind started
    obtain rfl := Except.ok.inj (loaded.symm.trans same)
    obtain ⟨conductor, here, started⟩ := ok_of_bind started
    obtain ⟨_, same, started⟩ := ok_of_bind started
    obtain rfl := Except.ok.inj (found.symm.trans same)
    obtain ⟨_, stored, started⟩ := ok_of_bind started
    obtain ⟨_, given, started⟩ := ok_of_bind started
    obtain ⟨_, instanced, started⟩ := ok_of_bind started
    obtain ⟨_, plain, started⟩ := ok_of_bind started
    obtain ⟨document, built, started⟩ := ok_of_bind started
    obtain ⟨known, exists_, started⟩ := ok_of_bind started
    obtain ⟨_, registered, -⟩ := ok_of_bind started
    rw [requireConductor_eq_ok_iff] at here
    replace stored := requireThat_eq_ok_iff.mp stored
    replace given := requireThat_eq_ok_iff.mp given
    replace instanced := requireThat_eq_ok_iff.mp instanced
    obtain rfl := requireThat_eq_ok_iff.mp registered
    refine ⟨⟨by rw [here]; rfl, ?_, ?_⟩, ?_, plain, ⟨document, built⟩, conductor, here, exists_⟩
    · intro has
      simpa [has] using stored
    · intro has
      simpa [has] using given
    · intro wants
      simpa [wants] using instanced
  · rintro ⟨runnable, instanced, plain, ⟨document, built⟩, conductor, here, exists_⟩
    refine ok_bind loaded (ok_bind (requireConductor_eq_ok_iff.mpr here) (ok_bind found
      (ok_bind (requireThat_eq_ok_iff.mpr ?_) (ok_bind (requireThat_eq_ok_iff.mpr ?_)
        (ok_bind (requireThat_eq_ok_iff.mpr ?_) (ok_bind plain (ok_bind built
          (ok_bind exists_ (ok_bind (requireThat_eq_ok_iff.mpr rfl) rfl)))))))))
    · cases has : task.hasWorkspace with
      | false => rfl
      | true => simpa using runnable.lakefs has
    · cases has : task.metrics.isSome with
      | false => rfl
      | true => simpa using runnable.metrics has
    · cases wants : wantsCapacity task with
      | false => rfl
      | true => simpa using instanced wants

theorem start_eq_done_iff {executionMode : Option ExecutionMode} {mode : ExecutionMode} :
    start site target source p executionMode = .done (config, task, mode) ↔
      startChecks site target source p = .ok (config, task) ∧
        mode = executionMode.getD config.executionMode := by
  unfold start
  cases startChecks site target source p with
  | error exc =>
    by_cases reported : isReported exc = true
    · simp [reported]
    · simp [reported]
  | ok started =>
    obtain ⟨config', task'⟩ := started
    simp only [CommandEnd.done.injEq, Prod.mk.injEq, Except.ok.injEq]
    constructor
    · rintro ⟨rfl, rfl, rfl⟩
      exact ⟨⟨rfl, rfl⟩, rfl⟩
    · rintro ⟨⟨rfl, rfl⟩, rfl⟩
      exact ⟨rfl, rfl, rfl⟩

/-- What `start` lets through, `check` lets through. -/
theorem check_of_started (loaded : site.loadConfig target = .ok config)
    (found : (site.loadTask target source p).1 = .ok task)
    (started : startChecks site target source p = .ok (config, task)) :
    check site target source p = .done (config, task) := by
  obtain ⟨-, -, plain, ⟨document, built⟩, -⟩ := (startChecks_eq_ok_iff loaded found).mp started
  have checked : checkTask site target source p = .ok (config, task, document) :=
    ok_bind loaded (ok_bind found (ok_bind plain (ok_bind built rfl)))
  rw [check, checked]

end

section

variable (site : Site M) (target : String) (source : Option (List (Statement M)))

/-- In thread mode: the one process comes up. -/
def ThreadsReady (c : Process M) (config : RuntimeConfig) (host : ChildHost) : Prop :=
  ∃ runner, threadRunnerMain host config (text target) (site.loadTask target source c).1 =
    .ok runner

/-- In process mode: the broker and all executors come up. -/
def ProcessesReady (c : Process M) (config : RuntimeConfig) (host : ChildHost)
    (specs : List WorkerChildSpec) : Prop :=
  (∃ broker, brokerProcessMain host config (text target) (site.loadTask target source c).1 =
    .ok broker) ∧
  ∀ spec ∈ specs, ∃ executor, processExecutorMain host config (text target)
    (site.loadTask target source c).1 spec.env = .ok executor

/-- Whichever process comes up has what its task asks for, and only that. -/
structure Equipped (c : Process M) (config : RuntimeConfig) (task : TaskModule.TaskDefinition M)
    (host : ChildHost) (specs : List WorkerChildSpec) : Prop where
  runner : ∀ runner, threadRunnerMain host config (text target) (site.loadTask target source c).1 =
    .ok runner → runner.Fits config task
  broker : ∀ broker, brokerProcessMain host config (text target) (site.loadTask target source c).1 =
    .ok broker → broker.Fits config task
  executor : ∀ spec ∈ specs, ∀ executor, processExecutorMain host config (text target)
    (site.loadTask target source c).1 spec.env = .ok executor →
      executor.Fits config task spec.workerId

variable {site target source}

theorem supervised_id (valid : IsWorkerId config.workerIdPrefix) {count : Nat}
    (positive : 0 < count) {specs : List WorkerChildSpec}
    (built : workerChildSpecs (supervisorEnvironment config) (text target) count = .ok specs) :
    specs ≠ [] ∧ ∀ spec ∈ specs, ∃ id, id ≠ [] ∧ spec.workerId = some id := by
  obtain ⟨specs', built', numbered, named⟩ :=
    workerChildSpecs_supervised valid (text target) positive
  obtain rfl := Except.ok.inj (built.symm.trans built')
  constructor
  · rintro rfl
    have length := congrArg List.length numbered
    simp only [List.map_nil, List.length_nil, List.length_range'] at length
    omega
  · intro spec mem
    obtain ⟨id, child, same⟩ := List.mem_map.mp (named ▸ List.mem_map_of_mem mem)
    exact ⟨id, (RuntimeConfig.isWorkerId valid (List.mem_cons_of_mem _ child)).nonempty,
      same.symm⟩

/-- There is an executor, and it asks for what the broker does not ask for. -/
theorem processesReady_iff (valid : IsWorkerId config.workerIdPrefix) {c : Process M}
    (found : (site.loadTask target source c).1 = .ok task) {count : Nat} (positive : 0 < count)
    {specs : List WorkerChildSpec}
    (built : workerChildSpecs (supervisorEnvironment config) (text target) count = .ok specs) :
    ProcessesReady site target source c config host specs ↔ Runnable config task := by
  obtain ⟨some_spec, own⟩ := supervised_id valid positive built
  unfold ProcessesReady
  rw [brokerProcessMain_iff valid found]
  constructor
  · rintro ⟨⟨hasConductor, -⟩, executors⟩
    obtain ⟨spec, mem⟩ := List.exists_mem_of_ne_nil specs some_spec
    obtain ⟨id, nonempty, here⟩ := own spec mem
    obtain ⟨stored, given⟩ :=
      (processExecutorMain_iff nonempty here found).mp (executors spec mem)
    exact ⟨hasConductor, stored, given⟩
  · rintro ⟨hasConductor, stored, given⟩
    refine ⟨⟨hasConductor, fun wants => given (wantsCapacity_metrics wants)⟩, ?_⟩
    intro spec mem
    obtain ⟨id, nonempty, here⟩ := own spec mem
    exact (processExecutorMain_iff nonempty here found).mpr ⟨stored, given⟩

theorem equipped (valid : IsWorkerId config.workerIdPrefix) {c : Process M}
    (found : (site.loadTask target source c).1 = .ok task) {count : Nat} (positive : 0 < count)
    {specs : List WorkerChildSpec}
    (built : workerChildSpecs (supervisorEnvironment config) (text target) count = .ok specs) :
    Equipped site target source c config task host specs where
  runner _ main := (fits_of_threadRunnerMain valid found main).1
  broker _ main := (fits_of_brokerProcessMain valid found main).1
  executor spec mem executor main := by
    obtain ⟨id, nonempty, here⟩ := (supervised_id valid positive built).2 spec mem
    rw [here]
    exact (fits_of_processExecutorMain nonempty here found main).1

end

def featuresDeclaration : TaskModule.Declaration where
  name := "features_build"
  ownerEmail := "data@example.com"
  description := some "Build the features of a song."
  workspace := .given ⟨rootPrefix, [], [], false⟩
  metrics := .given {}
  controls := .given Taskdef.featuresTask.controls
  strictParams := some true
  unsupported := []

def featuresEnv : Env :=
  ((((((Env.empty.set "CONDUCTOR_SERVER_URL" (text "http://conductor:8080/api")).set
    "PERAGO_WORKER_ID_PREFIX" (text "features")).set
    "LAKECTL_SERVER_ENDPOINT_URL" (text "http://lakefs:8000")).set
    "LAKECTL_CREDENTIALS_ACCESS_KEY_ID" (text "key")).set
    "LAKECTL_CREDENTIALS_SECRET_ACCESS_KEY" (text "secret")).set
    "OTEL_EXPORTER_OTLP_METRICS_ENDPOINT" (text "http://otel:4318/v1/metrics")).set
    "PERAGO_INSTANCE_ID" (text "one")

def featuresSite : Site Bool where
  isidentifier _ := true
  probe _ := .ok ()
  tempRoot := text "/tmp/perago"
  processEnv := featuresEnv
  dotenvEnv := Env.empty
  stack := 4
  classes := Taskdef.featuresClasses
  modelJsonSchema := Taskdef.featuresSchema
  workspaceInputSchema := Taskdef.inputRefSchema
  workspaceOutputSchema := Taskdef.outputRefSchema
  taskdefExists _ name := .ok (name = "features_build")
  repr name := "'" ++ name ++ "'"

def featuresConfig : RuntimeConfig :=
  { pingConfig with
    workerIdPrefix := text "features"
    conductor := some ⟨text "http://conductor:8080/api"⟩
    lakefs := some ⟨text "http://lakefs:8000", text "key", text "secret"⟩
    metrics := some
      { endpoint := text "http://otel:4318/v1/metrics", instanceId := some (text "one"),
        gzip := false, timeoutMillis := none, exportIntervalMillis := none } }

def featuresSource : Option (List (Statement Bool)) :=
  some [.decorated featuresDeclaration Taskdef.featuresTask.fn]

theorem featuresSite_document :
    featuresSite.document Taskdef.featuresTask = .ok Taskdef.featuresDocument :=
  congrArg (Except.mapError stopException) Taskdef.featuresTask_built

def featuresHost : ChildHost := ⟨Env.empty, 1, "now", []⟩

end Perago.Startup
