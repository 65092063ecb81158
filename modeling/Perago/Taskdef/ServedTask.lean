import Perago.Config
import Perago.Taskdef.Document

/-!
# TaskDefs and attempts

What the TaskDef of a task tells of its attempts: the keys without which an
attempt fails before it does anything, and the keys and the schema of every
completed output.
-/

namespace Perago.Taskdef

open Effect

variable {M σ : Type}

/-! ## Attempts of a decorated task -/

/-- A decorated task in the process that serves it, with its models and its function. -/
structure ServedTask (M σ : Type) where
  definition : TaskModule.TaskDefinition M
  validateParams : PyValue → Except PyException PyValue
  validateResult : PyValue → Except PyException PyValue
  fn : Option Path → PyValue → Option (MetricRecorder σ) → Proc PyException σ PyValue

/-- The arguments of `execute_polled_task`, the task apart. The workspace runtime comes with
the callback for the current attempt, and the input is a JSON object. -/
structure PolledCall (σ : Type) where
  attempt : ConductorRuntime.ConductorTaskAttempt
  inputData : Members
  workspaceRoot : Path
  ownerWorkerId : Option String
  executionId : Option String
  failureReasonMaxLength : MaxLength
  workspaceRuntime : Option (WorkspaceCallbacks σ)
  metrics : Option (MetricRecorder σ)
  nestingLimit : Nat

def requireWorkspaceRuntime (runtime : Option (WorkspaceCallbacks σ)) :
    Except PyException (WorkspaceCallbacks σ) :=
  match runtime with
  | some runtime => .ok runtime
  | none => .error (runtimeConfigError "workspace runtime is required for workspace tasks")

namespace ServedTask

variable (t : ServedTask M σ) (call : PolledCall σ)

def metricSpec : Option MetricSpec :=
  t.definition.metrics.map fun spec => { workspaceIo := spec.workspaceIo }

def workspaceAttempt (callbacks : WorkspaceCallbacks σ) : WorkspaceAttempt σ where
  task :=
    { name := t.definition.name
      workspace := t.definition.workspace
      metrics := t.metricSpec
      validateParams := t.validateParams
      validateResult := t.validateResult
      fn := fun workspaceDir => t.fn (some workspaceDir) }
  inputData := pyValue (.obj call.inputData)
  attempt := call.attempt
  workspaceRoot := call.workspaceRoot
  callbacks := callbacks
  ownerWorkerId := call.ownerWorkerId
  executionId := call.executionId
  metrics := call.metrics
  failureReasonMaxLength := call.failureReasonMaxLength
  nestingLimit := call.nestingLimit

def workspaceFreeAttempt : WorkspaceFreeAttempt σ where
  task :=
    { metrics := t.metricSpec
      validateParams := t.validateParams
      validateResult := t.validateResult
      fn := t.fn none }
  inputData := pyValue (.obj call.inputData)
  metrics := call.metrics
  failureReasonMaxLength := call.failureReasonMaxLength
  nestingLimit := call.nestingLimit

/-- The dispatch of `execute_polled_task`. -/
def polled : Except PyException (PolledTask σ) :=
  if t.definition.hasWorkspace then do
    let callbacks ← requireWorkspaceRuntime call.workspaceRuntime
    return .workspace (t.workspaceAttempt call callbacks)
  else return .workspaceFree (t.workspaceFreeAttempt call)

/-- `execute_polled_task`, its histogram apart. -/
def run (host : Host σ) : Proc PyException σ RuntimeTaskResult := do
  let task ← .ofExcept (t.polled call)
  executePolledTask host task

/-- The world after an attempt that only registers and unregisters its owner. -/
def idle (host : Host σ) (s : σ) : PolledTask σ → σ
  | .workspace a =>
    let (_, owner, u) := openAttempt host a s
    host.unregisterOwner owner.token u
  | .workspaceFree _ => s

end ServedTask

/-! ## Completed attempts -/

section

variable {host : Host σ} {a : WorkspaceAttempt σ} {r : RuntimeTaskResult} {s u : σ}

/-- The output of an attempt that completed with a validated result. -/
inductive CompletedOutput (validateResult : PyValue → Except PyException PyValue) :
    Bool → RuntimeTaskResult → Prop where
  | workspace {raw result : PyValue} (output : WorkspaceOutput) :
    validateResult raw = .ok result → CompletedOutput validateResult true
      (completedResult [(.str "workspace", output.modelDump), (.str "result", result)])
  | workspaceFree {raw result : PyValue} : validateResult raw = .ok result →
    CompletedOutput validateResult false (completedResult [(.str "result", result)])

theorem invokeWorkspaceTaskBody_result {spec : WorkspaceSpec} {dir : Path} {F G : Frame σ}
    {result : PyValue} (h : invokeWorkspaceTaskBody host a spec dir F = (.ok result, G)) :
    ∃ raw, a.task.validateResult raw = .ok result := by
  obtain ⟨_, _, -, h⟩ := Proc.bind_ok_iff.mp h
  obtain ⟨_, _, -, h⟩ := Proc.bind_ok_iff.mp h
  obtain ⟨_, _, -, h⟩ := Proc.bind_ok_iff.mp h
  obtain ⟨_, _, -, h⟩ := Proc.bind_ok_iff.mp h
  obtain ⟨raw, _, -, h⟩ := Proc.bind_ok_iff.mp h
  obtain ⟨dumped, _, validated, h⟩ := Proc.bind_ok_iff.mp h
  obtain ⟨_, _, -, h⟩ := Proc.bind_ok_iff.mp h
  cases h
  exact ⟨raw, (Proc.ofExcept_ok_iff.mp validated).1⟩

theorem runBody_result {p : Prepared} {F G : Frame σ} {result : PyValue × Completion}
    (h : runBody host a p F = (.ok result, G)) :
    ∃ raw, a.task.validateResult raw = .ok result.1 := by
  obtain ⟨_, _, -, h⟩ := Proc.bind_ok_iff.mp h
  cases readOnly : p.spec.readOnly with
  | true =>
    simp only [readOnly, if_true] at h
    obtain ⟨_, _, -, h⟩ := Proc.bind_ok_iff.mp h
    obtain ⟨dumped, _, body, h⟩ := Proc.bind_ok_iff.mp h
    cases h
    exact invokeWorkspaceTaskBody_result body
  | false =>
    simp only [readOnly, Bool.false_eq_true, if_false] at h
    obtain ⟨_, _, -, h⟩ := Proc.bind_ok_iff.mp h
    obtain ⟨dumped, _, body, h⟩ := Proc.bind_ok_iff.mp h
    obtain ⟨_, _, -, h⟩ := Proc.bind_ok_iff.mp h
    obtain ⟨_, _, -, h⟩ := Proc.bind_ok_iff.mp h
    cases h
    exact invokeWorkspaceTaskBody_result body

theorem completeWith_result {p : Prepared} {F G : Frame σ} {ref : String} {result : PyValue}
    (h : completeWith p ref result F = (.ok r, G)) : ∃ output : WorkspaceOutput,
      r = completedResult [(.str "workspace", output.modelDump), (.str "result", result)] := by
  obtain ⟨output, _, -, h⟩ := Proc.bind_ok_iff.mp h
  cases h
  exact ⟨output, rfl⟩

theorem complete_result {p : Prepared} {F G : Frame σ} {result : PyValue} {c : Completion}
    (h : complete host a p result c F = (.ok r, G)) : ∃ output : WorkspaceOutput,
      r = completedResult [(.str "workspace", output.modelDump), (.str "result", result)] := by
  cases c with
  | readOnly => exact completeWith_result h
  | unchanged =>
    obtain ⟨_, _, -, h⟩ := Proc.bind_ok_iff.mp h
    obtain ⟨_, _, -, h⟩ := Proc.bind_ok_iff.mp h
    exact completeWith_result h
  | changed =>
    obtain ⟨_, _, -, h⟩ := Proc.bind_ok_iff.mp h
    obtain ⟨_, _, -, h⟩ := Proc.bind_ok_iff.mp h
    obtain ⟨_, _, -, h⟩ := Proc.bind_ok_iff.mp h
    obtain ⟨_, _, -, h⟩ := Proc.bind_ok_iff.mp h
    exact completeWith_result h

/-- A completed workspace attempt has found its input, and reports a validated result. -/
theorem workspace_completed (run : runWorkspaceTaskAttempt host a s = (.ok r, u))
    (completed : r.status = .completed) :
    CompletedOutput a.task.validateResult true r ∧
      ∃ values, wrappedInput a.inputData = .ok values := by
  unfold runWorkspaceTaskAttempt at run
  split at run
  · cases run
  next spec _ =>
  unfold runInFrame at run
  cases opens : openAttempt host a s with
  | mk execution rest =>
  obtain ⟨owner, opened⟩ := rest
  simp only [opens] at run
  cases guarded : guardedAttempt host a spec execution owner (.enter opened) with
  | mk o F =>
  rw [guarded] at run
  cases run
  obtain ⟨G, handled, -⟩ := Proc.tryFinally_ok_iff.mp guarded
  rw [Proc.tryExcept_ok_iff] at handled
  obtain block | ⟨exc, H, -, converted⟩ := handled
  · obtain ⟨p, _, begun, block⟩ := Proc.bind_ok_iff.mp block
    obtain ⟨result, _, body, block⟩ := Proc.bind_ok_iff.mp block
    obtain ⟨raw, validated⟩ := runBody_result body
    obtain ⟨output, rfl⟩ := complete_result block
    obtain ⟨values, _, found, -⟩ := Proc.bind_ok_iff.mp begun
    exact ⟨.workspace output validated, values, (Proc.ofExcept_ok_iff.mp found).1⟩
  · obtain ⟨converted, -⟩ := Proc.ofExcept_ok_iff.mp converted
    exact absurd completed (resultForException_not_completed converted)

theorem workspaceFree_completed {a : WorkspaceFreeAttempt σ}
    (run : runWorkspaceFreeTaskAttempt a s = (.ok r, u)) (completed : r.status = .completed) :
    CompletedOutput a.task.validateResult false r ∧
      ∃ value, paramsInput a.inputData = .ok value := by
  rw [runWorkspaceFreeTaskAttempt, Proc.tryExcept_ok_iff] at run
  obtain block | ⟨exc, _, -, converted⟩ := run
  · obtain ⟨result, _, invoked, block⟩ := Proc.bind_ok_iff.mp block
    cases block
    obtain ⟨value, _, found, invoked⟩ := Proc.bind_ok_iff.mp invoked
    obtain ⟨_, _, -, invoked⟩ := Proc.bind_ok_iff.mp invoked
    have validated : ∃ raw, a.task.validateResult raw = .ok result := by
      cases wanted : a.task.metrics <;> cases given : a.metrics
      all_goals
        simp only [wanted, given] at invoked
        obtain ⟨raw, _, -, validated⟩ := Proc.bind_ok_iff.mp invoked
        exact ⟨raw, (Proc.ofExcept_ok_iff.mp validated).1⟩
    obtain ⟨raw, validated⟩ := validated
    exact ⟨.workspaceFree validated, value, (Proc.ofExcept_ok_iff.mp found).1⟩
  · obtain ⟨converted, -⟩ := Proc.ofExcept_ok_iff.mp converted
    exact absurd completed (resultForException_not_completed converted)

end

/-! ## Missing input -/

section

variable {host : Host σ} {s : σ}

/-- An attempt without its workspace or its params fails before it makes a directory. -/
theorem workspace_missing {a : WorkspaceAttempt σ} {spec : WorkspaceSpec}
    (served : a.task.workspace = some spec)
    (missing : wrappedInput a.inputData = .error missingInput) :
    runWorkspaceTaskAttempt host a s =
      (.ok (failedResult "workspace task input must contain workspace and params"
        a.failureReasonMaxLength), ServedTask.idle host s (.workspace a)) := by
  unfold runWorkspaceTaskAttempt ServedTask.idle
  simp only [served]
  rw [runInFrame]
  obtain ⟨execution, owner, u⟩ := openAttempt host a s
  have block : attemptBlock host a spec execution owner (.enter u) =
      (.error missingInput, .enter u) := by
    refine Proc.bind_of_error (Proc.bind_of_error ?_)
    rw [missing]
    rfl
  simp only [guardedAttempt, Proc.tryFinally, Proc.tryExcept, block]
  rfl

theorem workspaceFree_missing {a : WorkspaceFreeAttempt σ}
    (missing : a.inputData.get? "params" = none) :
    runWorkspaceFreeTaskAttempt a s =
      (.ok (failedResult "workspace-free task input must contain params"
        a.failureReasonMaxLength), s) := by
  have block : (do
      let result ← invokeWorkspaceFreeTask a
      return completedResult [(.str "result", result)] : Proc PyException σ RuntimeTaskResult) s =
      (.error (.mk' .taskInputError "workspace-free task input must contain params"), s) := by
    refine Proc.bind_of_error (Proc.bind_of_error ?_)
    rw [paramsInput, missing]
    rfl
  rw [runWorkspaceFreeTaskAttempt, Proc.tryExcept, block]
  rfl

end

/-! ## The published contract -/

/-- The keys and the schemas of the input and of the output that a TaskDef publishes. -/
structure Contract where
  inputKeys : List String
  outputKeys : List String
  inputSchema : Members
  outputSchema : Members

structure Contract.PublishedIn (c : Contract) (d : Members) : Prop where
  inputKeys : d.lookup "inputKeys" = some (.arr (c.inputKeys.map .str))
  outputKeys : d.lookup "outputKeys" = some (.arr (c.outputKeys.map .str))
  inputSchema : ∃ name, d.lookup "inputSchema" = some (schemaDocument name c.inputSchema)
  outputSchema : ∃ name, d.lookup "outputSchema" = some (schemaDocument name c.outputSchema)

def contractOf (task : TaskModule.TaskDefinition M) (workspaceInput workspaceOutput : Option Json)
    (params result : Json) : Contract where
  inputKeys := requiredKeys task "params"
  outputKeys := requiredKeys task "result"
  inputSchema := inputSchemaData workspaceInput params
  outputSchema := outputSchemaData workspaceOutput result

theorem published_document {task : TaskModule.TaskDefinition M}
    {workspaceInput workspaceOutput : Option Json} {params result : Json} :
    (contractOf task workspaceInput workspaceOutput params result).PublishedIn
      (document task workspaceInput workspaceOutput params result) where
  inputKeys := holds_document.inputKeys
  outputKeys := holds_document.outputKeys
  inputSchema := by
    refine ⟨task.name ++ ".input", ?_⟩
    rw [lookup_document, lookup_controlFields]
    rfl
  outputSchema := by
    refine ⟨task.name ++ ".output", ?_⟩
    rw [lookup_document, lookup_controlFields]
    rfl

section

variable {t : ServedTask M σ} {call : PolledCall σ} {k : String}

/-- What an attempt asks of its input are the input keys. -/
theorem wrappedInput_ok_iff {xs : Members} (has : t.definition.hasWorkspace = true) :
    (∃ values, wrappedInput (pyValue (.obj xs)) = .ok values) ↔
      ∀ k ∈ requiredKeys t.definition "params", (xs.lookup k).isSome := by
  simp only [has, requiredKeys, wrappedInput, get?_pyValue_obj]
  cases h : xs.lookup "workspace" <;> cases h' : xs.lookup "params" <;>
    simp [h, h', -List.lookup_isSome_iff]

theorem paramsInput_ok_iff {xs : Members} (has : t.definition.hasWorkspace = false) :
    (∃ value, paramsInput (pyValue (.obj xs)) = .ok value) ↔
      ∀ k ∈ requiredKeys t.definition "params", (xs.lookup k).isSome := by
  simp only [has, requiredKeys, paramsInput, get?_pyValue_obj]
  cases h : xs.lookup "params" <;> simp [h, -List.lookup_isSome_iff]

/-- The attempt that is run is one of the kind that the task has. -/
theorem polled_eq_ok_iff {task : PolledTask σ} : t.polled call = .ok task ↔
    (t.definition.hasWorkspace = true ∧ ∃ callbacks, call.workspaceRuntime = some callbacks ∧
      task = .workspace (t.workspaceAttempt call callbacks)) ∨
    (t.definition.hasWorkspace = false ∧ task = .workspaceFree (t.workspaceFreeAttempt call)) := by
  unfold ServedTask.polled
  cases has : t.definition.hasWorkspace with
  | false => simpa [pure, Except.pure] using eq_comm
  | true =>
    cases given : call.workspaceRuntime with
    | none => simp [requireWorkspaceRuntime, bind, Except.bind]
    | some callbacks =>
      simpa [requireWorkspaceRuntime, bind, Except.bind, pure, Except.pure] using eq_comm

variable {host : Host σ} {s u : σ} {r : RuntimeTaskResult}

theorem run_of_polled {task : PolledTask σ} (polled : t.polled call = .ok task) :
    t.run call host s = executePolledTask host task s :=
  Proc.bind_of_ok (Proc.ofExcept_ok_iff.mpr ⟨polled, rfl⟩)

/-- An attempt that completes has had all its input keys. -/
theorem completed_of_run (run : t.run call host s = (.ok r, u))
    (completed : r.status = .completed) :
    CompletedOutput t.validateResult t.definition.hasWorkspace r ∧
      ∀ k ∈ requiredKeys t.definition "params", (call.inputData.lookup k).isSome := by
  obtain ⟨task, _, polled, run⟩ := Proc.bind_ok_iff.mp run
  obtain ⟨has, callbacks, -, rfl⟩ | ⟨has, rfl⟩ :=
    polled_eq_ok_iff.mp (Proc.ofExcept_ok_iff.mp polled).1
  · obtain ⟨output, found⟩ := workspace_completed run completed
    rw [has]
    exact ⟨output, (wrappedInput_ok_iff has).mp found⟩
  · obtain ⟨output, found⟩ := workspaceFree_completed run completed
    rw [has]
    exact ⟨output, (paramsInput_ok_iff has).mp found⟩

/-- An attempt that lacks an input key fails before it calls anything. -/
theorem run_of_missing {task : PolledTask σ} (polled : t.polled call = .ok task)
    (missing : ¬ ∀ k ∈ requiredKeys t.definition "params", (call.inputData.lookup k).isSome) :
    ∃ reason, t.run call host s =
      (.ok (failedResult reason call.failureReasonMaxLength), ServedTask.idle host s task) := by
  rw [run_of_polled polled]
  obtain ⟨has, callbacks, -, rfl⟩ | ⟨has, rfl⟩ := polled_eq_ok_iff.mp polled
  · rw [← wrappedInput_ok_iff has] at missing
    obtain ⟨spec, served⟩ := Option.isSome_iff_exists.mp has
    refine ⟨_, workspace_missing (a := t.workspaceAttempt call callbacks) served ?_⟩
    change wrappedInput (pyValue (.obj call.inputData)) = _
    unfold wrappedInput at missing ⊢
    split at missing
    · exact absurd ⟨_, rfl⟩ missing
    · rfl
  · rw [← paramsInput_ok_iff has] at missing
    refine ⟨_, workspaceFree_missing (a := t.workspaceFreeAttempt call) ?_⟩
    change (pyValue (.obj call.inputData)).get? "params" = none
    cases found : (pyValue (.obj call.inputData)).get? "params" with
    | none => rfl
    | some value => exact absurd ⟨value, by rw [paramsInput, found]⟩ missing

/-- The model of the result dumps what the published result schema accepts. -/
def ServedTask.ResultsAccepted (t : ServedTask M σ) (search : String → String → Prop)
    (ref : String → Json → Prop) (outputSchema : Members) : Prop :=
  ∀ schema, schemaUnder outputSchema "properties" "result" = some schema →
    ∀ raw value, t.validateResult raw = .ok value →
      ∃ w, value = pyValue w ∧ accepts search unset ref schema w

/-- A completed output has the output keys in their order, and is a document that the output
schema accepts where the result is. -/
theorem output_of_completed {workspaceOutput : Option Json} {schema : Json}
    (emitted : workspaceOutput =
      if t.definition.hasWorkspace then some (.obj emittedRefSchema) else none)
    (h : CompletedOutput t.validateResult t.definition.hasWorkspace r) :
    ∃ output, r.output = some (.dict output) ∧
      output.map (·.1) = (requiredKeys t.definition "result").map .str ∧
      ∀ search ref, t.ResultsAccepted search ref (outputSchemaData workspaceOutput schema) →
        ∃ document, output = pyMembers document ∧
          accepts search unset ref (.obj (outputSchemaData workspaceOutput schema))
            (.obj document) := by
  generalize has : t.definition.hasWorkspace = workspace at emitted h
  subst emitted
  cases h with
  | workspace output validated =>
    refine ⟨_, rfl, by simp [requiredKeys, has], fun search ref results => ?_⟩
    obtain ⟨w, rfl, accepted⟩ := results schema rfl _ _ validated
    refine ⟨taskOutput (some output.document) w, rfl, ?_⟩
    have valid : WorkspaceRef.validate (pyValue output.document) = .ok output :=
      output.validate_modelDump
    have both : ∀ w ∈ some (Json.obj emittedRefSchema, output.document),
        accepts search unset ref w.1 w.2 := by
      rintro _ ⟨⟩
      exact accepts_emittedRef_iff_validates.mpr (.inl ⟨output, valid⟩)
    exact outputSchemaData_accepts accepted both
  | workspaceFree validated =>
    refine ⟨_, rfl, by simp [requiredKeys, has], fun search ref results => ?_⟩
    obtain ⟨w, rfl, accepted⟩ := results schema rfl _ _ validated
    have both : ∀ w ∈ (none : Option (Json × Json)), accepts search unset ref w.1 w.2 := by
      rintro _ ⟨⟩
    exact ⟨taskOutput none w, rfl, outputSchemaData_accepts accepted both⟩

end

theorem workspaceSchema_eq {task : TaskModule.TaskDefinition M} {stack : Nat}
    {generated : Members} {schema : Option Json} (documented : IsWorkspaceRefSchema generated)
    (built : workspaceSchema stack task generated = .ok schema) :
    schema = if task.hasWorkspace then some (.obj emittedRefSchema) else none := by
  unfold workspaceSchema at built
  cases has : task.hasWorkspace with
  | false =>
    rw [has] at built
    exact (Except.ok.inj built).symm
  | true =>
    rw [has, if_pos rfl] at built
    obtain ⟨emitted, generates, rfl⟩ := ok_of_map built
    rw [emitted_of_schemaForModel documented generates]
    rfl

/-- A workspace task with metrics, limits and a publish budget; its params model is `false`, its
output model is `true`. -/
def featuresTask : TaskModule.TaskDefinition Bool where
  name := "features_build"
  ownerEmail := "data@example.com"
  fn := { module := "app.workers.features_build", coroutine := false,
          parameters := [⟨"workspace", .positionalOrKeyword, false⟩,
            ⟨"params", .positionalOrKeyword, false⟩, ⟨"metrics", .positionalOrKeyword, false⟩],
          typeHints := .ok [("workspace", .path), ("params", .model false),
            ("metrics", .metricRecorder), ("return", .model true)] }
  paramsModel := false
  outputModel := true
  strictParams := true
  description := some "Build the features of a song."
  workspace := some ⟨rootPrefix, [], [], false⟩
  metrics := some {}
  controls :=
    { timeout := { responseSeconds := 900 }
      limits := { concurrentExecLimit := some 4, rateLimitFrequencyInSeconds := some 60
                  rateLimitPerFrequency := some 10, paired := rfl }
      publishBudget := some
        { observedMergeP99Seconds := 20, safetyMarginSeconds := 10
          lakefsMergeTimeoutSeconds := 30, conductorCompletionTimeoutSeconds := 10
          workerShutdownGraceSeconds := 20, heartbeatIntervalSeconds := 5
          merge_pos := by decide, completion_pos := by decide, grace_pos := by decide
          heartbeat_pos := by decide, covers := by decide } }

def featuresClasses (output : Bool) : ModelClass Bool where
  name := if output then "Features" else "FeaturesParams"
  modelFields := [(if output then "count" else "song", .mk none [] none)]
  hasConfig := false
  isRootModel := false

def fieldType (output : Bool) : String := if output then "integer" else "string"

/-- The schemas of the two models, with one field each. -/
def featuresSchema (output : Bool) : Members :=
  let field := if output then "count" else "song"
  [("properties", .obj [(field, .obj [("title", .str field), ("type", .str (fieldType output))])]),
    ("required", .arr [.str field]), ("title", .str (featuresClasses output).name),
    ("type", .str "object")]

/-- A schema of the two models in the TaskDef. -/
def featuresEmitted (output : Bool) : Json :=
  let field := if output then "count" else "song"
  .obj [("properties", .obj [(field, .obj [("type", .str (fieldType output))])]),
    ("required", .arr [.str field]), ("type", .str "object"),
    ("additionalProperties", .bool false)]

def inputRefSchema : Members := workspaceRefSchema "WorkspaceInput" "A workspace to download."

def outputRefSchema : Members := workspaceRefSchema "WorkspaceOutput" "A published workspace."

def featuresDocument : Members :=
  document featuresTask (some (.obj emittedRefSchema)) (some (.obj emittedRefSchema))
    (featuresEmitted false) (featuresEmitted true)

theorem featuresTask_plain : validateNoRootTaskModels featuresClasses featuresTask = .ok () :=
  validateNoRootTaskModels_eq_ok_iff.mpr fun _ _ => rfl

theorem featuresTask_built : buildTaskdef 4 featuresClasses featuresSchema inputRefSchema
    outputRefSchema featuresTask = .ok featuresDocument := by
  rw [buildTaskdef, featuresTask_plain]
  rfl

/-- It returns three features, whatever it is called with. -/
def featuresServed : ServedTask Bool LocalTree where
  definition := featuresTask
  validateParams := .ok
  validateResult _ := .ok (pyValue (.obj [("count", .num 3)]))
  fn _ _ _ := pure .none

def featuresCall : PolledCall LocalTree where
  attempt := ConductorRuntime.someAttempt
  inputData := [("workspace", .obj [("repository", .str "songs"), ("branch", .str "main"),
    ("refType", .str "commit"), ("ref", .str "A")]), ("params", .obj [("song", .str "one")])]
  workspaceRoot := []
  ownerWorkerId := none
  executionId := none
  failureReasonMaxLength := defaultMaxLength
  workspaceRuntime := some
    { downloadWorkspace := fun _ _ _ => pure ()
      loadCurrentAttempt := pure
      stageWorkspace := fun _ i _ task => pure ⟨i.repository, stagingBranchName task, "C"⟩
      publishWorkspace := fun staged _ _ _ => pure staged.commit
      cleanupStaging := fun _ => pure ()
      completeNoopWorkspace := some fun i _ _ => pure i.ref }
  metrics := some
    { runtimeTimerEnter := fun _ tree => tree, runtimeTimerExit := fun _ tree => tree
      runtimeHistogram := fun _ _ tree => tree }
  nestingLimit := 900

theorem featuresEmitted_accepts (search : String → String → Prop) (ref : String → Json → Prop) :
    accepts search unset ref (featuresEmitted true) (.obj [("count", .num 3)]) := by
  have only : OnlyKeywords ["type", "properties", "required", "additionalProperties"]
      [("properties", .obj [("count", .obj [("type", .str "integer")])]),
        ("required", .arr [.str "count"]), ("type", .str "object"),
        ("additionalProperties", .bool false)] := by
    intro k _ other
    apply lookup_eq_none_of_not_mem
    simp at other ⊢
    tauto
  refine accepts_object only rfl rfl rfl (by simp [textsOf]) ?_
  intro name x hx
  obtain ⟨rfl, rfl⟩ : name = "count" ∧ x = .num 3 := by simpa using mem_of_lookup hx
  have typed : OnlyKeywords ["type"] [("type", .str "integer")] := by
    intro k _ other
    apply lookup_eq_none_of_not_mem
    simpa using other
  refine ⟨_, rfl, accepts_separate typed (by decide) rfl fun k hk arg harg => ?_⟩
  obtain rfl : k = "type" := by simpa using hk
  obtain rfl := Option.some.inj harg
  exact keywordHolds_type rfl

end Perago.Taskdef
