import Perago.TaskControls

/-!
# Task modules

The decorator that turns a function into a task definition, and the call that an
attempt makes of that function.
-/

namespace Perago.TaskModule

/-! ## Functions -/

inductive ParameterKind where
  | positionalOnly
  | positionalOrKeyword
  | varPositional
  | keywordOnly
  | varKeyword
  deriving DecidableEq

structure Parameter where
  name : String
  kind : ParameterKind
  hasDefault : Bool

/-- A resolved annotation; `model` is a subclass of `BaseModel`. -/
inductive Hint (M : Type) where
  | path
  | metricRecorder
  | model (m : M)
  | other (repr : String)

/-- What the decorator inspects of a function. `typeHints` is the outcome of `get_type_hints`,
with the text of the exception when it raises one. -/
structure Function (M : Type) where
  module : String
  coroutine : Bool
  parameters : List Parameter
  typeHints : Except String (List (String × Hint M))

/-- An argument that is `None`, of the expected class, or of another one. -/
inductive Argument (α : Type) where
  | none
  | given (a : α)
  | other

structure MetricSpec where
  attempts : Bool := true
  workspaceIo : Bool := true
  workerCapacity : Bool := true

/-- The arguments of the decorator; `strictParams` is absent when it is not a `bool`, and
`unsupported` are the names of `**unsupported`. -/
structure Declaration where
  name : String
  ownerEmail : String
  description : Option String
  workspace : Argument WorkspaceSpec
  metrics : Argument MetricSpec
  controls : Argument TaskControls
  strictParams : Option Bool
  unsupported : List String

structure TaskDefinition (M : Type) where
  name : String
  ownerEmail : String
  fn : Function M
  paramsModel : M
  outputModel : M
  strictParams : Bool
  description : Option String
  workspace : Option WorkspaceSpec
  metrics : Option MetricSpec
  controls : TaskControls

def TaskDefinition.hasWorkspace {M : Type} (task : TaskDefinition M) : Bool :=
  task.workspace.isSome

/-! ## The decorator -/

def taskDefinitionError (text : String) : PyException := .mk' .taskDefinitionError text

def refuseIf (condition : Bool) (text : String) : Except PyException Unit :=
  if condition then .error (taskDefinitionError text) else .ok ()

variable {M : Type}

def Hint.isPath : Option (Hint M) → Bool
  | some .path => true
  | _ => false

def Hint.isMetricRecorder : Option (Hint M) → Bool
  | some .metricRecorder => true
  | _ => false

/-- `_is_pydantic_model`, with the class that it finds. -/
def Hint.pydanticModel? : Option (Hint M) → Option M
  | some (.model m) => some m
  | _ => none

/-- The `isinstance` check of an optional argument. -/
def Argument.checked {α : Type} (argument : Argument α) (text : String) :
    Except PyException (Option α) :=
  match argument with
  | none => .ok Option.none
  | given a => .ok (some a)
  | other => .error (taskDefinitionError text)

def validateRequiredMetadata (name ownerEmail : String) : Except PyException Unit := do
  refuseIf (isBlank name) "task name is required"
  refuseIf (name.toList.contains '/' || name.toList.contains '\\')
    "task name must not contain path separators"
  refuseIf (isBlank ownerEmail) "owner_email is required"

section

variable (hints : List (String × Hint M)) (workspace : Option WorkspaceSpec)
  (metrics : Option MetricSpec)

def validateWorkspaceSignature (first second : Parameter) : Except PyException Unit := do
  refuseIf (first.name != "workspace" || second.name != "params")
    "workspace task parameters must be named workspace and params"
  refuseIf (!Hint.isPath (hints.lookup "workspace"))
    "workspace must be annotated as pathlib.Path"
  refuseIf workspace.isNone "workspace task functions require workspace=WorkspaceSpec(...)"
  refuseIf metrics.isSome "metrics=MetricSpec(...) requires a metrics parameter"

def validateWorkspaceMetricsSignature (first second third : Parameter) :
    Except PyException Unit := do
  validateWorkspaceSignature hints workspace none first second
  refuseIf (third.name != "metrics") "metrics-enabled task parameter must be named metrics"
  refuseIf (!Hint.isMetricRecorder (hints.lookup "metrics"))
    "metrics must be annotated as perago.MetricRecorder"
  refuseIf metrics.isNone "metrics parameter requires metrics=MetricSpec(...)"

def validateWorkspaceFreeMetricsSignature (first second : Parameter) :
    Except PyException Unit := do
  refuseIf (first.name != "params" || second.name != "metrics")
    "metrics-enabled workspace-free task parameters must be named params and metrics"
  refuseIf workspace.isSome
    "workspace-free task functions must not declare workspace=WorkspaceSpec(...)"
  refuseIf (!Hint.isMetricRecorder (hints.lookup "metrics"))
    "metrics must be annotated as perago.MetricRecorder"
  refuseIf metrics.isNone "metrics parameter requires metrics=MetricSpec(...)"

def validateWorkspaceFreeSignature (first : Parameter) : Except PyException Unit := do
  refuseIf (first.name != "params") "workspace-free task parameter must be named params"
  refuseIf workspace.isSome
    "workspace-free task functions must not declare workspace=WorkspaceSpec(...)"
  refuseIf metrics.isSome "metrics=MetricSpec(...) requires a metrics parameter"

/-- The dispatch on the number of parameters. -/
def validateSignature : List Parameter → Except PyException Unit
  | [first, second, third] =>
    validateWorkspaceMetricsSignature hints workspace metrics first second third
  | [first, second] =>
    if first.name = "params" ∧ second.name = "metrics" then
      validateWorkspaceFreeMetricsSignature hints workspace metrics first second
    else validateWorkspaceSignature hints workspace metrics first second
  | [first] => validateWorkspaceFreeSignature workspace metrics first
  | _ => .error (taskDefinitionError ("task function must be exactly " ++
      "(workspace: Path, params: ParamsModel), " ++
      "(workspace: Path, params: ParamsModel, metrics: MetricRecorder), " ++
      "(params: ParamsModel), or (params: ParamsModel, metrics: MetricRecorder)"))

end

def resolveTypeHints (fn : Function M) : Except PyException (List (String × Hint M)) :=
  match fn.typeHints with
  | .ok hints => .ok hints
  | .error text =>
    .error (taskDefinitionError ("failed to resolve task type hints: " ++ text))

def requireModel (hint : Option (Hint M)) (text : String) : Except PyException M :=
  match Hint.pydanticModel? hint with
  | some m => .ok m
  | none => .error (taskDefinitionError text)

def requireBool (value : Option Bool) (text : String) : Except PyException Bool :=
  match value with
  | some b => .ok b
  | none => .error (taskDefinitionError text)

/-- `_build_task_definition`; controls that are `None` are the default ones. -/
def buildTaskDefinition (d : Declaration) (fn : Function M) :
    Except PyException (TaskDefinition M) := do
  validateRequiredMetadata d.name d.ownerEmail
  let workspace ← d.workspace.checked "workspace must be a WorkspaceSpec"
  let metrics ← d.metrics.checked "metrics must be a MetricSpec"
  let controls ← d.controls.checked "controls must be a TaskControls"
  let controls := controls.getD {}
  let strictParams ← requireBool d.strictParams "strict_params must be a bool"
  refuseIf (workspace.isNone && controls.publishBudget.isSome)
    "publish_budget requires workspace=WorkspaceSpec(...)"
  refuseIf fn.coroutine "task function must be a synchronous function"
  refuseIf (fn.parameters.any fun p => p.kind ≠ .positionalOrKeyword)
    "task function must not use *args, **kwargs, or keyword-only fields"
  refuseIf (fn.parameters.any (·.hasDefault))
    "task function parameters must not declare defaults"
  let hints ← resolveTypeHints fn
  validateSignature hints workspace metrics fn.parameters
  let paramsModel ← requireModel (hints.lookup "params")
    "params must be annotated as a Pydantic BaseModel subclass"
  let outputModel ← requireModel (hints.lookup "return")
    "return value must be annotated as a Pydantic BaseModel subclass"
  return { name := d.name, ownerEmail := d.ownerEmail, fn := fn, paramsModel := paramsModel,
           outputModel := outputModel, strictParams := strictParams,
           description := d.description, workspace := workspace, metrics := metrics,
           controls := controls }

/-- `task(...)` applied to a function. -/
def decorate (d : Declaration) (fn : Function M) : Except PyException (TaskDefinition M) := do
  refuseIf (!d.unsupported.isEmpty) ("unsupported task decorator fields: " ++
    String.intercalate ", " (d.unsupported.mergeSort fun a b => decide (a ≤ b)))
  buildTaskDefinition d fn

/-! ## The contract of a task -/

/-- The parameters of a task function, with their annotations. -/
def TaskDefinition.contract (task : TaskDefinition M) : List (String × Hint M) :=
  (if task.hasWorkspace then [("workspace", .path)] else []) ++
    [("params", .model task.paramsModel)] ++
    (if task.metrics.isSome then [("metrics", .metricRecorder)] else [])

/-- The function takes exactly the parameters of the contract, by position and without
defaults, and is annotated as the contract says. -/
structure Function.Keeps (fn : Function M) (task : TaskDefinition M) : Prop where
  synchronous : fn.coroutine = false
  plain : ∀ p ∈ fn.parameters, p.kind = .positionalOrKeyword ∧ p.hasDefault = false
  names : fn.parameters.map (·.name) = task.contract.map (·.1)
  annotated : ∃ hints, fn.typeHints = .ok hints ∧
    (∀ p ∈ task.contract, hints.lookup p.1 = some p.2) ∧
    hints.lookup "return" = some (.model task.outputModel)

/-- The value that an argument stands for, unless it is of a wrong class. -/
def Argument.value? {α : Type} : Argument α → Option (Option α)
  | none => some Option.none
  | given a => some (some a)
  | other => Option.none

/-- The declaration is well formed and says what the definition holds. -/
structure Declares (d : Declaration) (fn : Function M) (task : TaskDefinition M) : Prop where
  supported : d.unsupported = []
  name : d.name = task.name
  ownerEmail : d.ownerEmail = task.ownerEmail
  description : d.description = task.description
  workspace : d.workspace.value? = some task.workspace
  metrics : d.metrics.value? = some task.metrics
  controls : d.controls.value?.map (·.getD {}) = some task.controls
  strictParams : d.strictParams = some task.strictParams
  function : task.fn = fn
  named : isBlank task.name = false
  separators : '/' ∉ task.name.toList ∧ '\\' ∉ task.name.toList
  owned : isBlank task.ownerEmail = false
  budget : task.controls.publishBudget.isSome → task.hasWorkspace
  keeps : fn.Keeps task

section

variable {ε α β : Type} {x : Except ε α} {f : α → Except ε β} {b : β}

theorem bind_eq_ok_iff : x >>= f = .ok b ↔ ∃ a, x = .ok a ∧ f a = .ok b := by
  constructor
  · exact ok_of_bind
  · rintro ⟨a, rfl, h⟩
    exact h

end

variable {condition : Bool} {text : String} {u : Unit}

@[simp]
theorem refuseIf_eq_ok_iff : refuseIf condition text = .ok u ↔ condition = false := by
  cases condition <;> simp [refuseIf]

@[simp]
theorem checked_eq_ok_iff {α : Type} {argument : Argument α} {value : Option α} :
    argument.checked text = .ok value ↔ argument.value? = some value := by
  cases argument <;> simp [Argument.checked, Argument.value?]

@[simp]
theorem requireBool_eq_ok_iff {value : Option Bool} {b : Bool} :
    requireBool value text = .ok b ↔ value = some b := by
  cases value <;> simp [requireBool]

@[simp]
theorem requireModel_eq_ok_iff {hint : Option (Hint M)} {m : M} :
    requireModel hint text = .ok m ↔ hint = some (.model m) := by
  rcases hint with _ | hint
  · simp [requireModel, Hint.pydanticModel?]
  · cases hint <;> simp [requireModel, Hint.pydanticModel?]

@[simp]
theorem resolveTypeHints_eq_ok_iff {fn : Function M} {hints : List (String × Hint M)} :
    resolveTypeHints fn = .ok hints ↔ fn.typeHints = .ok hints := by
  cases h : fn.typeHints <;> simp [resolveTypeHints, h]

theorem isPath_iff {hint : Option (Hint M)} : Hint.isPath hint = true ↔ hint = some .path := by
  rcases hint with _ | hint
  · simp [Hint.isPath]
  · cases hint <;> simp [Hint.isPath]

theorem isMetricRecorder_iff {hint : Option (Hint M)} :
    Hint.isMetricRecorder hint = true ↔ hint = some .metricRecorder := by
  rcases hint with _ | hint
  · simp [Hint.isMetricRecorder]
  · cases hint <;> simp [Hint.isMetricRecorder]

theorem validateRequiredMetadata_eq_ok_iff {name ownerEmail : String} :
    validateRequiredMetadata name ownerEmail = .ok u ↔ isBlank name = false ∧
      ('/' ∉ name.toList ∧ '\\' ∉ name.toList) ∧ isBlank ownerEmail = false := by
  simp [validateRequiredMetadata, bind_eq_ok_iff]

section

variable {hints : List (String × Hint M)} {workspace : Option WorkspaceSpec}
  {metrics : Option MetricSpec} {first second third : Parameter}

theorem validateWorkspaceSignature_eq_ok_iff :
    validateWorkspaceSignature hints workspace metrics first second = .ok u ↔
      (first.name = "workspace" ∧ second.name = "params") ∧
      hints.lookup "workspace" = some .path ∧ workspace.isSome ∧ metrics = none := by
  cases workspace <;> cases metrics <;>
    simp [validateWorkspaceSignature, bind_eq_ok_iff, isPath_iff]

theorem validateWorkspaceMetricsSignature_eq_ok_iff :
    validateWorkspaceMetricsSignature hints workspace metrics first second third = .ok u ↔
      ((first.name = "workspace" ∧ second.name = "params") ∧
        hints.lookup "workspace" = some .path ∧ workspace.isSome) ∧
      third.name = "metrics" ∧ hints.lookup "metrics" = some .metricRecorder ∧
      metrics.isSome := by
  cases metrics <;>
    simp [validateWorkspaceMetricsSignature, bind_eq_ok_iff, isMetricRecorder_iff,
      validateWorkspaceSignature_eq_ok_iff]

theorem validateWorkspaceFreeMetricsSignature_eq_ok_iff :
    validateWorkspaceFreeMetricsSignature hints workspace metrics first second = .ok u ↔
      (first.name = "params" ∧ second.name = "metrics") ∧ workspace = none ∧
      hints.lookup "metrics" = some .metricRecorder ∧ metrics.isSome := by
  cases workspace <;> cases metrics <;>
    simp [validateWorkspaceFreeMetricsSignature, bind_eq_ok_iff, isMetricRecorder_iff]

theorem validateWorkspaceFreeSignature_eq_ok_iff :
    validateWorkspaceFreeSignature workspace metrics first = .ok u ↔
      first.name = "params" ∧ workspace = none ∧ metrics = none := by
  cases workspace <;> cases metrics <;>
    simp [validateWorkspaceFreeSignature, bind_eq_ok_iff]

/-- Whatever the number of parameters, a signature passes exactly when its names are the ones
that the declared workspace and metrics ask for. -/
theorem validateSignature_eq_ok_iff {parameters : List Parameter} :
    validateSignature hints workspace metrics parameters = .ok u ↔
      parameters.map (·.name) = (if workspace.isSome then ["workspace"] else []) ++ ["params"] ++
        (if metrics.isSome then ["metrics"] else []) ∧
      (workspace.isSome → hints.lookup "workspace" = some .path) ∧
      (metrics.isSome → hints.lookup "metrics" = some .metricRecorder) := by
  match parameters with
  | [] => cases workspace <;> cases metrics <;> simp [validateSignature]
  | [first] =>
    rw [validateSignature, validateWorkspaceFreeSignature_eq_ok_iff]
    cases workspace <;> cases metrics <;> simp
  | [first, second] =>
    rw [validateSignature]
    split
    · rename_i names
      rw [validateWorkspaceFreeMetricsSignature_eq_ok_iff]
      cases workspace <;> cases metrics <;> simp [names]
    · rename_i names
      rw [validateWorkspaceSignature_eq_ok_iff]
      cases workspace <;> cases metrics <;> grind
  | [first, second, third] =>
    rw [validateSignature, validateWorkspaceMetricsSignature_eq_ok_iff]
    cases workspace <;> cases metrics <;> grind
  | first :: second :: third :: fourth :: rest =>
    cases workspace <;> cases metrics <;> simp [validateSignature]

end

/-! ## What the decorator accepts -/

variable {d : Declaration} {fn : Function M} {task : TaskDefinition M}

theorem names_contract : task.contract.map (·.1) =
    (if task.workspace.isSome then ["workspace"] else []) ++ ["params"] ++
      (if task.metrics.isSome then ["metrics"] else []) := by
  cases hw : task.workspace <;> cases hm : task.metrics <;>
    simp [TaskDefinition.contract, TaskDefinition.hasWorkspace, hw, hm]

theorem forall_mem_contract {P : String × Hint M → Prop} : (∀ p ∈ task.contract, P p) ↔
    (task.workspace.isSome → P ("workspace", .path)) ∧ P ("params", .model task.paramsModel) ∧
      (task.metrics.isSome → P ("metrics", .metricRecorder)) := by
  cases hw : task.workspace <;> cases hm : task.metrics <;>
    simp [TaskDefinition.contract, TaskDefinition.hasWorkspace, hw, hm]

theorem buildTaskDefinition_eq_ok_iff (supported : d.unsupported = []) :
    buildTaskDefinition d fn = .ok task ↔ Declares d fn task := by
  constructor
  · intro h
    simp only [buildTaskDefinition, bind_eq_ok_iff, checked_eq_ok_iff, refuseIf_eq_ok_iff,
      requireBool_eq_ok_iff, requireModel_eq_ok_iff, resolveTypeHints_eq_ok_iff,
      validateRequiredMetadata_eq_ok_iff, validateSignature_eq_ok_iff, pure, Except.pure,
      Except.ok.injEq] at h
    obtain ⟨_, ⟨named, separators, owned⟩, workspace, hw, metrics, hm, controls, hc, strict, hs,
      _, budget, _, sync, _, kinds, _, defaults, hints, hh, _, ⟨names, path, recorder⟩,
      paramsModel, hp, outputModel, ho, rfl⟩ := h
    refine { supported := supported, name := rfl, ownerEmail := rfl, description := rfl,
             workspace := hw, metrics := hm, controls := by simp [hc], strictParams := hs,
             function := rfl, named := named, separators := separators, owned := owned,
             budget := ?_, keeps := ?_ }
    · intro some
      cases workspace <;> simp_all [TaskDefinition.hasWorkspace]
    · refine { synchronous := sync, plain := ?_, names := ?_, annotated := ⟨hints, hh, ?_, ho⟩ }
      · intro p hp
        simp only [List.any_eq_false] at kinds defaults
        exact ⟨by simpa using kinds p hp, by simpa using defaults p hp⟩
      · rw [names_contract]
        exact names
      · exact forall_mem_contract.mpr ⟨path, hp, recorder⟩
  · rintro ⟨_, name, ownerEmail, description, workspace, metrics, controls, strict, rfl, named,
      separators, owned, budget, sync, plain, names, hints, hh, contract, output⟩
    obtain ⟨path, params, recorder⟩ := forall_mem_contract.mp contract
    obtain ⟨given, hgiven, hcontrols⟩ := Option.map_eq_some_iff.mp controls
    simp only [buildTaskDefinition, bind_eq_ok_iff, checked_eq_ok_iff, refuseIf_eq_ok_iff,
      requireBool_eq_ok_iff, requireModel_eq_ok_iff, resolveTypeHints_eq_ok_iff,
      validateRequiredMetadata_eq_ok_iff, validateSignature_eq_ok_iff]
    refine ⟨(), ?_, task.workspace, workspace, task.metrics, metrics, given, hgiven,
      task.strictParams, strict, (), ?_, (), sync, (), ?_, (), ?_, hints, hh, (),
      ⟨names.trans names_contract, path, recorder⟩, task.paramsModel, params,
      task.outputModel, output, ?_⟩
    · rw [name, ownerEmail]
      exact ⟨named, separators, owned⟩
    · rw [hcontrols]
      cases hw : task.workspace <;> simp_all [TaskDefinition.hasWorkspace]
    · simp only [List.any_eq_false]
      exact fun p hp => by simp [(plain p hp).1]
    · simp only [List.any_eq_false]
      exact fun p hp => by simp [(plain p hp).2]
    · rw [hcontrols, name, ownerEmail, description]
      rfl

theorem decorate_eq_ok_iff : decorate d fn = .ok task ↔ Declares d fn task := by
  simp only [decorate, bind_eq_ok_iff, refuseIf_eq_ok_iff]
  constructor
  · rintro ⟨_, supported, h⟩
    exact (buildTaskDefinition_eq_ok_iff (by simpa using supported)).mp h
  · intro h
    exact ⟨(), by simp [h.supported], (buildTaskDefinition_eq_ok_iff h.supported).mpr h⟩

/-! ## What it refuses -/

/-- An outcome whose exceptions are all `TaskDefinitionError`s. -/
def RefusesAsDefinition {α : Type} (x : Except PyException α) : Prop :=
  ∀ e, x = .error e → e.cls = .taskDefinitionError

namespace RefusesAsDefinition

variable {α β : Type} {x : Except PyException α}

theorem ok {a : α} : RefusesAsDefinition (.ok a) := by
  intro e h
  cases h

theorem refused {text : String} :
    RefusesAsDefinition (.error (taskDefinitionError text) : Except PyException α) := by
  intro e h
  cases h
  rfl

theorem bind {f : α → Except PyException β} (hx : RefusesAsDefinition x)
    (hf : ∀ a, RefusesAsDefinition (f a)) : RefusesAsDefinition (x >>= f) := by
  intro e h
  obtain h | ⟨a, _, h⟩ := error_of_bind h
  · exact hx e h
  · exact hf a e h

theorem refuseIf : RefusesAsDefinition (TaskModule.refuseIf condition text) := by
  cases condition
  · exact ok
  · exact refused

theorem checked {argument : Argument α} : RefusesAsDefinition (argument.checked text) := by
  cases argument
  · exact ok
  · exact ok
  · exact refused

theorem requireBool {value : Option Bool} : RefusesAsDefinition (requireBool value text) := by
  cases value
  · exact refused
  · exact ok

theorem requireModel {hint : Option (Hint M)} : RefusesAsDefinition (requireModel hint text) := by
  rw [TaskModule.requireModel]
  split
  · exact ok
  · exact refused

theorem resolveTypeHints : RefusesAsDefinition (resolveTypeHints fn) := by
  rw [TaskModule.resolveTypeHints]
  split
  · exact ok
  · exact refused

theorem validateRequiredMetadata {name ownerEmail : String} :
    RefusesAsDefinition (validateRequiredMetadata name ownerEmail) :=
  refuseIf.bind fun _ => refuseIf.bind fun _ => refuseIf

theorem validateWorkspaceSignature {hints : List (String × Hint M)}
    {workspace : Option WorkspaceSpec} {metrics : Option MetricSpec} {first second : Parameter} :
    RefusesAsDefinition (validateWorkspaceSignature hints workspace metrics first second) :=
  refuseIf.bind fun _ => refuseIf.bind fun _ => refuseIf.bind fun _ => refuseIf

theorem validateSignature {hints : List (String × Hint M)} {workspace : Option WorkspaceSpec}
    {metrics : Option MetricSpec} {parameters : List Parameter} :
    RefusesAsDefinition (validateSignature hints workspace metrics parameters) := by
  rw [TaskModule.validateSignature.eq_def]
  split
  · exact validateWorkspaceSignature.bind fun _ => refuseIf.bind fun _ => refuseIf.bind fun _ =>
      refuseIf
  · split
    · exact refuseIf.bind fun _ => refuseIf.bind fun _ => refuseIf.bind fun _ => refuseIf
    · exact validateWorkspaceSignature
  · exact refuseIf.bind fun _ => refuseIf.bind fun _ => refuseIf
  · exact refused

theorem decorate : RefusesAsDefinition (decorate d fn) :=
  refuseIf.bind fun _ => validateRequiredMetadata.bind fun _ => checked.bind fun _ =>
    checked.bind fun _ => checked.bind fun _ => requireBool.bind fun _ => refuseIf.bind fun _ =>
    refuseIf.bind fun _ => refuseIf.bind fun _ => refuseIf.bind fun _ =>
    resolveTypeHints.bind fun _ => validateSignature.bind fun _ => requireModel.bind fun _ =>
    requireModel.bind fun _ => ok

end RefusesAsDefinition

/-! ## The call -/

/-- The arguments that an attempt passes to a task function. -/
inductive Injected where
  | workspaceDir
  | params
  | metrics
  deriving DecidableEq

/-- The call of `invoke_workspace_task_body`. -/
def workspaceTaskArguments (task : TaskDefinition M) : List Injected :=
  if task.metrics.isNone then [.workspaceDir, .params] else [.workspaceDir, .params, .metrics]

/-- The call of `invoke_workspace_free_task`. -/
def workspaceFreeTaskArguments (task : TaskDefinition M) : List Injected :=
  if task.metrics.isNone then [.params] else [.params, .metrics]

/-- The one of the two calls that `execute_polled_task` comes to. -/
def taskArguments (task : TaskDefinition M) : List Injected :=
  if task.hasWorkspace then workspaceTaskArguments task else workspaceFreeTaskArguments task

/-- What each parameter is bound to in a call with positional arguments only, when the call
raises no `TypeError`. -/
def bindArguments {α : Type} : List Parameter → List α → Option (List (String × α))
  | [], [] => some []
  | [], _ :: _ => none
  | p :: parameters, arguments => match p.kind with
    | .positionalOnly | .positionalOrKeyword => match arguments with
      | [] => if p.hasDefault then bindArguments parameters [] else none
      | a :: rest => (bindArguments parameters rest).map ((p.name, a) :: ·)
    | .varPositional => bindArguments parameters []
    | .keywordOnly => if p.hasDefault then bindArguments parameters arguments else none
    | .varKeyword => bindArguments parameters arguments

/-- The annotation that an injected argument is an instance of. -/
def Injected.hint (task : TaskDefinition M) : Injected → Hint M
  | workspaceDir => .path
  | params => .model task.paramsModel
  | metrics => .metricRecorder

theorem bindArguments_plain {α : Type} {parameters : List Parameter} {arguments : List α}
    (plain : ∀ p ∈ parameters, p.kind = .positionalOrKeyword)
    (length : parameters.length = arguments.length) :
    bindArguments parameters arguments = some ((parameters.map (·.name)).zip arguments) := by
  induction parameters generalizing arguments with
  | nil =>
    obtain rfl : arguments = [] := List.eq_nil_of_length_eq_zero length.symm
    rfl
  | cons p parameters ih =>
    cases arguments with
    | nil => simp at length
    | cons a arguments =>
      have rest : bindArguments parameters arguments = _ :=
        ih (fun q hq => plain q (List.mem_cons_of_mem p hq)) (by simpa using length)
      simp [bindArguments, plain p List.mem_cons_self, rest]

/-- Names and annotations of the contract, argument by argument. -/
theorem contract_eq_zip :
    task.contract = (task.contract.map (·.1)).zip ((taskArguments task).map (·.hint task)) := by
  cases hw : task.workspace <;> cases hm : task.metrics <;>
    simp [TaskDefinition.contract, taskArguments, workspaceTaskArguments,
      workspaceFreeTaskArguments, TaskDefinition.hasWorkspace, Injected.hint, hw, hm]

theorem length_taskArguments : (taskArguments task).length = task.contract.length := by
  cases hw : task.workspace <;> cases hm : task.metrics <;>
    simp [TaskDefinition.contract, taskArguments, workspaceTaskArguments,
      workspaceFreeTaskArguments, TaskDefinition.hasWorkspace, hw, hm]

/-- The call binds the injected arguments in order, each to a parameter annotated with the class
of the argument. -/
def CallBinds (task : TaskDefinition M) : Prop :=
  ∃ hints bound, task.fn.typeHints = .ok hints ∧
    bindArguments task.fn.parameters (taskArguments task) = some bound ∧
    bound.map (·.2) = taskArguments task ∧
    ∀ b ∈ bound, hints.lookup b.1 = some (b.2.hint task)

theorem Function.Keeps.callBinds (h : task.fn.Keeps task) : CallBinds task := by
  obtain ⟨hints, hh, contract, _⟩ := h.annotated
  have length : task.fn.parameters.length = (taskArguments task).length := by
    have := congrArg List.length h.names
    simpa [length_taskArguments] using this
  refine ⟨hints, _, hh, bindArguments_plain (fun p hp => (h.plain p hp).1) length, ?_, ?_⟩
  · exact List.map_snd_zip (by simp [length])
  · intro b hb
    rw [h.names] at hb
    have mem : (b.1, b.2.hint task) ∈ task.contract := by
      rw [contract_eq_zip, List.zip_map_right]
      exact List.mem_map.mpr ⟨b, hb, rfl⟩
    exact contract _ mem

/-- The decorator accepts exactly the functions that keep the contract of what is declared, an
attempt's call of an accepted function fits its signature, and everything else is refused with
a `TaskDefinitionError`. -/
theorem decorated_functions_fit_their_calls (d : Declaration) (fn : Function M) :
    (∀ task, decorate d fn = .ok task ↔ Declares d fn task) ∧
    (∀ task, decorate d fn = .ok task → CallBinds task) ∧
    RefusesAsDefinition (decorate d fn) := by
  refine ⟨fun task => decorate_eq_ok_iff, ?_, RefusesAsDefinition.decorate⟩
  intro task h
  have declares := decorate_eq_ok_iff.mp h
  obtain rfl := declares.function
  exact declares.keeps.callBinds

end Perago.TaskModule
