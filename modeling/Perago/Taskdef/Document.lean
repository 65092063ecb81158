import Perago.FailureReports
import Perago.Taskdef.InputContract
import Perago.Taskdef.ModelGraph

/-!
# The TaskDef document

`build_taskdef` as a whole, and what can be read back from its document: the
declaration of the task with its controls.
-/

namespace Perago.Taskdef

variable {M : Type}

/-! ## Control fields -/

/-- The values in the text of the warning about a publish budget. -/
structure BudgetWarning where
  taskName : String
  responseSeconds : Nat
  budgetSeconds : Nat

def responseTimeoutSeconds (task : TaskModule.TaskDefinition M) : Nat × Option BudgetWarning :=
  let responseSeconds := task.controls.timeout.responseSeconds
  if task.workspace.any (·.readOnly) then (responseSeconds, none)
  else match task.controls.publishBudget with
    | none => (responseSeconds, none)
    | some budget =>
      if responseSeconds < budget.responseTimeoutSeconds then
        (responseSeconds, some ⟨task.name, responseSeconds, budget.responseTimeoutSeconds⟩)
      else (responseSeconds, none)

/-- The value that `_control_fields` writes under a name. -/
def controlValue (task : TaskModule.TaskDefinition M) (name : String)
    (path : TaskControls → Option Json) : Option Json :=
  if name = "responseTimeoutSeconds" then some (.ofNat (responseTimeoutSeconds task).1)
  else path task.controls

def controlFields (task : TaskModule.TaskDefinition M) : Members :=
  controlFieldMap.filterMap fun field =>
    (controlValue task field.1 field.2).map fun value => (field.1, value)

/-! ## The document -/

/-- `input_required`, and `output_required` with the other last key. -/
def requiredKeys (task : TaskModule.TaskDefinition M) (last : String) : List String :=
  (if task.hasWorkspace then ["workspace"] else []) ++ [last]

/-- `inputSchema` and `outputSchema`. -/
def schemaDocument (name : String) (data : Members) : Json :=
  .obj [("name", .str name), ("version", .ofNat 1), ("type", .str "JSON"), ("data", .obj data)]

/-- The first fields of the document. -/
def headFields (task : TaskModule.TaskDefinition M) : Members :=
  [("name", .str task.name), ("ownerEmail", .str task.ownerEmail)] ++
    (task.description.map fun text => ("description", Json.str text)).toList

/-- The keys and schemas that are written after the control fields. -/
def contractFields (task : TaskModule.TaskDefinition M)
    (workspaceInput workspaceOutput : Option Json) (params result : Json) : Members :=
  [("inputKeys", .arr ((requiredKeys task "params").map .str)),
    ("outputKeys", .arr ((requiredKeys task "result").map .str)),
    ("inputSchema", schemaDocument (task.name ++ ".input")
      (inputSchemaData workspaceInput params)),
    ("outputSchema", schemaDocument (task.name ++ ".output")
      (outputSchemaData workspaceOutput result))]

section

variable [DecidableEq M] [Fintype M] (stack : Nat) (classes : M → ModelClass M)
  (modelJsonSchema : M → Members) (workspaceInputSchema workspaceOutputSchema : Members)

def workspaceSchema (task : TaskModule.TaskDefinition M) (generated : Members) :
    Except InlineStop (Option Json) :=
  if task.hasWorkspace then some <$> schemaForModel stack generated false
  else .ok none

def buildTaskdef (task : TaskModule.TaskDefinition M) : Except InlineStop Members := do
  (validateNoRootTaskModels classes task).mapError .raised
  let workspaceInput ← workspaceSchema stack task workspaceInputSchema
  let workspaceOutput ← workspaceSchema stack task workspaceOutputSchema
  let params ← schemaForModel stack (modelJsonSchema task.paramsModel) !task.strictParams
  let result ← schemaForModel stack (modelJsonSchema task.outputModel) false
  return updateKeys (headFields task)
    (controlFields task ++ contractFields task workspaceInput workspaceOutput params result)

end

/-! ## Reading a TaskDef -/

/-- What a TaskDef tells of its task. -/
structure Declared where
  name : String
  ownerEmail : String
  description : Option String
  retry : RetryPolicy
  timeout : TimeoutPolicy
  limits : ExecutionLimits
  inputKeys : List String
  outputKeys : List String

def declaredBy (task : TaskModule.TaskDefinition M) : Declared where
  name := task.name
  ownerEmail := task.ownerEmail
  description := task.description
  retry := task.controls.retry
  timeout := task.controls.timeout
  limits := task.controls.limits
  inputKeys := requiredKeys task "params"
  outputKeys := requiredKeys task "result"

def textOf : Json → Option String
  | .str s => some s
  | _ => none

def natOf : Json → Option Nat
  | .num n => if n.den = 1 ∧ 0 ≤ n.num then some n.num.toNat else none
  | _ => none

def textsIn : Json → Option (List String)
  | .arr items => some (textsOf items)
  | _ => none

def logicOf (value : Json) : Option RetryLogic :=
  [RetryLogic.fixed, .exponentialBackoff, .linearBackoff].find? fun l => textOf value = some l.text

def actionOf (value : Json) : Option TimeoutAction :=
  [TimeoutAction.retry, .timeOutWf, .alertOnly].find? fun a => textOf value = some a.text

/-- A field that may be left out. -/
def optionalField {α : Type} (read : Json → Option α) (document : Members) (name : String) :
    Option (Option α) :=
  match document.lookup name with
  | none => some none
  | some value => (read value).map some

section

variable (document : Members)

def readRetry : Option RetryPolicy := do
  let count ← (document.lookup "retryCount").bind natOf
  let logic ← (document.lookup "retryLogic").bind logicOf
  let delaySeconds ← (document.lookup "retryDelaySeconds").bind natOf
  let maxDelaySeconds ← (document.lookup "maxRetryDelaySeconds").bind natOf
  let jitterMs ← (document.lookup "backoffJitterMs").bind natOf
  if h : count ≤ maxRetryCount then
    return { count := count, logic := logic, delaySeconds := delaySeconds,
             maxDelaySeconds := maxDelaySeconds, jitterMs := jitterMs, count_le := h }
  else none

def readTimeout : Option TimeoutPolicy := do
  let totalSeconds ← (document.lookup "totalTimeoutSeconds").bind natOf
  let policy ← (document.lookup "timeoutPolicy").bind actionOf
  let seconds ← (document.lookup "timeoutSeconds").bind natOf
  let responseSeconds ← (document.lookup "responseTimeoutSeconds").bind natOf
  let pollSeconds ← (document.lookup "pollTimeoutSeconds").bind natOf
  return { policy := policy, seconds := seconds, responseSeconds := responseSeconds,
           pollSeconds := pollSeconds, totalSeconds := totalSeconds }

def readLimits : Option ExecutionLimits := do
  let concurrent ← optionalField natOf document "concurrentExecLimit"
  let frequency ← optionalField natOf document "rateLimitFrequencyInSeconds"
  let limit ← optionalField natOf document "rateLimitPerFrequency"
  (ExecutionLimits.validate concurrent frequency limit).toOption

def readTaskdef : Option Declared := do
  let name ← (document.lookup "name").bind textOf
  let ownerEmail ← (document.lookup "ownerEmail").bind textOf
  let description ← optionalField textOf document "description"
  let retry ← readRetry document
  let timeout ← readTimeout document
  let limits ← readLimits document
  let inputKeys ← (document.lookup "inputKeys").bind textsIn
  let outputKeys ← (document.lookup "outputKeys").bind textsIn
  return { name := name, ownerEmail := ownerEmail, description := description, retry := retry,
           timeout := timeout, limits := limits, inputKeys := inputKeys,
           outputKeys := outputKeys }

end

/-! ## One value -/

@[simp]
theorem natOf_ofNat (n : Nat) : natOf (.ofNat n) = some n := by
  simp [natOf, Json.ofNat]

@[simp]
theorem textOf_str (s : String) : textOf (.str s) = some s := rfl

@[simp]
theorem logicOf_text (l : RetryLogic) : logicOf (.str l.text) = some l := by
  cases l <;> decide

@[simp]
theorem actionOf_text (a : TimeoutAction) : actionOf (.str a.text) = some a := by
  cases a <;> decide

/-- A field that is left out when its value is `None` reads back as that value. -/
theorem optionalField_eq {α : Type} {read : Json → Option α} {write : α → Json}
    (reads : ∀ a, read (write a) = some a) {document : Members} {name : String}
    {value : Option α} (h : document.lookup name = value.map write) :
    optionalField read document name = some value := by
  rw [optionalField, h]
  cases value with
  | none => rfl
  | some a => simp [reads]

/-! ## Fields of the document -/

theorem lookup_filterMap {α β : Type} {xs : List (String × α)} {k : String}
    (g : String → α → Option β) (nodup : (xs.map (·.1)).Nodup) :
    (xs.filterMap fun m => (g m.1 m.2).map fun value => (m.1, value)).lookup k =
      (xs.lookup k).bind (g k) := by
  induction xs with
  | nil => rfl
  | cons m xs ih =>
    obtain ⟨name, a⟩ := m
    obtain ⟨fresh, nodup⟩ := List.nodup_cons.mp nodup
    have rest := ih nodup
    by_cases same : k = name
    · subst same
      have absent : xs.lookup k = none := lookup_eq_none_of_not_mem fresh
      rw [absent] at rest
      cases hg : g k a with
      | none => simpa [hg] using rest
      | some value => simp [hg]
    · have ne : (k == name) = false := by simpa using same
      cases hg : g name a with
      | none =>
        simpa only [List.filterMap_cons, hg, Option.map_none, List.lookup_cons, ne] using rest
      | some value =>
        simpa only [List.filterMap_cons, hg, Option.map_some, List.lookup_cons, ne] using rest

variable {task : TaskModule.TaskDefinition M} {workspaceInput workspaceOutput : Option Json}
  {params result : Json} {k : String}

theorem lookup_controlFields : (controlFields task).lookup k =
    (controlFieldMap.lookup k).bind (controlValue task k) :=
  lookup_filterMap (controlValue task) (by decide)

variable (task workspaceInput workspaceOutput params result) in
/-- The document, with its schemas built. -/
def document : Members :=
  updateKeys (headFields task)
    (controlFields task ++ contractFields task workspaceInput workspaceOutput params result)

theorem lookup_document :
    (document task workspaceInput workspaceOutput params result).lookup k =
      (((controlFields task).lookup k).or
        ((contractFields task workspaceInput workspaceOutput params result).lookup k)).or
          ((headFields task).lookup k) := by
  rw [document, lookup_updateKeys, List.lookup_append]

/-- The response timeout that is written is the declared one, whatever the publish budget. -/
theorem responseTimeoutSeconds_fst :
    (responseTimeoutSeconds task).1 = task.controls.timeout.responseSeconds := by
  rw [responseTimeoutSeconds]
  split
  · rfl
  · split
    · rfl
    · split <;> rfl

/-- A control field holds what its path leads to in the controls. -/
theorem lookup_control {path : TaskControls → Option Json}
    (field : controlFieldMap.lookup k = some path) (named : (headFields task).lookup k = none)
    (other : (contractFields task workspaceInput workspaceOutput params result).lookup k = none) :
    (document task workspaceInput workspaceOutput params result).lookup k =
      path task.controls := by
  rw [lookup_document, lookup_controlFields, field, named, other]
  by_cases response : k = "responseTimeoutSeconds"
  · subst response
    obtain rfl := Option.some.inj field
    simp [controlValue, responseTimeoutSeconds_fst, TaskControls.responseTimeoutSeconds]
  · simp [controlValue, response]

/-! ## Reading back -/

variable {d : Members}

/-- The fields that a document of the task holds. -/
structure Holds (task : TaskModule.TaskDefinition M) (d : Members) : Prop where
  name : d.lookup "name" = some (.str task.name)
  ownerEmail : d.lookup "ownerEmail" = some (.str task.ownerEmail)
  description : d.lookup "description" = task.description.map .str
  controls : ∀ field ∈ controlFieldMap, d.lookup field.1 = field.2 task.controls
  inputKeys : d.lookup "inputKeys" = some (.arr ((requiredKeys task "params").map .str))
  outputKeys : d.lookup "outputKeys" = some (.arr ((requiredKeys task "result").map .str))

theorem keys_headFields : keysOf (headFields task) ⊆ ["name", "ownerEmail", "description"] := by
  cases h : task.description <;> simp [headFields, keysOf, h]

theorem keys_contractFields :
    keysOf (contractFields task workspaceInput workspaceOutput params result) =
      ["inputKeys", "outputKeys", "inputSchema", "outputSchema"] := rfl

theorem lookup_eq_none_of_keys {ks : List String} {members : Members}
    (within : keysOf members ⊆ ks) (other : k ∉ ks) : members.lookup k = none :=
  lookup_eq_none_of_not_mem fun h => other (within h)

/-- No name of the map is taken by another field of the document. -/
theorem control_names_apart : ∀ k ∈ controlFieldMap.map (·.1),
    k ∉ ["name", "ownerEmail", "description"] ∧
      k ∉ ["inputKeys", "outputKeys", "inputSchema", "outputSchema"] := by
  decide

theorem holds_document :
    Holds task (document task workspaceInput workspaceOutput params result) where
  name := by
    rw [lookup_document, lookup_controlFields]
    rfl
  ownerEmail := by
    rw [lookup_document, lookup_controlFields]
    rfl
  description := by
    have head : (headFields task).lookup "description" = task.description.map .str := by
      rw [headFields]
      cases task.description <;> rfl
    rw [lookup_document, lookup_controlFields]
    exact head
  controls field hfield := by
    have apart := control_names_apart field.1 (List.mem_map.mpr ⟨field, hfield, rfl⟩)
    refine lookup_control (lookup_of_mem (by decide) hfield) ?_ ?_
    · exact lookup_eq_none_of_keys keys_headFields apart.1
    · exact lookup_eq_none_of_keys (keys_contractFields ▸ List.Subset.refl _) apart.2
  inputKeys := by
    rw [lookup_document, lookup_controlFields]
    rfl
  outputKeys := by
    rw [lookup_document, lookup_controlFields]
    rfl

theorem readRetry_of_holds (h : Holds task d) : readRetry d = some task.controls.retry := by
  have field := h.controls
  simp only [controlFieldMap, List.forall_mem_cons] at field
  obtain ⟨count, logic, delay, maxDelay, jitter, -⟩ := field
  simp [readRetry, count, logic, delay, maxDelay, jitter, task.controls.retry.count_le]

theorem readTimeout_of_holds (h : Holds task d) :
    readTimeout d = some task.controls.timeout := by
  have field := h.controls
  simp only [controlFieldMap, List.forall_mem_cons] at field
  obtain ⟨-, -, -, -, -, total, policy, seconds, response, poll, -⟩ := field
  simp [readTimeout, total, policy, seconds, response, poll, TaskControls.responseTimeoutSeconds]

theorem readLimits_of_holds (h : Holds task d) : readLimits d = some task.controls.limits := by
  have field := h.controls
  simp only [controlFieldMap, List.forall_mem_cons] at field
  obtain ⟨-, -, -, -, -, -, -, -, -, -, concurrent, frequency, limit, -⟩ := field
  have concurrent' : optionalField natOf d "concurrentExecLimit" =
      some task.controls.limits.concurrentExecLimit := optionalField_eq natOf_ofNat concurrent
  have frequency' : optionalField natOf d "rateLimitFrequencyInSeconds" =
      some task.controls.limits.rateLimitFrequencyInSeconds :=
    optionalField_eq natOf_ofNat frequency
  have limit' : optionalField natOf d "rateLimitPerFrequency" =
      some task.controls.limits.rateLimitPerFrequency := optionalField_eq natOf_ofNat limit
  rw [readLimits, concurrent', frequency', limit']
  change (ExecutionLimits.validate _ _ _).toOption = _
  rw [ExecutionLimits.validate, dif_pos task.controls.limits.paired]
  rfl

theorem textsIn_texts (ts : List String) : textsIn (.arr (ts.map .str)) = some ts := by
  rw [textsIn, textsOf_map_str]

theorem readTaskdef_of_holds (h : Holds task d) : readTaskdef d = some (declaredBy task) := by
  have description : optionalField textOf d "description" = some task.description :=
    optionalField_eq textOf_str h.description
  simp [readTaskdef, h.name, h.ownerEmail, description, h.inputKeys, h.outputKeys,
    readRetry_of_holds h, readTimeout_of_holds h, readLimits_of_holds h, textsIn_texts, declaredBy]

section

variable [DecidableEq M] [Fintype M] {stack : Nat} {classes : M → ModelClass M}
  {modelJsonSchema : M → Members} {workspaceInputSchema workspaceOutputSchema : Members}

theorem document_of_built
    (built : buildTaskdef stack classes modelJsonSchema workspaceInputSchema
      workspaceOutputSchema task = .ok d) :
    ∃ workspaceInput workspaceOutput params result,
      workspaceSchema stack task workspaceInputSchema = .ok workspaceInput ∧
      workspaceSchema stack task workspaceOutputSchema = .ok workspaceOutput ∧
      d = document task workspaceInput workspaceOutput params result := by
  obtain ⟨_, _, built⟩ := ok_of_bind built
  obtain ⟨workspaceInput, input, built⟩ := ok_of_bind built
  obtain ⟨workspaceOutput, output, built⟩ := ok_of_bind built
  obtain ⟨params, _, built⟩ := ok_of_bind built
  obtain ⟨result, _, built⟩ := ok_of_bind built
  exact ⟨workspaceInput, workspaceOutput, params, result, input, output,
    (Except.ok.inj built).symm⟩

/-- The metadata and all the controls of a task read back from its TaskDef unchanged, whatever
its publish budget. -/
theorem readTaskdef_of_built
    (built : buildTaskdef stack classes modelJsonSchema workspaceInputSchema
      workspaceOutputSchema task = .ok d) :
    readTaskdef d = some (declaredBy task) := by
  obtain ⟨_, _, _, _, -, -, rfl⟩ := document_of_built built
  exact readTaskdef_of_holds holds_document

end

end Perago.Taskdef
