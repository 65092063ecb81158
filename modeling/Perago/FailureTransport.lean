import Perago.ConductorRuntime.Models
import Perago.Effect.Process
import Perago.ObjectGraph

/-!
# Failure metadata in memory

`snapshot_failure_output` copies the dictionaries and lists of a failure, so that nobody
but the exception holds them. From there on only references are passed along, to the
result, its payload and the update of the task.
-/

namespace Perago

open Effect

/-! ## The copy -/

/-- Copies of the references, one after the other. -/
def copyRefs (copy : Ref → Proc PyException Heap Ref) : List Ref → Proc PyException Heap (List Ref)
  | [] => pure []
  | ref :: refs => do
    let ref ← copy ref
    let refs ← copyRefs copy refs
    return ref :: refs

def allocate (node : Node) : Proc PyException Heap Ref := fun h =>
  (.ok (.node h.length), h ++ [node])

/-- The `None`s, booleans, integers and strings, and the finite floats. -/
def Scalar.isJson : Scalar → Bool
  | .none | .bool _ | .int _ | .str _ => true
  | .float isfinite _ => isfinite
  | .other _ => false

/-- `_copy_json_value`, with room for `limit` nested calls. -/
def copyJsonRef : Nat → Ref → Proc PyException Heap Ref
  | 0, _ => .raise recursionError
  | _ + 1, .scalar x => if x.isJson then pure (.scalar x) else .raise outputDataError
  | limit + 1, .node a => do
    match ← .get (·[a]?) with
    | some node =>
      if node.keysOk then
        let refs ← copyRefs (copyJsonRef limit) node.refs
        allocate (node.withRefs refs)
      else .raise outputDataError
    | none => .raise outputDataError

def notAnObject : PyException := .mk' .typeError "output_data must be a JSON object"

/-- `snapshot_failure_output`. -/
def snapshotRef (limit : Nat) : Ref → Proc PyException Heap Ref
  | .scalar .none => pure (.scalar .none)
  | .scalar _ => .raise notAnObject
  | .node a => do
    match ← .get (·[a]?) with
    | some (.dict _) =>
      .tryExcept (copyJsonRef limit (.node a)) fun exc => .raise (refusedNesting exc)
    | _ => .raise notAnObject

/-! ## What is copied -/

variable {h h' : Heap} {limit n a : Nat} {ref : Ref} {refs : List Ref} {v : PyValue}
variable {values : List PyValue} {node : Node}

theorem Scalar.value_isJson (x : Scalar) : x.value.isJson = x.isJson := by
  cases x <;> rfl

theorem jsonList_eq (values : List PyValue) : jsonList values = values.all (·.isJson) := by
  induction values with
  | nil => rfl
  | cons v values ih => rw [jsonList, ih, List.all_cons]

theorem jsonItems_zip {keys : List PyKey} (hlen : keys.length = values.length) :
    jsonItems (keys.zip values) = (keys.all (·.isStr) && values.all (·.isJson)) := by
  induction keys generalizing values with
  | nil =>
    cases values with
    | nil => rfl
    | cons => cases hlen
  | cons key keys ih =>
    cases values with
    | nil => cases hlen
    | cons v values =>
      rw [List.zip_cons_cons, jsonItems, ih (by simpa using hlen), List.all_cons, List.all_cons]
      grind

theorem Node.value_isJson (hlen : values.length = node.refs.length) :
    (node.value values).isJson = (node.keysOk && values.all (·.isJson)) := by
  cases node with
  | dict items =>
    rw [Node.value, PyValue.isJson, jsonItems_zip (by simpa [Node.refs, eq_comm] using hlen),
      Node.keysOk, List.all_map]
    rfl
  | list items => rw [Node.value, PyValue.isJson, jsonList_eq, Node.keysOk, Bool.true_and]

theorem listDepth_le (h : ∀ v ∈ values, v.depth ≤ n) : listDepth values ≤ n := by
  induction values with
  | nil => exact Nat.zero_le n
  | cons v values ih =>
    obtain ⟨hv, hvs⟩ := List.forall_mem_cons.mp h
    exact max_le hv (ih hvs)

theorem itemsDepth_zip_le {keys : List PyKey} (h : ∀ v ∈ values, v.depth ≤ n) :
    itemsDepth (keys.zip values) ≤ n := by
  induction keys generalizing values with
  | nil => exact Nat.zero_le n
  | cons key keys ih =>
    cases values with
    | nil => exact Nat.zero_le n
    | cons v values =>
      obtain ⟨hv, hvs⟩ := List.forall_mem_cons.mp h
      exact max_le hv (ih hvs)

/-- What is read within `n` references is copied with `n` nested calls. -/
theorem depth_le_of_read (hread : h.read n ref = some v) : v.depth ≤ n := by
  induction n generalizing ref v with
  | zero => cases hread
  | succ n ih =>
    cases ref with
    | scalar x =>
      cases hread
      cases x <;> simp [Scalar.value, PyValue.depth]
    | node a =>
      obtain ⟨node, values, -, hvalues, rfl⟩ := Heap.read_node.mp hread
      have below : ∀ v ∈ values, v.depth ≤ n := by
        intro v hv
        obtain ⟨ref, -, hread⟩ :=
          Heap.exists_read_of_mem (Heap.mapM_eq_some_iff.mp hvalues) hv
        exact ih hread
      cases node with
      | dict items => exact Nat.succ_le_succ (itemsDepth_zip_le below)
      | list items => exact Nat.succ_le_succ (listDepth_le below)

/-- A fresh copy: the old nodes are as they were, and the copy reads the same and is made
of new nodes only. -/
structure Copied (h : Heap) (n : Nat) (v : PyValue) (ref : Ref) (h' : Heap) : Prop where
  grown : h <+: h'
  read : h'.read n ref = some v
  fresh : h'.Within (fun a => h.length ≤ a ∧ a < h'.length) n ref

/-- Fresh copies of several values. -/
structure CopiedAll (h : Heap) (n : Nat) (values : List PyValue) (refs : List Ref) (h' : Heap) :
    Prop where
  grown : h <+: h'
  read : refs.mapM (h'.read n) = some values
  fresh : ∀ ref ∈ refs, h'.Within (fun a => h.length ≤ a ∧ a < h'.length) n ref

theorem copyRefs_ends {copy : Ref → Proc PyException Heap Ref}
    (ih : ∀ {h ref v}, h.read n ref = some v →
      Ends (fun ref' h' => v.isJson = true ∧ Copied h n v ref' h')
        (fun exc h' => v.isJson = false ∧ exc = outputDataError ∧ h <+: h') (fun _ => False)
        (copy ref h))
    (hread : refs.mapM (h.read n) = some values) :
    Ends (fun refs' h' => values.all (·.isJson) = true ∧ CopiedAll h n values refs' h')
      (fun exc h' => values.all (·.isJson) = false ∧ exc = outputDataError ∧ h <+: h')
      (fun _ => False) (copyRefs copy refs h) := by
  induction refs generalizing h values with
  | nil =>
    cases hread
    exact .pure ⟨rfl, List.prefix_rfl, rfl, nofun⟩
  | cons ref refs ihs =>
    obtain ⟨v, vs, hv, hvs, rfl⟩ := List.forall₂_cons_left_iff.mp (Heap.mapM_eq_some_iff.mp hread)
    rw [List.all_cons]
    refine .bind ((ih hv).mono (fun _ _ h => h) (fun exc g hg => ?_) fun _ h => h)
      fun ref' g hg => ?_
    · exact ⟨by simp [hg.1], hg.2⟩
    obtain ⟨json, copied⟩ := hg
    have later := Heap.readAll_of_grown copied.grown (Heap.mapM_eq_some_iff.mpr hvs)
    refine .bind ((ihs later).mono (fun _ _ h => h) (fun exc k hk => ?_) fun _ h => h)
      fun refs' k hk => ?_
    · exact ⟨by simp [hk.1], hk.2.1, copied.grown.trans hk.2.2⟩
    obtain ⟨jsons, rest⟩ := hk
    refine .pure ⟨by simp [json, jsons], copied.grown.trans rest.grown, ?_, ?_⟩
    · have first := Heap.read_of_grown rest.grown copied.read
      exact Heap.mapM_eq_some_iff.mpr (.cons first (Heap.mapM_eq_some_iff.mp rest.read))
    · have hle := copied.grown.length_le
      have hle' := rest.grown.length_le
      rw [List.forall_mem_cons]
      refine ⟨?_, fun r hr => (rest.fresh r hr).mono (by omega)⟩
      exact (copied.fresh.of_grown rest.grown (by omega)).mono (by omega)

/-- A value that can be read within the limit is copied if it is JSON, and refused
otherwise. -/
theorem copyJsonRef_ends (hread : h.read n ref = some v) (hle : n ≤ limit) :
    Ends (fun ref' h' => v.isJson = true ∧ Copied h n v ref' h')
      (fun exc h' => v.isJson = false ∧ exc = outputDataError ∧ h <+: h') (fun _ => False)
      (copyJsonRef limit ref h) := by
  induction n generalizing limit ref v h with
  | zero => cases hread
  | succ n ih =>
    obtain ⟨limit, rfl⟩ : ∃ k, limit = k + 1 := ⟨limit - 1, by omega⟩
    cases ref with
    | scalar x =>
      cases hread
      rw [copyJsonRef, Scalar.value_isJson]
      cases hx : x.isJson with
      | true => exact .pure ⟨rfl, List.prefix_rfl, rfl, trivial⟩
      | false => exact .raise ⟨rfl, rfl, List.prefix_rfl⟩
    | node a =>
      obtain ⟨node, values, hnode, hvalues, rfl⟩ := Heap.read_node.mp hread
      have hlen : values.length = node.refs.length :=
        (Heap.mapM_eq_some_iff.mp hvalues).length_eq.symm
      rw [Node.value_isJson hlen, copyJsonRef]
      refine .bind (Q := fun found g => found = some node ∧ g = h) ⟨hnode, rfl⟩ fun found g hg => ?_
      obtain ⟨rfl, rfl⟩ := hg
      dsimp only
      cases hkeys : node.keysOk with
      | false => exact .raise ⟨rfl, rfl, List.prefix_rfl⟩
      | true =>
        refine .bind (copyRefs_ends (fun hread => ih hread (by omega)) hvalues) fun refs g hg => ?_
        obtain ⟨json, copied⟩ := hg
        have hrefs : refs.length = node.refs.length :=
          (Heap.mapM_eq_some_iff.mp copied.read).length_eq.trans hlen
        have grown : g <+: g ++ [node.withRefs refs] := List.prefix_append _ _
        have here : (g ++ [node.withRefs refs])[g.length]? = some (node.withRefs refs) := by simp
        have hle := copied.grown.length_le
        refine ⟨by simp [json], copied.grown.trans grown, ?_, ⟨hle, by simp⟩,
          fun node' h' r hr => ?_⟩
        · refine Heap.read_node.mpr ⟨node.withRefs refs, values, here, ?_, ?_⟩
          · rw [Node.refs_withRefs hrefs]
            exact Heap.readAll_of_grown grown copied.read
          · rw [Node.value_withRefs hrefs]
        · obtain rfl : node.withRefs refs = node' := Option.some.inj (here.symm.trans h')
          rw [Node.refs_withRefs hrefs] at hr
          refine ((copied.fresh r hr).of_grown grown (by omega)).mono fun a ha => ?_
          rw [List.length_append]
          omega

/-- What may be metadata: `None`, or a finite JSON object. -/
def PyValue.isFailureOutput (v : PyValue) : Prop := v = .none ∨ v.isJsonObject = true

theorem PyValue.isJson_of_isFailureOutput (hv : v.isFailureOutput) : v.isJson = true := by
  obtain rfl | hv := hv
  · rfl
  · cases v with
    | dict items => exact hv
    | _ => cases hv

theorem snapshotRef_ends (hread : h.read n ref = some v) (hle : n ≤ limit) :
    Ends (fun ref' h' => v.isFailureOutput ∧ Copied h n v ref' h')
      (fun exc h' => ¬ v.isFailureOutput ∧ exc.cls = .typeError ∧ h <+: h') (fun _ => False)
      (snapshotRef limit ref h) := by
  cases n with
  | zero => cases hread
  | succ n =>
  cases ref with
  | scalar x =>
    cases hread
    cases x with
    | none => exact .pure ⟨.inl rfl, List.prefix_rfl, rfl, trivial⟩
    | _ => exact .raise ⟨by simp [PyValue.isFailureOutput, Scalar.value, PyValue.isJsonObject], rfl,
        List.prefix_rfl⟩
  | node a =>
    have copied := copyJsonRef_ends hread hle
    obtain ⟨node, values, hnode, hvalues, rfl⟩ := Heap.read_node.mp hread
    refine .bind (Q := fun found g => found = some node ∧ g = h) ⟨hnode, rfl⟩ fun found g hg => ?_
    obtain ⟨rfl, rfl⟩ := hg
    cases node with
    | dict items =>
      refine .tryExcept
        (copied.mono (fun _ _ hc => ⟨.inr hc.1, hc.2⟩) (fun _ _ h => h) fun _ h => h)
        fun exc g hg => ?_
      obtain ⟨refused, rfl, grown⟩ := hg
      refine .raise ⟨?_, rfl, grown⟩
      rintro (hnone | hobject)
      · cases hnone
      · cases refused.symm.trans hobject
    | list items =>
      refine .raise ⟨?_, rfl, List.prefix_rfl⟩
      simp [PyValue.isFailureOutput, Node.value, PyValue.isJsonObject]

theorem snapshotRef_ok (hread : h.read n ref = some v) (hle : n ≤ limit)
    (hv : v.isFailureOutput) :
    ∃ ref' h', snapshotRef limit ref h = (.ok ref', h') ∧ Copied h n v ref' h' :=
  ((snapshotRef_ends hread hle).mono (fun _ _ h => h.2) (fun _ _ h => h.1 hv) fun _ h => h).returns

/-! ## From the task body to Conductor -/

/-- A `TaskTerminalError` or a `TaskFailed`. -/
structure TaskError where
  terminal : Bool
  reason : String
  outputData : Ref

/-- `TaskExecutionError.__init__`. -/
def newTaskError (limit : Nat) (terminal : Bool) (reason : String) (outputData : Ref) :
    Proc PyException Heap TaskError := do
  let outputData ← snapshotRef limit outputData
  return ⟨terminal, reason, outputData⟩

def TaskError.status (exc : TaskError) : TaskResultStatus :=
  if exc.terminal then .failedWithTerminalError else .failed

/-- The fields of a failed `RuntimeTaskResult`. -/
structure TaskReport where
  status : TaskResultStatus
  output : Ref
  reasonForIncompletion : String

/-- The field type of `output`: a new dictionary is made from the items of the given one. -/
def validateOutput : Ref → Proc PyException Heap Ref
  | .scalar .none => pure (.scalar .none)
  | .scalar _ => .raise (.mk' .validationError "Input should be a valid dictionary")
  | .node a => do
    match ← .get (·[a]?) with
    | some (.dict items) =>
      if (Node.dict items).keysOk then allocate (.dict items)
      else .raise (.mk' .validationError "Input should be a valid string")
    | _ => .raise (.mk' .validationError "Input should be a valid dictionary")

/-- `result_for_exception` on a task exception. -/
def reportTaskError (limit : Nat) (maxLength : MaxLength) (exc : TaskError) :
    Proc PyException Heap TaskReport := do
  let output ← validateOutput exc.outputData
  let _ ← .tryExcept (snapshotRef limit output) fun refused =>
    .raise { cls := .validationError, text := refused.text }
  return ⟨exc.status, output, failureReason exc.reason maxLength⟩

/-- `None` or an object. -/
def Ref.present : Ref → Option Ref
  | .scalar .none => none
  | ref => some ref

structure ConductorPayload where
  status : String
  output : Option Ref
  reasonForIncompletion : Option String

/-- `conductor_payload`. -/
def TaskReport.conductorPayload (r : TaskReport) : ConductorPayload where
  status := r.status.text
  output := r.output.present
  reasonForIncompletion := some r.reasonForIncompletion

/-- The update of a task, as the SDK sends it. -/
structure SdkTaskResult where
  workflowInstanceId : String
  taskId : String
  workerId : String
  status : TaskResultStatus
  outputData : Option Ref
  reasonForIncompletion : Option String

/-- `runtime_result_to_sdk_task_result`, on a failed result. -/
def runtimeResultToSdkTaskResult (attempt : ConductorRuntime.ConductorTaskAttempt) (r : TaskReport)
    (workerId : String) : SdkTaskResult where
  workflowInstanceId := attempt.workflowInstanceId
  taskId := attempt.taskId
  workerId := workerId
  status := r.status
  outputData := r.output.present
  reasonForIncompletion := some r.reasonForIncompletion

/-- The nodes from `lo` to `hi` have not changed. -/
def Untouched (lo hi : Nat) (h later : Heap) : Prop :=
  ∀ a, lo ≤ a → a < hi → later[a]? = h[a]?

variable {P : Nat → Prop} {later final : Heap}

theorem Untouched.refl {lo hi : Nat} : Untouched lo hi h h := fun _ _ _ => rfl

/-- Reading nodes that have not changed. -/
theorem Untouched.read {lo hi : Nat} (same : Untouched lo hi h later)
    (within : h.Within (fun a => lo ≤ a ∧ a < hi) n ref) : later.read n ref = h.read n ref :=
  Heap.read_congr (fun a ha => same a ha.1 ha.2) within

/-- `None` is no output. -/
def PyValue.output : PyValue → Option PyValue
  | .none => .none
  | v => some v

theorem present_reads (hread : h.read n ref = some v) :
    ref.present.map (h.read n) = v.output.map some := by
  cases n with
  | zero => cases hread
  | succ n =>
  cases ref with
  | scalar x =>
    cases hread
    cases x <;> rfl
  | node a =>
    obtain ⟨node, values, -, -, rfl⟩ := Heap.read_node.mp hread
    rw [Ref.present, Option.map_some, hread]
    · cases node <;> rfl
    · simp

/-- The validated output reads the same, and its only new node is the outermost one. -/
theorem validateOutput_ends (hread : h.read n ref = some v) (hv : v.isFailureOutput)
    (within : h.Within P n ref) :
    Ends (fun (out : Ref) (g : Heap) => h <+: g ∧ g.read n out = some v ∧
        g.Within (fun a => P a ∨ h.length ≤ a ∧ a < g.length) n out)
      (fun _ _ => False) (fun _ => False) (validateOutput ref h) := by
  cases n with
  | zero => cases hread
  | succ n =>
  cases ref with
  | scalar x =>
    cases hread
    cases x with
    | none => exact .pure ⟨List.prefix_rfl, rfl, trivial⟩
    | _ => simp [PyValue.isFailureOutput, Scalar.value, PyValue.isJsonObject] at hv
  | node a =>
    obtain ⟨node, values, hnode, hvalues, rfl⟩ := Heap.read_node.mp hread
    refine .bind (Q := fun found g => found = some node ∧ g = h) ⟨hnode, rfl⟩ fun found g hg => ?_
    obtain ⟨rfl, rfl⟩ := hg
    cases node with
    | list items => simp [PyValue.isFailureOutput, Node.value, PyValue.isJsonObject] at hv
    | dict items =>
      have json := PyValue.isJson_of_isFailureOutput hv
      rw [Node.value_isJson (Heap.mapM_eq_some_iff.mp hvalues).length_eq.symm,
        Bool.and_eq_true] at json
      dsimp only
      rw [if_pos json.1]
      have grown : g <+: g ++ [.dict items] := List.prefix_append _ _
      have here : (g ++ [.dict items])[g.length]? = some (.dict items) := by simp
      refine ⟨grown, ?_, .inr (by simp), fun node' hnode' r hr => ?_⟩
      · exact Heap.read_node.mpr ⟨_, values, here, Heap.readAll_of_grown grown hvalues, rfl⟩
      · obtain rfl : .dict items = node' := Option.some.inj (here.symm.trans hnode')
        obtain ⟨w, -, hw⟩ := Heap.exists_of_mem (Heap.mapM_eq_some_iff.mp hvalues) hr
        refine (within.2 _ hnode r hr).and_read hw |>.of_grown grown (fun a ha => ha.2) |>.mono ?_
        exact fun a ha => .inl ha.1

/-- The report of a task exception, whose metadata is referred to by `ref`. -/
theorem reportTaskError_ends (exc : TaskError) (maxLength : MaxLength)
    (hread : h.read n exc.outputData = some v) (hle : n ≤ limit) (hv : v.isFailureOutput)
    (within : h.Within P n exc.outputData) :
    Ends (fun (r : TaskReport) (g : Heap) => r.status = exc.status ∧
        r.reasonForIncompletion = failureReason exc.reason maxLength ∧
        g.read n r.output = some v ∧
        g.Within (fun a => P a ∨ h.length ≤ a ∧ a < g.length) n r.output)
      (fun _ _ => False) (fun _ => False) (reportTaskError limit maxLength exc h) := by
  refine .bind (validateOutput_ends hread hv within) fun out g hg => ?_
  obtain ⟨grown, hout, inside⟩ := hg
  refine .bind (.tryExcept (snapshotRef_ends hout hle) fun exc k hk => absurd hv hk.1)
    fun _ k hk => ?_
  have hle := hk.2.grown.length_le
  have bounded := inside.and_read hout
  refine .pure ⟨rfl, rfl, Heap.read_of_grown hk.2.grown hout, ?_⟩
  refine (bounded.of_grown hk.2.grown fun a ha => ha.2).mono fun a ha => ?_
  obtain ⟨old | ⟨new, -⟩, bound⟩ := ha
  · exact .inl old
  · exact .inr ⟨new, by omega⟩

/-- The exception as the tree-level classification sees it. -/
def TaskError.tree (exc : TaskError) (v : PyValue) : PyException where
  cls := if exc.terminal then .taskTerminalError else .taskFailed
  text := some exc.reason
  reason := some exc.reason
  outputData := v.output

/-- `result_for_exception` keeps acceptable metadata, and cuts the reason only. -/
theorem resultForException_tree (exc : TaskError) (maxLength : MaxLength)
    (hv : v.isFailureOutput) (deep : v.depth ≤ limit) :
    ∃ result, resultForException limit (exc.tree v) maxLength = .ok result ∧
      result.status = exc.status ∧ result.output = v.output ∧
      result.reasonForIncompletion = some (failureReason exc.reason maxLength) := by
  have shape : ∀ status, status ≠ TaskResultStatus.completed →
      payloadShapeError limit status v.output
        (some (failureReason exc.reason maxLength)) = none := by
    intro status hstatus
    refine payloadShapeError_failure _ hstatus fun value hvalue => ?_
    obtain rfl | hobject := hv
    · cases hvalue
    · obtain rfl : v = value := by
        cases v <;> first | exact Option.some.inj hvalue | cases hobject
      exact ⟨v, snapshotFailureOutput_ok_iff.mpr ⟨hobject, deep, rfl⟩⟩
  obtain ⟨terminal, reason, outputData⟩ := exc
  cases terminal with
  | true =>
    refine ⟨⟨.failedWithTerminalError, v.output, _, limit, shape _ (by simp)⟩, ?_, rfl, rfl, rfl⟩
    simp [resultForException, TaskError.tree, PyException.reasonAttr, failureResult,
      runtimeTaskResult, shape, bind, Except.bind]
  | false =>
    refine ⟨⟨.failed, v.output, _, limit, shape _ (by simp)⟩, ?_, rfl, rfl, rfl⟩
    simp [resultForException, TaskError.tree, PyException.reasonAttr, failureResult,
      runtimeTaskResult, shape, bind, Except.bind]

/-- The payload and the update of a report say what the result says, read in the heap
`final`. -/
structure Carries (final : Heap) (n : Nat) (r : TaskReport) (result : RuntimeTaskResult) :
    Prop where
  status : r.conductorPayload.status = result.status.text
  reason : r.conductorPayload.reasonForIncompletion = result.reasonForIncompletion
  output : r.conductorPayload.output.map (final.read n) = result.output.map some
  update : ∀ attempt workerId,
    (runtimeResultToSdkTaskResult attempt r workerId).status = result.status ∧
    (runtimeResultToSdkTaskResult attempt r workerId).reasonForIncompletion =
      result.reasonForIncompletion ∧
    (runtimeResultToSdkTaskResult attempt r workerId).outputData.map (final.read n) =
      result.output.map some

/-- Whatever happens to other objects, the report of an exception whose metadata is the
copy `ref'` carries what was copied. -/
theorem Copied.reported {ref' : Ref} (copied : Copied h n v ref' h') (hv : v.isFailureOutput)
    (terminal : Bool) (reason : String) (maxLength : MaxLength) (hle : n ≤ limit)
    (same : Untouched h.length h'.length h' later) :
    ∃ r g, reportTaskError limit maxLength ⟨terminal, reason, ref'⟩ later = (.ok r, g) ∧
    ∃ result, resultForException limit (TaskError.tree ⟨terminal, reason, ref'⟩ v) maxLength =
        .ok result ∧
      result.status = (if terminal then .failedWithTerminalError else .failed) ∧
      result.output = v.output ∧
      result.reasonForIncompletion = some (failureReason reason maxLength) ∧
      ∀ final, Untouched h.length h'.length g final → Untouched later.length g.length g final →
        Carries final n r result := by
  have hlater : later.read n ref' = some v := (same.read copied.fresh).trans copied.read
  have within : later.Within (fun a => h.length ≤ a ∧ a < h'.length) n ref' :=
    Heap.within_congr (fun a ha => same a ha.1 ha.2) copied.fresh
  obtain ⟨r, g, run, status, cut, hout, inside⟩ :=
    (reportTaskError_ends ⟨terminal, reason, ref'⟩ maxLength hlater hle hv within).returns
  obtain ⟨result, hresult, hstatus, houtput, hreason⟩ :=
    resultForException_tree ⟨terminal, reason, ref'⟩ maxLength hv
      ((depth_le_of_read hlater).trans hle)
  refine ⟨r, g, run, result, hresult, hstatus, houtput, hreason, fun final kept new => ?_⟩
  have hfinal : final.read n r.output = some v := by
    refine (Heap.read_congr (fun a ha => ?_) inside).trans hout
    obtain ha | ha := ha
    · exact kept a ha.1 ha.2
    · exact new a ha.1 ha.2
  have output : r.output.present.map (final.read n) = result.output.map some := by
    rw [houtput]
    exact present_reads hfinal
  refine ⟨?_, ?_, output, fun attempt workerId => ⟨?_, ?_, output⟩⟩
  · exact congrArg TaskResultStatus.text (status.trans hstatus.symm)
  · rw [hreason]
    exact congrArg some cut
  · exact status.trans hstatus.symm
  · rw [hreason]
    exact congrArg some cut

/-- The metadata of a task exception is copied exactly if it is acceptable, to new nodes
that read the same. As long as nothing changes these, the exception has a result of its
class, and its payload and its update carry the metadata that was given. -/
theorem failure_output_unchanged (hread : h.read n ref = some v) (hle : n ≤ limit) :
    ((∃ ref' h', snapshotRef limit ref h = (.ok ref', h')) ↔ v.isFailureOutput) ∧
    ∀ ref' h', snapshotRef limit ref h = (.ok ref', h') →
      (h.Within (· < h.length) n ref ∧ h'.Within (h.length ≤ ·) n ref') ∧
      (∀ later, Untouched h.length h'.length h' later →
        later.read n ref' = some v ∧
        ∃ ref'' g, snapshotRef limit ref' later = (.ok ref'', g) ∧ g.read n ref'' = some v) ∧
      ∀ terminal reason,
        newTaskError limit terminal reason ref h = (.ok ⟨terminal, reason, ref'⟩, h') ∧
        ∀ limit' maxLength later, n ≤ limit' → Untouched h.length h'.length h' later →
          ∃ r g, reportTaskError limit' maxLength ⟨terminal, reason, ref'⟩ later = (.ok r, g) ∧
          ∃ result, resultForException limit' (TaskError.tree ⟨terminal, reason, ref'⟩ v)
              maxLength = .ok result ∧
            result.status = (if terminal then .failedWithTerminalError else .failed) ∧
            result.output = v.output ∧
            result.reasonForIncompletion = some (failureReason reason maxLength) ∧
            ∀ final, Untouched h.length h'.length g final →
              Untouched later.length g.length g final → Carries final n r result := by
  have ends := snapshotRef_ends hread hle
  refine ⟨⟨?_, fun hv => ?_⟩, fun ref' h' hsnapshot => ?_⟩
  · rintro ⟨ref', h', hsnapshot⟩
    rw [hsnapshot] at ends
    exact ends.1
  · obtain ⟨ref', h', hsnapshot, -⟩ := snapshotRef_ok hread hle hv
    exact ⟨ref', h', hsnapshot⟩
  rw [hsnapshot] at ends
  obtain ⟨hv, copied⟩ := ends
  refine ⟨⟨Heap.within_of_read hread, copied.fresh.mono fun a ha => ha.1⟩,
    fun later same => ?_, fun terminal reason => ⟨?_, ?_⟩⟩
  · have hlater : later.read n ref' = some v := (same.read copied.fresh).trans copied.read
    obtain ⟨ref'', g, hagain, again⟩ := snapshotRef_ok hlater hle hv
    exact ⟨hlater, ref'', g, hagain, again.read⟩
  · exact Proc.bind_of_ok hsnapshot
  · intro limit' maxLength later hle' same
    exact copied.reported hv terminal reason maxLength hle' same

/-! ## A list that is held twice -/

/-- `shared = [1]`, and metadata that holds it under two keys. -/
def sharedHeap : Heap :=
  [.list [.scalar (.int 1)], .dict [(.str "a", .node 0), (.str "b", .node 0)]]

def sharedTree : PyValue := .dict [(.str "a", .list [.int 1]), (.str "b", .list [.int 1])]

theorem shared_output_unchanged : ∃ ref' h', snapshotRef 3 (.node 1) sharedHeap = (.ok ref', h') ∧
    ∀ later, Untouched sharedHeap.length h'.length h' later →
      later.read 3 ref' = some sharedTree := by
  have read : sharedHeap.read 3 (.node 1) = some sharedTree := rfl
  obtain ⟨accepted, unchanged⟩ := failure_output_unchanged read (le_refl 3)
  obtain ⟨ref', h', hsnapshot⟩ := accepted.mpr (.inr rfl)
  refine ⟨ref', h', hsnapshot, fun later same => ?_⟩
  exact ((unchanged ref' h' hsnapshot).2.1 later same).1

end Perago
