import Perago.ConductorRuntime.ProcessExecutor
import Perago.Execution
import Perago.FailureOutput

/-!
# Exceptions that are reported

`result_for_exception` runs in the handler of an attempt. It reads the attributes of a
task exception, calls `str`, and validates the result again. An exception for which one
of these raises is not turned into a result: it leaves the attempt, the loop of its
executor, and the executor process.
-/

namespace Perago

open Effect ConductorRuntime

variable {σ : Type}

/-! ## The exceptions that have a result -/

/-- A task exception must have a reason and metadata in finite JSON that is not nested
beyond the limit, any other exception a working `__str__`. -/
def PyException.Reportable (limit : Nat) (exc : PyException) : Prop :=
  match exc.cls with
  | .taskTerminalError | .taskFailed =>
    exc.reason.isSome = true ∧
      ∀ value, exc.outputData = some value → value.isJsonObject = true ∧ value.depth ≤ limit
  | _ => exc.text.isSome = true

/-- The result of the exception can be sent. Only metadata can prevent it. -/
def PyException.sendable (exc : PyException) : Bool :=
  match exc.cls with
  | .taskTerminalError | .taskFailed => exc.outputData.isNone || exc.outputPickles
  | _ => true

variable {exc : PyException} {maxLength : MaxLength} {limit : Nat}

theorem failureResult_ok_iff {status : TaskResultStatus} {reason : Option String}
    {output : Option PyValue} (h : status ≠ .completed) :
    (∃ r, failureResult limit status reason output maxLength = .ok r) ↔ reason.isSome = true ∧
      ∀ value, output = some value → value.isJsonObject = true ∧ value.depth ≤ limit := by
  cases reason with
  | none => simp [failureResult]
  | some reason =>
    constructor
    · rintro ⟨r, hr⟩
      refine ⟨rfl, ?_⟩
      rintro value rfl
      simp only [failureResult, runtimeTaskResult] at hr
      split at hr
      · rename_i shape
        cases hcopy : snapshotFailureOutput limit value with
        | ok copy =>
          obtain ⟨json, deep, -⟩ := snapshotFailureOutput_ok_iff.mp hcopy
          exact ⟨json, deep⟩
        | error refused =>
          obtain ⟨message, rfl⟩ := snapshotFailureOutput_error hcopy
          cases status with
          | completed => exact absurd rfl h
          | failed | failedWithTerminalError =>
            simp [payloadShapeError, hcopy, PyException.mk'] at shape
      · cases hr
    · rintro ⟨-, accepted⟩
      have copied : ∀ value, output = some value →
          ∃ copy, snapshotFailureOutput limit value = .ok copy := by
        intro value hv
        obtain ⟨json, deep⟩ := accepted value hv
        exact ⟨value, snapshotFailureOutput_ok_iff.mpr ⟨json, deep, rfl⟩⟩
      obtain ⟨r, hr, -⟩ := failureResult_ok reason maxLength h copied
      exact ⟨r, hr⟩

theorem taskFailureResult_ok_iff {status : TaskResultStatus} (h : status ≠ .completed) :
    (∃ r, (do
      let reason ← exc.reasonAttr
      failureResult limit status (some reason) exc.outputData maxLength) = .ok r) ↔
    exc.reason.isSome = true ∧
      ∀ value, exc.outputData = some value → value.isJsonObject = true ∧ value.depth ≤ limit := by
  unfold PyException.reasonAttr
  cases exc.reason with
  | none => simp [bind, Except.bind]
  | some reason =>
    change (∃ r, failureResult limit status (some reason) exc.outputData maxLength = .ok r) ↔ _
    exact failureResult_ok_iff h

/-- The conversion returns exactly on reportable exceptions. -/
theorem resultForException_ok_iff :
    (∃ r, resultForException limit exc maxLength = .ok r) ↔ exc.Reportable limit := by
  have other : ∀ status, status ≠ TaskResultStatus.completed →
      ((∃ r, failureResult limit status exc.text none maxLength = .ok r) ↔
        exc.text.isSome = true) := by
    intro status hstatus
    simp [failureResult_ok_iff hstatus]
  unfold resultForException PyException.Reportable
  cases exc.cls with
  | taskTerminalError => exact taskFailureResult_ok_iff (by simp)
  | taskFailed => exact taskFailureResult_ok_iff (by simp)
  | preGuardrailViolation => exact other _ (by simp)
  | _ => exact other _ (by simp)

/-! ## Workspace-free attempts -/

/-- A loaded task without a workspace. -/
structure WorkspaceFreeTask (σ : Type) where
  metrics : Option MetricSpec
  validateParams : PyValue → Except PyException PyValue
  validateResult : PyValue → Except PyException PyValue
  fn : PyValue → Option (MetricRecorder σ) → Proc PyException σ PyValue

/-- The arguments of `run_workspace_free_task_attempt`. -/
structure WorkspaceFreeAttempt (σ : Type) where
  task : WorkspaceFreeTask σ
  inputData : PyValue
  metrics : Option (MetricRecorder σ)
  failureReasonMaxLength : MaxLength
  nestingLimit : Nat

/-- `input_data["params"]`, when it is there. -/
def paramsInput (inputData : PyValue) : Except PyException PyValue :=
  match inputData.get? "params" with
  | some params => .ok params
  | none => .error (.mk' .taskInputError "workspace-free task input must contain params")

/-- `invoke_workspace_free_task`: the dump of the validated result. -/
def invokeWorkspaceFreeTask (a : WorkspaceFreeAttempt σ) : Proc PyException σ PyValue := do
  let params ← .ofExcept (paramsInput a.inputData)
  let params ← .ofExcept (a.task.validateParams params)
  let raw ← match a.task.metrics, a.metrics with
    | none, _ => a.task.fn params none
    | some _, none => .raise missingRecorder
    | some _, some metrics => a.task.fn params (some metrics)
  .ofExcept (a.task.validateResult raw)

/-- `run_workspace_free_task_attempt`. -/
def runWorkspaceFreeTaskAttempt (a : WorkspaceFreeAttempt σ) :
    Proc PyException σ RuntimeTaskResult :=
  .tryExcept (do
      let result ← invokeWorkspaceFreeTask a
      return completedResult [(.str "result", result)])
    fun exc => .ofExcept (resultForException a.nestingLimit exc a.failureReasonMaxLength)

/-! ## Attempts of an executor -/

/-- An attempt of either kind, as `execute_polled_task` runs it. -/
inductive PolledTask (σ : Type) where
  | workspace (a : WorkspaceAttempt σ)
  | workspaceFree (a : WorkspaceFreeAttempt σ)

variable (host : Host σ)

/-- `execute_polled_task`, its histogram apart. -/
def executePolledTask : PolledTask σ → Proc PyException σ RuntimeTaskResult
  | .workspace a => runWorkspaceTaskAttempt host a
  | .workspaceFree a => runWorkspaceFreeTaskAttempt a

/-- The `try` block of the attempt raises `exc`, in its body, a callback or elsewhere. -/
def PolledTask.Raises (s : σ) (exc : PyException) : PolledTask σ → Prop
  | .workspace a => ∃ spec, a.task.workspace = some spec ∧
    let (execution, owner, u) := openAttempt host a s
    (attemptBlock host a spec execution owner (.enter u)).1 = .error exc
  | .workspaceFree a => (invokeWorkspaceFreeTask a s).1 = .error exc

/-- The `finally` clause of the attempt returns. -/
def PolledTask.FinallyReturns (s : σ) : PolledTask σ → Prop
  | .workspace a => ∀ spec, a.task.workspace = some spec →
    let (execution, owner, u) := openAttempt host a s
    ∃ G, finishAttempt host a owner (attemptBlock host a spec execution owner (.enter u)).2 =
      (.ok (), G)
  | .workspaceFree _ => True

/-- The rest of the iteration that has received an assignment, with its pipe open: an
exception of `execute_polled_task` leaves the loop and ends the process, and so does a
result that `pickle` cannot write. -/
def finishAssignment (pickles : Bool) (p : Pipe) (e : Executor) :
    Outcome PyException RuntimeTaskResult → Option (Pipe × Executor)
  | .ok r => (executorStep p e (.finish r)).bind fun q =>
    executorStep q.1 q.2 (if pickles then .sendOk else .crash)
  | .error _ | .crashed => executorStep p e .crash

/-- The executor is back at the test of its loop, and has sent one completion for the
assignment, with the given result. -/
def Completes (a : ProcessTaskAssignment) (r : RuntimeTaskResult) (p : Pipe) (e : Executor) :
    Option (Pipe × Executor) → Prop
  | some (p', e') => e'.phase = .testing ∧ e'.sent = e.sent ++ [completionOf (a, r)] ∧
    p'.toBroker = p.toBroker ++ [.completion (completionOf (a, r))]
  | none => False

variable {host}

/-- The completion of an assignment carries what `execute_polled_task` returned. -/
theorem completes_iff {a : ProcessTaskAssignment} {r : RuntimeTaskResult} {p : Pipe} {e : Executor}
    {o : Outcome PyException RuntimeTaskResult} {pickles : Bool}
    (executing : e.phase = .executing a) :
    Completes a r p e (finishAssignment pickles p e o) ↔ o = .ok r ∧ pickles = true := by
  cases o with
  | ok r' =>
    cases pickles with
    | true => simp [finishAssignment, executorStep, executing, Completes, completionOf]
    | false => simp [finishAssignment, executorStep, executing, Completes]
  | error exc => simp [finishAssignment, executorStep, Completes]
  | crashed => simp [finishAssignment, executorStep, Completes]

/-! ## When the exception of an attempt is reported -/

/-- The nested calls that are left in the handler of the attempt. -/
def PolledTask.nestingLimit : PolledTask σ → Nat
  | .workspace a => a.nestingLimit
  | .workspaceFree a => a.nestingLimit

/-- The longest reason that the attempt may report. -/
def PolledTask.reasonLength : PolledTask σ → MaxLength
  | .workspace a => a.failureReasonMaxLength
  | .workspaceFree a => a.failureReasonMaxLength

/-- A `try` block that raises: its handler is a conversion, and its finaliser has to
return. -/
theorem handled_ok_iff {τ α : Type} {f : Proc PyException τ α} {s t : τ} {b : α}
    {convert : PyException → Except PyException α} (h : (f s).1 = .error exc) :
    f.tryExcept (fun exc => .ofExcept (convert exc)) s = (.ok b, t) ↔
      convert exc = .ok b ∧ t = (f s).2 := by
  have raised : f s = (.error exc, (f s).2) := Prod.ext h rfl
  rw [Proc.tryExcept_ok_iff]
  constructor
  · rintro (hf | ⟨e, u, hf, handled⟩)
    · cases raised.symm.trans hf
    · obtain ⟨hconvert, rfl⟩ := Proc.ofExcept_ok_iff.mp handled
      obtain ⟨he, hu⟩ := Prod.mk.inj (raised.symm.trans hf)
      cases he
      exact ⟨hconvert, hu.symm⟩
  · rintro ⟨hconvert, rfl⟩
    exact .inr ⟨exc, (f s).2, raised, Proc.ofExcept_ok_iff.mpr ⟨hconvert, rfl⟩⟩

/-- An attempt whose `try` block has raised returns what the handler made of it, if its
`finally` clause returns. -/
theorem executePolledTask_ok_iff {task : PolledTask σ} {s : σ} (raises : task.Raises host s exc)
    {r : RuntimeTaskResult} : (∃ t, executePolledTask host task s = (.ok r, t)) ↔
      resultForException task.nestingLimit exc task.reasonLength = .ok r ∧
        task.FinallyReturns host s := by
  cases task with
  | workspace a =>
    obtain ⟨spec, hspec, raises⟩ := raises
    cases hopen : openAttempt host a s with
    | mk execution rest =>
    obtain ⟨owner, u⟩ := rest
    simp only [hopen] at raises
    have finishes : (PolledTask.workspace a).FinallyReturns host s ↔ ∃ G, finishAttempt host a owner
        (attemptBlock host a spec execution owner (.enter u)).2 = (.ok (), G) := by
      simp [PolledTask.FinallyReturns, hspec, hopen]
    have run : (∃ t, executePolledTask host (.workspace a) s = (.ok r, t)) ↔
        ∃ G, guardedAttempt host a spec execution owner (.enter u) = (.ok r, G) := by
      simp only [executePolledTask, runWorkspaceTaskAttempt, hspec, runInFrame, hopen]
      generalize guardedAttempt host a spec execution owner (.enter u) = call
      obtain ⟨o, F⟩ := call
      simp
    rw [run, finishes]
    unfold guardedAttempt
    simp only [Proc.tryFinally_ok_iff, handled_ok_iff raises]
    constructor
    · rintro ⟨G, F, ⟨hconvert, rfl⟩, hfinish⟩
      exact ⟨hconvert, G, hfinish⟩
    · rintro ⟨hconvert, G, hfinish⟩
      exact ⟨G, _, ⟨hconvert, rfl⟩, hfinish⟩
  | workspaceFree a =>
    have raised : ((do
        let result ← invokeWorkspaceFreeTask a
        return completedResult [(.str "result", result)] :
        Proc PyException σ RuntimeTaskResult) s).1 = .error exc :=
      congrArg Prod.fst (Proc.bind_of_error (Prod.ext raises rfl))
    simp only [executePolledTask, runWorkspaceFreeTaskAttempt, handled_ok_iff raised]
    simp [PolledTask.FinallyReturns, PolledTask.reasonLength, PolledTask.nestingLimit]

/-- An attempt whose `try` block raises returns a failed result exactly when the exception
is reportable and the `finally` clause returns; and its executor sends one completion for
it, and goes on, exactly when moreover the result can be sent. -/
theorem failing_attempt_reported_iff {task : PolledTask σ} {s : σ}
    (raises : task.Raises host s exc) :
    ((∃ r t, executePolledTask host task s = (.ok r, t) ∧ r.status ≠ .completed) ↔
      exc.Reportable task.nestingLimit ∧ task.FinallyReturns host s) ∧
    ∀ p e a, e.phase = .executing a →
      ((∃ r, Completes a r p e
            (finishAssignment exc.sendable p e (executePolledTask host task s).1) ∧
          r.status ≠ .completed) ↔
        (exc.Reportable task.nestingLimit ∧ task.FinallyReturns host s) ∧
          exc.sendable = true) := by
  have reported : (∃ r, ∃ t, executePolledTask host task s = (.ok r, t)) ↔
      exc.Reportable task.nestingLimit ∧ task.FinallyReturns host s := by
    simp only [executePolledTask_ok_iff raises, exists_and_right, resultForException_ok_iff]
  have failed : ∀ r t, executePolledTask host task s = (.ok r, t) → r.status ≠ .completed := by
    intro r t run
    obtain ⟨converted, -⟩ := (executePolledTask_ok_iff raises).mp ⟨t, run⟩
    exact resultForException_not_completed converted
  constructor
  · rw [← reported]
    constructor
    · rintro ⟨r, t, run, -⟩
      exact ⟨r, t, run⟩
    · rintro ⟨r, t, run⟩
      exact ⟨r, t, run, failed r t run⟩
  · intro p e a executing
    rw [← reported]
    simp only [completes_iff executing]
    constructor
    · rintro ⟨r, ⟨run, sends⟩, -⟩
      exact ⟨⟨r, _, Prod.ext run rfl⟩, sends⟩
    · rintro ⟨⟨r, t, run⟩, sends⟩
      exact ⟨r, ⟨congrArg Prod.fst run, sends⟩, failed r t run⟩

/-! ## Exceptions that are not reported -/

/-- A task without input that raises. -/
def raisingTask (exc : PyException) : WorkspaceFreeAttempt Unit where
  task := {
    metrics := none
    validateParams := .ok
    validateResult := .ok
    fn _ _ := .raise exc }
  inputData := .dict [(.str "params", .dict [])]
  metrics := none
  failureReasonMaxLength := defaultMaxLength
  nestingLimit := 900

/-- A machine that a workspace-free attempt does not use. -/
def unusedHost : Host Unit := restingHost (fun _ => emptyTree) fun _ => ""

/-- A `TaskFailed` with metadata in three levels. -/
def taskFailedWithOutput : PyException where
  cls := .taskFailed
  text := some "upstream"
  reason := some "upstream"
  outputData := some (.dict [(.str "codes", .list [.int 502, .int 503])])

/-- An ordinary exception is reported. -/
theorem failing_attempt_reported_iff_ordinary :
    let exc := taskFailedWithOutput
    let task := PolledTask.workspaceFree (raisingTask exc)
    ((∃ r t, executePolledTask unusedHost task () = (.ok r, t) ∧ r.status ≠ .completed) ↔
      exc.Reportable 900 ∧ task.FinallyReturns unusedHost ()) ∧
    ∀ p e a, e.phase = .executing a →
      ((∃ r, Completes a r p e
            (finishAssignment exc.sendable p e (executePolledTask unusedHost task ()).1) ∧
          r.status ≠ .completed) ↔
        (exc.Reportable 900 ∧ task.FinallyReturns unusedHost ()) ∧ exc.sendable = true) :=
  failing_attempt_reported_iff rfl

example : taskFailedWithOutput.Reportable 900 := by
  refine ⟨rfl, fun value hvalue => ?_⟩
  cases hvalue
  exact ⟨rfl, by decide⟩

/-- A `TaskFailed` whose subclass does not call the base constructor. -/
def bareTaskFailed : PyException := { cls := .taskFailed, text := some "" }

/-- A `TaskTerminalError` with something put into its metadata. -/
def alteredTerminalError (value : PyValue) (pickles : Bool) : PyException where
  cls := .taskTerminalError
  text := some "bad"
  reason := some "bad"
  outputData := some (.dict [(.str "value", value)])
  outputPickles := pickles

/-- An exception whose `__str__` raises. -/
def unprintable : PyException := { cls := .other "UserError", text := none }

/-- `[[...[]...]]`. -/
def nestedList : Nat → PyValue
  | 0 => .list []
  | n + 1 => .list [nestedList n]

theorem nestedList_depth (n : Nat) : (nestedList n).depth = n + 1 := by
  induction n with
  | zero => rfl
  | succ n ih => simp [nestedList, PyValue.depth, listDepth, ih]

/-- The attempt raises. -/
def EndsAttempt (exc : PyException) : Prop :=
  ∃ escaped, executePolledTask unusedHost (.workspaceFree (raisingTask exc)) () =
    (.error escaped, ())

/-- The executor that runs the attempt dies without a completion. -/
def EndsExecutor (exc : PyException) : Prop :=
  ∀ p e a, e.phase = .executing a → ∃ e', finishAssignment exc.sendable p e
      (executePolledTask unusedHost (.workspaceFree (raisingTask exc)) ()).1 = some (p, e') ∧
    e'.phase = .dead ∧ e'.sent = e.sent

theorem endsAttempt_of_not_reportable (h : ¬ exc.Reportable 900) : EndsAttempt exc := by
  have run : executePolledTask unusedHost (.workspaceFree (raisingTask exc)) () =
      (Proc.ofExcept (resultForException 900 exc defaultMaxLength) : Proc _ Unit _) () := rfl
  rw [EndsAttempt, run]
  cases hresult : resultForException 900 exc defaultMaxLength with
  | ok r => exact absurd (resultForException_ok_iff.mp ⟨r, hresult⟩) h
  | error escaped => exact ⟨escaped, rfl⟩

theorem endsExecutor_of_not_reportable (h : ¬ exc.Reportable 900) : EndsExecutor exc := by
  obtain ⟨escaped, run⟩ := endsAttempt_of_not_reportable h
  intro p e a _
  rw [run]
  exact ⟨_, rfl, rfl, rfl⟩

theorem nestedList_not_reportable {n : Nat} (deep : limit < n) :
    ¬ (alteredTerminalError (nestedList n) true).Reportable limit := by
  intro h
  obtain ⟨-, bound⟩ := h.2 _ rfl
  rw [PyValue.depth, itemsDepth, itemsDepth, nestedList_depth] at bound
  omega

/-- The first four leave the attempt, and all five end their executor: metadata that cannot
be pickled is reported by the attempt, and cannot be sent. -/
theorem unusual_exceptions_end_executor :
    let reported := [bareTaskFailed, alteredTerminalError (.other "object()") true,
      alteredTerminalError (nestedList 3000) true, unprintable]
    (∀ exc ∈ reported, EndsAttempt exc ∧ EndsExecutor exc) ∧
      EndsExecutor (alteredTerminalError (.dict []) false) := by
  have refused : ∀ exc ∈ [bareTaskFailed, alteredTerminalError (.other "object()") true,
      alteredTerminalError (nestedList 3000) true, unprintable], ¬ exc.Reportable 900 := by
    intro exc hexc h
    simp only [List.mem_cons, List.not_mem_nil, or_false] at hexc
    obtain rfl | rfl | rfl | rfl := hexc
    · cases h.1
    · cases (h.2 _ rfl).1
    · exact nestedList_not_reportable (by decide) h
    · cases h
  refine ⟨fun exc hexc => ?_, ?_⟩
  · exact ⟨endsAttempt_of_not_reportable (refused exc hexc),
      endsExecutor_of_not_reportable (refused exc hexc)⟩
  · intro p e a executing
    have run : (executePolledTask unusedHost
        (.workspaceFree (raisingTask (alteredTerminalError (.dict []) false))) ()).1 =
        .ok ⟨.failedWithTerminalError, some (.dict [(.str "value", .dict [])]), some "bad",
          900, rfl⟩ := rfl
    rw [run]
    simp [finishAssignment, executorStep, executing, PyException.sendable, alteredTerminalError]

end Perago
