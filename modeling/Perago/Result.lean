import Perago.Python

/-!
# Runtime task results

The status and payload a worker attempt reports to Conductor, the check that the
payload fits the status, and the classification of an exception into a result.
-/

namespace Perago

/-! ## Failure metadata -/

/-- The refusal of `snapshot_failure_output`. -/
def outputDataError : PyException :=
  .mk' .typeError "output_data must contain only finite JSON values and string object keys"

def recursionError : PyException :=
  .mk' (.other "RecursionError") "maximum recursion depth exceeded"

mutual

/-- `_copy_json_value`, with room for `limit` nested calls: finite JSON values with string
keys, copied node by node. -/
def copyJsonValue : Nat → PyValue → Except PyException PyValue
  | 0, _ => .error recursionError
  | _ + 1, .none => .ok .none
  | _ + 1, .bool b => .ok (.bool b)
  | _ + 1, .int i => .ok (.int i)
  | _ + 1, .str s => .ok (.str s)
  | _ + 1, .float isfinite repr =>
    if isfinite then .ok (.float true repr) else .error outputDataError
  | limit + 1, .dict items => if items.all fun item => item.1 matches .str _ then
      .dict <$> copyJsonItems limit items
    else .error outputDataError
  | limit + 1, .list items => .list <$> copyJsonList limit items
  | _ + 1, .other _ => .error outputDataError

def copyJsonItems : Nat → List (PyKey × PyValue) → Except PyException (List (PyKey × PyValue))
  | _, [] => .ok []
  | limit, (key, item) :: items => do
    let item ← copyJsonValue limit item
    let items ← copyJsonItems limit items
    return (key, item) :: items

def copyJsonList : Nat → List PyValue → Except PyException (List PyValue)
  | _, [] => .ok []
  | limit, item :: items => do
    let item ← copyJsonValue limit item
    let items ← copyJsonList limit items
    return item :: items

end

/-- `except RecursionError`. -/
def refusedNesting (exc : PyException) : PyException :=
  if exc.cls = .other "RecursionError" then
    .mk' .typeError "output_data must not contain cycles or excessive nesting"
  else exc

/-- `snapshot_failure_output`, on a value other than `None`. -/
def snapshotFailureOutput (limit : Nat) : PyValue → Except PyException PyValue
  | .dict items => (copyJsonValue limit (.dict items)).mapError refusedNesting
  | _ => .error (.mk' .typeError "output_data must be a JSON object")

/-! ## The result model -/

inductive TaskResultStatus where
  | completed
  | failed
  | failedWithTerminalError
  deriving DecidableEq

/-- The wire form of a status. -/
def TaskResultStatus.text : TaskResultStatus → String
  | .completed => "COMPLETED"
  | .failed => "FAILED"
  | .failedWithTerminalError => "FAILED_WITH_TERMINAL_ERROR"

/-- `validate_payload_shape`, with the field type of `output`: the message of the
violated requirement, if any. -/
def payloadShapeError (limit : Nat) (status : TaskResultStatus) (output : Option PyValue)
    (reason : Option String) : Option String :=
  match status with
  | .completed => match output, reason with
    | some (.dict _), none => none
    | some (.dict _), some _ =>
      some "COMPLETED task results must not include reason_for_incompletion"
    | some _, _ => some "Input should be a valid dictionary"
    | none, _ => some "COMPLETED task results require output"
  | status => match reason, output with
    | none, _ => some (status.text ++ " task results require reason_for_incompletion")
    | some _, none => none
    | some _, some value => match snapshotFailureOutput limit value with
      | .ok _ => none
      | .error exc => exc.text

/-- A result whose payload fits its status: it was checked with room for some number of
nested calls. -/
structure RuntimeTaskResult where
  status : TaskResultStatus
  output : Option PyValue
  reasonForIncompletion : Option String
  shape : ∃ limit, payloadShapeError limit status output reasonForIncompletion = none

/-- `RuntimeTaskResult(...)`: pydantic raises when the payload does not fit. -/
def runtimeTaskResult (limit : Nat) (status : TaskResultStatus) (output : Option PyValue)
    (reason : Option String) : Except PyException RuntimeTaskResult :=
  if h : payloadShapeError limit status output reason = none then
    .ok ⟨status, output, reason, limit, h⟩
  else .error { cls := .validationError, text := payloadShapeError limit status output reason }

/-- `failure_reason_max_length`; the configuration only holds positive lengths, so
the `ValueError` of `_failure_reason` is the type. -/
abbrev MaxLength := { n : Nat // 1 ≤ n }

/-- The length that the configuration falls back to. -/
def defaultMaxLength : MaxLength := ⟨500, by decide⟩

/-- `_failure_reason` on a text. -/
def failureReason (reason : String) (maxLength : MaxLength) : String :=
  truncate reason maxLength

/-- `completed_result`. -/
def completedResult (output : List (PyKey × PyValue)) : RuntimeTaskResult :=
  ⟨.completed, some (.dict output), none, 0, rfl⟩

/-- `failed_result` without failure metadata: always well shaped. -/
def failedResult (reason : String) (maxLength : MaxLength) : RuntimeTaskResult :=
  ⟨.failed, none, some (failureReason reason maxLength), 0, rfl⟩

/-- `failed_result` and `terminal_failed_result` on a reason object whose `str` is
`reason`, with the exception's own metadata. -/
def failureResult (limit : Nat) (status : TaskResultStatus) (reason : Option String)
    (output : Option PyValue) (maxLength : MaxLength) : Except PyException RuntimeTaskResult :=
  match reason with
  | some reason => runtimeTaskResult limit status output (some (failureReason reason maxLength))
  | none => .error (.mk' (.other "Exception") "__str__ raised")

/-- The attribute `reason` of a task exception. -/
def PyException.reasonAttr (exc : PyException) : Except PyException String :=
  match exc.reason with
  | some reason => .ok reason
  | none => .error (.mk' .attributeError "object has no attribute 'reason'")

/-- `result_for_exception`, in a handler below which `limit` nested calls are left. -/
def resultForException (limit : Nat) (exc : PyException) (maxLength : MaxLength) :
    Except PyException RuntimeTaskResult :=
  match exc.cls with
  | .taskTerminalError => do
    let reason ← exc.reasonAttr
    failureResult limit .failedWithTerminalError (some reason) exc.outputData maxLength
  | .preGuardrailViolation =>
    failureResult limit .failedWithTerminalError exc.text none maxLength
  | .taskFailed => do
    let reason ← exc.reasonAttr
    failureResult limit .failed (some reason) exc.outputData maxLength
  | _ => failureResult limit .failed exc.text none maxLength

/-- The status `result_for_exception` gives each class. -/
def ExceptionClass.resultStatus : ExceptionClass → TaskResultStatus
  | .taskTerminalError | .preGuardrailViolation => .failedWithTerminalError
  | _ => .failed

/-- A working `__str__`, and a task exception whose base constructor was called: it
has a reason, and metadata that `snapshot_failure_output` accepts. -/
structure PyException.WellFormed (limit : Nat) (exc : PyException) : Prop where
  text : exc.text.isSome
  reason : exc.cls = .taskTerminalError ∨ exc.cls = .taskFailed → exc.reason.isSome
  outputData : exc.cls = .taskTerminalError ∨ exc.cls = .taskFailed →
    ∀ value, exc.outputData = some value → ∃ copy, snapshotFailureOutput limit value = .ok copy

variable {limit : Nat}

theorem PyException.wellFormed_mk' {cls : ExceptionClass} (text : String)
    (h : cls ≠ .taskTerminalError ∧ cls ≠ .taskFailed) :
    (PyException.mk' cls text).WellFormed limit where
  text := rfl
  reason := by rintro (rfl | rfl) <;> simp_all
  outputData := by rintro (rfl | rfl) <;> simp_all

theorem payloadShapeError_failure {status : TaskResultStatus} {output : Option PyValue}
    (reason : String) (h : status ≠ .completed)
    (accepted : ∀ value, output = some value →
      ∃ copy, snapshotFailureOutput limit value = .ok copy) :
    payloadShapeError limit status output (some reason) = none := by
  cases status with
  | completed => exact absurd rfl h
  | failed | failedWithTerminalError =>
    cases output with
    | none => rfl
    | some value =>
      obtain ⟨copy, hcopy⟩ := accepted value rfl
      simp [payloadShapeError, hcopy]

theorem failureResult_ok {status : TaskResultStatus} {output : Option PyValue}
    (reason : String) (maxLength : MaxLength) (h : status ≠ .completed)
    (accepted : ∀ value, output = some value →
      ∃ copy, snapshotFailureOutput limit value = .ok copy) :
    ∃ r, failureResult limit status (some reason) output maxLength = .ok r ∧ r.status = status := by
  have shape := payloadShapeError_failure (failureReason reason maxLength) h accepted
  exact ⟨⟨status, output, some (failureReason reason maxLength), limit, shape⟩,
    by simp [failureResult, runtimeTaskResult, shape], rfl⟩

/-- Every well-formed exception is reported, with the status of its class. -/
theorem resultForException_ok {exc : PyException} (maxLength : MaxLength)
    (h : exc.WellFormed limit) :
    ∃ r, resultForException limit exc maxLength = .ok r ∧ r.status = exc.cls.resultStatus := by
  obtain ⟨text, htext⟩ := Option.isSome_iff_exists.mp h.text
  unfold resultForException
  split
  · rename_i hc
    obtain ⟨reason, hr⟩ := Option.isSome_iff_exists.mp (h.reason (.inl hc))
    simpa [PyException.reasonAttr, hr, hc, ExceptionClass.resultStatus, Except.bind, bind] using
      failureResult_ok reason maxLength (by decide) (h.outputData (.inl hc))
  · rename_i hc
    simpa [htext, hc, ExceptionClass.resultStatus] using
      failureResult_ok text maxLength (by decide) (by simp)
  · rename_i hc
    obtain ⟨reason, hr⟩ := Option.isSome_iff_exists.mp (h.reason (.inr hc))
    simpa [PyException.reasonAttr, hr, hc, ExceptionClass.resultStatus, Except.bind, bind] using
      failureResult_ok reason maxLength (by decide) (h.outputData (.inr hc))
  · have other : exc.cls.resultStatus = .failed := by
      unfold ExceptionClass.resultStatus
      split <;> simp_all
    rw [other, htext]
    exact failureResult_ok text maxLength (by decide) (by simp)

theorem status_of_failureResult {status : TaskResultStatus} {reason : Option String}
    {output : Option PyValue} {maxLength : MaxLength} {r : RuntimeTaskResult}
    (h : failureResult limit status reason output maxLength = .ok r) : r.status = status := by
  unfold failureResult runtimeTaskResult at h
  split at h
  · split at h <;> cases h
    rfl
  · cases h

/-- No exception is reported as a completion, well formed or not. -/
theorem resultForException_not_completed {exc : PyException} {maxLength : MaxLength}
    {r : RuntimeTaskResult} (h : resultForException limit exc maxLength = .ok r) :
    r.status ≠ .completed := by
  unfold resultForException at h
  split at h
  · obtain ⟨reason, -, h⟩ := ok_of_bind h
    simp [status_of_failureResult h]
  · simp [status_of_failureResult h]
  · obtain ⟨reason, -, h⟩ := ok_of_bind h
    simp [status_of_failureResult h]
  · simp [status_of_failureResult h]

end Perago
