import Perago.Json
import Perago.Models

/-!
# Task controls

The retry, timeout, limit and publish budget controls of a task, and the fields
of a TaskDef that they are written to.
-/

namespace Perago

/-! ## Policies -/

inductive RetryLogic where
  | fixed
  | exponentialBackoff
  | linearBackoff
  deriving DecidableEq

def RetryLogic.text : RetryLogic → String
  | fixed => "FIXED"
  | exponentialBackoff => "EXPONENTIAL_BACKOFF"
  | linearBackoff => "LINEAR_BACKOFF"

/-- The values of `TimeoutPolicy.policy`. -/
inductive TimeoutAction where
  | retry
  | timeOutWf
  | alertOnly
  deriving DecidableEq

def TimeoutAction.text : TimeoutAction → String
  | retry => "RETRY"
  | timeOutWf => "TIME_OUT_WF"
  | alertOnly => "ALERT_ONLY"

def maxRetryCount : Nat := 10

structure RetryPolicy where
  count : Nat
  logic : RetryLogic
  delaySeconds : Nat
  maxDelaySeconds : Nat
  jitterMs : Nat
  count_le : count ≤ maxRetryCount

/-- `RetryPolicy()`. -/
def RetryPolicy.default : RetryPolicy where
  count := 3
  logic := .fixed
  delaySeconds := 60
  maxDelaySeconds := 0
  jitterMs := 0
  count_le := by decide

structure TimeoutPolicy where
  policy : TimeoutAction := .timeOutWf
  seconds : Nat := 0
  responseSeconds : Nat := 600
  pollSeconds : Nat := 0
  totalSeconds : Nat := 0

/-- The two sides of the rate limit are configured together. -/
structure ExecutionLimits where
  concurrentExecLimit : Option Nat
  rateLimitFrequencyInSeconds : Option Nat
  rateLimitPerFrequency : Option Nat
  paired : rateLimitFrequencyInSeconds.isSome = rateLimitPerFrequency.isSome

/-- `ExecutionLimits()`. -/
def ExecutionLimits.default : ExecutionLimits where
  concurrentExecLimit := none
  rateLimitFrequencyInSeconds := none
  rateLimitPerFrequency := none
  paired := rfl

/-- `validate_rate_limit_pair`. -/
def ExecutionLimits.validate (concurrent frequency limit : Option Nat) :
    Except PyException ExecutionLimits :=
  if h : frequency.isSome = limit.isSome then
    .ok { concurrentExecLimit := concurrent, rateLimitFrequencyInSeconds := frequency,
          rateLimitPerFrequency := limit, paired := h }
  else .error (validationError "ExecutionLimits" ("rate_limit_frequency_in_seconds and " ++
    "rate_limit_per_frequency must be configured together"))

/-- The merge timeout covers the observed latency and its margin. -/
structure PublishBudget where
  observedMergeP99Seconds : Nat
  safetyMarginSeconds : Nat
  lakefsMergeTimeoutSeconds : Nat
  conductorCompletionTimeoutSeconds : Nat
  workerShutdownGraceSeconds : Nat
  heartbeatIntervalSeconds : Nat
  merge_pos : 1 ≤ lakefsMergeTimeoutSeconds
  completion_pos : 1 ≤ conductorCompletionTimeoutSeconds
  grace_pos : 1 ≤ workerShutdownGraceSeconds
  heartbeat_pos : 1 ≤ heartbeatIntervalSeconds
  covers : observedMergeP99Seconds + safetyMarginSeconds ≤ lakefsMergeTimeoutSeconds

def PublishBudget.responseTimeoutSeconds (b : PublishBudget) : Nat :=
  b.lakefsMergeTimeoutSeconds + b.conductorCompletionTimeoutSeconds +
    b.workerShutdownGraceSeconds + b.heartbeatIntervalSeconds

structure TaskControls where
  retry : RetryPolicy := .default
  timeout : TimeoutPolicy := {}
  limits : ExecutionLimits := .default
  publishBudget : Option PublishBudget := none

/-- The alias for `timeout.response_seconds`. -/
def TaskControls.responseTimeoutSeconds (c : TaskControls) : Nat := c.timeout.responseSeconds

/-! ## Fields of the TaskDef -/

def Json.ofNat (n : Nat) : Json := .num n

/-- `CONTROL_FIELD_MAP`, a path read as the value it leads to. -/
def controlFieldMap : List (String × (TaskControls → Option Json)) :=
  [("retryCount", fun c => some (.ofNat c.retry.count)),
    ("retryLogic", fun c => some (.str c.retry.logic.text)),
    ("retryDelaySeconds", fun c => some (.ofNat c.retry.delaySeconds)),
    ("maxRetryDelaySeconds", fun c => some (.ofNat c.retry.maxDelaySeconds)),
    ("backoffJitterMs", fun c => some (.ofNat c.retry.jitterMs)),
    ("totalTimeoutSeconds", fun c => some (.ofNat c.timeout.totalSeconds)),
    ("timeoutPolicy", fun c => some (.str c.timeout.policy.text)),
    ("timeoutSeconds", fun c => some (.ofNat c.timeout.seconds)),
    ("responseTimeoutSeconds", fun c => some (.ofNat c.responseTimeoutSeconds)),
    ("pollTimeoutSeconds", fun c => some (.ofNat c.timeout.pollSeconds)),
    ("concurrentExecLimit", fun c => c.limits.concurrentExecLimit.map .ofNat),
    ("rateLimitFrequencyInSeconds", fun c => c.limits.rateLimitFrequencyInSeconds.map .ofNat),
    ("rateLimitPerFrequency", fun c => c.limits.rateLimitPerFrequency.map .ofNat)]

end Perago
