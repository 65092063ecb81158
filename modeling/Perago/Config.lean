import Perago.Decimal
import Perago.Python
import Mathlib.Algebra.Module.Defs
import Mathlib.GroupTheory.GroupAction.Ring

/-!
# Runtime configuration

The readers of `config.py`, as functions from the value of an environment
variable. A pattern of the source is a scanner that returns its groups, with
one theorem that says which texts it splits. A `timedelta` is a number of
seconds.
-/

namespace Perago

def runtimeConfigError (text : String) : PyException := .mk' (.other "RuntimeConfigError") text

/-- The stripped text; absent where `value is None or value.strip() == ""`. -/
def configured (value : Option Text) : Option Text :=
  value.bind fun value => if strip value = [] then none else some (strip value)

/-! ## Digits and letters -/

/-- `[0-9]`. -/
def isDigit (c : CodePoint) : Bool := 0x30 ≤ c.val && c.val ≤ 0x39

def digitsValue (digits : Text) : Nat := digits.foldl (fun n c => 10 * n + (c.val - 0x30)) 0

/-- `sys.int_info.default_max_str_digits`. -/
def maxStrDigits : Nat := 4300

/-- `int(digits)` on a text of digits. -/
def int (digits : Text) : Except PyException Nat :=
  if digits.length ≤ maxStrDigits then .ok (digitsValue digits)
  else .error (.mk' .valueError
    (s!"Exceeds the limit ({maxStrDigits} digits) for integer string conversion: value has " ++
      s!"{digits.length} digits; use sys.set_int_max_str_digits() to increase the limit"))

/-- The code points that a small letter of a pattern matches with `re.IGNORECASE`: its two
ASCII cases, `ſ` for s and the Kelvin sign for k. -/
def matchesLetter (letter : Char) (c : CodePoint) : Bool :=
  c.val == letter.toNat || c.val + 32 == letter.toNat ||
    (letter == 's' && c.val == 0x17F) || (letter == 'k' && c.val == 0x212A)

/-- `t.lower()` as far as the ASCII letters go. No other code point is lowered to a letter
of the words it is compared with. -/
def lower (t : Text) : Text :=
  t.map fun c => if 0x41 ≤ c.val ∧ c.val ≤ 0x5A then c + 32 else c

/-- `t.upper()` as far as the ASCII letters go; the Kelvin sign is an upper-case letter. -/
def upper (t : Text) : Text :=
  t.map fun c => if 0x61 ≤ c.val ∧ c.val ≤ 0x7A then c - 32 else c

/-! ## Patterns -/

/-- `[1-9][0-9]*`. -/
def isPositiveNumeral : Text → Bool
  | [] => false
  | c :: t => isDigit c && c.val != 0x30 && t.all isDigit

/-- `re.fullmatch(r"([1-9][0-9]*)([<letters>])", t, flags=re.IGNORECASE)`: the two groups. -/
def matchAmount (letters : List Char) (t : Text) : Option (Text × CodePoint) :=
  match t.dropWhile isDigit with
  | [unit] =>
    if isPositiveNumeral (t.takeWhile isDigit) && letters.any (matchesLetter · unit) then
      some (t.takeWhile isDigit, unit)
    else none
  | _ => none

/-- `(?:\.[0-9]+)?`: the fraction digits and what follows them. -/
def matchFraction : Text → Option (Text × Text)
  | [] => some ([], [])
  | c :: t =>
    if c.val = 0x2E then
      if t.takeWhile isDigit = [] then none
      else some (t.takeWhile isDigit, t.dropWhile isDigit)
    else some ([], c :: t)

/-- The digits before and after the point, and the unit. -/
structure SizeMatch where
  whole : Text
  fraction : Text
  unit : Text
  deriving DecidableEq

/-- `re.fullmatch(r"((?:0|[1-9][0-9]*)(?:\.[0-9]+)?)\s*(KB|MB|GB)", t, flags=re.IGNORECASE)`. -/
def matchSize (t : Text) : Option SizeMatch :=
  let whole := t.takeWhile isDigit
  if isPositiveNumeral whole || whole == text "0" then
    match matchFraction (t.dropWhile isDigit) with
    | none => none
    | some (fraction, rest) => match rest.dropWhile isspace with
      | [k, b] =>
        if "kmg".toList.any (matchesLetter · k) && matchesLetter 'b' b then
          some { whole := whole, fraction := fraction, unit := [k, b] }
        else none
      | _ => none
  else none

/-! ## Sizes -/

def logSizeUnits : List (Text × Nat) :=
  [(text "KB", 1024), (text "MB", 1024 * 1024), (text "GB", 1024 * 1024 * 1024)]

def defaultLogFileMaxSize : Nat := 100 * (1024 * 1024)

/-- The context that `decimal` starts with. -/
def defaultContext : DecimalContext := { prec := 28, emax := 999999, etiny := 1000026 }

/-- `Decimal(match.group(1))`. -/
def SizeMatch.amount (size : SizeMatch) : DecimalNumber where
  coefficient := digitsValue (size.whole ++ size.fraction)
  scale := size.fraction.length

def parseLogFileMaxSize (value : Option Text) : Except PyException Nat :=
  match configured value with
  | none => .ok defaultLogFileMaxSize
  | some value => match matchSize value with
    | none => .error (runtimeConfigError
        "PERAGO_LOG_FILE_MAX_SIZE must be a positive size such as '512KB', '100MB', or '1.5GB'")
    | some size =>
      if size.amount.coefficient = 0 then
        .error (runtimeConfigError "PERAGO_LOG_FILE_MAX_SIZE must be greater than zero")
      else match logSizeUnits.lookup (upper size.unit) with
        | none => .error (.mk' (.other "KeyError") ("'" ++ (upper size.unit).render ++ "'"))
        | some bytes =>
          match defaultContext.round
              { size.amount with coefficient := size.amount.coefficient * bytes } with
          | none => .error (.mk' (.other "decimal.Overflow") "[<class 'decimal.Overflow'>]")
          -- `int(product.to_integral_value(rounding=ROUND_CEILING))`
          | some product => .ok (product.coefficient ⌈/⌉ 10 ^ product.scale)

/-! ## Durations -/

/-- A `timedelta` of so many seconds. -/
def timedelta (seconds : Nat) : Except PyException Nat :=
  let days := seconds / 86400
  if days ≤ 999999999 then .ok seconds
  else if days ≤ 2147483647 then
    .error (.mk' (.other "OverflowError") s!"days={days}; must have magnitude <= 999999999")
  else .error (.mk' (.other "OverflowError") "Python int too large to convert to C int")

def defaultLogRetention : Nat := 30 * 86400
def defaultWorkspaceGcTtl : Nat := 24 * 3600
def defaultWorkspaceGcInterval : Nat := 3600

def parseLogRetention (value : Option Text) : Except PyException Nat :=
  match configured value with
  | none => .ok defaultLogRetention
  | some value => match matchAmount ['d'] value with
    | none => .error (runtimeConfigError
        "PERAGO_LOG_RETENTION must be a positive day count such as '7d' or '30d'")
    | some (days, _) => do
      let days ← int days
      timedelta (days * 86400)

/-- The `timedelta` of `parse_duration`, whose last return is for every unit that is left. -/
def durationOf (amount : Nat) (unit : Text) : Except PyException Nat :=
  if unit = text "s" then timedelta amount
  else if unit = text "m" then timedelta (amount * 60)
  else if unit = text "h" then timedelta (amount * 3600)
  else timedelta (amount * 86400)

def parseDuration (value : Option Text) (default : Nat) (name : String) :
    Except PyException Nat :=
  match configured value with
  | none => .ok default
  | some value => match matchAmount ['s', 'm', 'h', 'd'] value with
    | none => .error (runtimeConfigError
        s!"{name} must be a positive duration such as '30s', '5m', '1h', or '24h'")
    | some (amount, unit) => do
      let amount ← int amount
      durationOf amount (lower [unit])

def parseOptionalDuration (value : Option Text) (name : String) :
    Except PyException (Option Nat) :=
  match configured value with
  | none => .ok none
  | some _ => some <$> parseDuration value 1 name

/-! ## Counts -/

/-- The common body of the readers of a positive integer; `malformed` and `zero` are their
messages. -/
def parsePositive {α : Type} (default : α) (result : Nat → α) (malformed zero : String)
    (value : Option Text) : Except PyException α :=
  match configured value with
  | none => .ok default
  | some stripped =>
    if stripped.all isDigit then do
      let parsed ← int stripped
      if parsed = 0 then .error (runtimeConfigError zero) else .ok (result parsed)
    else .error (runtimeConfigError malformed)

def defaultFailureReasonMaxLength : Nat := 500

def parseFailureReasonMaxLength (value : Option Text) : Except PyException Nat :=
  parsePositive defaultFailureReasonMaxLength id
    "PERAGO_FAILURE_REASON_MAX_LENGTH must be a positive integer"
    "PERAGO_FAILURE_REASON_MAX_LENGTH must be greater than zero" value

def parseMetricsTimeoutMillis (value : Option Text) (name : String) :
    Except PyException (Option Nat) :=
  parsePositive none some s!"{name} must be a positive integer number of milliseconds"
    s!"{name} must be greater than zero" value

def parsePositiveMillis (value : Option Text) (name : String) :
    Except PyException (Option Nat) :=
  parsePositive none some s!"{name} must be a positive integer number of milliseconds"
    s!"{name} must be greater than zero" value

/-! ## The whole configuration -/

/-- The environment after `load_runtime_env`. -/
abbrev Env := String → Option Text

def loadRuntimeEnv (processEnv dotenvEnv : Env) : Env :=
  fun name => (processEnv name).or (dotenvEnv name)

inductive ExecutionMode where
  | process
  | thread
  deriving DecidableEq

structure ConductorConfig where
  serverUrl : Text

structure LakeFSConfig where
  endpointUrl : Text
  accessKeyId : Text
  secretAccessKey : Text

structure MetricsConfig where
  endpoint : Text
  instanceId : Option Text
  gzip : Bool
  timeoutMillis : Option Nat
  exportIntervalMillis : Option Nat

structure RuntimeConfig where
  workspaceRoot : Text
  logRoot : Text
  logFileMaxSize : Nat
  logRetention : Nat
  workerIdPrefix : Text
  executionMode : ExecutionMode
  workspaceGcTtl : Nat
  workspaceGcInterval : Nat
  shutdownForceKillAfter : Option Nat
  failureReasonMaxLength : Nat
  conductor : Option ConductorConfig
  lakefs : Option LakeFSConfig
  metrics : Option MetricsConfig

/-- `[A-Za-z0-9]`. -/
def isAlnum (c : CodePoint) : Bool :=
  isDigit c || (0x41 ≤ c.val && c.val ≤ 0x5A) || (0x61 ≤ c.val && c.val ≤ 0x7A)

def validateWorkerIdPrefix (value : Text) : Except PyException Text :=
  if value = [] then .error (runtimeConfigError "PERAGO_WORKER_ID_PREFIX must not be empty")
  else if value.all isAlnum then .ok value
  else .error (runtimeConfigError
    "PERAGO_WORKER_ID_PREFIX must contain only ASCII letters and digits")

def resolveWorkerIdPrefix (moduleTarget : Text) (env : Env) : Except PyException Text :=
  match env "PERAGO_WORKER_ID_PREFIX" with
  | some value => validateWorkerIdPrefix (strip value)
  | none => validateWorkerIdPrefix (moduleTarget.filter isAlnum)

def parseExecutionMode (value : Option Text) : Except PyException ExecutionMode :=
  match configured value with
  | none => .ok .process
  | some value =>
    if lower value = text "process" then .ok .process
    else if lower value = text "thread" then .ok .thread
    else .error (runtimeConfigError "PERAGO_EXECUTION_MODE must be either 'process' or 'thread'")

def envOptional (env : Env) (name : String) : Except PyException (Option Text) :=
  match configured (env name) with
  | none => .ok none
  | some stripped =>
    if stripped = text "replace-me" then
      .error (runtimeConfigError s!"{name} must be replaced with a real value")
    else .ok (some stripped)

def parseConductorConfig (env : Env) : Except PyException (Option ConductorConfig) := do
  let serverUrl ← envOptional env "CONDUCTOR_SERVER_URL"
  return serverUrl.map ConductorConfig.mk

def parseLakefsConfig (env : Env) : Except PyException (Option LakeFSConfig) := do
  let endpointUrl ← envOptional env "LAKECTL_SERVER_ENDPOINT_URL"
  let accessKeyId ← envOptional env "LAKECTL_CREDENTIALS_ACCESS_KEY_ID"
  let secretAccessKey ← envOptional env "LAKECTL_CREDENTIALS_SECRET_ACCESS_KEY"
  match endpointUrl, accessKeyId, secretAccessKey with
  | none, none, none => return none
  | some endpointUrl, some accessKeyId, some secretAccessKey =>
    return some
      { endpointUrl := endpointUrl, accessKeyId := accessKeyId, secretAccessKey := secretAccessKey }
  | _, _, _ =>
    let missing := [("LAKECTL_SERVER_ENDPOINT_URL", endpointUrl),
      ("LAKECTL_CREDENTIALS_ACCESS_KEY_ID", accessKeyId),
      ("LAKECTL_CREDENTIALS_SECRET_ACCESS_KEY", secretAccessKey)].filterMap
        fun (name, value) => if value.isNone then some name else none
    .error (runtimeConfigError
      ("LakeFS config is incomplete; missing " ++ String.intercalate ", " missing))

def parsePeragoInstanceId (value : Option Text) : Except PyException (Option Text) :=
  match configured value with
  | none => .ok none
  | some stripped =>
    if stripped.all fun c => isAlnum c || c.val == 0x2E || c.val == 0x5F || c.val == 0x2D then
      .ok (some stripped)
    else .error (runtimeConfigError ("PERAGO_INSTANCE_ID must contain only ASCII letters, " ++
      "digits, dots, underscores, or hyphens"))

/-- Whether the compression is `"gzip"`. -/
def parseMetricsCompression (value : Option Text) : Except PyException Bool :=
  match configured value with
  | none => .ok false
  | some value =>
    if lower value = text "gzip" then .ok true
    else .error (runtimeConfigError "OTEL_EXPORTER_OTLP_METRICS_COMPRESSION must be 'gzip'")

/-- The loop of `parse_metrics_config` over the variables it refuses. -/
def refuseUnsupported (env : Env) : List String → Except PyException Unit
  | [] => .ok ()
  | name :: names => do
    let value ← envOptional env name
    if value.isSome then
      .error (runtimeConfigError s!"{name} is not supported by Perago metrics v1")
    else refuseUnsupported env names

def unsupportedMetrics : List String :=
  ["OTEL_EXPORTER_OTLP_METRICS_HEADERS", "OTEL_SERVICE_NAME", "OTEL_RESOURCE_ATTRIBUTES",
    "OTEL_EXPORTER_OTLP_ENDPOINT"]

def parseMetricsConfig (env : Env) : Except PyException (Option MetricsConfig) := do
  refuseUnsupported env unsupportedMetrics
  match ← envOptional env "OTEL_EXPORTER_OTLP_METRICS_ENDPOINT" with
  | none => return none
  | some endpoint =>
    let instanceId ← parsePeragoInstanceId (env "PERAGO_INSTANCE_ID")
    let gzip ← parseMetricsCompression (env "OTEL_EXPORTER_OTLP_METRICS_COMPRESSION")
    let timeoutMillis ← parseMetricsTimeoutMillis (env "OTEL_EXPORTER_OTLP_METRICS_TIMEOUT")
      "OTEL_EXPORTER_OTLP_METRICS_TIMEOUT"
    let exportIntervalMillis ← parsePositiveMillis (env "OTEL_METRIC_EXPORT_INTERVAL")
      "OTEL_METRIC_EXPORT_INTERVAL"
    return some
      { endpoint := endpoint, instanceId := instanceId, gzip := gzip,
        timeoutMillis := timeoutMillis, exportIntervalMillis := exportIntervalMillis }

/-- The construction of the `RuntimeConfig`, its readers in the order of the call. -/
def readRuntimeConfig (moduleTarget tempRoot : Text) (env : Env) :
    Except PyException RuntimeConfig := do
  let logFileMaxSize ← parseLogFileMaxSize (env "PERAGO_LOG_FILE_MAX_SIZE")
  let logRetention ← parseLogRetention (env "PERAGO_LOG_RETENTION")
  let workerIdPrefix ← resolveWorkerIdPrefix moduleTarget env
  let executionMode ← parseExecutionMode (env "PERAGO_EXECUTION_MODE")
  let workspaceGcTtl ← parseDuration (env "PERAGO_WORKSPACE_GC_TTL") defaultWorkspaceGcTtl
    "PERAGO_WORKSPACE_GC_TTL"
  let workspaceGcInterval ← parseDuration (env "PERAGO_WORKSPACE_GC_INTERVAL")
    defaultWorkspaceGcInterval "PERAGO_WORKSPACE_GC_INTERVAL"
  let shutdownForceKillAfter ← parseOptionalDuration (env "PERAGO_SHUTDOWN_FORCE_KILL_AFTER")
    "PERAGO_SHUTDOWN_FORCE_KILL_AFTER"
  let failureReasonMaxLength ←
    parseFailureReasonMaxLength (env "PERAGO_FAILURE_REASON_MAX_LENGTH")
  let conductor ← parseConductorConfig env
  let lakefs ← parseLakefsConfig env
  let metrics ← parseMetricsConfig env
  return {
    workspaceRoot := (env "PERAGO_WORKSPACE_ROOT").getD (tempRoot ++ text "/workspaces")
    logRoot := (env "PERAGO_LOG_ROOT").getD (tempRoot ++ text "/logs")
    logFileMaxSize := logFileMaxSize
    logRetention := logRetention
    workerIdPrefix := workerIdPrefix
    executionMode := executionMode
    workspaceGcTtl := workspaceGcTtl
    workspaceGcInterval := workspaceGcInterval
    shutdownForceKillAfter := shutdownForceKillAfter
    failureReasonMaxLength := failureReasonMaxLength
    conductor := conductor
    lakefs := lakefs
    metrics := metrics }

/-- `probe` creates and removes the files below a root. -/
def checkWritableRoot (probe : Text → Except PyException Unit) (path : Text) :
    Except PyException Unit :=
  match probe path with
  | .ok () => .ok ()
  | .error exc =>
    if exc.cls.isOSError then
      .error (runtimeConfigError (path.render ++ " is not writable: " ++ exc.text.getD ""))
    else .error exc

def loadRuntimeConfig (probe : Text → Except PyException Unit) (moduleTarget tempRoot : Text)
    (processEnv dotenvEnv : Env) (probeRoots : Bool) : Except PyException RuntimeConfig := do
  let config ← readRuntimeConfig moduleTarget tempRoot (loadRuntimeEnv processEnv dotenvEnv)
  if probeRoots then
    checkWritableRoot probe config.workspaceRoot
    checkWritableRoot probe config.logRoot
  return config

end Perago
