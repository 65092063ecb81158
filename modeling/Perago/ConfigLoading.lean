import Perago.ConfigReading

/-!
# Loading the configuration

The readers of `load_runtime_config` in the order of the call. What each of them
refuses and what it raises besides is said of the environment alone, and so is what
the whole load does with it.
-/

namespace Perago

variable {α β : Type}

/-! ## The whole configuration -/

/-- What `x` raises is a `RuntimeConfigError`. -/
abbrev OnlyConfigErrors (x : Except PyException α) : Prop := FailsClosed (fun _ => True) x

theorem envOptional_failsClosed (env : Env) (name : String) :
    FailsClosed (fun value => value = configured (env name)) (envOptional env name) := by
  unfold envOptional
  split
  · simp [*]
  · split <;> simp [*]

theorem envOptional_onlyConfigErrors (env : Env) (name : String) :
    OnlyConfigErrors (envOptional env name) :=
  (envOptional_failsClosed env name).mono fun _ _ => trivial

theorem resolveWorkerIdPrefix_onlyConfigErrors (moduleTarget : Text) (env : Env) :
    OnlyConfigErrors (resolveWorkerIdPrefix moduleTarget env) := by
  unfold resolveWorkerIdPrefix validateWorkerIdPrefix
  grind [FailsClosed, runtimeConfigError_cls]

theorem parseExecutionMode_onlyConfigErrors (value : Option Text) :
    OnlyConfigErrors (parseExecutionMode value) := by
  unfold parseExecutionMode
  grind [FailsClosed, runtimeConfigError_cls]

theorem parsePeragoInstanceId_onlyConfigErrors (value : Option Text) :
    OnlyConfigErrors (parsePeragoInstanceId value) := by
  unfold parsePeragoInstanceId
  split
  · trivial
  · split <;> trivial

theorem parseMetricsCompression_onlyConfigErrors (value : Option Text) :
    OnlyConfigErrors (parseMetricsCompression value) := by
  unfold parseMetricsCompression
  grind [FailsClosed, runtimeConfigError_cls]

theorem parseConductorConfig_onlyConfigErrors (env : Env) :
    OnlyConfigErrors (parseConductorConfig env) :=
  (envOptional_onlyConfigErrors env _).bind fun _ _ => trivial

theorem parseLakefsConfig_onlyConfigErrors (env : Env) :
    OnlyConfigErrors (parseLakefsConfig env) := by
  refine (envOptional_onlyConfigErrors env _).bind fun endpointUrl _ => ?_
  refine (envOptional_onlyConfigErrors env _).bind fun accessKeyId _ => ?_
  refine (envOptional_onlyConfigErrors env _).bind fun secretAccessKey _ => ?_
  cases endpointUrl <;> cases accessKeyId <;> cases secretAccessKey <;> trivial

theorem refuseUnsupported_onlyConfigErrors (env : Env) (names : List String) :
    OnlyConfigErrors (refuseUnsupported env names) := by
  induction names with
  | nil => trivial
  | cons name names ih =>
    refine (envOptional_onlyConfigErrors env name).bind fun value _ => ?_
    cases value
    · exact ih
    · rfl

/-- The variables that `parse_metrics_config` reads as counts. -/
def MetricsRight (env : Env) (metrics : Option MetricsConfig) : Prop :=
  ∀ m ∈ metrics,
    CountRight none some (env "OTEL_EXPORTER_OTLP_METRICS_TIMEOUT") m.timeoutMillis ∧
      CountRight none some (env "OTEL_METRIC_EXPORT_INTERVAL") m.exportIntervalMillis

/-- Every setting that is read as a size, a duration or a count means what it says. -/
structure ConfigRight (env : Env) (config : RuntimeConfig) : Prop where
  logFileMaxSize : SizeRight (env "PERAGO_LOG_FILE_MAX_SIZE") config.logFileMaxSize
  logRetention :
    DurationRight ['d'] defaultLogRetention (env "PERAGO_LOG_RETENTION") config.logRetention
  workspaceGcTtl : DurationRight ['s', 'm', 'h', 'd'] defaultWorkspaceGcTtl
    (env "PERAGO_WORKSPACE_GC_TTL") config.workspaceGcTtl
  workspaceGcInterval : DurationRight ['s', 'm', 'h', 'd'] defaultWorkspaceGcInterval
    (env "PERAGO_WORKSPACE_GC_INTERVAL") config.workspaceGcInterval
  shutdownForceKillAfter : OptionalDurationRight (env "PERAGO_SHUTDOWN_FORCE_KILL_AFTER")
    config.shutdownForceKillAfter
  failureReasonMaxLength : CountRight defaultFailureReasonMaxLength id
    (env "PERAGO_FAILURE_REASON_MAX_LENGTH") config.failureReasonMaxLength
  metrics : MetricsRight env config.metrics

structure EnvReadable (env : Env) : Prop where
  logFileMaxSize : SizeReadable (env "PERAGO_LOG_FILE_MAX_SIZE")
  logRetention : DurationReadable ['d'] (env "PERAGO_LOG_RETENTION")
  workspaceGcTtl : DurationReadable ['s', 'm', 'h', 'd'] (env "PERAGO_WORKSPACE_GC_TTL")
  workspaceGcInterval :
    DurationReadable ['s', 'm', 'h', 'd'] (env "PERAGO_WORKSPACE_GC_INTERVAL")
  shutdownForceKillAfter :
    DurationReadable ['s', 'm', 'h', 'd'] (env "PERAGO_SHUTDOWN_FORCE_KILL_AFTER")
  failureReasonMaxLength : CountReadable (env "PERAGO_FAILURE_REASON_MAX_LENGTH")
  metrics : configured (env "OTEL_EXPORTER_OTLP_METRICS_ENDPOINT") ≠ none →
    CountReadable (env "OTEL_EXPORTER_OTLP_METRICS_TIMEOUT") ∧
      CountReadable (env "OTEL_METRIC_EXPORT_INTERVAL")

theorem parseMetricsConfig_failsClosed {env : Env} (h : EnvReadable env) :
    FailsClosed (MetricsRight env) (parseMetricsConfig env) := by
  refine (refuseUnsupported_onlyConfigErrors env _).bind fun _ _ => ?_
  refine (envOptional_failsClosed env _).bind fun endpoint he => ?_
  cases endpoint with
  | none => simp [MetricsRight, pure, Except.pure]
  | some endpoint =>
    obtain ⟨htimeout, hinterval⟩ := h.metrics (by simp [← he])
    refine (parsePeragoInstanceId_onlyConfigErrors _).bind fun instanceId _ => ?_
    refine (parseMetricsCompression_onlyConfigErrors _).bind fun gzip _ => ?_
    refine ((parsePositive_failsClosed_iff ..).mpr htimeout).bind fun timeout ht => ?_
    refine ((parsePositive_failsClosed_iff ..).mpr hinterval).bind fun interval hi => ?_
    simpa [MetricsRight, pure, Except.pure] using ⟨ht, hi⟩

theorem readRuntimeConfig_failsClosed (moduleTarget tempRoot : Text) {env : Env}
    (h : EnvReadable env) :
    FailsClosed (ConfigRight env) (readRuntimeConfig moduleTarget tempRoot env) := by
  refine ((parseLogFileMaxSize_failsClosed_iff _).mpr h.logFileMaxSize).bind fun size hsize => ?_
  refine ((parseLogRetention_failsClosed_iff _).mpr h.logRetention).bind fun retention hret => ?_
  refine (resolveWorkerIdPrefix_onlyConfigErrors _ _).bind fun workerIdPrefix _ => ?_
  refine (parseExecutionMode_onlyConfigErrors _).bind fun executionMode _ => ?_
  refine ((parseDuration_failsClosed_iff ..).mpr h.workspaceGcTtl).bind fun ttl httl => ?_
  refine ((parseDuration_failsClosed_iff ..).mpr h.workspaceGcInterval).bind fun gap hgap => ?_
  refine ((parseOptionalDuration_failsClosed_iff ..).mpr h.shutdownForceKillAfter).bind
    fun kill hkill => ?_
  refine ((parsePositive_failsClosed_iff ..).mpr h.failureReasonMaxLength).bind
    fun length hlength => ?_
  refine (parseConductorConfig_onlyConfigErrors env).bind fun conductor _ => ?_
  refine (parseLakefsConfig_onlyConfigErrors env).bind fun lakefs _ => ?_
  refine (parseMetricsConfig_failsClosed h).bind fun metrics hmetrics => ?_
  exact ⟨hsize, hret, httl, hgap, hkill, hlength, hmetrics⟩

theorem countReadable_of_right {default : α} {result : Nat → α} {malformed zero : String}
    {value : Option Text} {a : α} (h : parsePositive default result malformed zero value = .ok a)
    (right : CountRight default result value a) : CountReadable value := by
  rw [← parsePositive_failsClosed_iff default result malformed zero, h]
  exact right

theorem timeouts_of_parseMetricsConfig {env : Env} {metrics : Option MetricsConfig}
    (h : parseMetricsConfig env = .ok metrics)
    (he : configured (env "OTEL_EXPORTER_OTLP_METRICS_ENDPOINT") ≠ none) :
    ∃ m, metrics = some m ∧
      parseMetricsTimeoutMillis (env "OTEL_EXPORTER_OTLP_METRICS_TIMEOUT")
        "OTEL_EXPORTER_OTLP_METRICS_TIMEOUT" = .ok m.timeoutMillis ∧
      parsePositiveMillis (env "OTEL_METRIC_EXPORT_INTERVAL")
        "OTEL_METRIC_EXPORT_INTERVAL" = .ok m.exportIntervalMillis := by
  obtain ⟨_, -, h⟩ := ok_of_bind h
  obtain ⟨endpoint, hendpoint, h⟩ := ok_of_bind h
  have read := envOptional_failsClosed env "OTEL_EXPORTER_OTLP_METRICS_ENDPOINT"
  rw [hendpoint, failsClosed_ok] at read
  obtain ⟨endpoint, rfl⟩ := Option.ne_none_iff_exists'.mp (read ▸ he)
  obtain ⟨instanceId, -, h⟩ := ok_of_bind h
  obtain ⟨gzip, -, h⟩ := ok_of_bind h
  obtain ⟨timeout, htimeout, h⟩ := ok_of_bind h
  obtain ⟨interval, hinterval, h⟩ := ok_of_bind h
  obtain rfl := Except.ok.inj h
  exact ⟨_, rfl, htimeout, hinterval⟩

/-- What `readRuntimeConfig` puts into the configuration. -/
structure ConfigRead (tempRoot : Text) (env : Env) (config : RuntimeConfig) : Prop where
  workspaceRoot :
    config.workspaceRoot = (env "PERAGO_WORKSPACE_ROOT").getD (tempRoot ++ text "/workspaces")
  logRoot : config.logRoot = (env "PERAGO_LOG_ROOT").getD (tempRoot ++ text "/logs")
  logFileMaxSize :
    parseLogFileMaxSize (env "PERAGO_LOG_FILE_MAX_SIZE") = .ok config.logFileMaxSize
  logRetention : parseLogRetention (env "PERAGO_LOG_RETENTION") = .ok config.logRetention
  workspaceGcTtl : parseDuration (env "PERAGO_WORKSPACE_GC_TTL") defaultWorkspaceGcTtl
    "PERAGO_WORKSPACE_GC_TTL" = .ok config.workspaceGcTtl
  workspaceGcInterval : parseDuration (env "PERAGO_WORKSPACE_GC_INTERVAL")
    defaultWorkspaceGcInterval "PERAGO_WORKSPACE_GC_INTERVAL" = .ok config.workspaceGcInterval
  shutdownForceKillAfter : parseOptionalDuration (env "PERAGO_SHUTDOWN_FORCE_KILL_AFTER")
    "PERAGO_SHUTDOWN_FORCE_KILL_AFTER" = .ok config.shutdownForceKillAfter
  failureReasonMaxLength : parseFailureReasonMaxLength
    (env "PERAGO_FAILURE_REASON_MAX_LENGTH") = .ok config.failureReasonMaxLength
  metrics : parseMetricsConfig env = .ok config.metrics

theorem configRead_of_ok {moduleTarget tempRoot : Text} {env : Env} {config : RuntimeConfig}
    (h : readRuntimeConfig moduleTarget tempRoot env = .ok config) :
    ConfigRead tempRoot env config := by
  obtain ⟨size, hsize, h⟩ := ok_of_bind h
  obtain ⟨retention, hretention, h⟩ := ok_of_bind h
  obtain ⟨workerIdPrefix, -, h⟩ := ok_of_bind h
  obtain ⟨executionMode, -, h⟩ := ok_of_bind h
  obtain ⟨ttl, httl, h⟩ := ok_of_bind h
  obtain ⟨interval, hinterval, h⟩ := ok_of_bind h
  obtain ⟨kill, hkill, h⟩ := ok_of_bind h
  obtain ⟨length, hlength, h⟩ := ok_of_bind h
  obtain ⟨conductor, -, h⟩ := ok_of_bind h
  obtain ⟨lakefs, -, h⟩ := ok_of_bind h
  obtain ⟨metrics, hmetrics, h⟩ := ok_of_bind h
  obtain rfl := Except.ok.inj h
  exact ⟨rfl, rfl, hsize, hretention, httl, hinterval, hkill, hlength, hmetrics⟩

/-- Where the settings are loaded and right, each reader could read its own. -/
theorem envReadable_of_right {tempRoot : Text} {env : Env} {config : RuntimeConfig}
    (read : ConfigRead tempRoot env config) (right : ConfigRight env config) :
    EnvReadable env := by
  constructor
  · rw [← parseLogFileMaxSize_failsClosed_iff, read.logFileMaxSize]
    exact right.logFileMaxSize
  · rw [← parseLogRetention_failsClosed_iff, read.logRetention]
    exact right.logRetention
  · rw [← parseDuration_failsClosed_iff, read.workspaceGcTtl]
    exact right.workspaceGcTtl
  · rw [← parseDuration_failsClosed_iff, read.workspaceGcInterval]
    exact right.workspaceGcInterval
  · rw [← parseOptionalDuration_failsClosed_iff, read.shutdownForceKillAfter]
    exact right.shutdownForceKillAfter
  · exact countReadable_of_right read.failureReasonMaxLength right.failureReasonMaxLength
  · intro endpoint
    obtain ⟨m, hm, htimeout, hexport⟩ := timeouts_of_parseMetricsConfig read.metrics endpoint
    obtain ⟨rtimeout, rexport⟩ := right.metrics m hm
    exact ⟨countReadable_of_right htimeout rtimeout, countReadable_of_right hexport rexport⟩

/-! ## Checks in their order -/

/-- What reading a setting can do besides returning, said of its text. -/
structure SettingCheck where
  malformed : Prop
  escapes : Prop

/-- A check that can only refuse. -/
def check (malformed : Prop) : SettingCheck := { malformed := malformed, escapes := False }

/-- A malformed setting is reached. -/
def Refused : List SettingCheck → Prop
  | [] => False
  | c :: cs => c.malformed ∨ ¬ c.escapes ∧ Refused cs

def Passes (cs : List SettingCheck) : Prop := ∀ c ∈ cs, ¬ c.malformed ∧ ¬ c.escapes

variable {cs cs' : List SettingCheck} {c : SettingCheck} {x : Except PyException α}

@[simp] theorem passes_nil : Passes [] := nofun

@[simp] theorem passes_cons : Passes (c :: cs) ↔ (¬ c.malformed ∧ ¬ c.escapes) ∧ Passes cs := by
  simp [Passes]

theorem passes_append : Passes (cs ++ cs') ↔ Passes cs ∧ Passes cs' := List.forall_mem_append

theorem refused_append : Refused (cs ++ cs') ↔ Refused cs ∨ Passes cs ∧ Refused cs' := by
  induction cs with
  | nil => simp [Refused]
  | cons c cs ih =>
    simp only [List.cons_append, Refused, ih, passes_cons]
    tauto

theorem not_passes_of_refused (h : Refused cs) : ¬ Passes cs := by
  induction cs with
  | nil => exact h.elim
  | cons c cs ih =>
    rw [passes_cons]
    obtain malformed | ⟨-, later⟩ := h
    · exact fun passes => passes.1.1 malformed
    · exact fun passes => ih later passes.2

/-- `x` does what the checks say. -/
structure Follows (cs : List SettingCheck) (x : Except PyException α) : Prop where
  refuses : Refuses x ↔ Refused cs
  returns : (∃ a, x = .ok a) ↔ Passes cs

namespace Follows

theorem ok {a : α} : Follows [] (.ok a : Except PyException α) :=
  ⟨by simp [Refused], by simp⟩

theorem single (refuses : Refuses x ↔ c.malformed) (escapes : Escapes x ↔ c.escapes) :
    Follows [c] x := by
  constructor
  · simp [Refused, refuses]
  · rw [passes_cons, ← refuses, ← escapes]
    cases x with
    | ok a => simp
    | error e => simp

theorem check (only : OnlyConfigErrors x) {malformed : Prop} (refuses : Refuses x ↔ malformed) :
    Follows [Perago.check malformed] x := by
  refine single refuses ?_
  cases x with
  | ok a => simp [Perago.check]
  | error e => simpa [Perago.check] using only

theorem bind {f : α → Except PyException β} (hx : Follows cs x)
    (hf : ∀ a, x = .ok a → Follows cs' (f a)) : Follows (cs ++ cs') (x >>= f) := by
  cases x with
  | ok a =>
    have passes := hx.returns.mp ⟨a, rfl⟩
    have first : ¬ Refused cs := fun refused => not_passes_of_refused refused passes
    have rest := hf a rfl
    change Follows _ (f a)
    constructor
    · rw [refused_append]
      simpa [first, passes] using rest.refuses
    · rw [passes_append]
      simpa [passes] using rest.returns
  | error e =>
    have stops : ¬ Passes cs := by simp [← hx.returns]
    constructor
    · rw [refused_append, ← hx.refuses]
      simp [stops, Bind.bind, Except.bind]
    · rw [passes_append]
      simp [stops, Bind.bind, Except.bind]

theorem map (hx : Follows cs x) (f : α → β) : Follows cs (x >>= fun a => .ok (f a)) := by
  simpa using hx.bind fun a _ => ok (a := f a)

theorem cons {f : α → Except PyException β} (hx : Follows [c] x)
    (hf : ∀ a, x = .ok a → Follows cs (f a)) : Follows (c :: cs) (x >>= f) := hx.bind hf

theorem guard {malformed : Prop} (refuses : malformed → Refuses x)
    (rest : ¬ malformed → Follows cs x) : Follows (Perago.check malformed :: cs) x := by
  by_cases h : malformed
  · have refused := refuses h
    constructor
    · exact iff_of_true refused (.inl h)
    · refine iff_of_false ?_ (not_passes_of_refused (.inl h))
      rintro ⟨a, rfl⟩
      exact refuses_ok refused
  · constructor
    · simpa [Refused, Perago.check, h] using (rest h).refuses
    · simpa [Perago.check, h] using (rest h).returns

end Follows

/-! ## The checks of the load -/

def sizeCheck (value : Option Text) : SettingCheck where
  malformed := SizeMalformed value
  escapes := SizeEscapes value

def durationCheck (letters : List Char) (value : Option Text) : SettingCheck where
  malformed := DurationMalformed letters value
  escapes := DurationEscapes letters value

def countCheck (value : Option Text) : SettingCheck where
  malformed := CountMalformed value
  escapes := CountEscapes value

def workerIdPrefixCheck (moduleTarget : Text) (env : Env) : SettingCheck :=
  let value := ((env "PERAGO_WORKER_ID_PREFIX").map strip).getD (moduleTarget.filter isAlnum)
  check (value = [] ∨ ¬ value.all isAlnum)

def executionModeCheck (value : Option Text) : SettingCheck :=
  check (∃ t, configured value = some t ∧ lower t ≠ text "process" ∧ lower t ≠ text "thread")

def placeholderCheck (env : Env) (name : String) : SettingCheck :=
  check (configured (env name) = some (text "replace-me"))

def lakefsSettings : List String :=
  ["LAKECTL_SERVER_ENDPOINT_URL", "LAKECTL_CREDENTIALS_ACCESS_KEY_ID",
    "LAKECTL_CREDENTIALS_SECRET_ACCESS_KEY"]

/-- Some of the LakeFS settings are there and some are missing. -/
def lakefsCheck (env : Env) : SettingCheck :=
  check ((∃ name ∈ lakefsSettings, configured (env name) = none) ∧
    ∃ name ∈ lakefsSettings, configured (env name) ≠ none)

def unsupportedCheck (env : Env) (name : String) : SettingCheck :=
  check (configured (env name) ≠ none)

def instanceIdCheck (value : Option Text) : SettingCheck :=
  check (∃ t, configured value = some t ∧
    ¬ t.all fun c => isAlnum c || c.val == 0x2E || c.val == 0x5F || c.val == 0x2D)

def compressionCheck (value : Option Text) : SettingCheck :=
  check (∃ t, configured value = some t ∧ lower t ≠ text "gzip")

/-- What is read where the metrics have an endpoint. -/
def exporterChecks (env : Env) : List SettingCheck :=
  [instanceIdCheck (env "PERAGO_INSTANCE_ID"),
    compressionCheck (env "OTEL_EXPORTER_OTLP_METRICS_COMPRESSION"),
    countCheck (env "OTEL_EXPORTER_OTLP_METRICS_TIMEOUT"),
    countCheck (env "OTEL_METRIC_EXPORT_INTERVAL")]

def metricsChecks (env : Env) : List SettingCheck :=
  unsupportedMetrics.map (unsupportedCheck env) ++
    placeholderCheck env "OTEL_EXPORTER_OTLP_METRICS_ENDPOINT" ::
      if configured (env "OTEL_EXPORTER_OTLP_METRICS_ENDPOINT") = none then []
      else exporterChecks env

def readChecks (moduleTarget : Text) (env : Env) : List SettingCheck :=
  sizeCheck (env "PERAGO_LOG_FILE_MAX_SIZE") ::
  durationCheck ['d'] (env "PERAGO_LOG_RETENTION") ::
  workerIdPrefixCheck moduleTarget env ::
  executionModeCheck (env "PERAGO_EXECUTION_MODE") ::
  durationCheck ['s', 'm', 'h', 'd'] (env "PERAGO_WORKSPACE_GC_TTL") ::
  durationCheck ['s', 'm', 'h', 'd'] (env "PERAGO_WORKSPACE_GC_INTERVAL") ::
  durationCheck ['s', 'm', 'h', 'd'] (env "PERAGO_SHUTDOWN_FORCE_KILL_AFTER") ::
  countCheck (env "PERAGO_FAILURE_REASON_MAX_LENGTH") ::
  placeholderCheck env "CONDUCTOR_SERVER_URL" ::
  (lakefsSettings.map (placeholderCheck env) ++ [lakefsCheck env] ++ metricsChecks env)

/-- The root cannot be written to; what else the probe raises is not caught. -/
def rootCheck (probe : Text → Except PyException Unit) (path : Text) : SettingCheck where
  malformed := ∃ e, probe path = .error e ∧
    (e.cls.isOSError ∨ e.cls = .other "RuntimeConfigError")
  escapes := ∃ e, probe path = .error e ∧
    ¬ e.cls.isOSError ∧ e.cls ≠ .other "RuntimeConfigError"

def loadChecks (probe : Text → Except PyException Unit) (moduleTarget tempRoot : Text) (env : Env)
    (probeRoots : Bool) : List SettingCheck :=
  readChecks moduleTarget env ++ if probeRoots then
    [rootCheck probe ((env "PERAGO_WORKSPACE_ROOT").getD (tempRoot ++ text "/workspaces")),
      rootCheck probe ((env "PERAGO_LOG_ROOT").getD (tempRoot ++ text "/logs"))]
  else []

/-! ## The load does what its checks say -/

theorem parseLogFileMaxSize_follows (value : Option Text) :
    Follows [sizeCheck value] (parseLogFileMaxSize value) :=
  .single (parseLogFileMaxSize_raises_iff value).1 (parseLogFileMaxSize_raises_iff value).2

theorem parseDuration_follows (value : Option Text) (default : Nat) (name : String) :
    Follows [durationCheck ['s', 'm', 'h', 'd'] value] (parseDuration value default name) :=
  .single (parseDuration_raises_iff value default name).1
    (parseDuration_raises_iff value default name).2

theorem parseLogRetention_follows (value : Option Text) :
    Follows [durationCheck ['d'] value] (parseLogRetention value) :=
  .single (parseLogRetention_raises_iff value).1 (parseLogRetention_raises_iff value).2

theorem parseOptionalDuration_follows (value : Option Text) (name : String) :
    Follows [durationCheck ['s', 'm', 'h', 'd'] value] (parseOptionalDuration value name) :=
  .single (parseOptionalDuration_raises_iff value name).1
    (parseOptionalDuration_raises_iff value name).2

theorem parsePositive_follows (default : α) (result : Nat → α) (malformed zero : String)
    (value : Option Text) :
    Follows [countCheck value] (parsePositive default result malformed zero value) :=
  .single (parsePositive_raises_iff default result malformed zero value).1
    (parsePositive_raises_iff default result malformed zero value).2

theorem resolveWorkerIdPrefix_follows (moduleTarget : Text) (env : Env) :
    Follows [workerIdPrefixCheck moduleTarget env] (resolveWorkerIdPrefix moduleTarget env) := by
  refine .check (resolveWorkerIdPrefix_onlyConfigErrors moduleTarget env) ?_
  have validated (value : Text) :
      Refuses (validateWorkerIdPrefix value) ↔ value = [] ∨ ¬ value.all isAlnum := by
    unfold validateWorkerIdPrefix
    split
    · simp [*]
    · split <;> simp [*]
  unfold resolveWorkerIdPrefix
  cases env "PERAGO_WORKER_ID_PREFIX" <;> exact validated _

theorem parseExecutionMode_follows (value : Option Text) :
    Follows [executionModeCheck value] (parseExecutionMode value) := by
  refine .check (parseExecutionMode_onlyConfigErrors value) ?_
  unfold parseExecutionMode
  split
  · simp [*]
  · split
    · simp [*]
    · split <;> simp [*]

theorem envOptional_follows (env : Env) (name : String) :
    Follows [placeholderCheck env name] (envOptional env name) := by
  refine .check (envOptional_onlyConfigErrors env name) ?_
  unfold envOptional
  split
  · simp [*]
  · split <;> simp [*]

theorem parsePeragoInstanceId_follows (value : Option Text) :
    Follows [instanceIdCheck value] (parsePeragoInstanceId value) := by
  refine .check (parsePeragoInstanceId_onlyConfigErrors value) ?_
  unfold parsePeragoInstanceId
  split
  · simp [*]
  · rename_i stripped hs
    simp only [hs, Option.some.injEq, exists_eq_left']
    split
    · rename_i valid
      simp only [valid, refuses_ok, not_true_eq_false]
    · rename_i invalid
      simp only [invalid, refuses_error, runtimeConfigError_cls, Bool.false_eq_true,
        not_false_eq_true]

theorem parseMetricsCompression_follows (value : Option Text) :
    Follows [compressionCheck value] (parseMetricsCompression value) := by
  refine .check (parseMetricsCompression_onlyConfigErrors value) ?_
  unfold parseMetricsCompression
  split
  · simp [*]
  · split <;> simp [*]

/-- What `envOptional` returns is the setting. -/
theorem eq_configured_of_envOptional {env : Env} {name : String} {value : Option Text}
    (h : envOptional env name = .ok value) : value = configured (env name) := by
  have read := envOptional_failsClosed env name
  rwa [h, failsClosed_ok] at read

theorem parseLakefsConfig_follows (env : Env) :
    Follows (lakefsSettings.map (placeholderCheck env) ++ [lakefsCheck env])
      (parseLakefsConfig env) := by
  refine .cons (envOptional_follows env _) fun endpointUrl hu => ?_
  refine .cons (envOptional_follows env _) fun accessKeyId hk => ?_
  refine .cons (envOptional_follows env _) fun secretAccessKey hs => ?_
  obtain rfl := eq_configured_of_envOptional hu
  obtain rfl := eq_configured_of_envOptional hk
  obtain rfl := eq_configured_of_envOptional hs
  refine .check ?_ ?_
  · generalize configured (env "LAKECTL_SERVER_ENDPOINT_URL") = endpointUrl,
      configured (env "LAKECTL_CREDENTIALS_ACCESS_KEY_ID") = accessKeyId,
      configured (env "LAKECTL_CREDENTIALS_SECRET_ACCESS_KEY") = secretAccessKey
    cases endpointUrl <;> cases accessKeyId <;> cases secretAccessKey <;> trivial
  · simp only [lakefsSettings, List.mem_cons, List.not_mem_nil, or_false, exists_eq_or_imp,
      exists_eq_left]
    generalize configured (env "LAKECTL_SERVER_ENDPOINT_URL") = endpointUrl,
      configured (env "LAKECTL_CREDENTIALS_ACCESS_KEY_ID") = accessKeyId,
      configured (env "LAKECTL_CREDENTIALS_SECRET_ACCESS_KEY") = secretAccessKey
    cases endpointUrl <;> cases accessKeyId <;> cases secretAccessKey <;>
      simp [pure, Except.pure]

theorem refuseUnsupported_follows (env : Env) (names : List String) :
    Follows (names.map (unsupportedCheck env)) (refuseUnsupported env names) := by
  induction names with
  | nil => exact .ok
  | cons name names ih =>
    have read := envOptional_failsClosed env name
    refine .guard (fun present => ?_) fun absent => ?_
    · simp only [refuseUnsupported]
      cases value : envOptional env name with
      | error e =>
        rw [value] at read
        exact ⟨e, rfl, read⟩
      | ok value' =>
        rw [value] at read
        obtain ⟨t, ht⟩ := Option.ne_none_iff_exists'.mp present
        obtain rfl := read.trans ht
        exact ⟨_, rfl, rfl⟩
    · have value : envOptional env name = .ok none := by
        simp only [ne_eq, not_not] at absent
        simp [envOptional, absent]
      rw [refuseUnsupported, value]
      exact ih

theorem parseMetricsConfig_follows (env : Env) :
    Follows (metricsChecks env) (parseMetricsConfig env) := by
  refine .bind (refuseUnsupported_follows env _) fun _ _ => ?_
  refine .cons (envOptional_follows env _) fun endpoint he => ?_
  obtain rfl := eq_configured_of_envOptional he
  cases configured (env "OTEL_EXPORTER_OTLP_METRICS_ENDPOINT") with
  | none => exact .ok
  | some endpoint =>
    refine .cons (parsePeragoInstanceId_follows _) fun instanceId _ => ?_
    refine .cons (parseMetricsCompression_follows _) fun gzip _ => ?_
    refine .cons (parsePositive_follows ..) fun timeout _ => ?_
    refine .cons (parsePositive_follows ..) fun interval _ => ?_
    exact .ok

theorem readRuntimeConfig_follows (moduleTarget tempRoot : Text) (env : Env) :
    Follows (readChecks moduleTarget env) (readRuntimeConfig moduleTarget tempRoot env) := by
  refine .cons (parseLogFileMaxSize_follows _) fun size _ => ?_
  refine .cons (parseLogRetention_follows _) fun retention _ => ?_
  refine .cons (resolveWorkerIdPrefix_follows _ _) fun workerIdPrefix _ => ?_
  refine .cons (parseExecutionMode_follows _) fun executionMode _ => ?_
  refine .cons (parseDuration_follows ..) fun ttl _ => ?_
  refine .cons (parseDuration_follows ..) fun interval _ => ?_
  refine .cons (parseOptionalDuration_follows ..) fun kill _ => ?_
  refine .cons (parsePositive_follows ..) fun length _ => ?_
  have conductor : Follows [placeholderCheck env "CONDUCTOR_SERVER_URL"]
      (parseConductorConfig env) := (envOptional_follows env _).cons fun _ _ => .ok
  refine .cons conductor fun conductor _ => ?_
  refine .bind (parseLakefsConfig_follows env) fun lakefs _ => ?_
  exact (parseMetricsConfig_follows env).map _

theorem checkWritableRoot_follows (probe : Text → Except PyException Unit) (path : Text) :
    Follows [rootCheck probe path] (checkWritableRoot probe path) := by
  cases probed : probe path with
  | ok a => refine .single ?_ ?_ <;> simp [checkWritableRoot, rootCheck, probed]
  | error e =>
    by_cases os : e.cls.isOSError <;> refine .single ?_ ?_ <;>
      simp [checkWritableRoot, rootCheck, probed, os]

theorem loadRuntimeConfig_follows (probe : Text → Except PyException Unit)
    (moduleTarget tempRoot : Text) (processEnv dotenvEnv : Env) (probeRoots : Bool) :
    Follows (loadChecks probe moduleTarget tempRoot (loadRuntimeEnv processEnv dotenvEnv)
        probeRoots)
      (loadRuntimeConfig probe moduleTarget tempRoot processEnv dotenvEnv probeRoots) := by
  refine .bind (readRuntimeConfig_follows moduleTarget tempRoot _) fun config read => ?_
  have read := configRead_of_ok read
  cases probeRoots with
  | false => exact .ok
  | true =>
    rw [← read.workspaceRoot, ← read.logRoot]
    refine .cons (checkWritableRoot_follows probe _) fun _ _ => ?_
    exact .cons (checkWritableRoot_follows probe _) fun _ _ => .ok

/-- What is loaded is what was read. -/
theorem configRead_of_load {probe : Text → Except PyException Unit}
    {moduleTarget tempRoot : Text} {processEnv dotenvEnv : Env} {probeRoots : Bool}
    {config : RuntimeConfig}
    (loaded : loadRuntimeConfig probe moduleTarget tempRoot processEnv dotenvEnv probeRoots =
      .ok config) :
    readRuntimeConfig moduleTarget tempRoot (loadRuntimeEnv processEnv dotenvEnv) = .ok config := by
  obtain ⟨config', read, rest⟩ := ok_of_bind loaded
  cases probeRoots with
  | false => exact read.trans rest
  | true =>
    obtain ⟨_, -, rest⟩ := ok_of_bind rest
    obtain ⟨_, -, rest⟩ := ok_of_bind rest
    exact read.trans rest

theorem loadRuntimeConfig_failsClosed_iff (probe : Text → Except PyException Unit)
    (moduleTarget tempRoot : Text) (processEnv dotenvEnv : Env) (probeRoots : Bool) :
    FailsClosed (ConfigRight (loadRuntimeEnv processEnv dotenvEnv))
        (loadRuntimeConfig probe moduleTarget tempRoot processEnv dotenvEnv probeRoots) ↔
      Refused (loadChecks probe moduleTarget tempRoot (loadRuntimeEnv processEnv dotenvEnv)
        probeRoots) ∨
      Passes (loadChecks probe moduleTarget tempRoot (loadRuntimeEnv processEnv dotenvEnv)
        probeRoots) ∧ EnvReadable (loadRuntimeEnv processEnv dotenvEnv) := by
  have follows := loadRuntimeConfig_follows probe moduleTarget tempRoot processEnv dotenvEnv
    probeRoots
  rw [← follows.refuses, ← follows.returns]
  cases loaded : loadRuntimeConfig probe moduleTarget tempRoot processEnv dotenvEnv
      probeRoots with
  | error e => simp
  | ok config =>
    have read := configRead_of_load loaded
    simp only [failsClosed_ok, refuses_ok, false_or]
    constructor
    · intro right
      exact ⟨⟨config, rfl⟩, envReadable_of_right (configRead_of_ok read) right⟩
    · rintro ⟨-, readable⟩
      have right := readRuntimeConfig_failsClosed moduleTarget tempRoot readable
      rwa [read, failsClosed_ok] at right

/-- Each reader fails closed exactly on the settings it can read. The load fails closed
exactly where it comes to a malformed setting before anything escapes, or where nothing is
malformed, nothing escapes and all settings can be read. -/
theorem config_fails_closed_iff (value : Option Text) (default : Nat) (name : String)
    (probe : Text → Except PyException Unit) (moduleTarget tempRoot : Text)
    (processEnv dotenvEnv : Env) (probeRoots : Bool) :
    let env := loadRuntimeEnv processEnv dotenvEnv
    let checks := loadChecks probe moduleTarget tempRoot env probeRoots
    (FailsClosed (SizeRight value) (parseLogFileMaxSize value) ↔ SizeReadable value) ∧
    (FailsClosed (DurationRight ['d'] defaultLogRetention value) (parseLogRetention value) ↔
      DurationReadable ['d'] value) ∧
    (FailsClosed (DurationRight ['s', 'm', 'h', 'd'] default value)
        (parseDuration value default name) ↔ DurationReadable ['s', 'm', 'h', 'd'] value) ∧
    (FailsClosed (OptionalDurationRight value) (parseOptionalDuration value name) ↔
      DurationReadable ['s', 'm', 'h', 'd'] value) ∧
    (FailsClosed (CountRight defaultFailureReasonMaxLength id value)
        (parseFailureReasonMaxLength value) ↔ CountReadable value) ∧
    (FailsClosed (CountRight none some value) (parseMetricsTimeoutMillis value name) ↔
      CountReadable value) ∧
    (FailsClosed (CountRight none some value) (parsePositiveMillis value name) ↔
      CountReadable value) ∧
    (FailsClosed (ConfigRight env)
        (loadRuntimeConfig probe moduleTarget tempRoot processEnv dotenvEnv probeRoots) ↔
      Refused checks ∨ Passes checks ∧ EnvReadable env) :=
  ⟨parseLogFileMaxSize_failsClosed_iff value, parseLogRetention_failsClosed_iff value,
    parseDuration_failsClosed_iff value default name,
    parseOptionalDuration_failsClosed_iff value name, parsePositive_failsClosed_iff ..,
    parsePositive_failsClosed_iff .., parsePositive_failsClosed_iff ..,
    loadRuntimeConfig_failsClosed_iff ..⟩

/-- An environment with one variable. -/
def only (name : String) (value : Text) : Env := fun n => if n = name then some value else none

/-- Five long s are read as five days; the Kelvin sign and a large retention end the load with
exceptions of their own. -/
theorem settings_misread :
    (parseDuration (some (text "5ſ")) defaultWorkspaceGcTtl
        "PERAGO_WORKSPACE_GC_TTL").toOption = some (5 * 86400) ∧
      ¬ DurationRight ['s', 'm', 'h', 'd'] defaultWorkspaceGcTtl (some (text "5ſ"))
        (5 * 86400) ∧
      (loadRuntimeConfig (fun _ => .ok ()) (text "tasks") (text "/tmp/perago")
          (only "PERAGO_LOG_FILE_MAX_SIZE" (text "1\u212AB")) (fun _ => none) true).map
            (fun _ => ()) = .error (.mk' (.other "KeyError") "'\u212AB'") ∧
      (loadRuntimeConfig (fun _ => .ok ()) (text "tasks") (text "/tmp/perago")
          (only "PERAGO_LOG_RETENTION" (text "1000000000d")) (fun _ => none) true).map
            (fun _ => ()) = .error (.mk' (.other "OverflowError")
              "days=1000000000; must have magnitude <= 999999999") := by
  refine ⟨by decide +kernel, ?_, rfl, rfl⟩
  have written : matchAmount ['s', 'm', 'h', 'd'] (text "5ſ") = some (text "5", longS) := rfl
  have second : writtenUnit durationUnits longS = some 1 := rfl
  rw [durationRight_iff _ _ rfl written second]
  decide

end Perago
