import Mathlib.Data.Nat.Digits.Lemmas
import Perago.AttemptNames
import Perago.ConductorRuntime.ProcessRuntime
import Perago.ConfigLoading

/-!
# Worker identities

The supervisor gives each of its processes an environment, and the process takes its worker
id from what it finds there. Under one supervisor all ids differ, and so do the log
directories that are named after them.
-/

namespace Perago

/-! ## Environments of the children -/

/-- `env[name] = value`. -/
def Env.set (env : Env) (name : String) (value : Text) : Env :=
  fun n => if n = name then some value else env n

/-- `env.update(other)`. -/
def Env.update (env other : Env) : Env := fun n => (other n).or (env n)

def Env.empty : Env := fun _ => none

@[simp] theorem Env.set_same (env : Env) (name : String) (value : Text) :
    env.set name value name = some value := if_pos rfl

@[simp] theorem Env.set_other (env : Env) {name n : String} (value : Text) (h : n ≠ name) :
    env.set name value n = env n := if_neg h

/-- The digits of a number in base 10. -/
def decimal (n : Nat) : Text :=
  (Nat.digits 10 n).reverse.map fun d => Fin.ofNat 0x110000 (0x30 + d)

/-- `f"{index:04d}"`. -/
def fourDigits (index : Nat) : Text :=
  List.replicate (4 - (decimal index).length) 0x30 ++ decimal index

def workerIdForChild (idPrefix : Text) (index : Nat) : Text := idPrefix ++ fourDigits index

def childEnvironment (baseEnv : Env) (moduleTarget : Text) (index : Nat) :
    Except PyException Env := do
  let idPrefix ← resolveWorkerIdPrefix moduleTarget baseEnv
  return (baseEnv.set "PERAGO_WORKER_ID_PREFIX" idPrefix).set "PERAGO_WORKER_ID"
    (workerIdForChild idPrefix index)

structure WorkerChildSpec where
  slot : Nat
  env : Env

/-- `self.env["PERAGO_WORKER_ID"]`, absent where this raises a `KeyError`. -/
def WorkerChildSpec.workerId (spec : WorkerChildSpec) : Option Text := spec.env "PERAGO_WORKER_ID"

def workerChildSpecs (baseEnv : Env) (moduleTarget : Text) (processCount : Int) :
    Except PyException (List WorkerChildSpec) :=
  if processCount < 1 then
    .error (runtimeConfigError "worker process count must be at least 1")
  else (List.range' 1 processCount.toNat).mapM fun index => do
    let env ← childEnvironment baseEnv moduleTarget index
    return { slot := index, env := env }

/-- The `base_env` of the supervisor. -/
def supervisorEnvironment (config : RuntimeConfig) : Env :=
  Env.empty.set "PERAGO_WORKER_ID_PREFIX" config.workerIdPrefix

def brokerWorkerId (idPrefix : Text) : Text := idPrefix ++ text "Broker"

def brokerEnvironment (idPrefix : Text) : Env :=
  (Env.empty.set "PERAGO_WORKER_ID_PREFIX" idPrefix).set "PERAGO_WORKER_ID"
    (brokerWorkerId idPrefix)

/-! ## In the child -/

def resolveWorkerId (moduleTarget : Text) (env : Env) (pid : Nat) : Except PyException Text :=
  match env "PERAGO_WORKER_ID" with
  | some (c :: configured) => .ok (c :: configured)
  | some [] | none => do
    let idPrefix ← validateWorkerIdPrefix (moduleTarget.filter isAlnum)
    return idPrefix ++ text s!"-pid-{pid}"

/-- The directory of the log files of one worker id. -/
def logDirectory (logRoot : Path) (moduleTarget workerId : Text) : Path :=
  logRoot ++ [text (safeSegment moduleTarget.render),
    text ("worker_id=" ++ safeSegment workerId.render)]

structure WorkerRuntime where
  workerId : Text
  logFile : Path

def prepareWorkerRuntime (logRoot : Path) (moduleTarget : Text) (env : Env) (pid : Nat)
    (startedAt : String) : Except PyException WorkerRuntime := do
  let workerId ← resolveWorkerId moduleTarget env pid
  return {
    workerId := workerId
    logFile := logDirectory logRoot moduleTarget workerId ++
      [text s!"pid={pid}__started={startedAt}.jsonl"] }

/-! ## Numbers in ids -/

theorem digitsValue_concat (t : Text) (c : CodePoint) :
    digitsValue (t ++ [c]) = 10 * digitsValue t + (c.val - 0x30) := by
  simp [digitsValue, List.foldl_append]

theorem digitsValue_zeros (k : Nat) (t : Text) :
    digitsValue (List.replicate k 0x30 ++ t) = digitsValue t := by
  induction k with
  | zero => simp
  | succ k ih =>
    rw [List.replicate_succ, List.cons_append]
    refine Eq.trans ?_ ih
    simp [digitsValue]

theorem digitsValue_reverse {ds : List Nat} (h : ∀ d ∈ ds, d < 10) :
    digitsValue (ds.reverse.map fun d => Fin.ofNat 0x110000 (0x30 + d)) = Nat.ofDigits 10 ds := by
  induction ds with
  | nil => rfl
  | cons d ds ih =>
    have small : d < 10 := h d List.mem_cons_self
    have rest := ih fun d hd => h d (List.mem_cons_of_mem _ hd)
    rw [List.reverse_cons, List.map_append, List.map_singleton, digitsValue_concat, rest,
      Nat.ofDigits_cons]
    have code : (Fin.ofNat 0x110000 (0x30 + d) : CodePoint).val = 0x30 + d := by
      rw [Fin.ofNat_eq_cast, Fin.val_natCast]
      omega
    rw [code]
    omega

theorem digitsValue_fourDigits (n : Nat) : digitsValue (fourDigits n) = n := by
  rw [fourDigits, digitsValue_zeros, decimal,
    digitsValue_reverse fun d hd => Nat.digits_lt_base (by decide) hd, Nat.ofDigits_digits]

theorem isDigit_of_mem_fourDigits {n : Nat} {c : CodePoint} (h : c ∈ fourDigits n) :
    isDigit c = true := by
  obtain zero | digit := List.mem_append.mp h
  · obtain rfl := List.eq_of_mem_replicate zero
    decide
  · simp only [decimal, List.mem_map, List.mem_reverse] at digit
    obtain ⟨d, hd, rfl⟩ := digit
    have small : d < 10 := Nat.digits_lt_base (by decide) hd
    have code : (Fin.ofNat 0x110000 (0x30 + d) : CodePoint).val = 0x30 + d := by
      rw [Fin.ofNat_eq_cast, Fin.val_natCast]
      omega
    simp only [isDigit, code, Bool.and_eq_true, decide_eq_true_eq]
    omega

theorem length_fourDigits {n : Nat} (h : n < 10000) : (fourDigits n).length = 4 := by
  have short : (decimal n).length ≤ 4 := by
    rw [decimal, List.length_map, List.length_reverse]
    exact Nat.digits_length_le_iff (by decide) n |>.mpr h
  rw [fourDigits, List.length_append, List.length_replicate]
  omega

theorem workerIdForChild_injective (idPrefix : Text) :
    Function.Injective (workerIdForChild idPrefix) := by
  intro i j same
  rw [← digitsValue_fourDigits i, ← digitsValue_fourDigits j,
    List.append_cancel_left same]

/-- Up to four digits the end of an id tells its number. -/
theorem workerIdForChild_eq_iff {p q : Text} {i j : Nat} (hi : i < 10000) (hj : j < 10000) :
    workerIdForChild p i = workerIdForChild q j ↔ p = q ∧ i = j := by
  constructor
  · intro same
    obtain ⟨rfl, digits⟩ := List.append_inj' same
      ((length_fourDigits hi).trans (length_fourDigits hj).symm)
    exact ⟨rfl, workerIdForChild_injective p (congrArg (p ++ ·) digits)⟩
  · rintro ⟨rfl, rfl⟩
    rfl

/-! ## Prefixes -/

/-- What `validate_worker_id_prefix` lets through, and what is made of it. -/
structure IsWorkerId (t : Text) : Prop where
  nonempty : t ≠ []
  alnum : t.all isAlnum

theorem validateWorkerIdPrefix_eq_ok_iff {t u : Text} :
    validateWorkerIdPrefix t = .ok u ↔ IsWorkerId t ∧ u = t := by
  unfold validateWorkerIdPrefix
  split
  · next blank => exact ⟨nofun, fun h => absurd blank h.1.nonempty⟩
  · next nonempty =>
    split
    · next alnum =>
      refine ⟨fun h => ⟨⟨nonempty, alnum⟩, (Except.ok.inj h).symm⟩, ?_⟩
      rintro ⟨-, rfl⟩
      rfl
    · next other => exact ⟨nofun, fun h => absurd h.1.alnum other⟩

/-- The prefix of a configuration is what a supervisor and its children accept. -/
theorem isWorkerId_of_read {moduleTarget tempRoot : Text} {env : Env}
    {config : RuntimeConfig} (read : readRuntimeConfig moduleTarget tempRoot env = .ok config) :
    IsWorkerId config.workerIdPrefix := by
  obtain ⟨size, -, read⟩ := ok_of_bind read
  obtain ⟨retention, -, read⟩ := ok_of_bind read
  obtain ⟨idPrefix, resolved, read⟩ := ok_of_bind read
  have kept : config.workerIdPrefix = idPrefix := by
    obtain ⟨mode, -, read⟩ := ok_of_bind read
    obtain ⟨ttl, -, read⟩ := ok_of_bind read
    obtain ⟨interval, -, read⟩ := ok_of_bind read
    obtain ⟨kill, -, read⟩ := ok_of_bind read
    obtain ⟨length, -, read⟩ := ok_of_bind read
    obtain ⟨conductor, -, read⟩ := ok_of_bind read
    obtain ⟨lakefs, -, read⟩ := ok_of_bind read
    obtain ⟨metrics, -, read⟩ := ok_of_bind read
    exact (congrArg (·.workerIdPrefix) (Except.ok.inj read)).symm
  rw [kept]
  unfold resolveWorkerIdPrefix at resolved
  split at resolved
  · obtain ⟨valid, rfl⟩ := validateWorkerIdPrefix_eq_ok_iff.mp resolved
    exact valid
  · obtain ⟨valid, rfl⟩ := validateWorkerIdPrefix_eq_ok_iff.mp resolved
    exact valid

theorem not_isspace_of_isAlnum {c : CodePoint} (h : isAlnum c = true) : isspace c = false := by
  simp only [isAlnum, isDigit, Bool.or_eq_true, Bool.and_eq_true, decide_eq_true_eq] at h
  simp only [isspace, Bool.or_eq_false_iff, Bool.and_eq_false_iff, decide_eq_false_iff_not,
    beq_eq_false_iff_ne]
  omega

theorem dropWhile_eq_self {t : Text} {p : CodePoint → Bool} (h : ∀ c ∈ t, p c = false) :
    t.dropWhile p = t := by
  cases t with
  | nil => rfl
  | cons c t => simp [h c List.mem_cons_self]

theorem IsWorkerId.strip_eq {t : Text} (h : IsWorkerId t) : strip t = t := by
  have solid : ∀ c ∈ t, isspace c = false := fun c hc =>
    not_isspace_of_isAlnum (List.all_eq_true.mp h.alnum c hc)
  rw [strip, dropWhile_eq_self solid, dropWhile_eq_self, List.reverse_reverse]
  intro c hc
  exact solid c (List.mem_reverse.mp hc)

/-! ## Ids -/

theorem isWorkerId_child {p : Text} (h : IsWorkerId p) (i : Nat) :
    IsWorkerId (workerIdForChild p i) where
  nonempty := by simp [workerIdForChild, h.nonempty]
  alnum := by
    rw [workerIdForChild, List.all_append, h.alnum, Bool.true_and, List.all_eq_true]
    intro c hc
    simp [isAlnum, isDigit_of_mem_fourDigits hc]

theorem isWorkerId_broker {p : Text} (h : IsWorkerId p) : IsWorkerId (brokerWorkerId p) where
  nonempty := by simp [brokerWorkerId, h.nonempty]
  alnum := by
    rw [brokerWorkerId, List.all_append, h.alnum]
    decide

/-- A character with a code point of an id. -/
theorem isAsciiAlphanumeric_of_isAlnum {c : CodePoint} (h : isAlnum c = true) :
    isAsciiAlphanumeric (Char.ofNat c.val) = true ∧ (Char.ofNat c.val).toNat = c.val := by
  have small : c.val < 128 := by
    simp only [isAlnum, isDigit, Bool.or_eq_true, Bool.and_eq_true, decide_eq_true_eq] at h
    omega
  have all : ∀ n < 128,
      (0x30 ≤ n ∧ n ≤ 0x39 ∨ 0x41 ≤ n ∧ n ≤ 0x5A) ∨ 0x61 ≤ n ∧ n ≤ 0x7A →
        isAsciiAlphanumeric (Char.ofNat n) = true ∧ (Char.ofNat n).toNat = n := by
    decide
  refine all c.val small ?_
  simpa [isAlnum, isDigit] using h

theorem toList_render (t : Text) : t.render.toList = t.map fun c => Char.ofNat c.val := by
  rw [Text.render, String.toList_ofList]
  induction t with
  | nil => rfl
  | cons c t ih => exact congrArg (Char.ofNat c.val :: ·) ih

theorem IsWorkerId.text_render {t : Text} (h : t.all isAlnum) : text t.render = t := by
  rw [text, toList_render, List.map_map]
  refine (List.map_congr_left fun c hc => ?_).trans (List.map_id t)
  have code := (isAsciiAlphanumeric_of_isAlnum (List.all_eq_true.mp h c hc)).2
  simp [Function.comp, code]

theorem IsWorkerId.safeSegment_render {t : Text} (h : IsWorkerId t) :
    safeSegment t.render = t.render := by
  have characters : ∀ c ∈ t.render.toList, isAsciiAlphanumeric c = true := by
    intro c hc
    rw [toList_render, List.mem_map] at hc
    obtain ⟨code, mem, rfl⟩ := hc
    exact (isAsciiAlphanumeric_of_isAlnum (List.all_eq_true.mp h.alnum code mem)).1
  have kept : subRuns (fun c => isAsciiAlphanumeric c || c ∈ ['_', '.', '=', '-']) '_' false
      t.render.toList = t.render.toList := by
    refine subRuns_of_all (List.all_eq_true.mpr fun c hc => ?_)
    simp [characters c hc]
  have unstripped : stripChars ['.', '_'] t.render.toList = t.render.toList := by
    refine stripChars_of_disjoint fun c hc bad => ?_
    have plain := characters c hc
    simp only [List.mem_cons, List.not_mem_nil, or_false] at bad
    obtain rfl | rfl := bad
    · exact absurd plain (by decide)
    · exact absurd plain (by decide)
  have present : t.render.toList ≠ [] := by
    rw [toList_render]
    simpa using h.nonempty
  rw [safeSegment, kept, unstripped]
  simp [present]

theorem IsWorkerId.eq_of_logDirectory {t u : Text} (ht : IsWorkerId t) (hu : IsWorkerId u)
    {logRoot : Path} {moduleTarget : Text}
    (same : logDirectory logRoot moduleTarget t = logDirectory logRoot moduleTarget u) :
    t = u := by
  have names := List.append_cancel_left same
  simp only [List.cons.injEq, true_and, and_true, ht.safeSegment_render,
    hu.safeSegment_render] at names
  have strings := congrArg String.toList (text_injective names)
  rw [String.toList_append, String.toList_append] at strings
  rw [← IsWorkerId.text_render ht.alnum, ← IsWorkerId.text_render hu.alnum,
    String.toList_inj.mp (List.append_cancel_left strings)]

/-! ## The children of a supervisor -/

namespace RuntimeConfig

/-- The ids of the executors. -/
def workerIds (config : RuntimeConfig) (count : Nat) : List Text :=
  (List.range' 1 count).map (workerIdForChild config.workerIdPrefix)

/-- The ids of all processes of a supervisor. -/
def allWorkerIds (config : RuntimeConfig) (count : Nat) : List Text :=
  brokerWorkerId config.workerIdPrefix :: config.workerIds count

variable {config : RuntimeConfig} {count : Nat}

theorem isWorkerId (valid : IsWorkerId config.workerIdPrefix) {t : Text}
    (h : t ∈ config.allWorkerIds count) : IsWorkerId t := by
  obtain rfl | child := List.mem_cons.mp h
  · exact isWorkerId_broker valid
  · obtain ⟨i, -, rfl⟩ := List.mem_map.mp child
    exact isWorkerId_child valid i

/-- An id of an executor ends in a digit, and that of a broker does not. -/
theorem brokerWorkerId_ne (p q : Text) (i : Nat) : brokerWorkerId p ≠ workerIdForChild q i := by
  intro same
  have ends := congrArg List.getLast? same
  obtain ⟨before, last, digits⟩ : ∃ before last, fourDigits i = before ++ [last] := by
    refine ⟨_, _, (List.dropLast_append_getLast (l := fourDigits i) ?_).symm⟩
    intro none
    have long := congrArg List.length none
    rw [fourDigits, List.length_append, List.length_replicate, List.length_nil] at long
    omega
  have digit : isDigit last = true := isDigit_of_mem_fourDigits (by rw [digits]; simp)
  rw [workerIdForChild, digits, ← List.append_assoc, List.getLast?_concat, brokerWorkerId] at ends
  have letter : (p ++ text "Broker").getLast? = some 0x72 := by
    rw [List.getLast?_append]
    rfl
  rw [letter] at ends
  obtain rfl := Option.some.inj ends
  exact absurd digit (by decide)

theorem nodup_allWorkerIds : (config.allWorkerIds count).Nodup := by
  refine List.nodup_cons.mpr ⟨?_, ?_⟩
  · intro child
    obtain ⟨i, -, same⟩ := List.mem_map.mp child
    exact brokerWorkerId_ne _ _ i same.symm
  · exact (List.nodup_range' ..).map (workerIdForChild_injective config.workerIdPrefix)

theorem nodup_logDirectories (valid : IsWorkerId config.workerIdPrefix) (logRoot : Path)
    (moduleTarget : Text) :
    ((config.allWorkerIds count).map (logDirectory logRoot moduleTarget)).Nodup := by
  refine List.Nodup.map_on ?_ nodup_allWorkerIds
  intro t ht u hu same
  exact (isWorkerId valid ht).eq_of_logDirectory (isWorkerId valid hu) same

theorem text_render_workerId (valid : IsWorkerId config.workerIdPrefix) {t : Text}
    (h : t ∈ config.workerIds count) : text t.render = t :=
  IsWorkerId.text_render (isWorkerId valid (List.mem_cons_of_mem _ h)).alnum

/-- The runtime of the processes, over the ids that the supervisor hands out. -/
def processRuntime (config : RuntimeConfig) (valid : IsWorkerId config.workerIdPrefix)
    (count : Nat) (completionTimeoutSeconds : Option Nat) :
    ConductorRuntime.ProcessRuntimeConfig where
  workerIds := (config.workerIds count).map Text.render
  nodup := by
    refine List.Nodup.map_on ?_ (List.nodup_cons.mp nodup_allWorkerIds).2
    intro t ht u hu same
    rw [← text_render_workerId valid ht, ← text_render_workerId valid hu, same]
  completionTimeoutSeconds := completionTimeoutSeconds

/-- Two supervisors with different prefixes and fewer than ten thousand executors each. -/
theorem disjoint_allWorkerIds {other : RuntimeConfig} {count' : Nat}
    (apart : config.workerIdPrefix ≠ other.workerIdPrefix) (few : count < 10000)
    (few' : count' < 10000) :
    (config.allWorkerIds count).Disjoint (other.allWorkerIds count') := by
  intro t ht ht'
  obtain rfl | child := List.mem_cons.mp ht
  · obtain same | child' := List.mem_cons.mp ht'
    · exact apart (List.append_cancel_right same)
    · obtain ⟨i, -, same⟩ := List.mem_map.mp child'
      exact brokerWorkerId_ne _ _ i same.symm
  · obtain ⟨i, hi, rfl⟩ := List.mem_map.mp child
    obtain same | child' := List.mem_cons.mp ht'
    · exact brokerWorkerId_ne _ _ i same.symm
    · obtain ⟨j, hj, same⟩ := List.mem_map.mp child'
      rw [List.mem_range'_1] at hi hj
      obtain ⟨prefixes, -⟩ := (workerIdForChild_eq_iff (by omega) (by omega)).mp same
      exact apart prefixes.symm

end RuntimeConfig

theorem childEnvironment_supervised {config : RuntimeConfig}
    (valid : IsWorkerId config.workerIdPrefix) (moduleTarget : Text) (i : Nat) :
    ∃ env, childEnvironment (supervisorEnvironment config) moduleTarget i = .ok env ∧
      env "PERAGO_WORKER_ID" = some (workerIdForChild config.workerIdPrefix i) := by
  have resolved : resolveWorkerIdPrefix moduleTarget (supervisorEnvironment config) =
      .ok config.workerIdPrefix := by
    simp only [resolveWorkerIdPrefix, supervisorEnvironment, Env.set_same, valid.strip_eq]
    exact validateWorkerIdPrefix_eq_ok_iff.mpr ⟨valid, rfl⟩
  refine ⟨((supervisorEnvironment config).set "PERAGO_WORKER_ID_PREFIX"
    config.workerIdPrefix).set "PERAGO_WORKER_ID" _, ?_, Env.set_same ..⟩
  rw [childEnvironment, resolved]
  rfl

theorem workerChildSpecs_supervised {config : RuntimeConfig}
    (valid : IsWorkerId config.workerIdPrefix) (moduleTarget : Text) {count : Nat}
    (positive : 0 < count) :
    ∃ specs, workerChildSpecs (supervisorEnvironment config) moduleTarget count = .ok specs ∧
      specs.map (·.slot) = List.range' 1 count ∧
      specs.map (·.workerId) = (config.workerIds count).map some := by
  have enough : ¬ (count : Int) < 1 := by omega
  rw [workerChildSpecs, if_neg enough, Int.toNat_natCast, RuntimeConfig.workerIds]
  generalize List.range' 1 count = slots
  induction slots with
  | nil => exact ⟨[], rfl, rfl, rfl⟩
  | cons i slots ih =>
    obtain ⟨specs, built, numbered, named⟩ := ih
    obtain ⟨env, made, id⟩ := childEnvironment_supervised valid moduleTarget i
    refine ⟨⟨i, env⟩ :: specs, ?_, congrArg (i :: ·) numbered, ?_⟩
    · simp only [List.mapM_cons, made, built]
      rfl
    · rw [List.map_cons, named, List.map_cons, List.map_cons]
      exact congrArg (· :: _) id

/-- The environment of a child tells it its id, whatever else it inherits. -/
theorem prepareWorkerRuntime_of_id {env : Env} {id : Text} (nonempty : id ≠ [])
    (h : env "PERAGO_WORKER_ID" = some id) (inherited : Env) (logRoot : Path)
    (moduleTarget : Text) (pid : Nat) (startedAt : String) :
    ∃ runtime, prepareWorkerRuntime logRoot moduleTarget (inherited.update env) pid startedAt =
        .ok runtime ∧
      runtime.workerId = id ∧ logDirectory logRoot moduleTarget id <+: runtime.logFile := by
  cases id with
  | nil => exact absurd rfl nonempty
  | cons c rest =>
    refine ⟨⟨c :: rest, logDirectory logRoot moduleTarget (c :: rest) ++
      [text s!"pid={pid}__started={startedAt}.jsonl"]⟩, ?_, rfl, List.prefix_append _ _⟩
    simp only [prepareWorkerRuntime, resolveWorkerId, Env.update, h, Option.some_or]
    rfl

theorem prepareWorkerRuntime_broker {idPrefix : Text} (valid : IsWorkerId idPrefix)
    (inherited : Env) (logRoot : Path) (moduleTarget : Text) (pid : Nat) (startedAt : String) :
    ∃ runtime, prepareWorkerRuntime logRoot moduleTarget
        (inherited.update (brokerEnvironment idPrefix)) pid startedAt = .ok runtime ∧
      runtime.workerId = brokerWorkerId idPrefix ∧
      logDirectory logRoot moduleTarget (brokerWorkerId idPrefix) <+: runtime.logFile :=
  prepareWorkerRuntime_of_id (isWorkerId_broker valid).nonempty (Env.set_same ..) inherited
    logRoot moduleTarget pid startedAt

/-- Under a loaded configuration every process of a supervisor takes on the id that the
supervisor has for it, whatever it inherits; no two of these ids and no two of their log
directories are equal, so that the runtime of the processes stands on distinct ids; nor are
ids those of a supervisor with another prefix, up to four digits. -/
theorem children_know_their_ids {moduleTarget tempRoot : Text} {env : Env}
    {config : RuntimeConfig} (read : readRuntimeConfig moduleTarget tempRoot env = .ok config)
    {count : Nat} (positive : 0 < count) (logRoot : Path) :
    (∃ specs, workerChildSpecs (supervisorEnvironment config) moduleTarget count = .ok specs ∧
      specs.map (·.slot) = List.range' 1 count ∧
      specs.map (·.workerId) = (config.workerIds count).map some ∧
      ∀ spec ∈ specs, ∀ (inherited : Env) (pid : Nat) (startedAt : String), ∃ id runtime,
        spec.workerId = some id ∧
        prepareWorkerRuntime logRoot moduleTarget (inherited.update spec.env) pid startedAt =
          .ok runtime ∧
        runtime.workerId = id ∧ logDirectory logRoot moduleTarget id <+: runtime.logFile) ∧
    (∀ (inherited : Env) (pid : Nat) (startedAt : String), ∃ runtime,
      prepareWorkerRuntime logRoot moduleTarget
          (inherited.update (brokerEnvironment config.workerIdPrefix)) pid startedAt =
        .ok runtime ∧
      runtime.workerId = brokerWorkerId config.workerIdPrefix ∧
      logDirectory logRoot moduleTarget runtime.workerId <+: runtime.logFile) ∧
    (config.allWorkerIds count).Nodup ∧
    ((config.allWorkerIds count).map (logDirectory logRoot moduleTarget)).Nodup ∧
    (∀ completionTimeoutSeconds, ∃ runtime : ConductorRuntime.ProcessRuntimeConfig,
      runtime.workerIds.map text = config.workerIds count ∧
      runtime.completionTimeoutSeconds = completionTimeoutSeconds) ∧
    ∀ (other : RuntimeConfig) (count' : Nat), config.workerIdPrefix ≠ other.workerIdPrefix →
      count < 10000 → count' < 10000 →
        (config.allWorkerIds count).Disjoint (other.allWorkerIds count') := by
  have valid := isWorkerId_of_read read
  refine ⟨?_, ?_, RuntimeConfig.nodup_allWorkerIds,
    RuntimeConfig.nodup_logDirectories valid logRoot moduleTarget,
    fun seconds => ⟨config.processRuntime valid count seconds, ?_, rfl⟩,
    fun other count' => RuntimeConfig.disjoint_allWorkerIds⟩
  · obtain ⟨specs, built, numbered, named⟩ :=
      workerChildSpecs_supervised valid moduleTarget positive
    refine ⟨specs, built, numbered, named, fun spec mem inherited pid startedAt => ?_⟩
    obtain ⟨id, child, own⟩ := List.mem_map.mp (named ▸ List.mem_map_of_mem mem)
    have isId := RuntimeConfig.isWorkerId valid (List.mem_cons_of_mem _ child)
    obtain ⟨runtime, prepared⟩ := prepareWorkerRuntime_of_id isId.nonempty own.symm
      inherited logRoot moduleTarget pid startedAt
    exact ⟨id, runtime, own.symm, prepared⟩
  · intro inherited pid startedAt
    obtain ⟨runtime, prepared, id, directory⟩ :=
      prepareWorkerRuntime_broker valid inherited logRoot moduleTarget pid startedAt
    exact ⟨runtime, prepared, id, id ▸ directory⟩
  · simp only [RuntimeConfig.processRuntime, List.map_map]
    refine (List.map_congr_left fun t ht => ?_).trans (List.map_id _)
    exact RuntimeConfig.text_render_workerId valid ht

/-- A configuration of defaults. -/
def pingConfig : RuntimeConfig where
  workspaceRoot := text "/tmp/perago/workspaces"
  logRoot := text "/tmp/perago/logs"
  logFileMaxSize := defaultLogFileMaxSize
  logRetention := defaultLogRetention
  workerIdPrefix := text "appping"
  executionMode := .process
  workspaceGcTtl := defaultWorkspaceGcTtl
  workspaceGcInterval := defaultWorkspaceGcInterval
  shutdownForceKillAfter := none
  failureReasonMaxLength := defaultFailureReasonMaxLength
  conductor := none
  lakefs := none
  metrics := none

theorem children_know_their_ids_ping :
    pingConfig.workerIds 2 = [text "appping0001", text "appping0002"] ∧
    (pingConfig.allWorkerIds 2).Nodup ∧
    ((pingConfig.allWorkerIds 2).map (logDirectory [] (text "app.ping"))).Nodup :=
  have known := children_know_their_ids
    (show readRuntimeConfig (text "app.ping") (text "/tmp/perago") Env.empty = .ok pingConfig
      from rfl) (show 0 < 2 by decide) []
  ⟨by decide, known.2.2.1, known.2.2.2.1⟩

end Perago
