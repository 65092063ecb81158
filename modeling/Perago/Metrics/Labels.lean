import Mathlib.Data.List.Nodup
import Perago.Json
import Perago.Python

/-!
# Metric names and labels

A recorder puts its own labels before the labels of the caller: a label of the caller that
has the name of one of these, or of a part of the attempt's identity, is left out with a
warning. The recorder that the tests use keeps the samples in two lists.
-/

namespace Perago.Metrics

/-! ## Dicts of labels -/

/-- A dict from `str` to `str`: its items in the order of insertion, each key once. -/
structure Labels where
  items : List (String × String)
  nodup : (items.map Prod.fst).Nodup

namespace Labels

def get? (l : Labels) (key : String) : Option String := l.items.lookup key

theorem get?_of_mem {l : Labels} {item : String × String} (h : item ∈ l.items) :
    l.get? item.1 = some item.2 :=
  lookup_of_mem l.nodup h

theorem get?_eq_none_iff {l : Labels} {key : String} :
    l.get? key = none ↔ key ∉ l.items.map Prod.fst := by
  rw [get?, List.lookup_eq_none_iff]
  constructor
  · intro h present
    obtain ⟨item, mem, rfl⟩ := List.mem_map.mp present
    simpa using h item mem
  · intro h item mem
    have other : key ≠ item.1 := by
      rintro rfl
      exact h (List.mem_map_of_mem mem)
    simpa using other

def single (key value : String) : Labels where
  items := [(key, value)]
  nodup := List.nodup_singleton _

/-- `labels[key] = value`. -/
def set (l : Labels) (key value : String) : Labels :=
  if h : l.get? key = none then
    { items := l.items ++ [(key, value)]
      nodup := by
        rw [get?_eq_none_iff] at h
        rw [List.map_append, List.map_singleton, ← List.concat_eq_append]
        exact l.nodup.concat h }
  else
    { items := l.items.map fun item => (item.1, if item.1 = key then value else item.2)
      nodup := by
        rw [List.map_map]
        exact l.nodup }

theorem get?_set (l : Labels) (key value k : String) :
    (l.set key value).get? k = if k = key then some value else l.get? k := by
  unfold set
  split
  · next absent =>
    have here : l.items.lookup key = none := absent
    simp only [get?, List.lookup_append, List.lookup_cons, List.lookup_nil]
    by_cases same : k = key
    · simp [same, here]
    · simp [same, beq_eq_false_iff_ne.mpr same]
  · next present =>
    obtain ⟨old, here⟩ := Option.ne_none_iff_exists'.mp present
    simp only [get?, lookup_map fun k v => if k = key then value else v] at here ⊢
    by_cases same : k = key
    · simp [same, here]
    · simp [same]

/-- `labels.update(more)`. -/
def update (l more : Labels) : Labels :=
  more.items.foldl (fun merged item => merged.set item.1 item.2) l

end Labels

/-! ## Contexts and names -/

def reservedAttemptLabels : List String :=
  ["task_id", "workflow_instance_id", "execution_id", "worker_id"]

structure TaskAttemptMetricContext where
  taskName : String
  taskId : String
  workflowInstanceId : String
  executionId : String
  workerId : String
  retryCount : Int
  deriving DecidableEq

structure RuntimeMetricContext where
  taskName : String
  peragoInstanceId : Option String
  deriving DecidableEq

def applicationMetricName (name : String) : String := "app." ++ name

def runtimeMetricName (name : String) : String := "runtime." ++ name

/-- No application metric has the name of a runtime metric. -/
theorem applicationMetricName_ne (name other : String) :
    applicationMetricName name ≠ runtimeMetricName other := by
  intro h
  have first := congrArg (fun s => s.toList.head?) h
  simp [applicationMetricName, runtimeMetricName] at first

/-! ## Merging -/

/-- What the recorders log: `_warn_ignored_label` and `warn_rebinding_context`. -/
inductive MetricWarning where
  | ignoredLabel (metricName labelKey peragoLabelValue ignoredUserLabelValue : String)
  | rebindingContext (currentTaskId nextTaskId : String)
  deriving DecidableEq

/-- One turn of the loop over the labels of the caller. -/
def mergeUserLabel (metricName : String) (merged : Labels × List MetricWarning)
    (item : String × String) : Labels × List MetricWarning :=
  match merged.1.get? item.1 with
  | some kept =>
    (merged.1, merged.2 ++ [.ignoredLabel metricName item.1 kept item.2])
  | none =>
    if item.1 ∈ reservedAttemptLabels then
      (merged.1, merged.2 ++ [.ignoredLabel metricName item.1 "<reserved>" item.2])
    else (merged.1.set item.1 item.2, merged.2)

/-- `if labels:` skips an empty dict as it skips `None`. -/
def mergeUserLabels (metricName : String) (own : Labels) (labels : Option Labels) :
    Labels × List MetricWarning :=
  match labels with
  | none => (own, [])
  | some labels => labels.items.foldl (mergeUserLabel metricName) (own, [])

def mergeMetricLabels (metricName : String) (context : TaskAttemptMetricContext)
    (labels peragoLabels : Option Labels) : Labels × List MetricWarning :=
  let own := Labels.single "task_name" context.taskName
  mergeUserLabels metricName
    (match peragoLabels with
      | none => own
      | some more => own.update more)
    labels

/-- The labels a runtime metric starts with. -/
def RuntimeMetricContext.own (context : RuntimeMetricContext) : Labels :=
  let own := Labels.single "task_name" context.taskName
  match context.peragoInstanceId with
  | none => own
  | some id => own.set "perago_instance_id" id

def mergeRuntimeMetricLabels (metricName : String) (context : RuntimeMetricContext)
    (labels : Option Labels) : Labels × List MetricWarning :=
  mergeUserLabels metricName context.own labels

/-- The warning about a label of the caller, if it is left out. -/
def ignoredLabel? (metricName : String) (own : Labels) (item : String × String) :
    Option MetricWarning :=
  match own.get? item.1 with
  | some kept => some (.ignoredLabel metricName item.1 kept item.2)
  | none =>
    if item.1 ∈ reservedAttemptLabels then
      some (.ignoredLabel metricName item.1 "<reserved>" item.2)
    else none

theorem ignoredLabel?_eq_none_iff {metricName : String} {own : Labels} {item : String × String} :
    ignoredLabel? metricName own item = none ↔
      own.get? item.1 = none ∧ item.1 ∉ reservedAttemptLabels := by
  unfold ignoredLabel?
  cases own.get? item.1 with
  | some kept => simp
  | none => simp

theorem ignoredLabel?_eq_some {metricName : String} {own : Labels} {item : String × String}
    {warning : MetricWarning} (h : ignoredLabel? metricName own item = some warning) :
    ∃ kept, warning = .ignoredLabel metricName item.1 kept item.2 := by
  unfold ignoredLabel? at h
  split at h
  · exact ⟨_, (Option.some.inj h).symm⟩
  · split at h
    · exact ⟨_, (Option.some.inj h).symm⟩
    · cases h

theorem mergeUserLabel_eq {metricName : String} {own : Labels}
    {merged : Labels × List MetricWarning} {item : String × String}
    (fresh : merged.1.get? item.1 = own.get? item.1) :
    mergeUserLabel metricName merged item =
      match ignoredLabel? metricName own item with
      | some warning => (merged.1, merged.2 ++ [warning])
      | none => (merged.1.set item.1 item.2, merged.2) := by
  unfold mergeUserLabel ignoredLabel?
  rw [fresh]
  cases own.get? item.1 with
  | some kept => rfl
  | none =>
    by_cases reserved : item.1 ∈ reservedAttemptLabels
    · simp [reserved]
    · simp [reserved]

/-- The loop compares with the labels it has merged so far, which makes no difference: no
label of the caller is met twice. -/
theorem foldl_mergeUserLabel (metricName : String) (own : Labels)
    (items : List (String × String)) (merged : Labels × List MetricWarning)
    (nodup : (items.map Prod.fst).Nodup)
    (fresh : ∀ key ∈ items.map Prod.fst, merged.1.get? key = own.get? key) :
    (∀ key, (items.foldl (mergeUserLabel metricName) merged).1.get? key =
      (merged.1.get? key).or
        (if key ∈ reservedAttemptLabels then none else items.lookup key)) ∧
    (items.foldl (mergeUserLabel metricName) merged).2 =
      merged.2 ++ items.filterMap (ignoredLabel? metricName own) := by
  induction items generalizing merged with
  | nil => simp
  | cons item items ih =>
    obtain ⟨k, v⟩ := item
    obtain ⟨new, rest⟩ := List.nodup_cons.mp nodup
    have here : merged.1.get? k = own.get? k := fresh k List.mem_cons_self
    have later : ∀ key ∈ items.map Prod.fst, merged.1.get? key = own.get? key :=
      fun key hk => fresh key (List.mem_cons_of_mem _ hk)
    simp only [List.foldl_cons, List.lookup_cons, List.filterMap_cons]
    rw [mergeUserLabel_eq here]
    cases warned : ignoredLabel? metricName own (k, v) with
    | some warning =>
      obtain ⟨values, warnings⟩ := ih (merged.1, merged.2 ++ [warning]) rest later
      refine ⟨fun key => ?_, by simp [warnings]⟩
      rw [values]
      by_cases same : key = k
      · subst same
        have left_out : ¬ (own.get? key = none ∧ key ∉ reservedAttemptLabels) := by
          intro both
          have silent : ignoredLabel? metricName own (key, v) = none :=
            ignoredLabel?_eq_none_iff.mpr both
          rw [silent] at warned
          cases warned
        by_cases reserved : key ∈ reservedAttemptLabels
        · simp [reserved]
        · obtain ⟨old, kept⟩ := Option.ne_none_iff_exists'.mp fun h => left_out ⟨h, reserved⟩
          simp [here, kept]
      · simp [beq_eq_false_iff_ne.mpr same]
    | none =>
      have untouched : ∀ key ∈ items.map Prod.fst,
          (merged.1.set k v).get? key = own.get? key := by
        intro key hk
        have other : key ≠ k := by
          rintro rfl
          exact new hk
        rw [Labels.get?_set, if_neg other, later key hk]
      obtain ⟨values, warnings⟩ := ih (merged.1.set k v, merged.2) rest untouched
      obtain ⟨absent, open_⟩ := ignoredLabel?_eq_none_iff.mp warned
      refine ⟨fun key => ?_, warnings⟩
      rw [values, Labels.get?_set]
      by_cases same : key = k
      · subst same
        simp [here, absent, open_]
      · simp [same, beq_eq_false_iff_ne.mpr same]

theorem get?_mergeUserLabels (metricName : String) (own : Labels) (labels : Option Labels)
    (key : String) :
    (mergeUserLabels metricName own labels).1.get? key =
      (own.get? key).or
        (if key ∈ reservedAttemptLabels then none else labels.bind (·.get? key)) := by
  cases labels with
  | none => simp [mergeUserLabels]
  | some labels =>
    exact (foldl_mergeUserLabel metricName own labels.items _ labels.nodup
      fun _ _ => rfl).1 key

theorem warnings_mergeUserLabels (metricName : String) (own : Labels)
    (labels : Option Labels) :
    (mergeUserLabels metricName own labels).2 =
      (labels.map (·.items)).elim [] (·.filterMap (ignoredLabel? metricName own)) := by
  cases labels with
  | none => rfl
  | some labels =>
    exact (foldl_mergeUserLabel metricName own labels.items (own, []) labels.nodup
      fun _ _ => rfl).2

end Perago.Metrics
