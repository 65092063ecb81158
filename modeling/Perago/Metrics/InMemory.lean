import Perago.Metrics.Labels

/-!
# Recording samples

The four recording methods differ in the kind of instrument and in whose metric it is. The
recorder of the tests appends each sample to one of two lists.
-/

namespace Perago.Metrics

variable {V : Type}

inductive MetricKind where
  | histogram
  | gauge
  deriving DecidableEq

/-- A call of a recording method. A runtime metric brings its context along. -/
structure MetricCall (V : Type) where
  kind : MetricKind
  runtime : Option RuntimeMetricContext
  name : String
  value : V
  labels : Option Labels

def histogram (name : String) (value : V) (labels : Option Labels) : MetricCall V :=
  ⟨.histogram, none, name, value, labels⟩

def gauge (name : String) (value : V) (labels : Option Labels) : MetricCall V :=
  ⟨.gauge, none, name, value, labels⟩

def runtimeHistogram (name : String) (value : V) (context : RuntimeMetricContext)
    (labels : Option Labels) : MetricCall V :=
  ⟨.histogram, some context, name, value, labels⟩

def runtimeGauge (name : String) (value : V) (context : RuntimeMetricContext)
    (labels : Option Labels) : MetricCall V :=
  ⟨.gauge, some context, name, value, labels⟩

/-- A call on a recorder that `with_context` bound to an attempt, or on the base recorder. -/
structure BoundCall (V : Type) where
  context : Option TaskAttemptMetricContext
  call : MetricCall V

def requireMetricContext (context : Option TaskAttemptMetricContext) :
    Except PyException TaskAttemptMetricContext :=
  match context with
  | none => .error (.mk' (.other "RuntimeError") "MetricRecorder context is not bound")
  | some context => .ok context

namespace BoundCall

def metricName (c : BoundCall V) : String :=
  match c.call.runtime with
  | none => applicationMetricName c.call.name
  | some _ => runtimeMetricName c.call.name

/-- The instrument that the call records on. -/
def key (c : BoundCall V) : MetricKind × String := (c.call.kind, c.metricName)

def attributes (c : BoundCall V) : Except PyException (Labels × List MetricWarning) :=
  match c.call.runtime with
  | none => do
    let context ← requireMetricContext c.context
    return mergeMetricLabels c.metricName context c.call.labels none
  | some context => .ok (mergeRuntimeMetricLabels c.metricName context c.call.labels)

/-- The labels the recorder starts with; an application metric needs a context. -/
def own (c : BoundCall V) : Option Labels :=
  match c.call.runtime with
  | none => c.context.map fun context => Labels.single "task_name" context.taskName
  | some context => some context.own

theorem attributes_eq_ok_iff {c : BoundCall V} {merged : Labels × List MetricWarning} :
    c.attributes = .ok merged ↔
      ∃ own, c.own = some own ∧ merged = mergeUserLabels c.metricName own c.call.labels := by
  unfold attributes own
  cases c.call.runtime with
  | some context => simp [mergeRuntimeMetricLabels, eq_comm]
  | none =>
    cases c.context with
    | none => simp [requireMetricContext, bind, Except.bind]
    | some context =>
      simp [requireMetricContext, mergeMetricLabels, bind, Except.bind, pure, Except.pure,
        eq_comm]

/-- The labels of the call's sample. -/
def Gives (c : BoundCall V) (attributes : Labels) : Prop :=
  ∃ warnings, c.attributes = .ok (attributes, warnings)

end BoundCall

/-! ## The recorder of the tests -/

structure RecordedMetricSample (V : Type) where
  name : String
  value : V
  labels : Labels

/-- What an `InMemoryMetricRecorder` shares with those that `with_context` binds. -/
structure InMemorySamples (V : Type) where
  histograms : List (RecordedMetricSample V)
  gauges : List (RecordedMetricSample V)

namespace InMemorySamples

def add (samples : InMemorySamples V) (kind : MetricKind) (sample : RecordedMetricSample V) :
    InMemorySamples V :=
  match kind with
  | .histogram => { samples with histograms := samples.histograms ++ [sample] }
  | .gauge => { samples with gauges := samples.gauges ++ [sample] }

/-- One call of a recording method of `InMemoryMetricRecorder`. -/
def record (samples : InMemorySamples V) (c : BoundCall V) :
    Except PyException (InMemorySamples V) := do
  let (labels, _) ← c.attributes
  return samples.add c.call.kind ⟨c.metricName, c.call.value, labels⟩

theorem record_eq {samples : InMemorySamples V} {c : BoundCall V} {attributes : Labels}
    (h : c.Gives attributes) :
    samples.record c =
      .ok (samples.add c.call.kind ⟨c.metricName, c.call.value, attributes⟩) := by
  obtain ⟨warnings, h⟩ := h
  simp [record, h, bind, Except.bind, pure, Except.pure]

end InMemorySamples

end Perago.Metrics
