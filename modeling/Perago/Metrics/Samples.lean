import Perago.Metrics.Otel

/-!
# The labels of a sample

What a caller puts into the labels of a metric reaches the meter as far as it does not say
who the attempt is: the recorder's labels stand, the parts of the attempt's identity are
never there, and what is left out has been warned about.
-/

namespace Perago.Metrics

open Perago.Transition

variable {V : Type}

namespace BoundCall

/-- The task whose attempt or runtime is measured. -/
def taskName (c : BoundCall V) : Option String :=
  match c.call.runtime with
  | none => c.context.map (·.taskName)
  | some context => some context.taskName

/-- What the labels of a sample say, and what has been logged about the others. -/
structure Labelled (c : BoundCall V) (labels : Labels) (warnings : List MetricWarning) : Prop where
  task : labels.get? "task_name" = c.taskName
  known : c.taskName.isSome
  anonymous : ∀ key ∈ reservedAttemptLabels, labels.get? key = none
  kept : ∀ user, c.call.labels = some user → ∀ item ∈ user.items,
    labels.get? item.1 = some item.2 ∨
      ∃ own, .ignoredLabel c.metricName item.1 own item.2 ∈ warnings
  only : ∀ key value, labels.get? key = some value →
    key = "task_name" ∨ c.call.runtime.isSome ∧ key = "perago_instance_id" ∨
      ∃ user, c.call.labels = some user ∧ user.get? key = some value

theorem get?_single (key value k : String) :
    (Labels.single key value).get? k = if k = key then some value else none := by
  by_cases same : k = key
  · simp [Labels.single, Labels.get?, same]
  · simp [Labels.single, Labels.get?, List.lookup_cons, same, beq_eq_false_iff_ne.mpr same]

/-- The recorder's own labels: the task, and with a runtime metric the instance. -/
theorem get?_own {c : BoundCall V} {own : Labels} (h : c.own = some own) :
    own.get? "task_name" = c.taskName ∧ c.taskName.isSome ∧
    ∀ key, key ≠ "task_name" → ¬ (c.call.runtime.isSome ∧ key = "perago_instance_id") →
      own.get? key = none := by
  unfold BoundCall.own at h
  unfold taskName
  cases runtime : c.call.runtime with
  | none =>
    rw [runtime] at h
    obtain ⟨context, bound, rfl⟩ := Option.map_eq_some_iff.mp h
    refine ⟨by simp [bound, get?_single], by simp [bound], fun key other _ => ?_⟩
    simp [get?_single, other]
  | some context =>
    rw [runtime] at h
    cases h
    unfold RuntimeMetricContext.own
    cases context.peragoInstanceId with
    | none =>
      refine ⟨by simp [get?_single], rfl, fun key other _ => ?_⟩
      simp [get?_single, other]
    | some id =>
      refine ⟨by simp [Labels.get?_set, get?_single], rfl, fun key other another => ?_⟩
      have different : key ≠ "perago_instance_id" := fun same => another ⟨rfl, same⟩
      simp [Labels.get?_set, get?_single, other, different]

theorem labelled {c : BoundCall V} {labels : Labels} {warnings : List MetricWarning}
    (gives : c.attributes = .ok (labels, warnings))
    {logged : List MetricWarning} (warned : ∀ warning ∈ warnings, warning ∈ logged) :
    c.Labelled labels logged := by
  obtain ⟨own, hown, merged⟩ := attributes_eq_ok_iff.mp gives
  obtain ⟨task, known, rest⟩ := get?_own hown
  have value : ∀ key, labels.get? key = (own.get? key).or
      (if key ∈ reservedAttemptLabels then none else c.call.labels.bind (·.get? key)) := by
    intro key
    rw [← get?_mergeUserLabels c.metricName, ← merged]
  have warns : warnings = (mergeUserLabels c.metricName own c.call.labels).2 :=
    congrArg Prod.snd merged
  refine ⟨?_, known, ?_, ?_, ?_⟩
  · obtain ⟨name, hname⟩ := Option.isSome_iff_exists.mp known
    simp [value, task, hname]
  · intro key reserved
    have absent : own.get? key = none := by
      refine rest key ?_ ?_
      · rintro rfl
        exact absurd reserved (by decide)
      · rintro ⟨-, rfl⟩
        exact absurd reserved (by decide)
    simp [value, absent, reserved]
  · intro user given item mem
    cases ignored : ignoredLabel? c.metricName own item with
    | none =>
      obtain ⟨absent, unreserved⟩ := ignoredLabel?_eq_none_iff.mp ignored
      refine .inl ?_
      simp [value, absent, unreserved, given, Labels.get?_of_mem mem]
    | some warning =>
      have logs : warning ∈ logged := by
        refine warned warning ?_
        rw [warns, warnings_mergeUserLabels, given]
        exact List.mem_filterMap.mpr ⟨item, mem, ignored⟩
      obtain ⟨kept, rfl⟩ := ignoredLabel?_eq_some ignored
      exact .inr ⟨kept, logs⟩
  · intro key v found
    rw [value] at found
    obtain here | ⟨absent, there⟩ := Option.or_eq_some_iff.mp found
    · by_cases first : key = "task_name"
      · exact .inl first
      · refine .inr (.inl ?_)
        by_contra second
        simp [rest key first second] at here
    · refine .inr (.inr ?_)
      split at there
      · cases there
      · exact Option.bind_eq_some_iff.mp there

end BoundCall

namespace Otel

variable {s : Otel V}

theorem Consistent.measures (h : s.Consistent) {n : Nat} {m : Nat × V × Labels}
    (hm : s.measured[n]? = some m) :
    ∃ c, s.completed[n]? = some c ∧ Measures s.instruments m c := by
  obtain ⟨inside, rfl⟩ := List.getElem?_eq_some_iff.mp hm
  have same := h.recorded.matched.length_eq
  exact ⟨_, List.getElem?_eq_getElem (same ▸ inside),
    List.forall₂_iff_get.mp h.recorded.matched |>.2 n inside (same ▸ inside)⟩

/-- Calls on one instrument are of one kind, and all of the task or all of the runtime. -/
theorem Measures.same {instruments : List (MetricKind × String)} {m m' : Nat × V × Labels}
    {c c' : BoundCall V} (h : Measures instruments m c) (h' : Measures instruments m' c')
    (same : m.1 = m'.1) :
    c.call.kind = c'.call.kind ∧ c.call.runtime.isSome = c'.call.runtime.isSome := by
  have keys : c.key = c'.key := by
    refine Option.some.inj (h.1.symm.trans ?_)
    rw [same]
    exact h'.1
  obtain ⟨kind, name⟩ := Prod.mk.inj keys
  refine ⟨kind, ?_⟩
  unfold BoundCall.metricName at name
  cases r : c.call.runtime with
  | none =>
    cases r' : c'.call.runtime with
    | none => rfl
    | some context =>
      rw [r, r'] at name
      exact absurd name (applicationMetricName_ne _ _)
  | some context =>
    cases r' : c'.call.runtime with
    | none =>
      rw [r, r'] at name
      exact absurd name.symm (applicationMetricName_ne _ _)
    | some context' => rfl

end Otel

/-- In every interleaving each sample stands for the call that recorded it, its labels do
not say which attempt that was, and no instrument has samples both of the tasks and of the
runtime. -/
theorem samples_tell_no_attempt {s : Otel V} (h : (otelMetricRecorders V).Reachable s) :
    s.measured.length = s.completed.length ∧
    (∀ (n : Nat) (m : Nat × V × Labels), s.measured[n]? = some m →
      ∃ c, s.completed[n]? = some c ∧ c ∈ s.called ∧ s.instruments[m.1]? = some c.key ∧
        m.2.1 = c.call.value ∧ c.Labelled m.2.2 s.warnings) ∧
    ∀ (n n' : Nat) (m m' : Nat × V × Labels) (c c' : BoundCall V),
      s.measured[n]? = some m → s.measured[n']? = some m' →
      s.completed[n]? = some c → s.completed[n']? = some c' → m.1 = m'.1 →
        c.call.kind = c'.call.kind ∧ c.call.runtime.isSome = c'.call.runtime.isSome := by
  have consistent := Otel.consistent h
  refine ⟨consistent.recorded.matched.length_eq, ?_, ?_⟩
  · intro n m hm
    obtain ⟨c, hc, there, value, warnings, gives⟩ := consistent.measures hm
    have called : c ∈ s.called := by
      refine consistent.recorded.accounted.mem_iff.mp ?_
      simp [List.mem_of_getElem? hc]
    exact ⟨c, hc, called, there, value,
      c.labelled gives (consistent.warned c called _ _ gives)⟩
  · intro n n' m m' c c' hm hm' hc hc' same
    obtain ⟨d, hd, measures⟩ := consistent.measures hm
    obtain ⟨d', hd', measures'⟩ := consistent.measures hm'
    obtain rfl := Option.some.inj (hc.symm.trans hd)
    obtain rfl := Option.some.inj (hc'.symm.trans hd')
    exact measures.same measures' same

/-- A runtime gauge with a label that would tell the attempt. -/
def labelledRecorders : Otel Nat :=
  (otelMetricRecorders Nat).follow Otel.initial
    [.thread, .call 0 0 (runtimeGauge "busy_slots" 1 ⟨"features.build", none⟩
        (some ⟨[("task_id", "t-1"), ("queue", "high")], by decide⟩)),
      .advance 0 true, .advance 0 true, .advance 0 true, .advance 0 true, .advance 0 true,
      .advance 0 true]

def labelledSample : Nat × Nat × Labels :=
  (0, 1, ⟨[("task_name", "features.build"), ("queue", "high")], by decide⟩)

theorem samples_tell_no_attempt_labelled :
    ∃ c, labelledRecorders.completed[0]? = some c ∧ c ∈ labelledRecorders.called ∧
      labelledRecorders.instruments[labelledSample.1]? = some c.key ∧
      labelledSample.2.1 = c.call.value ∧
      c.Labelled labelledSample.2.2 labelledRecorders.warnings :=
  (samples_tell_no_attempt (Machine.Reachable.follow rfl)).2.1 0 labelledSample rfl

end Perago.Metrics
