import Perago.EffectOrder
import Perago.Workspace.Snapshot

/-!
# The effect-order contract of an attempt

What an attempt calls, in which order, and what it returns. The order of the calls, the
comparison of the snapshots and the result are read off the progress of the attempt.
-/

namespace Perago

open Effect
open ConductorRuntime (ConductorTaskAttempt)

/-! ## The events -/

/-- The calls that a read-only attempt never makes. -/
def Event.isPublication : Event → Bool
  | .loadCurrentAttempt _ | .stage _ | .publish _ _ | .noop _ => true
  | _ => false

/-- The calls that move the target branch. -/
def Event.isMove : Event → Bool
  | .publish _ _ | .noop _ => true
  | _ => false

def Event.isCleanup : Event → Bool
  | .cleanupStaging _ _ => true
  | _ => false

/-- What a `stage` call returned. -/
def Event.stagedWorkspace : Event → Option StagedWorkspace
  | .stage (.ok s) => some s
  | _ => none

/-- The exception that a failed step ends the attempt with. -/
def Event.raised (attempt : ConductorTaskAttempt) : Event → Option PyException
  | .download (.error exc) | .snapshot (.error exc) | .guardrails _ (.error exc)
  | .body (.error exc) | .loadCurrentAttempt (.error exc) | .stage (.error exc)
  | .publish _ (.error exc) | .noop (.error exc) => some exc
  | .loadCurrentAttempt (.ok fresh) =>
    if CurrentAttempt attempt fresh then none else some (staleAttempt attempt)
  | _ => none

/-- The events of an attempt that did not compare its snapshots: it was read-only, or ended
before, after its last event failed or through work of its own. -/
inductive BodyOrder : List Event → Prop where
  | begun : BodyOrder []
  | download (outcome : Except PyException Unit) : BodyOrder [.download outcome]
  | unopened (exc : PyException) : BodyOrder [.download (.ok ()), .snapshot (.error exc)]
  | opened (initial : Option (List SnapshotEntry)) : BodyOrder (openedEvents initial)
  | pre (initial : Option (List SnapshotEntry)) (outcome : Except PyException Unit) :
    BodyOrder (openedEvents initial ++ [.guardrails .pre outcome])
  | body (initial : Option (List SnapshotEntry)) (outcome : Except PyException PyValue) :
    BodyOrder (openedEvents initial ++ [.guardrails .pre (.ok ()), .body outcome])
  | post (initial : Option (List SnapshotEntry)) (raw : PyValue) (exc : PyException) :
    BodyOrder (openedEvents initial ++ [.guardrails .pre (.ok ()), .body (.ok raw),
      .guardrails .post (.error exc)])
  | readOnly (raw : PyValue) : BodyOrder (bodyEvents none raw)
  | uncompared (initial : Option (List SnapshotEntry)) (raw : PyValue) (exc : PyException) :
    BodyOrder (openedEvents initial ++ [.guardrails .pre (.ok ()), .body (.ok raw),
      .guardrails .post (.ok ()), .snapshot (.error exc)])

/-- The calls between the comparison of the snapshots and the cleanup, for a workspace that
has changed or not. The attempt ends after `rejected` and `stale`, where a fence failed,
after `unmeasured`, where the files could not be measured, and after `unstaged`. -/
inductive PublicationOrder (attempt : ConductorTaskAttempt) : Bool → List Event → Prop where
  | rejected {changed : Bool} {e : Event} {exc : PyException} :
    RejectedFence attempt e exc → PublicationOrder attempt changed [e]
  | noop {first : ConductorTaskAttempt} (outcome : Except PyException String) :
    CurrentAttempt attempt first →
      PublicationOrder attempt false [.loadCurrentAttempt (.ok first), .noop outcome]
  | unmeasured {first : ConductorTaskAttempt} : CurrentAttempt attempt first →
      PublicationOrder attempt true [.loadCurrentAttempt (.ok first)]
  | unstaged {first : ConductorTaskAttempt} (exc : PyException) : CurrentAttempt attempt first →
      PublicationOrder attempt true [.loadCurrentAttempt (.ok first), .stage (.error exc)]
  | stale {first : ConductorTaskAttempt} (s : StagedWorkspace) {e : Event} {exc : PyException} :
    CurrentAttempt attempt first → RejectedFence attempt e exc →
      PublicationOrder attempt true [.loadCurrentAttempt (.ok first), .stage (.ok s), e]
  | publish {first second : ConductorTaskAttempt} (s : StagedWorkspace)
    (outcome : Except PyException String) :
    CurrentAttempt attempt first → CurrentAttempt attempt second →
      PublicationOrder attempt true [.loadCurrentAttempt (.ok first), .stage (.ok s),
        .loadCurrentAttempt (.ok second), .publish s outcome]

/-- The cleanup of what was staged. -/
def cleanupEvents (calls : List Event) (outcome : Except PyException Unit) : List Event :=
  (calls.filterMap Event.stagedWorkspace).map (.cleanupStaging · outcome)

/-- The events of an attempt: those of its body, and once the snapshots of a writable
workspace are compared those of its publication and cleanup. -/
inductive EffectOrder (attempt : ConductorTaskAttempt) (readOnly : Bool) : List Event → Prop where
  | unpublished {events : List Event} : BodyOrder events → EffectOrder attempt readOnly events
  | published (b : BodyRun) {calls : List Event} (outcome : Except PyException Unit) :
    readOnly = false → PublicationOrder attempt b.changed calls →
      EffectOrder attempt readOnly
        (comparedEvents b ++ (calls ++ cleanupEvents calls outcome))

/-! ## The contract -/

/-- The contract on the order of the calls of one attempt. -/
structure EffectContract (attempt : ConductorTaskAttempt) (spec : WorkspaceSpec)
    (events : List Event) : Prop where
  download_first : ∀ e, events.head? = some e → ∃ outcome, e = .download outcome
  body_admitted : ∀ outcome, .body outcome ∈ events → ∃ initial after, events =
    openedEvents initial ++ [.guardrails .pre (.ok ()), .body outcome] ++ after
  /-- A body that passed its checks is followed by a second snapshot and a comparison. -/
  compared : ∀ initial raw, bodyEvents (some initial) raw <+: events →
    (∃ exc, events = bodyEvents (some initial) raw ++ [.snapshot (.error exc)]) ∨
      ∃ final, comparedEvents ⟨initial, raw, final⟩ <+: events
  /-- The flag says whether the two snapshots differ. -/
  flag : ∀ changed, .compared changed ∈ events → ∃ b, b.changed = changed ∧
    comparedEvents b <+: events
  read_only : spec.readOnly = true → ∀ e ∈ events, e.isPublication = false
  checked : ∀ e ∈ events, e.isPublication = true → ∃ b, comparedEvents b <+: events
  publication : ∀ changed, .compared changed ∈ events →
    PublicationOrder attempt changed (events.filter (·.isPublication))
  fenced : ∀ e ∈ events, e.isMove = true → ∃ before fresh after,
    events = before ++ [.loadCurrentAttempt (.ok fresh), e] ++ after ∧
      CurrentAttempt attempt fresh ∧ ∀ e ∈ before ++ after, e.isMove = false
  cleaned : ∀ s, .stage (.ok s) ∈ events → ∃ before outcome,
    events = before ++ [.cleanupStaging s outcome] ∧ ∀ e ∈ before, e.isCleanup = false
  not_cleaned : (∀ s, .stage (.ok s) ∉ events) → ∀ e ∈ events, e.isCleanup = false

/-- The snapshots are those of the workspaces that the machine shows when they are taken. -/
def SnapshotContract {σ : Type} (host : Host σ) (F : Frame σ) : Prop :=
  ∀ b, comparedEvents b <+: F.events → ∃ dir u v, F.workspaceDir = some dir ∧
    F.snapshotWorlds = [u, v] ∧ ∀ V W, host.Shows dir V u → host.Shows dir W v →
      b.initial = V.snapshot host.sha256 ∧ b.final = W.snapshot host.sha256

/-- The events of an attempt that completed with the given body value and output ref. -/
inductive CompletedEvents (attempt : ConductorTaskAttempt) (readOnly : Bool)
    (i : WorkspaceInput) : PyValue → String → List Event → Prop where
  | readOnly (raw : PyValue) : readOnly = true →
    CompletedEvents attempt readOnly i raw i.ref (bodyEvents none raw)
  | unchanged {b : BodyRun} {first : ConductorTaskAttempt} {ref : String} :
    readOnly = false → b.changed = false → CurrentAttempt attempt first →
      CompletedEvents attempt readOnly i b.raw ref
        (comparedEvents b ++ [.loadCurrentAttempt (.ok first), .noop (.ok ref)])
  | changed {b : BodyRun} {first second : ConductorTaskAttempt} {s : StagedWorkspace}
    {ref : String} (outcome : Except PyException Unit) :
    readOnly = false → b.changed = true → CurrentAttempt attempt first →
      CurrentAttempt attempt second →
      CompletedEvents attempt readOnly i b.raw ref
        (comparedEvents b ++ [.loadCurrentAttempt (.ok first), .stage (.ok s),
          .loadCurrentAttempt (.ok second), .publish s (.ok ref), .cleanupStaging s outcome])

variable {σ : Type} {host : Host σ} {a : WorkspaceAttempt σ} {spec : WorkspaceSpec}
variable {W : PyException → Prop} {P : Progress} {F G : Frame σ} {exc : PyException}
variable {attempt : ConductorTaskAttempt} {failed : Option Event} {events : List Event}
variable {readOnly : Bool} {r : RuntimeTaskResult}

/-- The attempt completed with the value of its body, as the model of the task dumps it. -/
def CompletedAttempt (a : WorkspaceAttempt σ) (spec : WorkspaceSpec) (events : List Event)
    (r : RuntimeTaskResult) : Prop :=
  ∃ i raw result ref output, a.HasInput i ∧ a.task.validateResult raw = .ok result ∧
    CompletedEvents a.attempt spec.readOnly i raw ref events ∧
    i.publishedOutput ref = .ok output ∧
    r = completedResult [(.str "workspace", output.modelDump), (.str "result", result)]

/-- The events of an attempt that progressed to `P`, and ended there with an exception. -/
structure Traced (a : WorkspaceAttempt σ) (spec : WorkspaceSpec) (W : PyException → Prop)
    (P : Progress) (failed : Option Event) (exc : PyException) (events : List Event) : Prop where
  admissible : P.Admissible a.attempt spec.readOnly
  ends : P.EndsWith a spec W exc failed
  events : ∃ outcome, events = P.events ++ failed.toList ++
    (P.stagedWorkspace.map (.cleanupStaging · outcome)).toList

/-- Nothing but a call can end the attempt. -/
structure Unhindered (a : WorkspaceAttempt σ) (W : PyException → Prop) (events : List Event) :
    Prop where
  input : ∀ exc, ¬ a.Refuses exc
  system : ∀ exc, ¬ W exc
  recorder : a.HasRecorder
  result : ∀ raw, .body (.ok raw) ∈ events → ∃ result, a.task.validateResult raw = .ok result
  ref : ∀ ref, (.noop (.ok ref) ∈ events ∨ ∃ s, .publish s (.ok ref) ∈ events) →
    isBlank ref = false

/-- The contract on the result of one attempt: it is completed, or the result of the one
exception that ended it, which was raised by its last call or by work of its own. -/
structure ResultContract (a : WorkspaceAttempt σ) (spec : WorkspaceSpec)
    (W : PyException → Prop) (events : List Event) (r : RuntimeTaskResult) : Prop where
  result : CompletedAttempt a spec events r ∨ ∃ P failed exc, Traced a spec W P failed exc events ∧
    resultForException a.nestingLimit exc a.failureReasonMaxLength = .ok r ∧
    r.status ≠ .completed ∧
    ∀ e ∈ events, ∀ raised, e.raised a.attempt = some raised → raised = exc ∧ failed = some e
  /-- Where nothing fails, the attempt completes. -/
  completes : Unhindered a W events → (∀ e ∈ events, e.raised a.attempt = none) →
    CompletedAttempt a spec events r

/-! ## From the progress to the order -/

theorem EffectOrder.of_body {list : List Event} (order : BodyOrder list) (h : events = list) :
    EffectOrder attempt readOnly events :=
  h ▸ .unpublished order

theorem EffectOrder.of_calls {b : BodyRun} {changed : Bool} {calls : List Event}
    (writable : readOnly = false) (hc : b.changed = changed)
    (order : PublicationOrder attempt changed calls) (outcome : Except PyException Unit)
    (h : events = comparedEvents b ++ (calls ++ cleanupEvents calls outcome)) :
    EffectOrder attempt readOnly events := by
  subst h
  exact .published b outcome writable (hc ▸ order)

theorem Traced.effectOrder (h : Traced a spec W P failed exc events) :
    EffectOrder a.attempt spec.readOnly events := by
  obtain ⟨admissible, ends, outcome, rfl⟩ := h
  cases P with
  | begun => cases failed with
    | none => exact .unpublished .begun
    | some e => cases ends; exact .unpublished (.download _)
  | downloaded => cases failed with
    | none => exact .unpublished (.download _)
    | some e =>
      obtain ⟨-, rfl⟩ := ends
      exact .unpublished (.unopened exc)
  | opened initial => cases failed with
    | none => exact .of_body (.opened initial) (by simp [Progress.events, Progress.stagedWorkspace])
    | some e =>
      cases ends
      exact .of_body (.pre initial (.error exc))
        (by simp [Progress.events, Progress.stagedWorkspace])
  | admitted initial => cases failed with
    | none =>
      exact .of_body (.pre initial (.ok ())) (by simp [Progress.events, Progress.stagedWorkspace])
    | some e =>
      cases ends
      exact .of_body (.body initial (.error exc))
        (by simp [Progress.events, Progress.stagedWorkspace])
  | ran initial raw => cases failed with
    | none =>
      exact .of_body (.body initial (.ok raw)) (by simp [Progress.events, Progress.stagedWorkspace])
    | some e =>
      cases ends
      exact .of_body (.post initial raw exc)
        (by simp [Progress.events, Progress.stagedWorkspace])
  | checked initial raw => cases failed with
    | none => cases ends
    | some e =>
      obtain ⟨-, rfl⟩ := ends
      exact .of_body (.uncompared initial raw exc)
        (by simp [Progress.events, Progress.stagedWorkspace, bodyEvents])
  | compared b => cases failed with
    | none => cases ends
    | some e =>
      refine .of_calls (b := b) admissible rfl (.rejected ends) outcome ?_
      rcases ends with rfl | ⟨fresh, rfl, -⟩ <;> rfl
  | fenced b first =>
    obtain ⟨writable, current⟩ := admissible
    cases failed with
    | none =>
      obtain ⟨changed, -⟩ := ends
      refine .of_calls writable changed (.unmeasured current) outcome ?_
      simp [Progress.events, Progress.stagedWorkspace, cleanupEvents, Event.stagedWorkspace]
    | some e =>
      have hfailed : e = if b.changed then .stage (.error exc) else .noop (.error exc) := ends
      cases hc : b.changed with
      | false =>
        refine .of_calls writable hc (.noop (.error exc) current) outcome ?_
        simp [hfailed, hc, Progress.events, Progress.stagedWorkspace, cleanupEvents,
          Event.stagedWorkspace]
      | true =>
        refine .of_calls writable hc (.unstaged exc current) outcome ?_
        simp [hfailed, hc, Progress.events, Progress.stagedWorkspace, cleanupEvents,
          Event.stagedWorkspace]
  | staged b first s =>
    obtain ⟨writable, current, changed⟩ := admissible
    cases failed with
    | none => cases ends
    | some e =>
      refine .of_calls writable changed (.stale s current ends) outcome ?_
      rcases ends with rfl | ⟨fresh, rfl, -⟩ <;>
        simp [Progress.events, Progress.stagedWorkspace, cleanupEvents, Event.stagedWorkspace,
          List.filterMap_cons]
  | publishing b first second s =>
    obtain ⟨writable, current, changed, again⟩ := admissible
    cases failed with
    | none => cases ends
    | some e =>
      cases ends
      refine .of_calls writable changed (.publish s (.error exc) current again) outcome ?_
      simp [Progress.events, Progress.stagedWorkspace, cleanupEvents, Event.stagedWorkspace,
        List.filterMap_cons]
  | relocated b first ref =>
    obtain ⟨writable, current, unchanged⟩ := admissible
    cases failed with
    | some e => cases ends
    | none =>
      refine .of_calls writable unchanged (.noop (.ok ref) current) outcome ?_
      simp [Progress.events, Progress.stagedWorkspace, cleanupEvents, Event.stagedWorkspace]
  | published b first second s ref =>
    obtain ⟨writable, current, changed, again⟩ := admissible
    cases failed with
    | some e => cases ends
    | none =>
      refine .of_calls writable changed (.publish s (.ok ref) current again) outcome ?_
      simp [Progress.events, Progress.stagedWorkspace, cleanupEvents, Event.stagedWorkspace,
        List.filterMap_cons]

/-! ## The contract holds -/

/-- Nothing of a body belongs to a publication or its cleanup. -/
def Event.Quiet (e : Event) : Prop :=
  e.isPublication = false ∧ e.isMove = false ∧ e.isCleanup = false ∧
    (∀ s, e ≠ .stage (.ok s)) ∧ ∀ changed, e ≠ .compared changed

theorem openedEvents_quiet (initial : Option (List SnapshotEntry)) :
    ∀ e ∈ openedEvents initial, e.Quiet := by
  cases initial <;>
    simp [openedEvents, Event.Quiet, Event.isPublication, Event.isMove, Event.isCleanup]

theorem bodyEvents_quiet (initial : Option (List SnapshotEntry)) (raw : PyValue) :
    ∀ e ∈ bodyEvents initial raw, e.Quiet := by
  intro e he
  simp only [bodyEvents, List.mem_append, List.mem_singleton, or_assoc] at he
  obtain he | rfl | rfl | rfl := he
  · exact openedEvents_quiet initial e he
  all_goals simp [Event.Quiet, Event.isPublication, Event.isMove, Event.isCleanup]

theorem BodyOrder.quiet (h : BodyOrder events) : ∀ e ∈ events, e.Quiet := by
  have later : ∀ initial rest, (∀ e ∈ rest, Event.Quiet e) →
      ∀ e ∈ openedEvents initial ++ rest, e.Quiet := by
    intro initial rest quiet e he
    obtain he | he := List.mem_append.mp he
    · exact openedEvents_quiet initial e he
    · exact quiet e he
  cases h with
  | opened initial => exact openedEvents_quiet initial
  | readOnly raw => exact bodyEvents_quiet none raw
  | pre | body | post | uncompared =>
    refine later _ _ ?_
    simp [Event.Quiet, Event.isPublication, Event.isMove, Event.isCleanup]
  | begun => simp
  | download | unopened =>
    simp [Event.Quiet, Event.isPublication, Event.isMove, Event.isCleanup]

theorem mem_comparedEvents {b : BodyRun} {e : Event} (he : e ∈ comparedEvents b) :
    e.Quiet ∨ e = .compared b.changed := by
  simp only [comparedEvents, List.mem_append, List.mem_cons, List.not_mem_nil, or_false] at he
  obtain he | rfl | rfl := he
  · exact .inl (bodyEvents_quiet _ _ e he)
  · exact .inl (by simp [Event.Quiet, Event.isPublication, Event.isMove, Event.isCleanup])
  · exact .inr rfl

/-- Publication calls are the fence, `stage`, `publish` and `noop`. -/
theorem PublicationOrder.isPublication {changed : Bool} {calls : List Event}
    (h : PublicationOrder attempt changed calls) : ∀ e ∈ calls, e.isPublication = true := by
  cases h with
  | rejected rejected => rcases rejected with rfl | ⟨fresh, rfl, -⟩ <;> simp [Event.isPublication]
  | stale s current rejected =>
    rcases rejected with rfl | ⟨fresh, rfl, -⟩ <;> simp [Event.isPublication]
  | noop outcome current => simp [Event.isPublication]
  | unmeasured current => simp [Event.isPublication]
  | unstaged exc current => simp [Event.isPublication]
  | publish s outcome current again => simp [Event.isPublication]

theorem mem_cleanupEvents {calls : List Event} {outcome : Except PyException Unit} {e : Event}
    (h : e ∈ cleanupEvents calls outcome) : ∃ s, e = .cleanupStaging s outcome := by
  obtain ⟨s, -, rfl⟩ := List.mem_map.mp h
  exact ⟨s, rfl⟩

/-- A call that moves the target follows a fence that passed, and is the last call. -/
theorem PublicationOrder.fenced {changed : Bool} {calls : List Event} {e : Event}
    (h : PublicationOrder attempt changed calls) (he : e ∈ calls) (move : e.isMove = true) :
    ∃ before fresh, calls = before ++ [.loadCurrentAttempt (.ok fresh), e] ∧
      CurrentAttempt attempt fresh ∧ ∀ e ∈ before, e.isMove = false := by
  cases h with
  | rejected rejected =>
    rcases rejected with rfl | ⟨fresh, rfl, -⟩ <;> simp_all [Event.isMove]
  | stale s current rejected =>
    rcases rejected with rfl | ⟨fresh, rfl, -⟩ <;>
      simp only [List.mem_cons, List.not_mem_nil, or_false] at he <;>
      rcases he with rfl | rfl | rfl <;> cases move
  | noop outcome current =>
    simp only [List.mem_cons, List.not_mem_nil, or_false] at he
    obtain rfl | rfl := he
    · cases move
    · exact ⟨[], _, rfl, current, by simp⟩
  | unmeasured current => simp_all [Event.isMove]
  | unstaged exc current =>
    simp only [List.mem_cons, List.not_mem_nil, or_false] at he
    rcases he with rfl | rfl <;> cases move
  | @publish first second s outcome current again =>
    simp only [List.mem_cons, List.not_mem_nil, or_false] at he
    obtain rfl | rfl | rfl | rfl := he
    · cases move
    · cases move
    · cases move
    · exact ⟨[.loadCurrentAttempt (.ok first), .stage (.ok s)], second, rfl, again,
        by simp [Event.isMove]⟩

/-- At most one workspace is staged, and the cleanup is its own. -/
theorem PublicationOrder.cleanup {changed : Bool} {calls : List Event}
    (h : PublicationOrder attempt changed calls) (outcome : Except PyException Unit) :
    (∀ s, .stage (.ok s) ∈ calls → cleanupEvents calls outcome = [.cleanupStaging s outcome]) ∧
      ((∀ s, .stage (.ok s) ∉ calls) → cleanupEvents calls outcome = []) := by
  cases h with
  | rejected rejected =>
    rcases rejected with rfl | ⟨fresh, rfl, -⟩ <;>
      simp [cleanupEvents, Event.stagedWorkspace, List.filterMap_cons]
  | stale s current rejected =>
    rcases rejected with rfl | ⟨fresh, rfl, -⟩ <;>
      simp [cleanupEvents, Event.stagedWorkspace, List.filterMap_cons]
  | noop outcome current => simp [cleanupEvents, Event.stagedWorkspace, List.filterMap_cons]
  | unmeasured current => simp [cleanupEvents, Event.stagedWorkspace, List.filterMap_cons]
  | unstaged exc current => simp [cleanupEvents, Event.stagedWorkspace, List.filterMap_cons]
  | publish s outcome current again =>
    simp [cleanupEvents, Event.stagedWorkspace, List.filterMap_cons]

theorem EffectOrder.download_first {e : Event} (h : EffectOrder attempt readOnly events)
    (he : events.head? = some e) : ∃ outcome, e = .download outcome := by
  cases h with
  | unpublished body => cases body <;> cases he <;> exact ⟨_, rfl⟩
  | published b outcome writable order =>
    cases he
    exact ⟨_, rfl⟩

/-- The calls around a call of the body. -/
theorem EffectOrder.body_admitted {outcome : Except PyException PyValue}
    (h : EffectOrder attempt readOnly events) (he : .body outcome ∈ events) :
    ∃ initial after, events =
      openedEvents initial ++ [.guardrails .pre (.ok ()), .body outcome] ++ after := by
  have absent : ∀ initial, Event.body outcome ∉ openedEvents initial := by
    intro initial
    cases initial <;> simp [openedEvents]
  cases h with
  | unpublished body =>
    cases body with
    | begun | download | unopened => simp at he
    | opened initial => exact absurd he (absent initial)
    | pre initial => simp [absent] at he
    | body initial o =>
      obtain rfl : outcome = o := by simpa [absent] using he
      exact ⟨initial, [], by simp⟩
    | post initial raw exc =>
      obtain rfl : outcome = .ok raw := by simpa [absent] using he
      exact ⟨initial, [.guardrails .post (.error exc)], by simp⟩
    | readOnly raw =>
      obtain rfl : outcome = .ok raw := by simpa [bodyEvents, absent] using he
      exact ⟨none, [.guardrails .post (.ok ())], by simp [bodyEvents]⟩
    | uncompared initial raw exc =>
      obtain rfl : outcome = .ok raw := by simpa [absent] using he
      exact ⟨initial, [.guardrails .post (.ok ()), .snapshot (.error exc)], by simp⟩
  | @published b calls cleaned writable order =>
    have passed : outcome = .ok b.raw := by
      obtain he | he := List.mem_append.mp he
      · simpa [comparedEvents, bodyEvents, absent] using he
      · obtain he | he := List.mem_append.mp he
        · exact absurd (order.isPublication _ he) (by simp [Event.isPublication])
        · obtain ⟨s, hs⟩ := mem_cleanupEvents he
          cases hs
    subst passed
    refine ⟨some b.initial, [.guardrails .post (.ok ()), .snapshot (.ok b.final),
      .compared b.changed] ++ (calls ++ cleanupEvents calls cleaned), ?_⟩
    simp [comparedEvents, bodyEvents]

theorem bodyEvents_length (initial : List SnapshotEntry) (raw : PyValue) :
    (bodyEvents (some initial) raw).length = 5 := rfl

/-- What follows a body that passed its checks. -/
theorem EffectOrder.compared {initial : List SnapshotEntry} {raw : PyValue}
    (h : EffectOrder attempt readOnly events) (passed : bodyEvents (some initial) raw <+: events) :
    (∃ exc, events = bodyEvents (some initial) raw ++ [.snapshot (.error exc)]) ∨
      ∃ final, comparedEvents ⟨initial, raw, final⟩ <+: events := by
  cases h with
  | unpublished body =>
    have long := passed.length_le
    rw [bodyEvents_length] at long
    cases body with
    | begun | download | unopened => simp at long
    | opened initial' => cases initial' <;> simp [openedEvents] at long
    | pre initial' => cases initial' <;> simp [openedEvents] at long
    | body initial' => cases initial' <;> simp [openedEvents] at long
    | readOnly raw' => simp [bodyEvents, openedEvents] at long
    | post initial' raw' exc =>
      cases initial' <;> simp [bodyEvents, openedEvents] at passed
    | uncompared initial' raw' exc =>
      cases initial' with
      | none => simp [bodyEvents, openedEvents] at passed
      | some entries =>
        simp only [bodyEvents, openedEvents, Option.map_some, Option.toList_some, List.cons_append,
          List.nil_append, List.cons_prefix_cons, Event.snapshot.injEq, Except.ok.injEq,
          Event.body.injEq, true_and] at passed
        obtain ⟨rfl, rfl, -⟩ := passed
        exact .inl ⟨exc, rfl⟩
  | published b outcome writable order =>
    simp only [comparedEvents, bodyEvents, openedEvents, Option.map_some, Option.toList_some,
      List.cons_append, List.nil_append, List.cons_prefix_cons, Event.snapshot.injEq,
      Except.ok.injEq, Event.body.injEq, true_and] at passed
    obtain ⟨rfl, rfl, -⟩ := passed
    exact .inr ⟨b.final, List.prefix_append _ _⟩

/-- The events of a publication, by the part of the attempt they belong to. -/
theorem mem_published {b : BodyRun} {calls : List Event} {outcome : Except PyException Unit}
    {e : Event} (he : e ∈ comparedEvents b ++ (calls ++ cleanupEvents calls outcome)) :
    e.Quiet ∨ e = .compared b.changed ∨ e ∈ calls ∨ ∃ s, e = .cleanupStaging s outcome := by
  obtain he | he := List.mem_append.mp he
  · exact (mem_comparedEvents he).imp_right .inl
  obtain he | he := List.mem_append.mp he
  · exact .inr (.inr (.inl he))
  · exact .inr (.inr (.inr (mem_cleanupEvents he)))

/-- The events of a publication that passes the test of one of its calls. -/
theorem filter_published {b : BodyRun} {changed : Bool} {calls : List Event}
    {outcome : Except PyException Unit} (h : PublicationOrder attempt changed calls) :
    (comparedEvents b ++ (calls ++ cleanupEvents calls outcome)).filter (·.isPublication) =
      calls := by
  have all : calls.filter (·.isPublication) = calls := List.filter_eq_self.mpr h.isPublication
  have body : (comparedEvents b).filter (·.isPublication) = [] := by
    refine List.filter_eq_nil_iff.mpr fun e he => ?_
    obtain quiet | rfl := mem_comparedEvents he
    · simp [quiet.1]
    · simp [Event.isPublication]
  have none : (cleanupEvents calls outcome).filter (·.isPublication) = [] := by
    refine List.filter_eq_nil_iff.mpr fun e he => ?_
    obtain ⟨s, rfl⟩ := mem_cleanupEvents he
    simp [Event.isPublication]
  rw [List.filter_append, List.filter_append, all, body, none]
  simp

theorem EffectOrder.contract (h : EffectOrder attempt spec.readOnly events) :
    EffectContract attempt spec events := by
  have first := fun e (he : events.head? = some e) => h.download_first he
  have admitted := fun outcome (he : .body outcome ∈ events) => h.body_admitted he
  have compared := fun initial raw (passed : bodyEvents (some initial) raw <+: events) =>
    h.compared passed
  cases h with
  | unpublished body =>
    have quiet := body.quiet
    exact {
      download_first := first
      body_admitted := admitted
      compared := compared
      flag := fun changed he => absurd rfl ((quiet _ he).2.2.2.2 changed)
      read_only := fun _ e he => (quiet e he).1
      checked := fun e he call => absurd call (by simp [(quiet e he).1])
      publication := fun changed he => absurd rfl ((quiet _ he).2.2.2.2 changed)
      fenced := fun e he move => absurd move (by simp [(quiet e he).2.1])
      cleaned := fun s he => absurd rfl ((quiet _ he).2.2.2.1 s)
      not_cleaned := fun _ e he => (quiet e he).2.2.1 }
  | @published b calls outcome writable order =>
    have called : ∀ s, .stage (.ok s) ∈ comparedEvents b ++
        (calls ++ cleanupEvents calls outcome) → .stage (.ok s) ∈ calls := by
      intro s he
      obtain quiet | he | he | ⟨s', he⟩ := mem_published he
      · exact absurd rfl (quiet.2.2.2.1 s)
      · cases he
      · exact he
      · cases he
    have uncleaned : ∀ e ∈ comparedEvents b ++ calls, e.isCleanup = false := by
      intro e he
      obtain he | he := List.mem_append.mp he
      · obtain quiet | rfl := mem_comparedEvents he
        · exact quiet.2.2.1
        · rfl
      · have := order.isPublication e he
        cases e <;> first | rfl | cases this
    have flag : ∀ changed, .compared changed ∈ comparedEvents b ++
        (calls ++ cleanupEvents calls outcome) → b.changed = changed := by
      intro changed he
      obtain quiet | he | he | ⟨s, he⟩ := mem_published he
      · exact absurd rfl (quiet.2.2.2.2 changed)
      · cases he
        rfl
      · cases order.isPublication _ he
      · cases he
    exact {
      download_first := first
      body_admitted := admitted
      compared := compared
      flag := fun changed he => ⟨b, flag changed he, List.prefix_append _ _⟩
      read_only := fun readOnly => absurd readOnly (by simp [writable])
      checked := fun _ _ _ => ⟨b, List.prefix_append _ _⟩
      publication := fun changed he => by
        rw [filter_published order]
        exact flag changed he ▸ order
      fenced := by
        intro e he move
        obtain quiet | rfl | he | ⟨s, rfl⟩ := mem_published he
        · exact absurd move (by simp [quiet.2.1])
        · cases move
        · obtain ⟨before, fresh, hcalls, current, still⟩ := order.fenced he move
          refine ⟨comparedEvents b ++ before, fresh, cleanupEvents calls outcome,
            by rw [hcalls]; simp, current, ?_⟩
          intro e' he'
          simp only [List.mem_append] at he'
          obtain (he' | he') | he' := he'
          · obtain quiet | rfl := mem_comparedEvents he'
            · exact quiet.2.1
            · rfl
          · exact still e' he'
          · obtain ⟨s, rfl⟩ := mem_cleanupEvents he'
            rfl
        · cases move
      cleaned := by
        intro s he
        refine ⟨comparedEvents b ++ calls, outcome, ?_, uncleaned⟩
        rw [(order.cleanup outcome).1 s (called s he)]
        simp
      not_cleaned := by
        intro unstaged e he
        rw [(order.cleanup outcome).2 fun s hs => unstaged s (by simp [hs])] at he
        exact uncleaned e (by simpa using he) }

theorem CompletedEvents.effectOrder {i : WorkspaceInput} {raw : PyValue} {ref : String}
    (h : CompletedEvents attempt readOnly i raw ref events) :
    EffectOrder attempt readOnly events := by
  cases h with
  | readOnly raw => exact .unpublished (.readOnly raw)
  | @unchanged b first _ writable unchanged current =>
    exact .of_calls writable unchanged (.noop (.ok ref) current) (.ok ()) rfl
  | @changed b first second s _ outcome writable changed current again =>
    refine .of_calls writable changed (.publish s (.ok ref) current again) outcome ?_
    simp [cleanupEvents, Event.stagedWorkspace, List.filterMap_cons]

/-! ## The result -/

theorem openedEvents_raised (initial : Option (List SnapshotEntry)) :
    ∀ e ∈ openedEvents initial, e.raised attempt = none := by
  cases initial <;> simp [openedEvents, Event.raised]

theorem Progress.events_raised (admissible : P.Admissible attempt readOnly) :
    ∀ e ∈ P.events, e.raised attempt = none := by
  intro e he
  cases P <;>
    simp only [Progress.events, comparedEvents, bodyEvents, List.mem_append, List.mem_cons,
      List.not_mem_nil, or_false] at he
  all_goals
    simp only [Progress.Admissible] at admissible
    grind [Event.raised, openedEvents_raised]

theorem Progress.Failure.raised {e : Event} (h : P.Failure attempt readOnly e exc) :
    e.raised attempt = some exc := by
  have fence : RejectedFence attempt e exc → e.raised attempt = some exc := by
    rintro (rfl | ⟨fresh, rfl, stale, rfl⟩)
    · rfl
    · simp [Event.raised, stale]
  cases P with
  | compared b | staged b first s => exact fence h
  | fenced b first =>
    have hfailed : e = if b.changed then .stage (.error exc) else .noop (.error exc) := h
    rw [hfailed]
    split <;> rfl
  | downloaded | checked initial raw =>
    obtain ⟨-, rfl⟩ := h
    rfl
  | relocated b first ref | published b first second s ref => cases h
  | _ => cases h; rfl

theorem Traced.raised (h : Traced a spec W P failed exc events) :
    ∀ e ∈ events, ∀ raised, e.raised a.attempt = some raised → raised = exc ∧ failed = some e := by
  obtain ⟨admissible, ends, outcome, rfl⟩ := h
  intro e he raised hraised
  simp only [List.append_assoc, List.mem_append, Option.mem_toList] at he
  obtain he | he | he := he
  · rw [Progress.events_raised admissible e he] at hraised
    cases hraised
  · subst he
    rw [Progress.Failure.raised ends] at hraised
    exact ⟨(Option.some.inj hraised).symm, rfl⟩
  · obtain ⟨s, -, rfl⟩ := Option.map_eq_some_iff.mp he
    cases hraised

/-- An attempt that stopped without a failed call stopped for a reason of its own. -/
theorem Traced.hindered (h : Traced a spec W P none exc events) (free : Unhindered a W events) :
    False := by
  obtain ⟨admissible, ends, outcome, rfl⟩ := h
  have here : ∀ e ∈ P.events, e ∈ P.events ++ (none : Option Event).toList ++
      (P.stagedWorkspace.map (.cleanupStaging · outcome)).toList := by
    intro e he
    simp [he]
  have blank : ∀ ref, a.RefusesRef ref exc → isBlank ref ≠ false := by
    rintro ref ⟨i, -, refused⟩ nonblank
    simp [i.publishedOutput_eq, nonblank] at refused
  cases P with
  | begun => exact ends.elim (free.input exc) (free.system exc)
  | downloaded => exact free.system exc ends
  | opened initial => exact free.input exc ends
  | admitted initial => exact ends.1 free.recorder
  | ran initial raw =>
    obtain ⟨result, hresult⟩ := free.result raw (here _ (by simp [Progress.events]))
    exact Except.noConfusion rfl rfl (heq_of_eq (hresult.symm.trans ends))
  | fenced b first => exact free.system exc ends.2
  | relocated b first ref =>
    exact blank ref ends (free.ref ref (.inl (here _ (by simp [Progress.events]))))
  | published b first second s ref =>
    exact blank ref ends (free.ref ref (.inr ⟨s, here _ (by simp [Progress.events])⟩))
  | checked initial raw | compared b | staged b first s | publishing b first second s =>
    exact ends

theorem comparedEvents_inj {b b' : BodyRun} {after : List Event}
    (h : comparedEvents b <+: comparedEvents b' ++ after) : b = b' := by
  obtain ⟨initial, raw, final⟩ := b
  obtain ⟨initial', raw', final'⟩ := b'
  simp only [comparedEvents, bodyEvents, openedEvents, Option.map_some, Option.toList_some,
    List.cons_append, List.nil_append, List.cons_prefix_cons, Event.snapshot.injEq,
    Except.ok.injEq, Event.body.injEq, true_and] at h
  obtain ⟨rfl, rfl, rfl, -⟩ := h
  rfl

theorem Progress.events_of_bodyRun {b : BodyRun} (h : P.bodyRun = some b) :
    ∃ after, P.events = comparedEvents b ++ after := by
  cases P with
  | begun | downloaded | opened | admitted | ran | checked => cases h
  | compared => cases h; exact ⟨[], (List.append_nil _).symm⟩
  | fenced => cases h; exact ⟨_, rfl⟩
  | staged | relocated => cases h; exact ⟨_, List.append_assoc ..⟩
  | publishing => cases h; exact ⟨_, by simp only [Progress.events, List.append_assoc]; rfl⟩
  | published => cases h; exact ⟨_, by simp only [Progress.events, List.append_assoc]; rfl⟩

theorem Progress.length_events (h : P.bodyRun = none) : P.events.length ≤ 5 := by
  have opened : ∀ initial, (openedEvents initial).length ≤ 2 := by
    intro initial
    cases initial <;> simp [openedEvents]
  cases P with
  | begun | downloaded => simp [Progress.events]
  | opened initial | admitted initial | ran initial raw | checked initial raw =>
    have := opened initial
    simp only [Progress.events, bodyEvents, List.length_append, List.length_cons, List.length_nil]
    omega
  | compared | fenced | staged | publishing | relocated | published => cases h

/-- Where the events of a comparison stand at the front, the attempt has made it. -/
theorem Progress.bodyRun_of_events {b : BodyRun} {rest : List Event}
    (h : comparedEvents b <+: P.events ++ rest) (short : P.bodyRun = none → rest.length ≤ 1) :
    P.bodyRun = some b := by
  cases hb : P.bodyRun with
  | none =>
    have long := h.length_le
    have seven : (comparedEvents b).length = 7 := rfl
    have early := Progress.length_events hb
    have last := short hb
    rw [List.length_append] at long
    omega
  | some b' =>
    obtain ⟨after, hevents⟩ := Progress.events_of_bodyRun hb
    rw [hevents, List.append_assoc] at h
    rw [comparedEvents_inj h]

/-- The compared snapshots were taken in the worlds that the frame remembers. -/
theorem Frame.Taken.snapshotContract {b : BodyRun} (h : F.Taken host [b.initial, b.final])
    (only : ∀ b', comparedEvents b' <+: F.events → b' = b) : SnapshotContract host F := by
  intro b' hb'
  obtain rfl := only b' hb'
  unfold Frame.Taken at h
  obtain ⟨u, rest, ⟨dir, hdir, first⟩, later, hworlds⟩ := List.forall₂_cons_right_iff.mp h
  obtain ⟨v, rest', ⟨dir', hdir', second⟩, last, rfl⟩ := List.forall₂_cons_right_iff.mp later
  obtain rfl := List.forall₂_nil_right_iff.mp last
  obtain rfl : dir = dir' := Option.some.inj (hdir.symm.trans hdir')
  refine ⟨dir, u, v, hdir, hworlds, fun V W hV hW => ?_⟩
  rw [hV.snapshotWorkspace] at first
  rw [hW.snapshotWorkspace] at second
  exact ⟨(Outcome.ok.inj first).symm, (Outcome.ok.inj second).symm⟩

theorem Cleaned.taken {snapshots : List (List SnapshotEntry)} (h : Cleaned F G)
    (taken : F.Taken host snapshots) : G.Taken host snapshots := by
  unfold Frame.Taken at taken ⊢
  rw [h.worlds]
  exact taken.imp fun _ _ ⟨dir, hdir, found⟩ => ⟨dir, h.dir.trans hdir, found⟩

theorem Cleaned.snapshotContract (h : Cleaned F G) (before : F.events = P.events ++ failed.toList)
    (staged : F.staged = P.stagedWorkspace) (taken : P.bodyRun.isSome → F.Taken host P.snapshots) :
    SnapshotContract host G := by
  obtain ⟨outcome, events⟩ := h.events
  have made : ∀ b, comparedEvents b <+: G.events → P.bodyRun = some b := by
    intro b hb
    rw [events, before, List.append_assoc] at hb
    refine Progress.bodyRun_of_events hb fun early => ?_
    have unstaged : F.staged = none := by
      rw [staged]
      cases P <;> first | rfl | cases early
    rw [unstaged]
    cases failed <;> simp
  intro b hb
  have hP := made b hb
  have snapshots : P.snapshots = [b.initial, b.final] := by
    cases P <;> first | cases hP; rfl | cases hP
  have after := h.taken (taken (by simp [hP]))
  rw [snapshots] at after
  refine after.snapshotContract (fun b' hb' => ?_) b hb
  exact Option.some.inj ((made b' hb').symm.trans hP)

/-- The events of an attempt that has completed. -/
theorem Progress.Completed.trace {i : WorkspaceInput} {raw : PyValue} {ref : String}
    (h : P.Completed i raw ref) (admissible : P.Admissible attempt readOnly)
    (outcome : Except PyException Unit) : CompletedEvents attempt readOnly i raw ref
      (P.events ++ (P.stagedWorkspace.map (.cleanupStaging · outcome)).toList) := by
  cases P with
  | checked initial raw' =>
    obtain ⟨rfl, rfl, rfl⟩ := h
    simpa [Progress.events, Progress.stagedWorkspace] using .readOnly raw admissible.symm
  | relocated b first ref' =>
    obtain ⟨rfl, rfl⟩ := h
    obtain ⟨writable, current, unchanged⟩ := admissible
    simpa [Progress.events, Progress.stagedWorkspace] using .unchanged writable unchanged current
  | published b first second s ref' =>
    obtain ⟨rfl, rfl⟩ := h
    obtain ⟨writable, current, changed, again⟩ := admissible
    simpa [Progress.events, Progress.stagedWorkspace] using
      .changed outcome writable changed current again
  | _ => exact h.elim

/-- What an attempt reports, and what it has called, meet the contracts. -/
theorem Reported.contracts (h : Reported host a spec W r F) (cleaned : Cleaned F G) :
    EffectContract a.attempt spec G.events ∧ ResultContract a spec W G.events r ∧
      SnapshotContract host G := by
  rcases h with ⟨p, rfl, hinput, P, ref, output, raw, result, at', completed, houtput, hresult,
    rfl⟩ | ⟨exc, ⟨wf, P, failed, admissible, ends, before, staged, taken⟩, hr⟩
  · obtain ⟨outcome, events⟩ := cleaned.events
    have trace : CompletedEvents a.attempt p.spec.readOnly p.input raw ref G.events := by
      rw [events, at'.events, at'.staged]
      exact Progress.Completed.trace completed at'.admissible outcome
    have before : F.events = P.events ++ (none : Option Event).toList := by
      simp [at'.events]
    have done : CompletedAttempt a p.spec G.events (completedResult
        [(.str "workspace", output.modelDump), (.str "result", result)]) :=
      ⟨p.input, raw, result, ref, output, hinput, hresult, trace, houtput, rfl⟩
    exact ⟨trace.effectOrder.contract, ⟨.inl done, fun _ _ => done⟩,
      cleaned.snapshotContract before at'.staged fun _ => at'.taken⟩
  · have traced : Traced a spec W P failed exc G.events := by
      obtain ⟨outcome, events⟩ := cleaned.events
      exact ⟨admissible, ends, outcome, by rw [events, before, staged]⟩
    refine ⟨traced.effectOrder.contract, ⟨.inr ⟨P, failed, exc, traced, hr,
      resultForException_not_completed hr, traced.raised⟩, fun free calm => ?_⟩,
      cleaned.snapshotContract before staged taken⟩
    cases failed with
    | none => exact (traced.hindered free).elim
    | some e =>
      obtain ⟨outcome, events⟩ := traced.events
      have he : e ∈ G.events := by simp [events]
      cases (Progress.Failure.raised traced.ends).symm.trans (calm e he)

/-- Every attempt returns, and its calls, its snapshots and its result meet the contracts. -/
theorem effects_ordered (hspec : a.task.workspace = some spec) (hh : host.Raises W)
    (ha : a.Behaved) (supplied : a.callbacks.completeNoopWorkspace.isSome = true) (s : σ) :
    ∃ r F, runInFrame host a spec s = (.ok r, F) ∧
      runWorkspaceTaskAttempt host a s = (.ok r, F.world) ∧
      EffectContract a.attempt spec F.events ∧ ResultContract a spec W F.events r ∧
      SnapshotContract host F := by
  obtain ⟨r, F, hrun, G, reported, cleaned⟩ :=
    (guardedAttempt_ends (openAttempt host a s).1 (openAttempt host a s).2.1 hh ha supplied
      (⟨rfl, trivial, rfl, rfl, .nil⟩ :
        At host a spec none .begun (.enter (openAttempt host a s).2.2))).returns
  have run : runInFrame host a spec s = (.ok r, F) := hrun
  exact ⟨r, F, run, by simp only [runWorkspaceTaskAttempt, hspec, run],
    reported.contracts cleaned⟩

/-! ## A calm attempt -/

/-- An attempt whose callbacks all return. -/
def calmAttempt : WorkspaceAttempt LocalTree where
  task := leavingTree fun _ => plainTree
  inputData := inputFrom "A"
  attempt := ConductorRuntime.someAttempt
  workspaceRoot := []
  callbacks := {
    downloadWorkspace _ _ _ := pure ()
    loadCurrentAttempt attempt := pure attempt
    stageWorkspace _ i _ task := pure ⟨i.repository, stagingBranchName task, "C"⟩
    publishWorkspace staged _ _ _ := pure staged.commit
    cleanupStaging _ := pure ()
    completeNoopWorkspace := some fun i _ _ => pure i.ref }
  ownerWorkerId := none
  executionId := none
  metrics := none
  failureReasonMaxLength := defaultMaxLength
  nestingLimit := 900

theorem calmAttempt_behaved : calmAttempt.Behaved where
  validateParams _ _ h := nomatch h
  validateResult _ _ h := nomatch h
  fn _ _ _ := fun _ _ => trivial
  downloadWorkspace _ _ _ := .pure
  loadCurrentAttempt _ := .pure
  stageWorkspace _ _ _ _ := .pure
  publishWorkspace _ _ _ _ := .pure
  cleanupStaging _ := .pure
  completeNoopWorkspace _ h _ _ _ := Option.some.inj h ▸ .pure

theorem effects_ordered_calm :
    ∃ r F, runInFrame treeHost calmAttempt ⟨rootPrefix, [], [], false⟩ emptyTree = (.ok r, F) ∧
      runWorkspaceTaskAttempt treeHost calmAttempt emptyTree = (.ok r, F.world) ∧
      EffectContract calmAttempt.attempt ⟨rootPrefix, [], [], false⟩ F.events ∧
      ResultContract calmAttempt ⟨rootPrefix, [], [], false⟩ (fun _ => False) F.events r ∧
      SnapshotContract treeHost F :=
  effects_ordered rfl ⟨treeHost_keeps, fun _ h => h.elim⟩ calmAttempt_behaved rfl emptyTree

end Perago
