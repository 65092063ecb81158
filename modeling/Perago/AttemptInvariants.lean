import Perago.Execution

/-!
# Invariants of the world during an attempt

What each phase of an attempt keeps, given what the callbacks, the body, the
recorder and the operating system keep.
-/

namespace Perago

open Effect

variable {σ α : Type} {host : Host σ} {a : WorkspaceAttempt σ} {p : Prepared}
variable {I C : σ → Prop} {W : PyException → Prop}
variable {S : Option StagedWorkspace → List Bool → Prop}

/-- What a recorded comparison of the snapshots said. -/
def Event.comparison : Event → Option Bool
  | .compared changed => some changed
  | _ => none

/-- What the comparisons of an attempt have said so far. -/
def Frame.comparisons (F : Frame σ) : List Bool := F.events.filterMap Event.comparison

/-- How an attempt that completes so has compared its snapshots. -/
def Completion.comparisons : Completion → List Bool
  | .readOnly => []
  | .unchanged => [false]
  | .changed => [true]

/-- An invariant of the world, and one of the local `staged` and the comparisons. -/
def Frame.Inv (I : σ → Prop) (S : Option StagedWorkspace → List Bool → Prop) (F : Frame σ) :
    Prop :=
  I F.world ∧ S F.staged F.comparisons

/-- The workspace reference in the input of an attempt. -/
def WorkspaceAttempt.HasInput (a : WorkspaceAttempt σ) (i : WorkspaceInput) : Prop :=
  ∃ workspace params, wrappedInput a.inputData = .ok (workspace, params) ∧
    WorkspaceRef.validate workspace = .ok i

/-- A recorder is there for a task that asks for one. -/
def WorkspaceAttempt.HasRecorder (a : WorkspaceAttempt σ) : Prop :=
  a.task.metrics.isSome → a.metrics.isSome

/-- What the parts of an attempt that only read LakeFS keep. -/
structure WorkspaceAttempt.Keeps (a : WorkspaceAttempt σ) (I C : σ → Prop) : Prop where
  fn : ∀ dir params metrics, Effect.Keeps I (fun _ => True) C (a.task.fn dir params metrics)
  downloadWorkspace : ∀ i spec dir,
    Effect.Keeps I (fun _ => True) C (a.callbacks.downloadWorkspace i spec dir)
  loadCurrentAttempt : ∀ attempt,
    Effect.Keeps I (fun _ => True) C (a.callbacks.loadCurrentAttempt attempt)
  runtimeTimerEnter : ∀ metrics, a.metrics = some metrics →
    ∀ metric s, I s → I (metrics.runtimeTimerEnter metric s)
  runtimeTimerExit : ∀ metrics, a.metrics = some metrics →
    ∀ metric s, I s → I (metrics.runtimeTimerExit metric s)
  runtimeHistogram : ∀ metrics, a.metrics = some metrics →
    ∀ metric n s, I s → I (metrics.runtimeHistogram metric n s)

theorem lift_inv_ends {f : Proc PyException σ α} {Q : α → σ → Prop} {E : PyException → σ → Prop}
    {F : Frame σ} (hf : Ends Q E C (f F.world)) (hF : S F.staged F.comparisons) :
    Ends (fun b => Frame.Inv (Q b) S) (fun e => Frame.Inv (E e) S) (Frame.Inv C S)
      (Frame.lift f F) :=
  .zoom (hf.mono (fun _ _ h => ⟨h, hF⟩) (fun _ _ h => ⟨h, hF⟩) fun _ h => ⟨h, hF⟩)

theorem Frame.Inv.noted {F : Frame σ} {e : Event} (h : Frame.Inv I S F)
    (call : e.comparison = none) : Frame.Inv I S { F with events := F.events ++ [e] } := by
  refine ⟨h.1, ?_⟩
  have same : ({ F with events := F.events ++ [e] } : Frame σ).comparisons = F.comparisons := by
    simp [Frame.comparisons, call]
  rw [same]
  exact h.2

/-- A recorded call ends as the call does. -/
theorem call_inv_ends {record : Except PyException α → Event} {f : Proc PyException σ α}
    {Q : α → σ → Prop} {E : PyException → σ → Prop} {F : Frame σ}
    (call : ∀ x, (record x).comparison = none) (hf : Ends Q E C (f F.world))
    (hF : S F.staged F.comparisons) :
    Ends (fun b => Frame.Inv (Q b) S) (fun e => Frame.Inv (E e) S) (Frame.Inv C S)
      (Frame.call record f F) := by
  refine .bind (Q := fun b => Frame.Inv (Q b) S)
    (.tryExcept (lift_inv_ends hf hF) fun exc G hG => ?_) fun b G hG => ?_
  · exact hG.noted (call _)
  · exact hG.noted (call _)

theorem lift_keeps {f : Proc PyException σ α} (hf : Keeps I W C f) :
    Keeps (Frame.Inv I S) W (Frame.Inv C S) (Frame.lift f) :=
  fun _ hF => (lift_inv_ends (hf _ hF.1) hF.2).mono (fun _ _ h => h)
    (fun _ _ h => ⟨h.1.1, h.1.2, h.2⟩) fun _ h => h

theorem call_keeps {record : Except PyException α → Event} {f : Proc PyException σ α}
    (call : ∀ x, (record x).comparison = none) (hf : Keeps I W C f) :
    Keeps (Frame.Inv I S) W (Frame.Inv C S) (Frame.call record f) :=
  fun _ hF => (call_inv_ends call (hf _ hF.1) hF.2).mono (fun _ _ h => h)
    (fun _ _ h => ⟨h.1.1, h.1.2, h.2⟩) fun _ h => h

theorem workspaceIoMetrics_some {metrics : MetricRecorder σ}
    (h : workspaceIoMetrics a = some metrics) : a.metrics = some metrics := by
  unfold workspaceIoMetrics at h
  split at h
  · exact h
  · cases h

/-- A timer around a call, for conditions that the recorder keeps. -/
theorem withRuntimeTimer_ends {metrics : MetricRecorder σ} {operation : String}
    {f : Proc PyException (Frame σ) α} {P : Frame σ → Prop} {Q : α → Frame σ → Prop}
    {E : PyException → Frame σ → Prop} {D : Frame σ → Prop} {F : Frame σ} (hF : P F)
    (hf : ∀ G, P G → Ends Q E D (f G))
    (enter : ∀ G metric, P G → P { G with world := metrics.runtimeTimerEnter metric G.world })
    (exitOk : ∀ b G metric, Q b G →
      Q b { G with world := metrics.runtimeTimerExit metric G.world })
    (exitError : ∀ e G metric, E e G →
      E e { G with world := metrics.runtimeTimerExit metric G.world }) :
    Ends Q E D (withRuntimeTimer a metrics operation f F) := by
  refine .bind (Q := fun _ => P) (enter F _ hF) fun _ G hG => ?_
  refine .tryFinally (hf G hG) (fun b H hH => ?_) fun e H hH => ?_
  · exact exitOk b H _ hH
  · exact exitError e H _ hH

theorem withRuntimeTimer_keeps (ha : a.Keeps I C) {metrics : MetricRecorder σ}
    (hm : a.metrics = some metrics) {operation : String} {f : Proc PyException (Frame σ) α}
    (hf : Keeps (Frame.Inv I S) W (Frame.Inv C S) f) :
    Keeps (Frame.Inv I S) W (Frame.Inv C S)
      (withRuntimeTimer a metrics operation f) :=
  fun _ hF => withRuntimeTimer_ends hF hf
    (fun _ metric h => ⟨ha.runtimeTimerEnter metrics hm metric _ h.1, h.2⟩)
    (fun _ _ metric h => ⟨ha.runtimeTimerExit metrics hm metric _ h.1, h.2⟩)
    fun _ _ metric h => ⟨h.1, ha.runtimeTimerExit metrics hm metric _ h.2.1, h.2.2⟩

theorem recordWorkspaceIoBytes_keeps (ha : a.Keeps I C) {metrics : MetricRecorder σ}
    (hm : a.metrics = some metrics) {operation : String} {bytes : Nat} :
    Keeps (Frame.Inv I S) W (Frame.Inv C S)
      (recordWorkspaceIoBytes a metrics operation bytes) :=
  fun _ hF => ⟨ha.runtimeHistogram metrics hm _ bytes _ hF.1, hF.2⟩

/-- An attempt begins with the workspace that its input names. -/
theorem beginAttempt_inv_ends (hh : host.Keeps I (fun _ => True) C) {spec : WorkspaceSpec}
    {execution : TaskExecutionContext} {owner : WorkspaceOwner} {F : Frame σ}
    (hF : Frame.Inv I S F) :
    Ends (fun p G => (p.spec = spec ∧ a.HasInput p.input) ∧ Frame.Inv I S G)
      (fun _ => Frame.Inv I S) (Frame.Inv C S) (beginAttempt host a spec execution owner F) := by
  refine .bind (Q := fun input G => wrappedInput a.inputData = .ok input ∧ Frame.Inv I S G)
    (.ofExcept (fun _ h => ⟨h, hF⟩) fun _ _ => hF) fun input G hG => ?_
  obtain ⟨hinput, hG⟩ := hG
  refine .bind (Q := fun i G => WorkspaceRef.validate input.1 = .ok i ∧ Frame.Inv I S G)
    (.ofExcept (fun _ h => ⟨h, hG⟩) fun _ _ => hG) fun i G hG => ?_
  obtain ⟨hi, hG⟩ := hG
  refine .bind ((lift_keeps (prepareAttemptWorkspace_keeps hh _ _ _)).ends hG) fun dir G hG => ?_
  exact ⟨⟨rfl, input.1, input.2, hinput, hi⟩, hG⟩

theorem downloadInput_keeps (hh : host.Keeps I (fun _ => True) C) (ha : a.Keeps I C) :
    Keeps (Frame.Inv I S) (fun _ => True) (Frame.Inv C S) (downloadInput host a p) := by
  have called : Keeps (Frame.Inv I S) (fun _ => True) (Frame.Inv C S)
      (callDownload a p) := call_keeps (fun _ => rfl) (ha.downloadWorkspace _ _ _)
  unfold downloadInput
  cases hm : workspaceIoMetrics a with
  | none => exact called
  | some metrics =>
    have hm := workspaceIoMetrics_some hm
    refine (withRuntimeTimer_keeps ha hm called).bind fun _ => ?_
    refine (lift_keeps (workspaceFileBytes_keeps hh _)).bind fun bytes => ?_
    exact recordWorkspaceIoBytes_keeps ha hm

theorem invokeFn_keeps (ha : a.Keeps I C) (dir : Path) (params : PyValue) :
    Keeps (Frame.Inv I S) (fun _ => True) (Frame.Inv C S) (invokeFn a dir params) := by
  unfold invokeFn
  cases a.task.metrics with
  | none => exact call_keeps (fun _ => rfl) (ha.fn dir params none)
  | some _ => cases a.metrics with
    | none => exact .raise trivial
    | some metrics => exact call_keeps (fun _ => rfl) (ha.fn dir params (some metrics))

theorem invokeWorkspaceTaskBody_keeps (hh : host.Keeps I (fun _ => True) C) (ha : a.Keeps I C)
    (spec : WorkspaceSpec) (dir : Path) :
    Keeps (Frame.Inv I S) (fun _ => True) (Frame.Inv C S)
      (invokeWorkspaceTaskBody host a spec dir) := by
  have guardrails : ∀ list phase, Keeps (Frame.Inv I S) (fun _ => True)
      (Frame.Inv C S) (checkGuardrailsPhase host dir list phase) := fun list phase =>
    call_keeps (fun _ => rfl)
      (checkPhaseGuardrails_keeps hh (fun _ _ => trivial) dir list phase)
  refine .bind (.ofExcept fun _ _ => trivial) fun input => ?_
  refine .bind (.ofExcept fun _ _ => trivial) fun i => ?_
  refine .bind (.ofExcept fun _ _ => trivial) fun params => ?_
  refine .bind (guardrails spec.pre .pre) fun _ => ?_
  refine .bind (invokeFn_keeps ha dir params) fun raw => ?_
  refine .bind (.ofExcept fun _ _ => trivial) fun result => ?_
  exact .bind (guardrails spec.post .post) fun _ => .pure

/-- Up to the comparison of the snapshots, an attempt only reads LakeFS; a read-only
one compares nothing, and another completes as its comparison says. -/
theorem runBody_inv_ends (hh : host.Keeps I (fun _ => True) C) (ha : a.Keeps I C) {F : Frame σ}
    (hF : Frame.Inv I S F) :
    Ends (fun r G => (r.2 = .readOnly ↔ p.spec.readOnly = true) ∧
        Frame.Inv I (fun staged said => ∃ before, S staged before ∧
          said = before ++ r.2.comparisons) G)
      (fun _ => Frame.Inv I S) (Frame.Inv C S) (runBody host a p F) := by
  have snapshot : Keeps (Frame.Inv I S) (fun _ => True) (Frame.Inv C S)
      (takeSnapshot host p.workspaceDir) :=
    .bind (fun _ h => h) fun _ =>
      call_keeps (fun _ => rfl) (snapshotWorkspace_keeps hh p.workspaceDir)
  have body := invokeWorkspaceTaskBody_keeps (S := S) hh ha p.spec p.workspaceDir
  unfold runBody
  refine .bind ((downloadInput_keeps hh ha).ends hF) fun _ G hG => ?_
  cases p.spec.readOnly with
  | true =>
    refine .bind (Q := fun _ => Frame.Inv I S) hG fun _ G hG => ?_
    refine .bind (body.ends hG) fun result G hG => ?_
    exact ⟨by simp, hG.1, _, hG.2, (List.append_nil _).symm⟩
  | false =>
    refine .bind (Keeps.ends (snapshot.bind fun _ => .pure) hG) fun initial G hG => ?_
    refine .bind (body.ends hG) fun result G hG => ?_
    refine .bind (snapshot.ends hG) fun final G hG => ?_
    cases hchanged : decide (some final ≠ initial) with
    | true =>
      refine ⟨by simp, hG.1, _, hG.2, ?_⟩
      simp [Frame.comparisons, Event.comparison, Completion.comparisons]
    | false =>
      refine ⟨by simp, hG.1, _, hG.2, ?_⟩
      simp [Frame.comparisons, Event.comparison, Completion.comparisons]

theorem checkFence_keeps (ha : a.Keeps I C) :
    Keeps (Frame.Inv I S) (fun _ => True) (Frame.Inv C S) (checkFence a) :=
  (call_keeps (fun _ => rfl) (ha.loadCurrentAttempt _)).bind fun _ => .ofExcept fun _ _ => trivial

theorem completeWith_keeps {ref : String} {result : PyValue} :
    Keeps (Frame.Inv I S) (fun _ => True) (Frame.Inv C S)
      (completeWith p ref result : Proc PyException (Frame σ) RuntimeTaskResult) :=
  .bind (.ofExcept fun _ _ => trivial) fun _ => .pure

theorem withPublishTimer_keeps (ha : a.Keeps I C) {f : Proc PyException (Frame σ) String}
    (hf : Keeps (Frame.Inv I S) W (Frame.Inv C S) f) :
    Keeps (Frame.Inv I S) W (Frame.Inv C S) (withPublishTimer a f) := by
  unfold withPublishTimer
  cases hm : workspaceIoMetrics a with
  | none => exact hf
  | some metrics => exact withRuntimeTimer_keeps ha (workspaceIoMetrics_some hm) hf

theorem cleanupLocal_keeps (hh : host.Keeps I (fun _ => True) C) :
    Keeps (Frame.Inv I S) (fun _ => True) (Frame.Inv C S) (cleanupLocal host) := by
  refine .bind (fun _ h => h) fun dir => ?_
  cases dir with
  | none => exact .pure
  | some dir =>
    exact (lift_keeps (cleanupAttemptWorkspaceSafely_keeps hh (fun _ _ _ => trivial) dir)).bind
      fun _ => .pure

theorem openAttempt_inv (hh : host.Keeps I W C) {s : σ} (hs : I s) :
    I (openAttempt host a s).2.2 := by
  unfold openAttempt
  refine hh.registerOwner _ _ (hh.uuid4Hex _ ?_)
  cases a.executionId with
  | none => exact hh.uuid4Hex _ hs
  | some executionId =>
    dsimp only
    split
    · exact hs
    · exact hh.uuid4Hex _ hs

/-! ## Whole attempts -/

/-- What every callback keeps. -/
structure WorkspaceAttempt.KeepsAll (a : WorkspaceAttempt σ) (I C : σ → Prop) : Prop extends
    a.Keeps I C where
  stageWorkspace : ∀ dir i spec execution,
    Effect.Keeps I (fun _ => True) C (a.callbacks.stageWorkspace dir i spec execution)
  publishWorkspace : ∀ staged i spec execution,
    Effect.Keeps I (fun _ => True) C (a.callbacks.publishWorkspace staged i spec execution)
  cleanupStaging : ∀ staged, Effect.Keeps I (fun _ => True) C (a.callbacks.cleanupStaging staged)
  completeNoopWorkspace : ∀ noop, a.callbacks.completeNoopWorkspace = some noop →
    ∀ i spec execution, Effect.Keeps I (fun _ => True) C (noop i spec execution)

/-- An invariant of the world, whatever has been staged. -/
abbrev Frame.World (I : σ → Prop) : Frame σ → Prop := Frame.Inv I fun _ _ => True

theorem stageChanges_keeps (hh : host.Keeps I (fun _ => True) C) (ha : a.KeepsAll I C) :
    Keeps (Frame.World I) (fun _ => True) (Frame.World C) (stageChanges host a p) := by
  have called : Keeps (Frame.World I) (fun _ => True) (Frame.World C) (callStage a p) :=
    (call_keeps (fun _ => rfl) (ha.stageWorkspace _ _ _ _)).bind fun s =>
      .bind (fun _ h => ⟨h.1, trivial⟩) fun _ => .pure
  unfold stageChanges
  cases hm : workspaceIoMetrics a with
  | none => exact called
  | some metrics =>
    have hm := workspaceIoMetrics_some hm
    refine (lift_keeps (workspaceFileBytes_keeps hh _)).bind fun bytes => ?_
    refine (withRuntimeTimer_keeps ha.toKeeps hm called).bind fun s => ?_
    exact (recordWorkspaceIoBytes_keeps ha.toKeeps hm).bind fun _ => .pure

theorem completeNoop_keeps (ha : a.KeepsAll I C) :
    Keeps (Frame.World I) (fun _ => True) (Frame.World C) (completeNoop a p) := by
  refine withPublishTimer_keeps ha.toKeeps ?_
  split
  · rename_i noop hnoop
    exact call_keeps (fun _ => rfl) (ha.completeNoopWorkspace noop hnoop _ _ _)
  · exact .raise trivial

theorem complete_keeps (hh : host.Keeps I (fun _ => True) C) (ha : a.KeepsAll I C)
    {result : PyValue} (completion : Completion) :
    Keeps (Frame.World I) (fun _ => True) (Frame.World C)
      (complete host a p result completion) := by
  have fence := checkFence_keeps (S := fun _ _ => True) ha.toKeeps
  cases completion with
  | readOnly => exact completeWith_keeps
  | unchanged =>
    exact fence.bind fun _ => (completeNoop_keeps ha).bind fun _ => completeWith_keeps
  | changed =>
    refine fence.bind fun _ => (stageChanges_keeps hh ha).bind fun staged => ?_
    refine fence.bind fun _ => .bind (withPublishTimer_keeps ha.toKeeps ?_) fun _ =>
      completeWith_keeps
    exact call_keeps (fun _ => rfl) (ha.publishWorkspace _ _ _ _)

theorem finishAttempt_keeps (hh : host.Keeps I (fun _ => True) C) (ha : a.KeepsAll I C)
    (owner : WorkspaceOwner) :
    Keeps (Frame.World I) (fun _ => True) (Frame.World C) (finishAttempt host a owner) := by
  have cleaned : Keeps (Frame.World I) (fun _ => True) (Frame.World C) (cleanupStaged a) := by
    refine .bind (fun _ h => h) fun staged => ?_
    cases staged with
    | none => exact .pure
    | some s => exact .tryExcept (call_keeps (fun _ => rfl) (ha.cleanupStaging s)) fun _ _ => .pure
  refine cleaned.bind fun _ => (cleanupLocal_keeps hh).bind fun _ => ?_
  exact fun _ h => ⟨hh.unregisterOwner _ _ h.1, trivial⟩

theorem guardedAttempt_keeps (hh : host.Keeps I (fun _ => True) C) (ha : a.KeepsAll I C)
    (spec : WorkspaceSpec) (execution : TaskExecutionContext) (owner : WorkspaceOwner) :
    Keeps (Frame.World I) (fun _ => True) (Frame.World C)
      (guardedAttempt host a spec execution owner) := by
  refine .tryFinally
    (.tryExcept (V := fun _ => True) (fun F hF => ?_) fun exc _ => .ofExcept fun _ _ => trivial)
    (finishAttempt_keeps hh ha owner)
  refine .bind ((beginAttempt_inv_ends hh hF).mono (fun _ _ h => h.2)
    (fun _ _ h => ⟨trivial, h⟩) fun _ h => h) fun p G hG => ?_
  refine .bind (Q := fun _ => Frame.World I) ((runBody_inv_ends hh ha.toKeeps hG).mono
    (fun _ _ h => ⟨h.2.1, trivial⟩)
    (fun _ _ h => ⟨trivial, h⟩) fun _ h => h) fun r G hG => ?_
  exact complete_keeps hh ha r.2 G hG

theorem runWorkspaceTaskAttempt_ends {spec : WorkspaceSpec} {s : σ}
    {Q : RuntimeTaskResult → σ → Prop} {E : PyException → σ → Prop}
    (hspec : a.task.workspace = some spec)
    (h : Ends (fun r F => Q r F.world) (fun e F => E e F.world) (fun F => C F.world)
      (runInFrame host a spec s)) :
    Ends Q E C (runWorkspaceTaskAttempt host a s) := by
  simp only [runWorkspaceTaskAttempt, hspec]
  generalize runInFrame host a spec s = call at h
  obtain ⟨o, F⟩ := call
  cases o <;> exact h

/-- What every part of an attempt keeps, the attempt keeps. -/
theorem runWorkspaceTaskAttempt_keeps (hh : host.Keeps I (fun _ => True) C)
    (ha : a.KeepsAll I C) : Keeps I (fun _ => True) C (runWorkspaceTaskAttempt host a) := by
  intro s hs
  cases hspec : a.task.workspace with
  | none =>
    simp only [runWorkspaceTaskAttempt, hspec]
    exact ⟨trivial, hs⟩
  | some spec =>
    refine runWorkspaceTaskAttempt_ends hspec ?_
    exact (guardedAttempt_keeps hh ha spec _ _ (.enter _) ⟨openAttempt_inv hh hs, trivial⟩).mono
      (fun _ _ h => h.1) (fun _ _ h => ⟨trivial, h.2.1⟩) fun _ h => h.1

end Perago
