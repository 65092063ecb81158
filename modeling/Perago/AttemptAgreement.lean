import Perago.AttemptInvariants
import Perago.Effect.Agreement

/-!
# Attempts that end alike

Two attempts whose machine, callbacks and body agree, the second without workspace
metrics: they end alike, when the recorder of the first goes unseen by the second and
the workspace can be read wherever the first measures it.
-/

namespace Perago

open Effect

/-! ## Agreement of what an attempt is given -/

variable {σ τ α : Type} {R : σ → τ → Prop}

structure Host.Agree (R : σ → τ → Prop) (host : Host σ) (host' : Host τ) : Prop where
  workerId : host.workerId = host'.workerId
  pid : host.pid = host'.pid
  sha256 : host.sha256 = host'.sha256
  uuid4Hex : ∀ s t, R s t →
    (host.uuid4Hex s).1 = (host'.uuid4Hex t).1 ∧ R (host.uuid4Hex s).2 (host'.uuid4Hex t).2
  registerOwner : ∀ token s t, R s t → R (host.registerOwner token s) (host'.registerOwner token t)
  unregisterOwner : ∀ token s t, R s t →
    R (host.unregisterOwner token s) (host'.unregisterOwner token t)
  mkdir : ∀ dir, Effect.Agree R (host.mkdir dir) (host'.mkdir dir)
  writeMarker : ∀ path marker,
    Effect.Agree R (host.writeMarker path marker) (host'.writeMarker path marker)
  rglob : ∀ dir, Effect.Agree R (host.rglob dir) (host'.rglob dir)
  isFile : ∀ path, Effect.Agree R (host.isFile path) (host'.isFile path)
  isDir : ∀ path, Effect.Agree R (host.isDir path) (host'.isDir path)
  globCount : ∀ dir pattern,
    Effect.Agree R (host.globCount dir pattern) (host'.globCount dir pattern)
  readlink : ∀ path, Effect.Agree R (host.readlink path) (host'.readlink path)
  readBytes : ∀ path, Effect.Agree R (host.readBytes path) (host'.readBytes path)
  fileSize : ∀ path, Effect.Agree R (host.fileSize path) (host'.fileSize path)
  rmtree : ∀ dir, Effect.Agree R (host.rmtree dir) (host'.rmtree dir)

/-- The other side does not see the recorder at work. -/
structure MetricRecorder.Unseen (R : σ → τ → Prop) (metrics : MetricRecorder σ) : Prop where
  runtimeTimerEnter : ∀ metric s t, R s t → R (metrics.runtimeTimerEnter metric s) t
  runtimeTimerExit : ∀ metric s t, R s t → R (metrics.runtimeTimerExit metric s) t
  runtimeHistogram : ∀ metric n s t, R s t → R (metrics.runtimeHistogram metric n s) t

/-- The second attempt has no workspace metrics; the bodies ignore their recorders. -/
structure WorkspaceAttempt.Agree (R : σ → τ → Prop) (a : WorkspaceAttempt σ)
    (b : WorkspaceAttempt τ) : Prop where
  workspace : a.task.workspace = b.task.workspace
  validateParams : a.task.validateParams = b.task.validateParams
  validateResult : a.task.validateResult = b.task.validateResult
  inputData : a.inputData = b.inputData
  attempt : a.attempt = b.attempt
  workspaceRoot : a.workspaceRoot = b.workspaceRoot
  ownerWorkerId : a.ownerWorkerId = b.ownerWorkerId
  executionId : a.executionId = b.executionId
  failureReasonMaxLength : a.failureReasonMaxLength = b.failureReasonMaxLength
  nestingLimit : a.nestingLimit = b.nestingLimit
  fn : ∀ dir params metrics metrics',
    Effect.Agree R (a.task.fn dir params metrics) (b.task.fn dir params metrics')
  downloadWorkspace : ∀ i spec dir, Effect.Agree R (a.callbacks.downloadWorkspace i spec dir)
    (b.callbacks.downloadWorkspace i spec dir)
  loadCurrentAttempt : ∀ attempt, Effect.Agree R (a.callbacks.loadCurrentAttempt attempt)
    (b.callbacks.loadCurrentAttempt attempt)
  stageWorkspace : ∀ dir i spec execution,
    Effect.Agree R (a.callbacks.stageWorkspace dir i spec execution)
      (b.callbacks.stageWorkspace dir i spec execution)
  publishWorkspace : ∀ staged i spec execution,
    Effect.Agree R (a.callbacks.publishWorkspace staged i spec execution)
      (b.callbacks.publishWorkspace staged i spec execution)
  cleanupStaging : ∀ staged, Effect.Agree R (a.callbacks.cleanupStaging staged)
    (b.callbacks.cleanupStaging staged)
  completeNoopWorkspace : Option.Rel
    (fun f g => ∀ i spec execution, Effect.Agree R (f i spec execution) (g i spec execution))
    a.callbacks.completeNoopWorkspace b.callbacks.completeNoopWorkspace
  recorder : a.HasRecorder ∧ b.HasRecorder
  unseen : ∀ metrics, a.metrics = some metrics → metrics.Unseen R
  disabled : workspaceIoMetrics b = none

/-! ## A readable workspace -/

/-- The directory is listed and its files are measured, and nothing changes. -/
def Host.Readable (host : Host τ) (dir : Path) (t : τ) : Prop :=
  ∃ tree, host.rglob dir t = (.ok tree, t) ∧
    ∀ e ∈ tree.entries, e.kind = .file → ∃ n, host.fileSize (dir ++ e.parts) t = (.ok n, t)

/-- Where an attempt can measure its workspace: a download that returns leaves it readable,
a snapshot that returns has read it, and the attempt fence leaves it as it is. -/
structure ReadableWorkspace (host : Host τ) (b : WorkspaceAttempt τ) (dir : Path) : Prop where
  downloaded : ∀ i spec s t,
    b.callbacks.downloadWorkspace i spec dir s = (.ok (), t) → host.Readable dir t
  snapshotted : ∀ s files t, snapshotWorkspace host dir s = (.ok files, t) → host.Readable dir t
  fenced : ∀ s fresh t, host.Readable dir s →
    b.callbacks.loadCurrentAttempt b.attempt s = (.ok fresh, t) → host.Readable dir t

variable {host : Host σ} {host' : Host τ} {s : σ} {t : τ} {dir : Path}

theorem gather_entryBytes (entries : List LocalEntry)
    (sizes : ∀ e ∈ entries, e.kind = .file → ∃ n, host'.fileSize (dir ++ e.parts) t = (.ok n, t)) :
    ∃ ns, Proc.gather (entryBytes host' dir) entries t = (.ok ns, t) := by
  induction entries with
  | nil => exact ⟨[], rfl⟩
  | cons e entries ih =>
    have first : ∃ n, entryBytes host' dir e t = (.ok n, t) := by
      unfold entryBytes
      split
      · exact ⟨none, rfl⟩
      · rename_i file
        obtain ⟨n, hn⟩ := sizes e List.mem_cons_self (by simp_all)
        exact ⟨some n, Proc.bind_of_ok hn⟩
    obtain ⟨n, hn⟩ := first
    obtain ⟨ns, hns⟩ := ih fun d hd => sizes d (List.mem_cons_of_mem e hd)
    exact ⟨n.toList ++ ns, (Proc.bind_of_ok hn).trans (Proc.bind_of_ok hns)⟩

theorem Host.Readable.workspaceFileBytes (h : host'.Readable dir t) :
    ∃ n, workspaceFileBytes host' dir t = (.ok n, t) := by
  obtain ⟨tree, listed, sizes⟩ := h
  obtain ⟨ns, hns⟩ := gather_entryBytes tree.entries sizes
  exact ⟨ns.sum, (Proc.bind_of_ok listed).trans (Proc.bind_of_ok hns)⟩

/-! ## The machine -/

theorem snapshotWorkspace_agree (hh : host.Agree R host') (dir : Path) :
    Agree R (snapshotWorkspace host dir) (snapshotWorkspace host' dir) := by
  refine (hh.rglob dir).bind fun tree => .gather fun e => ?_
  unfold snapshotEntry
  split
  · exact .pure
  · cases e.kind with
    | symlink => exact (hh.readlink _).bind fun _ => .pure
    | file =>
      refine ((hh.readBytes _).bind fun bytes => ?_).bind fun _ => .pure
      rw [hh.sha256]
      exact .pure
    | directory | special => exact .pure

theorem workspaceFileBytes_agree (hh : host.Agree R host') (dir : Path) :
    Agree R (workspaceFileBytes host dir) (workspaceFileBytes host' dir) := by
  refine (hh.rglob dir).bind fun tree => .bind (.gather fun e => ?_) fun _ => .pure
  unfold entryBytes
  split
  · exact .pure
  · exact (hh.fileSize _).map

/-- A readable workspace is measured unseen. -/
theorem workspaceFileBytes_unseen (hh : host.Agree R host') (h : host'.Readable dir t)
    (hst : R s t) : ∃ n, Unseen R n t (workspaceFileBytes host dir s) := by
  obtain ⟨n, hn⟩ := h.workspaceFileBytes
  have alike := workspaceFileBytes_agree hh dir s t hst
  rw [hn] at alike
  exact ⟨n, alike.of_ok⟩

theorem checkPhaseGuardrails_agree (hh : host.Agree R host') (root : Path)
    (guardrails : List WorkspaceGuardrail) (phase : GuardrailPhase) :
    Agree R (checkPhaseGuardrails host root guardrails phase)
      (checkPhaseGuardrails host' root guardrails phase) := by
  refine .tryExcept (.each fun g => ?_) fun exc => ?_
  · unfold checkGuardrail
    cases g.kind with
    | requireFile =>
      refine (hh.isFile _).bind fun found => ?_
      cases found with
      | true => exact .pure
      | false => exact .raise
    | requireDir =>
      refine (hh.isDir _).bind fun found => ?_
      cases found with
      | true => exact .pure
      | false => exact .raise
    | forbidGlob =>
      refine (hh.globCount _ _).bind fun count => ?_
      split
      · exact .pure
      · exact .raise
    | requireGlob =>
      refine (hh.globCount _ _).bind fun count => ?_
      dsimp only
      split
      · exact .raise
      · split
        · exact .raise
        · exact .pure
  · split
    · split
      · exact .raise
      · exact .raise
    · exact .raise

theorem prepareAttemptWorkspace_agree (hh : host.Agree R host') (root : Path)
    (task : TaskExecutionContext) (owner : WorkspaceOwner) :
    Agree R (prepareAttemptWorkspace host root task owner)
      (prepareAttemptWorkspace host' root task owner) :=
  (hh.mkdir _).bind fun _ => (hh.writeMarker _ _).bind fun _ => .pure

theorem cleanupAttemptWorkspaceSafely_agree (hh : host.Agree R host') (dir : Path) :
    Agree R (cleanupAttemptWorkspaceSafely host dir) (cleanupAttemptWorkspaceSafely host' dir) := by
  refine .tryExcept (.bind ?_ fun _ => .pure) fun exc => ?_
  · refine (hh.isFile _).bind fun found => ?_
    cases found with
    | true => exact hh.rmtree dir
    | false => exact .raise
  · split
    · exact .pure
    · exact .raise

/-! ## The frame -/

/-- Two frames with related worlds, and otherwise the same but for the worlds of the
snapshots. -/
structure SameFrame (R : σ → τ → Prop) (F : Frame σ) (G : Frame τ) : Prop where
  world : R F.world G.world
  events : F.events = G.events
  workspaceDir : F.workspaceDir = G.workspaceDir
  staged : F.staged = G.staged

theorem lift_agree {f : Proc PyException σ α} {g : Proc PyException τ α} (h : Agree R f g) :
    Agree (SameFrame R) (Frame.lift f) (Frame.lift g) :=
  h.zoom (fun _ _ same => same.world) fun _ _ _ _ same huv =>
    { world := huv, events := same.events, workspaceDir := same.workspaceDir,
      staged := same.staged }

theorem note_agree (e : Event) : Agree (SameFrame R) (Frame.note e) (Frame.note e) :=
  .modify fun _ _ same => { same with events := congrArg (· ++ [e]) same.events }

theorem call_agree {record : Except PyException α → Event} {f : Proc PyException σ α}
    {g : Proc PyException τ α} (h : Agree R f g) :
    Agree (SameFrame R) (Frame.call record f) (Frame.call record g) := by
  refine .bind (.tryExcept (lift_agree h) fun exc => ?_) fun a => ?_
  · exact (note_agree _).bind fun _ => .raise
  · exact (note_agree _).bind fun _ => .pure

theorem call_ok {record : Except PyException α → Event} {f : Proc PyException σ α}
    {F G : Frame σ} {b : α} (h : Frame.call record f F = (.ok b, G)) :
    f F.world = (.ok b, G.world) := by
  obtain ⟨c, H, hc, last⟩ := Proc.bind_ok_iff.mp h
  obtain ⟨_, J, hJ, last⟩ := Proc.bind_ok_iff.mp last
  cases hJ
  cases last
  obtain hf | ⟨exc, K, -, raised⟩ := Proc.tryExcept_ok_iff.mp hc
  · obtain ⟨u, hu, rfl⟩ := Proc.zoom_ok_iff.mp hf
    exact hu
  · obtain ⟨_, L, _, raised⟩ := Proc.bind_ok_iff.mp raised
    cases raised

/-- What the recorder does goes unseen in the frame too. -/
theorem lift_unseen {f : Proc PyException σ α} {F : Frame σ} {G : Frame τ} {b : α}
    (same : SameFrame R F G) (h : Unseen R b G.world (f F.world)) :
    Unseen (SameFrame R) b G (Frame.lift f F) := by
  obtain ⟨u, hf, hu⟩ := h
  refine ⟨{ F with world := u }, Proc.zoom_ok_iff.mpr ⟨u, hf, rfl⟩, ?_⟩
  exact { same with world := hu }

variable {a : WorkspaceAttempt σ} {b : WorkspaceAttempt τ} {metrics : MetricRecorder σ}

theorem withRuntimeTimer_agree (hm : metrics.Unseen R) {operation : String}
    {f : Proc PyException (Frame σ) α} {g : Proc PyException (Frame τ) α}
    (h : Agree (SameFrame R) f g) :
    Agree (SameFrame R) (withRuntimeTimer a metrics operation f) g := by
  intro F G same
  have enter : Unseen (SameFrame R) () G (Frame.lift (.modify (metrics.runtimeTimerEnter
      ⟨"workspace_io_duration_seconds", a.task.name, operation⟩)) F) :=
    lift_unseen same ⟨_, rfl, hm.runtimeTimerEnter _ _ _ same.world⟩
  refine .unseen_then enter fun u hu => (h u G hu).finally_unseen fun v w hvw => ?_
  exact lift_unseen hvw ⟨_, rfl, hm.runtimeTimerExit _ _ _ hvw.world⟩

theorem recordWorkspaceIoBytes_unseen (hm : metrics.Unseen R) {operation : String} {bytes : Nat}
    {F : Frame σ} {G : Frame τ} (same : SameFrame R F G) :
    Unseen (SameFrame R) () G (recordWorkspaceIoBytes a metrics operation bytes F) :=
  lift_unseen same ⟨_, rfl, hm.runtimeHistogram _ _ _ _ same.world⟩

/-! ## The phases -/

variable {p : Prepared}

theorem beginAttempt_agree (hh : host.Agree R host') (ha : a.Agree R b) (spec : WorkspaceSpec)
    (execution : TaskExecutionContext) (owner : WorkspaceOwner) :
    Agree (SameFrame R) (beginAttempt host a spec execution owner)
      (beginAttempt host' b spec execution owner) := by
  unfold beginAttempt
  rw [ha.inputData, ha.workspaceRoot]
  refine .bind .ofExcept fun wrapped => .bind .ofExcept fun input => ?_
  refine .bind (lift_agree (prepareAttemptWorkspace_agree hh _ _ _)) fun workspaceDir => ?_
  refine .bind (.modify fun F G same => ?_) fun _ => .pure
  exact { same with workspaceDir := rfl }

theorem downloadInput_agree (hh : host.Agree R host') (ha : a.Agree R b)
    (readable : ReadableWorkspace host' b p.workspaceDir) :
    Agree (SameFrame R) (downloadInput host a p) (downloadInput host' b p) := by
  have download : Agree (SameFrame R) (callDownload a p) (callDownload b p) :=
    call_agree (ha.downloadWorkspace _ _ _)
  unfold downloadInput
  rw [ha.disabled]
  cases hm : workspaceIoMetrics a with
  | none => exact download
  | some metrics =>
    have unseen := ha.unseen metrics (workspaceIoMetrics_some hm)
    intro F G same
    refine (withRuntimeTimer_agree unseen download F G same).then_unseen fun _ u v hv huv => ?_
    have here := readable.downloaded _ _ _ _ (call_ok hv)
    obtain ⟨bytes, measured⟩ := workspaceFileBytes_unseen hh here huv.world
    exact (lift_unseen huv measured).bind fun w hw => recordWorkspaceIoBytes_unseen unseen hw

/-- The body is called with the recorder, or without one. -/
theorem invokeFn_eq (ha : a.HasRecorder) (dir : Path) (params : PyValue) :
    ∃ metrics, invokeFn a dir params =
      Frame.call .body (a.task.fn dir params metrics) := by
  unfold invokeFn
  unfold WorkspaceAttempt.HasRecorder at ha
  cases hx : a.task.metrics with
  | none => exact ⟨none, rfl⟩
  | some _ =>
    cases hm : a.metrics with
    | none => simp [hx, hm] at ha
    | some metrics => exact ⟨some metrics, rfl⟩

theorem invokeFn_agree (ha : a.Agree R b) (dir : Path) (params : PyValue) :
    Agree (SameFrame R) (invokeFn a dir params) (invokeFn b dir params) := by
  obtain ⟨metrics, left⟩ := invokeFn_eq ha.recorder.1 dir params
  obtain ⟨metrics', right⟩ := invokeFn_eq ha.recorder.2 dir params
  rw [left, right]
  exact call_agree (ha.fn dir params metrics metrics')

theorem invokeWorkspaceTaskBody_agree (hh : host.Agree R host') (ha : a.Agree R b)
    (spec : WorkspaceSpec) (dir : Path) :
    Agree (SameFrame R) (invokeWorkspaceTaskBody host a spec dir)
      (invokeWorkspaceTaskBody host' b spec dir) := by
  have guardrails (guardrails : List WorkspaceGuardrail) (phase : GuardrailPhase) :
      Agree (SameFrame R) (checkGuardrailsPhase host dir guardrails phase)
        (checkGuardrailsPhase host' dir guardrails phase) :=
    call_agree (checkPhaseGuardrails_agree hh _ _ _)
  unfold invokeWorkspaceTaskBody
  rw [ha.inputData, ha.validateParams, ha.validateResult]
  refine .bind .ofExcept fun wrapped => .bind .ofExcept fun _ => .bind .ofExcept fun params => ?_
  refine .bind (guardrails _ _) fun _ => .bind (invokeFn_agree ha _ _) fun raw => ?_
  exact .bind .ofExcept fun result => .bind (guardrails _ _) fun _ => .pure

theorem runBody_agree (hh : host.Agree R host') (ha : a.Agree R b)
    (readable : ReadableWorkspace host' b p.workspaceDir) :
    Agree (SameFrame R) (runBody host a p) (runBody host' b p) := by
  have snapshot : Agree (SameFrame R) (takeSnapshot host p.workspaceDir)
      (takeSnapshot host' p.workspaceDir) :=
    .bind (.modify fun _ _ same => { same with }) fun _ => call_agree (snapshotWorkspace_agree hh _)
  have body := invokeWorkspaceTaskBody_agree hh ha p.spec p.workspaceDir
  unfold runBody
  refine .bind (downloadInput_agree hh ha readable) fun _ => ?_
  cases p.spec.readOnly with
  | true => exact .bind .pure fun _ => .bind body fun _ => .pure
  | false =>
    refine .bind snapshot.map fun initial => .bind body fun result => ?_
    exact .bind snapshot fun final => .bind (note_agree _) fun _ => .pure

/-- A body whose changes are compared leaves a workspace that has been read. -/
theorem runBody_readable (readable : ReadableWorkspace host a p.workspaceDir)
    {r : PyValue × Completion} {F G : Frame σ} (h : runBody host a p F = (.ok r, G)) :
    r.2 = .readOnly ∨ host.Readable p.workspaceDir G.world := by
  unfold runBody at h
  obtain ⟨_, F₁, _, h⟩ := Proc.bind_ok_iff.mp h
  cases hro : p.spec.readOnly with
  | true =>
    simp only [hro, if_true] at h
    obtain ⟨_, F₂, _, h⟩ := Proc.bind_ok_iff.mp h
    obtain ⟨_, F₃, _, h⟩ := Proc.bind_ok_iff.mp h
    cases h
    exact .inl rfl
  | false =>
    simp only [hro] at h
    obtain ⟨_, F₂, _, h⟩ := Proc.bind_ok_iff.mp h
    obtain ⟨_, F₃, _, h⟩ := Proc.bind_ok_iff.mp h
    obtain ⟨final, F₄, hfinal, h⟩ := Proc.bind_ok_iff.mp h
    obtain ⟨_, F₅, _, hfinal⟩ := Proc.bind_ok_iff.mp hfinal
    cases h
    have read := call_ok hfinal
    exact .inr (readable.snapshotted _ _ F₄.world read)

theorem checkFence_agree (ha : a.Agree R b) :
    Agree (SameFrame R) (checkFence a) (checkFence b) := by
  unfold checkFence
  rw [ha.attempt]
  exact .bind (call_agree (ha.loadCurrentAttempt _)) fun _ => .ofExcept

theorem callStage_agree (ha : a.Agree R b) :
    Agree (SameFrame R) (callStage a p) (callStage b p) := by
  refine .bind (call_agree (ha.stageWorkspace _ _ _ _)) fun staged => ?_
  refine .bind (.modify fun F G same => ?_) fun _ => .pure
  exact { same with staged := rfl }

/-- A readable workspace is measured before the upload, and recorded after it. -/
theorem stageChanges_agree (hh : host.Agree R host') (ha : a.Agree R b) {F : Frame σ}
    {G : Frame τ} (same : SameFrame R F G) (here : host'.Readable p.workspaceDir G.world) :
    Alike (SameFrame R) (stageChanges host a p F) (stageChanges host' b p G) := by
  unfold stageChanges
  rw [ha.disabled]
  cases hm : workspaceIoMetrics a with
  | none => exact callStage_agree ha F G same
  | some metrics =>
    have unseen := ha.unseen metrics (workspaceIoMetrics_some hm)
    obtain ⟨bytes, measured⟩ := workspaceFileBytes_unseen hh here same.world
    refine .unseen_then (lift_unseen same measured) fun u hu => ?_
    refine (withRuntimeTimer_agree unseen (callStage_agree ha) u G hu).then_unseen ?_
    intro staged v w _ hvw
    exact (recordWorkspaceIoBytes_unseen unseen hvw).bind fun x hx => ⟨x, rfl, hx⟩

theorem withPublishTimer_agree (ha : a.Agree R b) {f : Proc PyException (Frame σ) String}
    {g : Proc PyException (Frame τ) String} (h : Agree (SameFrame R) f g) :
    Agree (SameFrame R) (withPublishTimer a f) (withPublishTimer b g) := by
  unfold withPublishTimer
  rw [ha.disabled]
  cases hm : workspaceIoMetrics a with
  | none => exact h
  | some metrics => exact withRuntimeTimer_agree (ha.unseen metrics (workspaceIoMetrics_some hm)) h

theorem completeNoop_agree (ha : a.Agree R b) :
    Agree (SameFrame R) (completeNoop a p) (completeNoop b p) := by
  apply withPublishTimer_agree ha
  have noop := ha.completeNoopWorkspace
  generalize a.callbacks.completeNoopWorkspace = f at noop
  generalize b.callbacks.completeNoopWorkspace = g at noop
  cases noop with
  | some h => exact call_agree (h _ _ _)
  | none => exact .raise

theorem completeWith_agree {ref : String} {result : PyValue} :
    Agree (SameFrame R) (completeWith p ref result) (completeWith p ref result) :=
  .bind .ofExcept fun _ => .pure

theorem checkFence_readable (readable : ReadableWorkspace host a dir) {F G : Frame σ}
    (here : host.Readable dir F.world) (h : checkFence a F = (.ok (), G)) :
    host.Readable dir G.world := by
  obtain ⟨fresh, H, hH, last⟩ := Proc.bind_ok_iff.mp h
  obtain ⟨-, rfl⟩ := Proc.ofExcept_ok_iff.mp last
  exact readable.fenced _ _ _ here (call_ok hH)

theorem complete_agree (hh : host.Agree R host') (ha : a.Agree R b)
    (readable : ReadableWorkspace host' b p.workspaceDir) {result : PyValue} {c : Completion}
    {F : Frame σ} {G : Frame τ} (same : SameFrame R F G)
    (here : c = .readOnly ∨ host'.Readable p.workspaceDir G.world) :
    Alike (SameFrame R) (complete host a p result c F) (complete host' b p result c G) := by
  cases c with
  | readOnly => exact completeWith_agree F G same
  | unchanged =>
    refine Agree.bind (checkFence_agree ha) (fun _ => ?_) F G same
    exact .bind (completeNoop_agree ha) fun ref => completeWith_agree
  | changed =>
    have measurable := here.resolve_left (by simp)
    refine (checkFence_agree ha F G same).bind fun _ u v _ hv huv => ?_
    refine (stageChanges_agree hh ha huv (checkFence_readable readable measurable hv)).bind ?_
    intro staged u v _ _ huv
    refine Agree.bind (checkFence_agree ha) (fun _ => ?_) u v huv
    refine .bind (withPublishTimer_agree ha (call_agree ?_)) fun ref => completeWith_agree
    exact ha.publishWorkspace _ _ _ _

theorem beginAttempt_workspaceDir {spec : WorkspaceSpec} {execution : TaskExecutionContext}
    {owner : WorkspaceOwner} {F G : Frame σ}
    (h : beginAttempt host a spec execution owner F = (.ok p, G)) :
    p.workspaceDir = attemptWorkspaceDir a.workspaceRoot execution := by
  obtain ⟨_, F₁, _, h⟩ := Proc.bind_ok_iff.mp h
  obtain ⟨_, F₂, _, h⟩ := Proc.bind_ok_iff.mp h
  obtain ⟨workspaceDir, F₃, hdir, h⟩ := Proc.bind_ok_iff.mp h
  obtain ⟨_, F₄, _, h⟩ := Proc.bind_ok_iff.mp h
  cases h
  obtain ⟨u, hu, -⟩ := Proc.zoom_ok_iff.mp hdir
  obtain ⟨_, v, _, hu⟩ := Proc.bind_ok_iff.mp hu
  obtain ⟨_, w, _, hu⟩ := Proc.bind_ok_iff.mp hu
  cases hu
  rfl

theorem attemptBlock_agree (hh : host.Agree R host') (ha : a.Agree R b) (spec : WorkspaceSpec)
    {execution : TaskExecutionContext} (owner : WorkspaceOwner)
    (readable : ReadableWorkspace host' b (attemptWorkspaceDir b.workspaceRoot execution)) :
    Agree (SameFrame R) (attemptBlock host a spec execution owner)
      (attemptBlock host' b spec execution owner) := by
  intro F G same
  refine (beginAttempt_agree hh ha spec execution owner F G same).bind fun p u v _ hp huv => ?_
  rw [← beginAttempt_workspaceDir hp] at readable
  refine (runBody_agree hh ha readable u v huv).bind fun r u v _ hr huv => ?_
  exact complete_agree hh ha readable huv (runBody_readable readable hr)

theorem finishAttempt_agree (hh : host.Agree R host') (ha : a.Agree R b)
    (owner : WorkspaceOwner) :
    Agree (SameFrame R) (finishAttempt host a owner) (finishAttempt host' b owner) := by
  refine .bind ?_ fun _ => .bind ?_ fun _ => ?_
  · refine .bind (.get fun _ _ same => same.staged) fun staged => ?_
    cases staged with
    | none => exact .pure
    | some staged => exact .tryExcept (call_agree (ha.cleanupStaging staged)) fun _ => .pure
  · refine .bind (.get fun _ _ same => same.workspaceDir) fun workspaceDir => ?_
    cases workspaceDir with
    | none => exact .pure
    | some dir => exact .map (lift_agree (cleanupAttemptWorkspaceSafely_agree hh dir))
  · exact lift_agree (.modify (hh.unregisterOwner owner.token))

/-! ## A whole attempt -/

theorem newWorkspaceOwner_agree (hh : host.Agree R host') (workerId : String) (hst : R s t) :
    (newWorkspaceOwner host workerId s).1 = (newWorkspaceOwner host' workerId t).1 ∧
      R (newWorkspaceOwner host workerId s).2 (newWorkspaceOwner host' workerId t).2 := by
  obtain ⟨token, state⟩ := hh.uuid4Hex s t hst
  refine ⟨?_, state⟩
  unfold newWorkspaceOwner
  simp only [hh.pid, token]

theorem openAttempt_agree (hh : host.Agree R host') (ha : a.Agree R b) (hst : R s t) :
    (openAttempt host a s).1 = (openAttempt host' b t).1 ∧
      (openAttempt host a s).2.1 = (openAttempt host' b t).2.1 ∧
      R (openAttempt host a s).2.2 (openAttempt host' b t).2.2 := by
  obtain ⟨id, state⟩ := hh.uuid4Hex s t hst
  have owner (workerId : String) {u : σ} {v : τ} (huv : R u v) :=
    newWorkspaceOwner_agree hh workerId huv
  unfold openAttempt
  rw [ha.executionId, ha.ownerWorkerId, ha.attempt, hh.workerId]
  cases b.executionId with
  | none =>
    refine ⟨congrArg _ id, (owner _ state).1, ?_⟩
    dsimp only
    rw [(owner _ state).1]
    exact hh.registerOwner _ _ _ (owner _ state).2
  | some executionId =>
    dsimp only
    split
    · rw [(owner _ hst).1]
      exact ⟨rfl, rfl, hh.registerOwner _ _ _ (owner _ hst).2⟩
    · refine ⟨congrArg _ id, (owner _ state).1, ?_⟩
      rw [(owner _ state).1]
      exact hh.registerOwner _ _ _ (owner _ state).2

/-- Attempts that agree end alike. -/
theorem runWorkspaceTaskAttempt_agree (hh : host.Agree R host') (ha : a.Agree R b) (hst : R s t)
    (readable : ReadableWorkspace host' b
      (attemptWorkspaceDir b.workspaceRoot (openAttempt host' b t).1)) :
    Alike R (runWorkspaceTaskAttempt host a s) (runWorkspaceTaskAttempt host' b t) := by
  unfold runWorkspaceTaskAttempt
  rw [ha.workspace]
  cases b.task.workspace with
  | none => exact ⟨rfl, hst⟩
  | some spec =>
    obtain ⟨execution, owner, opened⟩ := openAttempt_agree hh ha hst
    have start : SameFrame R (.enter (openAttempt host a s).2.2)
        (.enter (openAttempt host' b t).2.2) :=
      { world := opened, events := rfl, workspaceDir := rfl, staged := rfl }
    have guarded : Agree (SameFrame R)
        (guardedAttempt host a spec (openAttempt host a s).1 (openAttempt host a s).2.1)
        (guardedAttempt host' b spec (openAttempt host' b t).1 (openAttempt host' b t).2.1) := by
      rw [execution, owner]
      refine .tryFinally (.tryExcept (attemptBlock_agree hh ha spec _ readable) fun exc => ?_)
        (finishAttempt_agree hh ha _)
      rw [ha.failureReasonMaxLength, ha.nestingLimit]
      exact .ofExcept
    have ends := guarded _ _ start
    exact ⟨ends.outcome, ends.state.world⟩

end Perago
