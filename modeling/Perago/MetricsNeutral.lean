import Perago.AttemptAgreement
import Perago.EffectContract

/-!
# Metrics never change an attempt

An attempt is watched: its calls are written down with their arguments, beside the world
they act on and the state of a metric recorder. With workspace metrics and without them,
the watched attempts make the same calls and end alike.
-/

namespace Perago

open Effect

/-! ## Watched attempts -/

/-- A call of a callback, of the body or of the local cleanup, with its arguments. -/
inductive WatchedCall where
  | downloadWorkspace (input : WorkspaceInput) (spec : WorkspaceSpec) (workspaceDir : Path)
  | body (workspaceDir : Path) (params : PyValue)
  | loadCurrentAttempt (attempt : ConductorRuntime.ConductorTaskAttempt)
  | stageWorkspace (workspaceDir : Path) (input : WorkspaceInput) (spec : WorkspaceSpec)
      (execution : TaskExecutionContext)
  | publishWorkspace (staged : StagedWorkspace) (input : WorkspaceInput) (spec : WorkspaceSpec)
      (execution : TaskExecutionContext)
  | completeNoopWorkspace (input : WorkspaceInput) (spec : WorkspaceSpec)
      (execution : TaskExecutionContext)
  | cleanupStaging (staged : StagedWorkspace)
  | rmtree (workspaceDir : Path)
  | unregisterOwner (token : String)

/-- How a world is part of a larger state, and what a call leaves there. -/
structure Watch (σ τ : Type) where
  view : τ → σ
  update : σ → τ → τ
  note : WatchedCall → τ → τ

variable {σ τ τ' μ α : Type}

namespace Watch

variable (w : Watch σ τ)

def lift (f : Proc PyException σ α) : Proc PyException τ α := .zoom w.view w.update f

def call (c : WatchedCall) (f : Proc PyException σ α) : Proc PyException τ α := do
  .modify (w.note c)
  w.lift f

end Watch

variable (w : Watch σ τ)

def Host.watchedBy (host : Host σ) : Host τ where
  workerId := host.workerId
  pid := host.pid
  sha256 := host.sha256
  uuid4Hex t := ((host.uuid4Hex (w.view t)).1, w.update (host.uuid4Hex (w.view t)).2 t)
  registerOwner token t := w.update (host.registerOwner token (w.view t)) t
  unregisterOwner token t :=
    w.note (.unregisterOwner token) (w.update (host.unregisterOwner token (w.view t)) t)
  mkdir dir := w.lift (host.mkdir dir)
  writeMarker path marker := w.lift (host.writeMarker path marker)
  rglob dir := w.lift (host.rglob dir)
  isFile path := w.lift (host.isFile path)
  isDir path := w.lift (host.isDir path)
  globCount dir pattern := w.lift (host.globCount dir pattern)
  readlink path := w.lift (host.readlink path)
  readBytes path := w.lift (host.readBytes path)
  fileSize path := w.lift (host.fileSize path)
  writeBytes path bytes := w.lift (host.writeBytes path bytes)
  rmtree dir := w.call (.rmtree dir) (host.rmtree dir)

/-- The attempt with the given metrics, and a body that ignores its recorder. -/
def WorkspaceAttempt.watchedBy (a : WorkspaceAttempt σ) (metrics : Option MetricSpec)
    (recorder : Option (MetricRecorder τ)) : WorkspaceAttempt τ where
  task := {
    name := a.task.name
    workspace := a.task.workspace
    metrics := metrics
    validateParams := a.task.validateParams
    validateResult := a.task.validateResult
    fn dir params _ := w.call (.body dir params) (a.task.fn dir params none) }
  inputData := a.inputData
  attempt := a.attempt
  workspaceRoot := a.workspaceRoot
  callbacks := {
    downloadWorkspace i spec dir :=
      w.call (.downloadWorkspace i spec dir) (a.callbacks.downloadWorkspace i spec dir)
    loadCurrentAttempt attempt :=
      w.call (.loadCurrentAttempt attempt) (a.callbacks.loadCurrentAttempt attempt)
    stageWorkspace dir i spec execution :=
      w.call (.stageWorkspace dir i spec execution)
        (a.callbacks.stageWorkspace dir i spec execution)
    publishWorkspace staged i spec execution :=
      w.call (.publishWorkspace staged i spec execution)
        (a.callbacks.publishWorkspace staged i spec execution)
    cleanupStaging staged :=
      w.call (.cleanupStaging staged) (a.callbacks.cleanupStaging staged)
    completeNoopWorkspace := a.callbacks.completeNoopWorkspace.map fun noop i spec execution =>
      w.call (.completeNoopWorkspace i spec execution) (noop i spec execution) }
  ownerWorkerId := a.ownerWorkerId
  executionId := a.executionId
  metrics := recorder
  failureReasonMaxLength := a.failureReasonMaxLength
  nestingLimit := a.nestingLimit

/-! ## Two watches of one attempt -/

structure Watch.Agree (R : τ → τ' → Prop) (w : Watch σ τ) (w' : Watch σ τ') : Prop where
  view : ∀ s t, R s t → w.view s = w'.view t
  update : ∀ x s t, R s t → R (w.update x s) (w'.update x t)
  note : ∀ c s t, R s t → R (w.note c s) (w'.note c t)

variable {w} {w' : Watch σ τ'} {R : τ → τ' → Prop} {host : Host σ} {a : WorkspaceAttempt σ}

theorem Watch.Agree.lift (hw : w.Agree R w') (f : Proc PyException σ α) :
    Effect.Agree R (w.lift f) (w'.lift f) := by
  have self : Effect.Agree Eq f f := fun s t h => h ▸ ⟨rfl, rfl⟩
  exact self.zoom hw.view fun s t u v hst huv => huv ▸ hw.update u s t hst

theorem Watch.Agree.call (hw : w.Agree R w') (c : WatchedCall) (f : Proc PyException σ α) :
    Effect.Agree R (w.call c f) (w'.call c f) :=
  .bind (.modify (hw.note c)) fun _ => hw.lift f

theorem Host.watchedBy_agree (host : Host σ) (hw : w.Agree R w') :
    (host.watchedBy w).Agree R (host.watchedBy w') where
  workerId := rfl
  pid := rfl
  sha256 := rfl
  uuid4Hex s t h := by
    simp only [Host.watchedBy, hw.view s t h, true_and]
    exact hw.update _ s t h
  registerOwner token s t h := by
    simp only [Host.watchedBy, hw.view s t h]
    exact hw.update _ s t h
  unregisterOwner token s t h := by
    simp only [Host.watchedBy, hw.view s t h]
    exact hw.note _ _ _ (hw.update _ s t h)
  mkdir _ := hw.lift _
  writeMarker _ _ := hw.lift _
  rglob _ := hw.lift _
  isFile _ := hw.lift _
  isDir _ := hw.lift _
  globCount _ _ := hw.lift _
  readlink _ := hw.lift _
  readBytes _ := hw.lift _
  fileSize _ := hw.lift _
  rmtree _ := hw.call _ _

/-- The first attempt may have metrics, whose recorder the second does not see. -/
theorem WorkspaceAttempt.watchedBy_agree (a : WorkspaceAttempt σ) (hw : w.Agree R w')
    {metrics metrics' : Option MetricSpec} {recorder : Option (MetricRecorder τ)}
    {recorder' : Option (MetricRecorder τ')} (given : metrics.isSome → recorder.isSome)
    (given' : metrics'.isSome → recorder'.isSome)
    (unseen : ∀ m, recorder = some m → m.Unseen R)
    (disabled : metrics'.any (·.workspaceIo) = false) :
    (a.watchedBy w metrics recorder).Agree R (a.watchedBy w' metrics' recorder') where
  workspace := rfl
  validateParams := rfl
  validateResult := rfl
  inputData := rfl
  attempt := rfl
  workspaceRoot := rfl
  ownerWorkerId := rfl
  executionId := rfl
  failureReasonMaxLength := rfl
  nestingLimit := rfl
  fn _ _ _ _ := hw.call _ _
  downloadWorkspace _ _ _ := hw.call _ _
  loadCurrentAttempt _ := hw.call _ _
  stageWorkspace _ _ _ _ := hw.call _ _
  publishWorkspace _ _ _ _ := hw.call _ _
  cleanupStaging _ := hw.call _ _
  completeNoopWorkspace := by
    unfold WorkspaceAttempt.watchedBy
    cases a.callbacks.completeNoopWorkspace with
    | none => exact .none
    | some noop => exact .some fun _ _ _ => hw.call _ _
  recorder := ⟨given, given'⟩
  unseen := unseen
  disabled := by
    unfold workspaceIoMetrics WorkspaceAttempt.watchedBy
    simp only [disabled, Bool.false_eq_true, if_false]

/-! ## The calls of an attempt -/

/-- A world, the calls made in it, and what a recorder has kept. -/
structure Watched (σ μ : Type) where
  world : σ
  calls : List WatchedCall
  recorded : μ

/-- Every call is written down. -/
def Watch.calls : Watch σ (Watched σ μ) where
  view := Watched.world
  update x s := { s with world := x }
  note c s := { s with calls := s.calls ++ [c] }

/-- Nothing is written down. -/
def Watch.plain : Watch σ σ where
  view := id
  update x _ := x
  note _ s := s

/-- A recorder at work beside the world. -/
def MetricRecorder.beside (recorder : MetricRecorder μ) : MetricRecorder (Watched σ μ) where
  runtimeTimerEnter metric s :=
    { s with recorded := recorder.runtimeTimerEnter metric s.recorded }
  runtimeTimerExit metric s := { s with recorded := recorder.runtimeTimerExit metric s.recorded }
  runtimeHistogram metric n s :=
    { s with recorded := recorder.runtimeHistogram metric n s.recorded }

/-- The same world and the same calls, whatever the recorders have kept. -/
structure Watched.SameRun (s t : Watched σ μ) : Prop where
  world : s.world = t.world
  calls : s.calls = t.calls

theorem calls_agree_calls :
    (Watch.calls : Watch σ (Watched σ μ)).Agree Watched.SameRun Watch.calls where
  view _ _ h := h.world
  update _ _ _ h := ⟨rfl, h.calls⟩
  note c _ _ h := ⟨h.world, congrArg (· ++ [c]) h.calls⟩

theorem calls_agree_plain :
    (Watch.calls : Watch σ (Watched σ μ)).Agree (fun s t => s.world = t) Watch.plain where
  view _ _ h := h
  update _ _ _ _ := rfl
  note _ _ _ h := h

/-- Whatever is told of the world and the calls alone. -/
theorem beside_unseen (recorder : MetricRecorder μ) {R : Watched σ μ → τ → Prop}
    (told : ∀ s m t, R s t → R { s with recorded := m } t) : recorder.beside.Unseen R where
  runtimeTimerEnter _ _ _ h := told _ _ _ h
  runtimeTimerExit _ _ _ h := told _ _ _ h
  runtimeHistogram _ _ _ _ h := told _ _ _ h

/-! ## A readable workspace, watched -/

variable {dir : Path} {s t : Watched σ μ}

theorem call_calls_ok {c : WatchedCall} {f : Proc PyException σ α} {b : α}
    (h : Watch.calls.call c f s = (.ok b, t)) : f s.world = (.ok b, t.world) := by
  obtain ⟨_, u, hu, h⟩ := Proc.bind_ok_iff.mp h
  cases hu
  obtain ⟨v, hv, rfl⟩ := Proc.zoom_ok_iff.mp h
  exact hv

theorem Host.Readable.watched (h : host.Readable dir s.world) :
    (host.watchedBy .calls).Readable dir s := by
  obtain ⟨tree, listed, sizes⟩ := h
  refine ⟨tree, Proc.zoom_ok_iff.mpr ⟨_, listed, rfl⟩, fun e he file => ?_⟩
  obtain ⟨n, hn⟩ := sizes e he file
  exact ⟨n, Proc.zoom_ok_iff.mpr ⟨_, hn, rfl⟩⟩

theorem Host.Readable.of_watched (h : (host.watchedBy .calls).Readable dir s) :
    host.Readable dir s.world := by
  have unlifted {α : Type} {f : Proc PyException σ α} {b : α}
      (hf : Watch.calls.lift f s = (.ok b, s)) : f s.world = (.ok b, s.world) := by
    obtain ⟨w, hw, same⟩ := Proc.zoom_ok_iff.mp hf
    obtain rfl : s.world = w := congrArg Watched.world same
    exact hw
  obtain ⟨tree, listed, sizes⟩ := h
  refine ⟨tree, unlifted listed, fun e he file => ?_⟩
  obtain ⟨n, hn⟩ := sizes e he file
  exact ⟨n, unlifted hn⟩

theorem ReadableWorkspace.watched (h : ReadableWorkspace host a dir)
    (metrics : Option MetricSpec) (recorder : Option (MetricRecorder (Watched σ μ))) :
    ReadableWorkspace (host.watchedBy .calls) (a.watchedBy .calls metrics recorder) dir where
  downloaded i spec s t hs := (h.downloaded i spec _ _ (call_calls_ok hs)).watched
  snapshotted s files t hs := by
    have alike := snapshotWorkspace_agree (host.watchedBy_agree calls_agree_plain) dir s _ rfl
    rw [hs] at alike
    have unwatched : snapshotWorkspace host dir s.world = (.ok files, t.world) :=
      Prod.ext alike.outcome.symm alike.state.symm
    exact (h.snapshotted s.world files t.world unwatched).watched
  fenced s fresh t here hs := (h.fenced _ fresh _ here.of_watched (call_calls_ok hs)).watched

/-! ## Metrics -/

/-- Being watched does not change the names that an attempt begins with. -/
theorem openAttempt_watched (metrics : Option MetricSpec)
    (recorder : Option (MetricRecorder (Watched σ μ))) (s : Watched σ μ) :
    (openAttempt (host.watchedBy .calls) (a.watchedBy .calls metrics recorder) s).1 =
      (openAttempt host a s.world).1 := by
  have agree : (a.watchedBy .calls none none).Agree (fun (s : Watched σ μ) t => s.world = t)
      (a.watchedBy .plain none none) :=
    a.watchedBy_agree calls_agree_plain nofun nofun nofun rfl
  exact (openAttempt_agree (host.watchedBy_agree calls_agree_plain) agree rfl).1

/-- A watched attempt, with metrics or without, ends as the attempt does without either. -/
theorem runWorkspaceTaskAttempt_watched (metrics : Option MetricSpec)
    (recorder : Option (MetricRecorder μ)) (given : metrics.isSome → recorder.isSome)
    (s : Watched σ μ) (readable : ReadableWorkspace host a
      (attemptWorkspaceDir a.workspaceRoot (openAttempt host a s.world).1)) :
    Alike (fun s t => s.world = t)
      (runWorkspaceTaskAttempt (host.watchedBy .calls)
        (a.watchedBy .calls metrics (recorder.map (·.beside))) s)
      (runWorkspaceTaskAttempt host (a.watchedBy .plain none none) s.world) := by
  have agree : (a.watchedBy .calls metrics (recorder.map (·.beside))).Agree
      (fun (s : Watched σ μ) t => s.world = t) (a.watchedBy .plain none none) := by
    refine a.watchedBy_agree calls_agree_plain (by simpa using given) nofun (fun m hm => ?_) rfl
    obtain ⟨r, -, rfl⟩ := Option.map_eq_some_iff.mp hm
    exact beside_unseen r fun _ _ _ h => h
  exact runWorkspaceTaskAttempt_agree (host.watchedBy_agree calls_agree_plain) agree rfl
    ⟨readable.downloaded, readable.snapshotted, readable.fenced⟩

/-- Workspace metrics change no call, no cleanup, no result and nothing in the world. -/
theorem metrics_never_change_attempt (host : Host σ) (a : WorkspaceAttempt σ)
    (recorder : MetricRecorder μ) (recorder' : Option (MetricRecorder μ))
    (metrics : Option MetricSpec) (disabled : metrics.any (·.workspaceIo) = false)
    (given : metrics.isSome → recorder'.isSome) (world : σ) (m m' : μ)
    (readable : ReadableWorkspace host a
      (attemptWorkspaceDir a.workspaceRoot (openAttempt host a world).1)) :
    let on := runWorkspaceTaskAttempt (host.watchedBy .calls)
      (a.watchedBy .calls (some ⟨true⟩) (some recorder.beside)) ⟨world, [], m⟩
    let off := runWorkspaceTaskAttempt (host.watchedBy .calls)
      (a.watchedBy .calls metrics (recorder'.map (·.beside))) ⟨world, [], m'⟩
    on.1 = off.1 ∧ on.2.calls = off.2.calls ∧ on.2.world = off.2.world := by
  intro on off
  have agree : (a.watchedBy .calls (some ⟨true⟩) (some recorder.beside)).Agree Watched.SameRun
      (a.watchedBy .calls metrics (recorder'.map (·.beside))) := by
    refine a.watchedBy_agree calls_agree_calls (fun _ => rfl) (by simpa using given) ?_ disabled
    intro r hr
    obtain rfl := Option.some.inj hr
    exact beside_unseen recorder fun _ _ _ h => ⟨h.world, h.calls⟩
  have watched := readable.watched metrics (recorder'.map (·.beside))
  rw [← openAttempt_watched metrics (recorder'.map (·.beside)) ⟨world, [], m'⟩] at watched
  have alike : Alike Watched.SameRun on off :=
    runWorkspaceTaskAttempt_agree (host.watchedBy_agree calls_agree_calls) agree ⟨rfl, rfl⟩ watched
  exact ⟨alike.outcome, alike.state.calls, alike.state.world⟩

/-- A recorder that counts what it is told. -/
def countingRecorder : MetricRecorder Nat where
  runtimeTimerEnter _ n := n + 1
  runtimeTimerExit _ n := n + 1
  runtimeHistogram _ _ n := n + 1

/-- The workspace of the calm attempt is read wherever it is measured. -/
theorem treeHost_readable (dir : Path) (t : LocalTree) : treeHost.Readable dir t :=
  ⟨t, rfl, fun _ _ _ => ⟨0, rfl⟩⟩

theorem metrics_never_change_calm_attempt :
    let on := runWorkspaceTaskAttempt (treeHost.watchedBy .calls)
      (calmAttempt.watchedBy .calls (some ⟨true⟩) (some countingRecorder.beside))
      ⟨emptyTree, [], 0⟩
    let off := runWorkspaceTaskAttempt (treeHost.watchedBy .calls)
      (calmAttempt.watchedBy .calls (some ⟨false⟩)
        ((some countingRecorder).map (·.beside))) ⟨emptyTree, [], 0⟩
    (on.1 = off.1 ∧ on.2.calls = off.2.calls ∧ on.2.world = off.2.world) ∧
      on.2.recorded = 8 ∧ off.2.recorded = 0 :=
  ⟨metrics_never_change_attempt treeHost calmAttempt countingRecorder (some countingRecorder)
    (some ⟨false⟩) rfl (fun _ => rfl) emptyTree 0 0
    { downloaded := fun _ _ _ t _ => treeHost_readable _ t
      snapshotted := fun _ _ t _ => treeHost_readable _ t
      fenced := fun _ _ t _ _ => treeHost_readable _ t }, by decide +kernel, by decide +kernel⟩

end Perago
