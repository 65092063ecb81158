import Perago.AttemptInvariants
import Mathlib.Data.List.Forall2

/-!
# The order of the effects of an attempt

How far an attempt gets determines what it has done: each call is made only after
the one before it succeeded, and at most one call fails. Where no call failed, an attempt
stops short of a completion only through work of its own that is named here.
-/

namespace Perago

open Effect
open ConductorRuntime (ConductorTaskAttempt)

/-! ## Well-behaved parameters -/

/-- An exception of the operating system, with a working `__str__`. -/
def SystemError (exc : PyException) : Prop := exc.text.isSome = true ∧ exc.cls.isOSError = true

theorem SystemError.wellFormed {exc : PyException} (h : SystemError exc) (limit : Nat) :
    exc.WellFormed limit where
  text := h.1
  reason task := by obtain hc | hc := task <;> simp [SystemError, hc, ExceptionClass.isOSError] at h
  outputData task := by
    obtain hc | hc := task <;> simp [SystemError, hc, ExceptionClass.isOSError] at h

/-- The calls of the operating system return or raise an `OSError`. -/
abbrev Host.Behaved {σ : Type} (host : Host σ) : Prop :=
  host.Keeps (fun _ => True) SystemError fun _ => False

/-- The calls of the operating system return or raise one of the `OSError`s `W`. -/
structure Host.Raises {σ : Type} (host : Host σ) (W : PyException → Prop) : Prop where
  keeps : host.Keeps (fun _ => True) W fun _ => False
  system : ∀ exc, W exc → SystemError exc

/-- Each callback, the body and each model returns or raises a well-formed exception. -/
structure WorkspaceAttempt.Behaved {σ : Type} (a : WorkspaceAttempt σ) : Prop where
  validateParams : ∀ v exc, a.task.validateParams v = .error exc → exc.WellFormed a.nestingLimit
  validateResult : ∀ v exc, a.task.validateResult v = .error exc → exc.WellFormed a.nestingLimit
  fn : ∀ dir params metrics,
    Survives (PyException.WellFormed a.nestingLimit) (a.task.fn dir params metrics)
  downloadWorkspace : ∀ i spec dir,
    Survives (PyException.WellFormed a.nestingLimit) (a.callbacks.downloadWorkspace i spec dir)
  loadCurrentAttempt : ∀ attempt,
    Survives (PyException.WellFormed a.nestingLimit) (a.callbacks.loadCurrentAttempt attempt)
  stageWorkspace : ∀ dir i spec execution, Survives (PyException.WellFormed a.nestingLimit)
    (a.callbacks.stageWorkspace dir i spec execution)
  publishWorkspace : ∀ staged i spec execution, Survives (PyException.WellFormed a.nestingLimit)
    (a.callbacks.publishWorkspace staged i spec execution)
  cleanupStaging : ∀ staged,
    Survives (PyException.WellFormed a.nestingLimit) (a.callbacks.cleanupStaging staged)
  completeNoopWorkspace : ∀ noop, a.callbacks.completeNoopWorkspace = some noop →
    ∀ i spec execution, Survives (PyException.WellFormed a.nestingLimit) (noop i spec execution)

/-! ## Progress -/

/-- The body of a writable attempt between its two snapshots. -/
structure BodyRun where
  initial : List SnapshotEntry
  raw : PyValue
  final : List SnapshotEntry

def BodyRun.changed (b : BodyRun) : Bool := decide (b.final ≠ b.initial)

/-- How far an attempt got, with the answers it got on its way. A read-only attempt has no
initial snapshot. -/
inductive Progress where
  | begun
  | downloaded
  | opened (initial : Option (List SnapshotEntry))
  | admitted (initial : Option (List SnapshotEntry))
  | ran (initial : Option (List SnapshotEntry)) (raw : PyValue)
  | checked (initial : Option (List SnapshotEntry)) (raw : PyValue)
  | compared (b : BodyRun)
  | fenced (b : BodyRun) (first : ConductorTaskAttempt)
  | staged (b : BodyRun) (first : ConductorTaskAttempt) (s : StagedWorkspace)
  | publishing (b : BodyRun) (first second : ConductorTaskAttempt) (s : StagedWorkspace)
  | relocated (b : BodyRun) (first : ConductorTaskAttempt) (ref : String)
  | published (b : BodyRun) (first second : ConductorTaskAttempt) (s : StagedWorkspace)
    (ref : String)

/-- The download, and the first snapshot of a writable attempt. -/
def openedEvents (initial : Option (List SnapshotEntry)) : List Event :=
  .download (.ok ()) :: (initial.map fun entries => .snapshot (.ok entries)).toList

/-- The events of a body that passed both guardrail checks. -/
def bodyEvents (initial : Option (List SnapshotEntry)) (raw : PyValue) : List Event :=
  openedEvents initial ++ [.guardrails .pre (.ok ())] ++ [.body (.ok raw)] ++
    [.guardrails .post (.ok ())]

/-- The events of a writable attempt up to the comparison of its snapshots. -/
def comparedEvents (b : BodyRun) : List Event :=
  bodyEvents (some b.initial) b.raw ++ [.snapshot (.ok b.final), .compared b.changed]

def Progress.events : Progress → List Event
  | begun => []
  | downloaded => [.download (.ok ())]
  | opened initial => openedEvents initial
  | admitted initial => openedEvents initial ++ [.guardrails .pre (.ok ())]
  | ran initial raw =>
    openedEvents initial ++ [.guardrails .pre (.ok ())] ++ [.body (.ok raw)]
  | checked initial raw => bodyEvents initial raw
  | compared b => comparedEvents b
  | fenced b first => comparedEvents b ++ [.loadCurrentAttempt (.ok first)]
  | staged b first s => comparedEvents b ++ [.loadCurrentAttempt (.ok first)] ++ [.stage (.ok s)]
  | publishing b first second s =>
    comparedEvents b ++ [.loadCurrentAttempt (.ok first)] ++ [.stage (.ok s)] ++
      [.loadCurrentAttempt (.ok second)]
  | relocated b first ref =>
    comparedEvents b ++ [.loadCurrentAttempt (.ok first)] ++ [.noop (.ok ref)]
  | published b first second s ref =>
    comparedEvents b ++ [.loadCurrentAttempt (.ok first)] ++ [.stage (.ok s)] ++
      [.loadCurrentAttempt (.ok second)] ++ [.publish s (.ok ref)]

def Progress.stagedWorkspace : Progress → Option StagedWorkspace
  | staged _ _ s | publishing _ _ _ s | published _ _ _ s _ => some s
  | _ => none

/-- The body of an attempt that has compared its snapshots. -/
def Progress.bodyRun : Progress → Option BodyRun
  | compared b | fenced b _ | staged b _ _ | publishing b _ _ _ | relocated b _ _
  | published b _ _ _ _ => some b
  | _ => none

/-- The snapshots that were taken. -/
def Progress.snapshots : Progress → List (List SnapshotEntry)
  | begun | downloaded => []
  | opened initial | admitted initial | ran initial _ | checked initial _ => initial.toList
  | compared b | fenced b _ | staged b _ _ | publishing b _ _ _ | relocated b _ _
  | published b _ _ _ _ => [b.initial, b.final]

/-- A fence that raised, or gave the snapshot of another attempt. -/
def RejectedFence (attempt : ConductorTaskAttempt) (e : Event) (exc : PyException) : Prop :=
  e = .loadCurrentAttempt (.error exc) ∨ ∃ fresh, e = .loadCurrentAttempt (.ok fresh) ∧
    ¬ CurrentAttempt attempt fresh ∧ exc = staleAttempt attempt

/-- The call that can fail next, and the exception it ends the attempt with. -/
def Progress.Failure (attempt : ConductorTaskAttempt) (readOnly : Bool) (e : Event)
    (exc : PyException) : Progress → Prop
  | begun => e = .download (.error exc)
  | downloaded => readOnly = false ∧ e = .snapshot (.error exc)
  | opened _ => e = .guardrails .pre (.error exc)
  | admitted _ => e = .body (.error exc)
  | ran _ _ => e = .guardrails .post (.error exc)
  | checked _ _ => readOnly = false ∧ e = .snapshot (.error exc)
  | compared _ | staged _ _ _ => RejectedFence attempt e exc
  | fenced b _ => e = if b.changed then .stage (.error exc) else .noop (.error exc)
  | publishing _ _ _ s => e = .publish s (.error exc)
  | relocated _ _ _ | published _ _ _ _ _ => False

/-- Nothing is compared on a read-only workspace, fences that were passed gave the current
attempt, and only a changed workspace is staged. -/
def Progress.Admissible (attempt : ConductorTaskAttempt) (readOnly : Bool) : Progress → Prop
  | begun | downloaded => True
  | opened initial | admitted initial | ran initial _ | checked initial _ =>
    initial.isNone = readOnly
  | compared _ => readOnly = false
  | fenced _ first => readOnly = false ∧ CurrentAttempt attempt first
  | staged b first _ => readOnly = false ∧ CurrentAttempt attempt first ∧ b.changed = true
  | relocated b first _ => readOnly = false ∧ CurrentAttempt attempt first ∧ b.changed = false
  | publishing b first second _ | published b first second _ _ =>
    readOnly = false ∧ CurrentAttempt attempt first ∧ b.changed = true ∧
      CurrentAttempt attempt second

variable {σ α : Type} {host : Host σ} {a : WorkspaceAttempt σ} {spec : WorkspaceSpec}
variable {W : PyException → Prop} {P : Progress} {F G H : Frame σ} {exc : PyException}
variable {dir : Option Path}

/-- The input is refused. -/
def WorkspaceAttempt.Refuses (a : WorkspaceAttempt σ) (exc : PyException) : Prop :=
  wrappedInput a.inputData = .error exc ∨ ∃ input, wrappedInput a.inputData = .ok input ∧
    (WorkspaceRef.validate input.1 = .error exc ∨ a.task.validateParams input.2 = .error exc)

/-- The output ref of the call that completes the attempt is refused. -/
def WorkspaceAttempt.RefusesRef (a : WorkspaceAttempt σ) (ref : String) (exc : PyException) :
    Prop :=
  ∃ i, a.HasInput i ∧ i.publishedOutput ref = .error exc

/-- Where an attempt stops between two calls, and with which exception. `W` are the
exceptions of the local machine. -/
def Progress.OwnFailure (a : WorkspaceAttempt σ) (W : PyException → Prop) (exc : PyException) :
    Progress → Prop
  | begun => a.Refuses exc ∨ W exc
  | downloaded => W exc
  | opened _ => a.Refuses exc
  | admitted _ => ¬ a.HasRecorder ∧ exc = missingRecorder
  | ran _ raw => a.task.validateResult raw = .error exc
  | fenced b _ => b.changed = true ∧ W exc
  | relocated _ _ ref | published _ _ _ _ ref => a.RefusesRef ref exc
  | checked _ _ | compared _ | staged _ _ _ | publishing _ _ _ _ => False

/-- The last call failed with the exception, or the attempt stopped before it. -/
def Progress.EndsWith (a : WorkspaceAttempt σ) (spec : WorkspaceSpec) (W : PyException → Prop)
    (exc : PyException) (P : Progress) : Option Event → Prop
  | some e => P.Failure a.attempt spec.readOnly e exc
  | none => P.OwnFailure a W exc

/-- The value of the body and the output ref of an attempt that got as far as a completion. -/
def Progress.Completed (i : WorkspaceInput) : Progress → PyValue → String → Prop
  | checked initial raw, raw', ref => initial = none ∧ raw' = raw ∧ ref = i.ref
  | relocated b _ ref', raw, ref | published b _ _ _ ref', raw, ref => raw = b.raw ∧ ref = ref'
  | _, _, _ => False

theorem Progress.Completed.ownFailure {i : WorkspaceInput} {raw : PyValue} {ref : String}
    (h : P.Completed i raw ref) (hi : a.HasInput i)
    (refused : i.publishedOutput ref = .error exc) : P.OwnFailure a W exc := by
  cases P with
  | checked initial raw' =>
    obtain ⟨rfl, rfl, rfl⟩ := h
    simp [i.publishedOutput_eq, i.ref_nonblank] at refused
  | relocated b first ref' | published b first second s ref' =>
    obtain ⟨rfl, rfl⟩ := h
    exact ⟨i, hi, refused⟩
  | _ => exact h.elim

/-- `Q` is `P` after one more call. -/
structure Progress.Next (P Q : Progress) (e : Event) : Prop where
  events : Q.events = P.events ++ [e]
  staged : Q.stagedWorkspace = P.stagedWorkspace
  snapshots : Q.snapshots = P.snapshots

/-! ## Steps of an attempt -/

/-- Frames that agree on what has been called. -/
structure Frame.Same (F G : Frame σ) : Prop where
  events : G.events = F.events
  staged : G.staged = F.staged
  worlds : G.snapshotWorlds = F.snapshotWorlds
  dir : G.workspaceDir = F.workspaceDir

theorem Frame.Same.refl (F : Frame σ) : Frame.Same F F := ⟨rfl, rfl, rfl, rfl⟩

theorem Frame.Same.trans (h : Frame.Same F G) (h' : Frame.Same G H) : Frame.Same F H :=
  ⟨h'.events.trans h.events, h'.staged.trans h.staged, h'.worlds.trans h.worlds,
    h'.dir.trans h.dir⟩

/-- `snapshot_workspace` of the attempt's directory gives these entries in these worlds. -/
def Frame.Taken (host : Host σ) (F : Frame σ) (snapshots : List (List SnapshotEntry)) : Prop :=
  List.Forall₂ (fun world entries => ∃ dir, F.workspaceDir = some dir ∧
    (snapshotWorkspace host dir world).1 = .ok entries) F.snapshotWorlds snapshots

theorem Frame.Taken.same {snapshots : List (List SnapshotEntry)} (h : F.Taken host snapshots)
    (same : Frame.Same F G) : G.Taken host snapshots := by
  unfold Frame.Taken at h ⊢
  rw [same.worlds]
  exact h.imp fun _ _ ⟨dir, hdir, taken⟩ => ⟨dir, same.dir.trans hdir, taken⟩

/-- The attempt has progressed to `P` in the given directory, and nothing failed. -/
structure At (host : Host σ) (a : WorkspaceAttempt σ) (spec : WorkspaceSpec) (dir : Option Path)
    (P : Progress) (F : Frame σ) : Prop where
  dir : F.workspaceDir = dir
  admissible : P.Admissible a.attempt spec.readOnly
  events : F.events = P.events
  staged : F.staged = P.stagedWorkspace
  taken : F.Taken host P.snapshots

/-- The attempt has ended with a well-formed exception, after at most one failed call. -/
def Stopped (host : Host σ) (a : WorkspaceAttempt σ) (spec : WorkspaceSpec)
    (W : PyException → Prop) (exc : PyException) (F : Frame σ) : Prop :=
  exc.WellFormed a.nestingLimit ∧ ∃ (P : Progress) (failed : Option Event),
    P.Admissible a.attempt spec.readOnly ∧ P.EndsWith a spec W exc failed ∧
      F.events = P.events ++ failed.toList ∧ F.staged = P.stagedWorkspace ∧
      (P.bodyRun.isSome → F.Taken host P.snapshots)

theorem At.same (h : At host a spec dir P F) (same : Frame.Same F G) : At host a spec dir P G :=
  ⟨same.dir.trans h.dir, h.admissible, same.events.trans h.events, same.staged.trans h.staged,
    h.taken.same same⟩

theorem Stopped.same (h : Stopped host a spec W exc F) (same : Frame.Same F G) :
    Stopped host a spec W exc G := by
  obtain ⟨wf, P, failed, admissible, ends, events, staged, taken⟩ := h
  exact ⟨wf, P, failed, admissible, ends, same.events.trans events, same.staged.trans staged,
    fun h => (taken h).same same⟩

theorem At.stopped (h : At host a spec dir P F) (own : P.OwnFailure a W exc)
    (wf : exc.WellFormed a.nestingLimit) : Stopped host a spec W exc F :=
  ⟨wf, P, none, h.admissible, own, by simp [h.events], h.staged, fun _ => h.taken⟩

/-- The end of a step of an attempt. -/
abbrev StepEnds (host : Host σ) (a : WorkspaceAttempt σ) (spec : WorkspaceSpec)
    (W : PyException → Prop) (Q : α → Frame σ → Prop) (call : Outcome PyException α × Frame σ) :
    Prop :=
  Ends Q (Stopped host a spec W) (fun _ => False) call

theorem lift_ends {V : PyException → Prop} {f : Proc PyException σ α} (hf : Survives V f) :
    Ends (fun b G => (f F.world).1 = .ok b ∧ Frame.Same F G) (fun e G => V e ∧ Frame.Same F G)
      (fun _ => False) (Frame.lift f F) := by
  have ended := hf F.world trivial
  refine .zoom ?_
  generalize f F.world = call at ended
  obtain ⟨o, s⟩ := call
  cases o with
  | ok b => exact ⟨rfl, rfl, rfl, rfl, rfl⟩
  | error e => exact ⟨ended.1, rfl, rfl, rfl, rfl⟩
  | crashed => exact ended

/-- Work on the world alone leaves the progress as it is. -/
theorem At.lift {f : Proc PyException σ α} (h : At host a spec dir P F) (hh : host.Raises W)
    (own : ∀ exc, W exc → P.OwnFailure a W exc) (hf : Survives W f) :
    StepEnds host a spec W (fun _ => At host a spec dir P) (Frame.lift f F) :=
  (lift_ends hf).mono (fun _ _ hG => h.same hG.2)
    (fun _ _ he => (h.same he.2).stopped (own _ he.1) ((hh.system _ he.1).wellFormed _))
    fun _ h => h

theorem At.ofExcept {x : Except PyException α} (h : At host a spec dir P F)
    (own : ∀ exc, x = .error exc → P.OwnFailure a W exc)
    (wf : ∀ exc, x = .error exc → exc.WellFormed a.nestingLimit) :
    StepEnds host a spec W (fun b G => x = .ok b ∧ G = F) (Proc.ofExcept x F) :=
  .ofExcept (fun _ hb => ⟨hb, rfl⟩) fun e he => h.stopped (own e he) (wf e he)

/-- What has been recorded of a call that returned. -/
structure Frame.Recorded (e : Event) (F G : Frame σ) : Prop where
  events : G.events = F.events ++ [e]
  staged : G.staged = F.staged
  worlds : G.snapshotWorlds = F.snapshotWorlds
  dir : G.workspaceDir = F.workspaceDir

theorem Frame.Recorded.taken {e : Event} {snapshots : List (List SnapshotEntry)}
    (h : Frame.Recorded e F G) (taken : F.Taken host snapshots) : G.Taken host snapshots := by
  unfold Frame.Taken at taken ⊢
  rw [h.worlds]
  exact taken.imp fun _ _ ⟨dir, hdir, found⟩ => ⟨dir, h.dir.trans hdir, found⟩

/-- A recorded call appends its event, whatever it did. -/
theorem call_ends {V : PyException → Prop} {record : Except PyException α → Event}
    {f : Proc PyException σ α} (hf : Survives V f) :
    Ends (fun b G => (f F.world).1 = .ok b ∧ Frame.Recorded (record (.ok b)) F G)
      (fun e G => V e ∧ Frame.Recorded (record (.error e)) F G)
      (fun _ => False) (Frame.call record f F) := by
  refine .bind (Q := fun b G => (f F.world).1 = .ok b ∧ Frame.Same F G)
    (.tryExcept (lift_ends hf) fun e G he => ?_) fun b G hG => ?_
  · obtain ⟨raised, same⟩ := he
    exact ⟨raised, by simp [same.events], same.staged, same.worlds, same.dir⟩
  · obtain ⟨returned, same⟩ := hG
    exact ⟨returned, by simp [same.events], same.staged, same.worlds, same.dir⟩

theorem At.failed {e : Event} (h : At host a spec dir P F) (wf : exc.WellFormed a.nestingLimit)
    (failure : P.Failure a.attempt spec.readOnly e exc) (recorded : Frame.Recorded e F G) :
    Stopped host a spec W exc G :=
  ⟨wf, P, some e, h.admissible, failure, by simp [recorded.events, h.events],
    recorded.staged.trans h.staged, fun _ => recorded.taken h.taken⟩

/-- A recorded call leads from one progress to the next, or is the one that failed. -/
theorem At.call {record : Except PyException α → Event} {f : Proc PyException σ α}
    {next : α → Progress} (h : At host a spec dir P F)
    (hf : Survives (PyException.WellFormed a.nestingLimit) f)
    (failure : ∀ exc, P.Failure a.attempt spec.readOnly (record (.error exc)) exc)
    (admissible : ∀ b, (next b).Admissible a.attempt spec.readOnly)
    (follows : ∀ b, P.Next (next b) (record (.ok b))) :
    StepEnds host a spec W (fun b => At host a spec dir (next b)) (Frame.call record f F) := by
  refine (call_ends hf).mono (fun b G hb => ?_) (fun e G he => ?_) fun _ h => h
  · obtain ⟨-, recorded⟩ := hb
    exact ⟨recorded.dir.trans h.dir, admissible b,
      by rw [recorded.events, h.events, (follows b).events],
      by rw [recorded.staged, h.staged, (follows b).staged],
      (follows b).snapshots ▸ recorded.taken h.taken⟩
  · exact h.failed he.1 (failure e) he.2

/-- A snapshot is that of the world it is taken in. -/
theorem takeSnapshot_ends {path : Path} (hh : host.Raises W) (h : At host a spec (some path) P F)
    (failure : ∀ exc, P.Failure a.attempt spec.readOnly (.snapshot (.error exc)) exc)
    (early : P.bodyRun = none) :
    StepEnds host a spec W (fun b G => G.workspaceDir = some path ∧
        G.events = P.events ++ [.snapshot (.ok b)] ∧ G.staged = P.stagedWorkspace ∧
        G.Taken host (P.snapshots ++ [b])) (takeSnapshot host path F) := by
  let F' : Frame σ := { F with snapshotWorlds := F.snapshotWorlds ++ [F.world] }
  refine .bind (Q := fun _ G => F' = G) rfl fun _ G hG => ?_
  subst hG
  refine (call_ends (snapshotWorkspace_keeps hh.keeps path)).mono (fun b G hb => ?_)
    (fun e G he => ?_) fun _ h => h
  · obtain ⟨returned, recorded⟩ := hb
    have hdir : G.workspaceDir = some path := recorded.dir.trans h.dir
    refine ⟨hdir, by rw [recorded.events, h.events], recorded.staged.trans h.staged, ?_⟩
    unfold Frame.Taken
    rw [recorded.worlds]
    refine List.rel_append (h.taken.imp fun _ _ ⟨d, hd, found⟩ => ⟨d, ?_, found⟩)
      (.cons ⟨path, hdir, returned⟩ .nil)
    exact recorded.dir.trans hd
  · obtain ⟨raised, recorded⟩ := he
    have events : G.events = P.events ++ [.snapshot (.error e)] := by
      rw [recorded.events, ← h.events]
    exact ⟨(hh.system e raised).wellFormed _, P, some (.snapshot (.error e)), h.admissible,
      failure e, events, recorded.staged.trans h.staged, fun late => by simp [early] at late⟩

/-- A timer around a step that depends on what has been called only. -/
theorem timer_ends {Q : α → Frame σ → Prop} {metrics : MetricRecorder σ} {operation : String}
    {f : Proc PyException (Frame σ) α} (h : At host a spec dir P F)
    (hf : ∀ G, At host a spec dir P G → StepEnds host a spec W Q (f G))
    (hq : ∀ b G H, Q b G → Frame.Same G H → Q b H) :
    StepEnds host a spec W Q (withRuntimeTimer a metrics operation f F) :=
  withRuntimeTimer_ends h hf (fun _ _ hG => hG.same ⟨rfl, rfl, rfl, rfl⟩)
    (fun b G _ hQ => hq b G _ hQ ⟨rfl, rfl, rfl, rfl⟩) fun _ _ _ he => he.same ⟨rfl, rfl, rfl, rfl⟩

/-! ## Exceptions of the models -/

variable {limit : Nat}

theorem refField_wellFormed {value : PyValue} {field : String} 
    (h : refField value field = .error exc) : exc.WellFormed limit := by
  unfold refField at h
  split at h
  · cases h
    exact PyException.wellFormed_mk' _ (by decide)
  · split at h <;> cases h
    exact PyException.wellFormed_mk' _ (by decide)
  · cases h
    exact PyException.wellFormed_mk' _ (by decide)

theorem validate_wellFormed {value : PyValue} 
    (h : WorkspaceRef.validate value = .error exc) : exc.WellFormed limit := by
  have invalid : ∀ field message, (validationError field message).WellFormed limit :=
    fun _ _ => PyException.wellFormed_mk' _ (by decide)
  unfold WorkspaceRef.validate at h
  split at h
  · obtain h | ⟨repository, -, h⟩ := error_of_bind h
    · exact refField_wellFormed h
    obtain h | ⟨branch, -, h⟩ := error_of_bind h
    · exact refField_wellFormed h
    obtain h | ⟨ref, -, h⟩ := error_of_bind h
    · exact refField_wellFormed h
    split at h
    · split at h <;> cases h
      exact invalid _ _
    · cases h
      exact invalid _ _
    · cases h
      exact invalid _ _
  · cases h
    exact invalid _ _

theorem wrappedInput_wellFormed {value : PyValue} 
    (h : wrappedInput value = .error exc) : exc.WellFormed limit := by
  unfold wrappedInput at h
  split at h <;> cases h
  exact PyException.wellFormed_mk' _ (by decide)

/-! ## The phases -/

theorem invokeFn_ends (ha : a.Behaved) {initial : Option (List SnapshotEntry)}
    (h : At host a spec dir (.admitted initial) F) (path : Path) (params : PyValue) :
    StepEnds host a spec W (fun raw => At host a spec dir (.ran initial raw))
      (invokeFn a path params F) := by
  have called : ∀ metrics, StepEnds host a spec W (fun raw => At host a spec dir (.ran initial raw))
      (Frame.call .body (a.task.fn path params metrics) F) :=
    fun metrics =>
      h.call (ha.fn path params metrics) (fun _ => rfl) (fun _ => h.admissible)
      fun _ => ⟨rfl, rfl, rfl⟩
  unfold invokeFn
  cases hx : a.task.metrics with
  | none => exact called none
  | some _ => cases hm : a.metrics with
    | none =>
      have missing : ¬ a.HasRecorder := by simp [WorkspaceAttempt.HasRecorder, hx, hm]
      exact .raise (h.stopped ⟨missing, rfl⟩ (PyException.wellFormed_mk' _ (by decide)))
    | some metrics => exact called (some metrics)

theorem checkGuardrailsPhase_ends (hh : host.Raises W) {next : Progress} {phase : GuardrailPhase}
    (h : At host a spec dir P F) (path : Path) (guardrails : List WorkspaceGuardrail)
    (failure : ∀ exc, P.Failure a.attempt spec.readOnly (.guardrails phase (.error exc)) exc)
    (admissible : next.Admissible a.attempt spec.readOnly)
    (follows : P.Next next (.guardrails phase (.ok ()))) :
    StepEnds host a spec W (fun _ => At host a spec dir next)
      (checkGuardrailsPhase host path guardrails phase F) :=
  h.call (checkPhaseGuardrails_keeps (hh.keeps.mono fun e he => (hh.system e he).wellFormed _)
    (fun _ h => h a.nestingLimit) path guardrails phase) failure (fun _ => admissible)
    fun _ => follows

/-- A refused input is refused with a well-formed exception. -/
theorem Refuses.wellFormed (ha : a.Behaved) (h : a.Refuses exc) :
    exc.WellFormed a.nestingLimit := by
  obtain h | ⟨input, -, h | h⟩ := h
  · exact wrappedInput_wellFormed h
  · exact validate_wellFormed h
  · exact ha.validateParams _ _ h

theorem invokeWorkspaceTaskBody_ends (hh : host.Raises W) (ha : a.Behaved)
    {initial : Option (List SnapshotEntry)} (h : At host a spec dir (.opened initial) F)
    (path : Path) :
    StepEnds host a spec W (fun result G => ∃ raw, a.task.validateResult raw = .ok result ∧
        At host a spec dir (.checked initial raw) G)
      (invokeWorkspaceTaskBody host a spec path F) := by
  have refused : ∀ exc, a.Refuses exc → Stopped host a spec W exc F :=
    fun exc hr => h.stopped hr (Refuses.wellFormed ha hr)
  refine .bind (Q := fun input G => wrappedInput a.inputData = .ok input ∧ F = G)
    (.ofExcept (fun _ hb => ⟨hb, rfl⟩) fun e he => refused e (.inl he)) fun input _ hinput => ?_
  obtain ⟨hinput, rfl⟩ := hinput
  refine .bind (Q := fun _ G => F = G)
    (.ofExcept (fun _ _ => rfl) fun e he => refused e (.inr ⟨input, hinput, .inl he⟩))
    fun ref _ href => ?_
  subst href
  refine .bind (Q := fun _ G => F = G)
    (.ofExcept (fun _ _ => rfl) fun e he => refused e (.inr ⟨input, hinput, .inr he⟩))
    fun params _ hparams => ?_
  subst hparams
  refine .bind (Q := fun _ => At host a spec dir (.admitted initial))
    (checkGuardrailsPhase_ends hh h path spec.pre (fun _ => rfl) h.admissible ⟨rfl, rfl, rfl⟩)
    fun _ G admitted => ?_
  refine .bind (invokeFn_ends ha admitted path params) fun raw G ran => ?_
  refine .bind (ran.ofExcept (fun _ he => he) (ha.validateResult raw)) fun result _ hresult => ?_
  obtain ⟨hresult, rfl⟩ := hresult
  refine .bind (Q := fun _ => At host a spec dir (.checked initial raw))
    (checkGuardrailsPhase_ends hh ran path spec.post (fun _ => rfl) ran.admissible ⟨rfl, rfl, rfl⟩)
    fun _ G checked => ?_
  exact ⟨raw, hresult, checked⟩

variable {p : Prepared}

theorem downloadInput_ends (hh : host.Raises W) (ha : a.Behaved)
    (h : At host a spec dir .begun F) :
    StepEnds host a spec W (fun _ => At host a spec dir .downloaded)
      (downloadInput host a p F) := by
  have called : ∀ G, At host a spec dir .begun G →
      StepEnds host a spec W (fun _ => At host a spec dir .downloaded) (callDownload a p G) :=
    fun G hG =>
      hG.call (ha.downloadWorkspace _ _ _) (fun _ => rfl) (fun _ => trivial)
      fun _ => ⟨rfl, rfl, rfl⟩
  unfold downloadInput
  cases workspaceIoMetrics a with
  | none => exact called F h
  | some metrics =>
    refine .bind (timer_ends h called fun _ _ _ hQ => hQ.same) fun _ G downloaded => ?_
    refine .bind (downloaded.lift hh (fun _ he => he) (workspaceFileBytes_keeps hh.keeps _))
      fun bytes H hH => ?_
    exact hH.same ⟨rfl, rfl, rfl, rfl⟩

/-- A fence passes on a current snapshot, or is rejected. -/
theorem checkFence_ends (ha : a.Behaved) (next : ConductorTaskAttempt → Progress)
    (h : At host a spec dir P F)
    (failure : ∀ e exc, RejectedFence a.attempt e exc →
      P.Failure a.attempt spec.readOnly e exc)
    (admissible : ∀ fresh, CurrentAttempt a.attempt fresh →
      (next fresh).Admissible a.attempt spec.readOnly)
    (follows : ∀ fresh, P.Next (next fresh) (.loadCurrentAttempt (.ok fresh))) :
    StepEnds host a spec W (fun _ G => ∃ fresh, At host a spec dir (next fresh) G)
      (checkFence a F) := by
  refine .bind ((call_ends (ha.loadCurrentAttempt a.attempt)).mono
    (fun _ _ => id) (fun e G he => ?_) fun _ => id) fun fresh G hG => ?_
  · exact h.failed he.1 (failure _ _ (.inl rfl)) he.2
  · obtain ⟨-, recorded⟩ := hG
    by_cases current : CurrentAttempt a.attempt fresh
    · refine .ofExcept (fun _ _ => ?_) fun exc herror => ?_
      · exact ⟨fresh, recorded.dir.trans h.dir, admissible fresh current,
          by rw [recorded.events, h.events, (follows fresh).events],
          by rw [recorded.staged, h.staged, (follows fresh).staged],
          (follows fresh).snapshots ▸ recorded.taken h.taken⟩
      · simp [assertCurrentAttemptSnapshot, current] at herror
    · refine .ofExcept (fun _ hok => ?_) fun exc herror => ?_
      · simp [assertCurrentAttemptSnapshot, current] at hok
      · simp only [assertCurrentAttemptSnapshot, if_neg current, Except.error.injEq] at herror
        subst herror
        exact h.failed (PyException.wellFormed_mk' _ (by decide))
          (failure _ _ (.inr ⟨fresh, rfl, current, rfl⟩)) recorded

theorem beginAttempt_ends {execution : TaskExecutionContext} {owner : WorkspaceOwner}
    (hh : host.Raises W) (h : At host a spec dir .begun F) :
    StepEnds host a spec W (fun p G => p.spec = spec ∧ a.HasInput p.input ∧
        At host a spec (some p.workspaceDir) .begun G)
      (beginAttempt host a spec execution owner F) := by
  refine .bind (h.ofExcept (fun _ he => .inl (.inl he)) fun _ => wrappedInput_wellFormed)
    fun input _ hinput => ?_
  obtain ⟨hinput, rfl⟩ := hinput
  refine .bind (h.ofExcept (fun _ he => .inl (.inr ⟨input, hinput, .inl he⟩))
    fun _ => validate_wellFormed) fun ref _ href => ?_
  obtain ⟨href, rfl⟩ := href
  refine .bind (h.lift hh (fun _ he => .inr he) (prepareAttemptWorkspace_keeps hh.keeps _ _ _))
    fun path G begun => ?_
  have untaken : G.snapshotWorlds = [] := List.forall₂_nil_right_iff.mp begun.taken
  refine ⟨rfl, ⟨input.1, input.2, hinput, href⟩, rfl, trivial, begun.events, begun.staged, ?_⟩
  simpa [Frame.Taken, Progress.snapshots] using untaken

/-- Where the body leaves an attempt that completes in the given way. -/
inductive Completion.Follows (a : WorkspaceAttempt σ) (result : PyValue) :
    Completion → Progress → Prop where
  | readOnly {raw : PyValue} : a.task.validateResult raw = .ok result →
    Follows a result .readOnly (.checked none raw)
  | unchanged {b : BodyRun} : a.task.validateResult b.raw = .ok result → b.changed = false →
    Follows a result .unchanged (.compared b)
  | changed {b : BodyRun} : a.task.validateResult b.raw = .ok result → b.changed = true →
    Follows a result .changed (.compared b)

theorem runBody_ends (hh : host.Raises W) (ha : a.Behaved)
    (h : At host a p.spec (some p.workspaceDir) .begun F) :
    StepEnds host a p.spec W (fun r G => ∃ P, r.2.Follows a r.1 P ∧
      At host a p.spec (some p.workspaceDir) P G) (runBody host a p F) := by
  have body := fun initial G
      (opened : At host a p.spec (some p.workspaceDir) (.opened initial) G) =>
    invokeWorkspaceTaskBody_ends hh ha opened p.workspaceDir
  unfold runBody
  refine .bind (downloadInput_ends hh ha h) fun _ G downloaded => ?_
  cases hread : p.spec.readOnly with
  | true =>
    have opened : At host a p.spec (some p.workspaceDir) (.opened none) G :=
      ⟨downloaded.dir, hread.symm, downloaded.events, downloaded.staged, downloaded.taken⟩
    refine .bind (Q := fun _ => At host a p.spec (some p.workspaceDir) (.opened none)) opened
      fun _ G opened => ?_
    refine .bind (body none G opened) fun result G hG => ?_
    obtain ⟨raw, hresult, checked⟩ := hG
    exact ⟨_, .readOnly hresult, checked⟩
  | false =>
    refine .bind (Q := fun initial G => ∃ entries, initial = some entries ∧
        At host a p.spec (some p.workspaceDir) (.opened (some entries)) G)
      (.bind (takeSnapshot_ends hh downloaded (fun _ => ⟨hread, rfl⟩) rfl)
        fun entries G hG => .pure ⟨entries, rfl, ?_⟩) fun initial G hG => ?_
    · obtain ⟨hdir, events, staged, taken⟩ := hG
      exact ⟨hdir, hread.symm, events, staged, taken⟩
    obtain ⟨initial, rfl, opened⟩ := hG
    refine .bind (body (some initial) G opened) fun result G hG => ?_
    obtain ⟨raw, hresult, checked⟩ := hG
    refine .bind (takeSnapshot_ends hh checked (fun _ => ⟨hread, rfl⟩) rfl) fun final G hG => ?_
    obtain ⟨hdir, events, staged, taken⟩ := hG
    let b : BodyRun := ⟨initial, raw, final⟩
    have changed : decide (some final ≠ some initial) = b.changed := by simp [BodyRun.changed, b]
    rw [changed]
    refine .bind (Q := fun _ => At host a p.spec (some p.workspaceDir) (.compared b)) ?_
      fun _ H compared => ?_
    · refine ⟨hdir, hread, ?_, staged, taken⟩
      simp [events, Progress.events, comparedEvents, b]
    · cases hc : b.changed with
      | false => exact ⟨_, .unchanged hresult hc, compared⟩
      | true => exact ⟨_, .changed hresult hc, compared⟩

/-- A completed attempt: its progress, its output and its result. -/
def Finished (host : Host σ) (a : WorkspaceAttempt σ) (p : Prepared) (r : RuntimeTaskResult)
    (F : Frame σ) : Prop :=
  ∃ (P : Progress) (ref : String) (output : WorkspaceOutput) (raw result : PyValue),
    At host a p.spec (some p.workspaceDir) P F ∧ P.Completed p.input raw ref ∧
      p.input.publishedOutput ref = .ok output ∧ a.task.validateResult raw = .ok result ∧
      r = completedResult [(.str "workspace", output.modelDump), (.str "result", result)]

theorem completeWith_ends {ref : String} {raw result : PyValue} (hi : a.HasInput p.input)
    (h : At host a p.spec (some p.workspaceDir) P F) (completed : P.Completed p.input raw ref)
    (hresult : a.task.validateResult raw = .ok result) :
    StepEnds host a p.spec W (Finished host a p) (completeWith p ref result F) := by
  refine .bind (h.ofExcept (fun _ he => completed.ownFailure hi he) fun _ => validate_wellFormed)
    fun output _ houtput => ?_
  obtain ⟨houtput, rfl⟩ := houtput
  exact ⟨P, ref, output, raw, result, h, completed, houtput, hresult, rfl⟩

theorem withPublishTimer_ends {f : Proc PyException (Frame σ) String} {next : String → Progress}
    (h : At host a p.spec dir P F)
    (hf : ∀ G, At host a p.spec dir P G →
      StepEnds host a p.spec W (fun ref => At host a p.spec dir (next ref)) (f G)) :
    StepEnds host a p.spec W (fun ref => At host a p.spec dir (next ref))
      (withPublishTimer a f F) := by
  unfold withPublishTimer
  cases workspaceIoMetrics a with
  | none => exact hf F h
  | some metrics => exact timer_ends h hf fun _ _ _ hQ => hQ.same

variable {b : BodyRun} {first second : ConductorTaskAttempt}

theorem completeNoop_ends (ha : a.Behaved)
    (supplied : a.callbacks.completeNoopWorkspace.isSome = true) (unchanged : b.changed = false)
    (h : At host a p.spec dir (.fenced b first) F) :
    StepEnds host a p.spec W (fun ref => At host a p.spec dir (.relocated b first ref))
      (completeNoop a p F) := by
  obtain ⟨noop, hnoop⟩ := Option.isSome_iff_exists.mp supplied
  refine withPublishTimer_ends h fun G hG => ?_
  rw [hnoop]
  exact hG.call (ha.completeNoopWorkspace noop hnoop _ _ _)
    (fun _ => by simp [Progress.Failure, unchanged])
    (fun _ => ⟨hG.admissible.1, hG.admissible.2, unchanged⟩) fun _ => ⟨rfl, rfl, rfl⟩

theorem stageChanges_ends (hh : host.Raises W) (ha : a.Behaved) (changed : b.changed = true)
    (h : At host a p.spec dir (.fenced b first) F) :
    StepEnds host a p.spec W (fun s => At host a p.spec dir (.staged b first s))
      (stageChanges host a p F) := by
  have called : ∀ G, At host a p.spec dir (.fenced b first) G →
      StepEnds host a p.spec W (fun s => At host a p.spec dir (.staged b first s))
        (callStage a p G) := by
    intro G hG
    refine .bind ((call_ends (ha.stageWorkspace _ _ _ _)).mono (fun _ _ => id) (fun e H he => ?_)
      fun _ => id) fun s H hH => ?_
    · exact hG.failed he.1 (by simp [Progress.Failure, changed]) he.2
    · obtain ⟨-, recorded⟩ := hH
      exact ⟨recorded.dir.trans hG.dir, ⟨hG.admissible.1, hG.admissible.2, changed⟩,
        by simp [recorded.events, hG.events, Progress.events], rfl, recorded.taken hG.taken⟩
  unfold stageChanges
  cases workspaceIoMetrics a with
  | none => exact called F h
  | some metrics =>
    refine .bind (h.lift hh (fun _ he => ⟨changed, he⟩) (workspaceFileBytes_keeps hh.keeps _))
      fun bytes G hG => ?_
    refine .bind (timer_ends hG called fun _ _ _ hQ => hQ.same) fun s H hH => ?_
    exact hH.same ⟨rfl, rfl, rfl, rfl⟩

theorem publishStaged_ends {s : StagedWorkspace} (ha : a.Behaved)
    (h : At host a p.spec dir (.publishing b first second s) F) :
    StepEnds host a p.spec W (fun ref => At host a p.spec dir (.published b first second s ref))
      (publishStaged a p s F) :=
  withPublishTimer_ends h fun _ hG => hG.call (ha.publishWorkspace _ _ _ _) (fun _ => rfl)
    (fun _ => hG.admissible) fun _ => ⟨rfl, rfl, rfl⟩

theorem complete_ends (hh : host.Raises W) (ha : a.Behaved)
    (supplied : a.callbacks.completeNoopWorkspace.isSome = true) (hi : a.HasInput p.input)
    {result : PyValue} {completion : Completion} (follows : completion.Follows a result P)
    (h : At host a p.spec (some p.workspaceDir) P F) :
    StepEnds host a p.spec W (Finished host a p) (complete host a p result completion F) := by
  cases follows with
  | readOnly hresult => exact completeWith_ends hi h ⟨rfl, rfl, rfl⟩ hresult
  | @unchanged b hresult unchanged =>
    refine .bind (checkFence_ends ha (.fenced b) h (fun _ _ => id)
      (fun _ current => ⟨h.admissible, current⟩) fun _ => ⟨rfl, rfl, rfl⟩) fun _ G hG => ?_
    obtain ⟨first, hG⟩ := hG
    refine .bind (completeNoop_ends ha supplied unchanged hG) fun ref H hH => ?_
    exact completeWith_ends hi hH ⟨rfl, rfl⟩ hresult
  | @changed b hresult changed =>
    refine .bind (checkFence_ends ha (.fenced b) h (fun _ _ => id)
      (fun _ current => ⟨h.admissible, current⟩) fun _ => ⟨rfl, rfl, rfl⟩) fun _ G hG => ?_
    obtain ⟨first, hG⟩ := hG
    refine .bind (stageChanges_ends hh ha changed hG) fun s H hH => ?_
    refine .bind (checkFence_ends ha (fun f => .publishing b first f s) hH (fun _ _ => id)
      (fun _ current => ⟨hH.admissible.1, hH.admissible.2.1, hH.admissible.2.2, current⟩)
      fun _ => ⟨rfl, rfl, rfl⟩) fun _ K hK => ?_
    obtain ⟨second, hK⟩ := hK
    refine .bind (publishStaged_ends ha hK) fun ref L hL => ?_
    exact completeWith_ends hi hL ⟨rfl, rfl⟩ hresult

/-- The `try` block completes the attempt, or stops with an exception. -/
theorem attemptBlock_ends {execution : TaskExecutionContext} {owner : WorkspaceOwner}
    (hh : host.Raises W) (ha : a.Behaved)
    (supplied : a.callbacks.completeNoopWorkspace.isSome = true)
    (h : At host a spec dir .begun F) :
    StepEnds host a spec W
      (fun r G => ∃ p, p.spec = spec ∧ a.HasInput p.input ∧ Finished host a p r G)
      (attemptBlock host a spec execution owner F) := by
  refine .bind (beginAttempt_ends hh h) fun p G hG => ?_
  obtain ⟨rfl, hinput, begun⟩ := hG
  refine .bind (runBody_ends hh ha begun) fun r H hH => ?_
  obtain ⟨P, follows, hP⟩ := hH
  exact (complete_ends hh ha supplied hinput follows hP).mono
    (fun r K hK => ⟨p, rfl, hinput, hK⟩) (fun _ _ => id) fun _ => id

/-- The result of an attempt, before its `finally` block. -/
def Reported (host : Host σ) (a : WorkspaceAttempt σ) (spec : WorkspaceSpec)
    (W : PyException → Prop) (r : RuntimeTaskResult) (F : Frame σ) : Prop :=
  (∃ p, p.spec = spec ∧ a.HasInput p.input ∧ Finished host a p r F) ∨
    ∃ exc, Stopped host a spec W exc F ∧
      resultForException a.nestingLimit exc a.failureReasonMaxLength = .ok r

/-- What the `finally` block calls. -/
structure Cleaned (F G : Frame σ) : Prop where
  events : ∃ outcome, G.events = F.events ++ (F.staged.map (.cleanupStaging · outcome)).toList
  worlds : G.snapshotWorlds = F.snapshotWorlds
  dir : G.workspaceDir = F.workspaceDir

theorem cleanupStaged_ends (ha : a.Behaved) :
    Ends (fun _ => Cleaned F) (fun _ _ => False) (fun _ => False) (cleanupStaged a F) := by
  unfold cleanupStaged
  refine .bind (Q := fun s G => s = F.staged ∧ F = G) ⟨rfl, rfl⟩ fun staged G hG => ?_
  obtain ⟨hs, rfl⟩ := hG
  cases staged with
  | none => exact ⟨⟨.ok (), by simp [← hs]⟩, rfl, rfl⟩
  | some s =>
    refine .tryExcept ((call_ends (ha.cleanupStaging s)).mono
      (D := fun _ => Cleaned F) (fun b G hG => ?_) (fun e G hG => ?_) fun _ => id) fun _ _ h => h
    · obtain ⟨-, recorded⟩ := hG
      exact ⟨⟨.ok (), by simp [← hs, recorded.events]⟩, recorded.worlds, recorded.dir⟩
    · obtain ⟨-, recorded⟩ := hG
      exact ⟨⟨.error e, by simp [← hs, recorded.events]⟩, recorded.worlds, recorded.dir⟩

theorem cleanupLocal_ends (hh : host.Raises W) :
    Ends (fun _ => Frame.Same F) (fun _ _ => False) (fun _ => False) (cleanupLocal host F) := by
  unfold cleanupLocal
  refine .bind (Q := fun _ G => F = G) rfl fun dir G hG => ?_
  subst hG
  cases dir with
  | none => exact .refl F
  | some dir =>
    refine .bind ((lift_ends (V := fun _ => False) (cleanupAttemptWorkspaceSafely_keeps hh.keeps
      (fun e he other => absurd (hh.system e he).2 (by simp [other])) dir)).mono
      (fun _ _ h => h.2) (fun _ _ h => h.1.elim) fun _ => id) fun _ H hH => hH

theorem finishAttempt_ends {owner : WorkspaceOwner} (hh : host.Raises W) (ha : a.Behaved) :
    Ends (fun _ => Cleaned F) (fun _ _ => False) (fun _ => False)
      (finishAttempt host a owner F) := by
  refine .bind (cleanupStaged_ends ha) fun _ G hG => ?_
  refine .bind (cleanupLocal_ends hh) fun _ H hH => ?_
  obtain ⟨⟨outcome, events⟩, worlds, dir⟩ := hG
  have same : Frame.Same G { H with world := host.unregisterOwner owner.token H.world } :=
    hH.trans ⟨rfl, rfl, rfl, rfl⟩
  exact ⟨⟨outcome, same.events.trans events⟩, same.worlds.trans worlds, same.dir.trans dir⟩

/-- An attempt returns, with a result that its events account for. -/
theorem guardedAttempt_ends (execution : TaskExecutionContext) (owner : WorkspaceOwner)
    (hh : host.Raises W) (ha : a.Behaved)
    (supplied : a.callbacks.completeNoopWorkspace.isSome = true)
    (h : At host a spec dir .begun F) :
    Ends (fun r H => ∃ G, Reported host a spec W r G ∧ Cleaned G H) (fun _ _ => False)
      (fun _ => False) (guardedAttempt host a spec execution owner F) := by
  refine .tryFinally (A := Reported host a spec W) (D := fun _ _ => False) ?_ (fun r G hG => ?_)
    fun _ _ h => h.elim
  · refine .tryExcept ((attemptBlock_ends hh ha supplied h).mono (fun _ _ => .inl) (fun _ _ => id)
      fun _ => id) fun exc G stopped => ?_
    obtain ⟨r, hr, -⟩ := resultForException_ok a.failureReasonMaxLength stopped.1
    rw [hr]
    exact .inr ⟨exc, stopped, hr⟩
  · exact (finishAttempt_ends hh ha).mono (fun _ H hH => ⟨G, hG, hH⟩) (fun _ _ => id) fun _ => id

end Perago
