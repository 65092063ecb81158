import Perago.Execution

/-!
# Local workspaces that stay behind

`prepare_attempt_workspace` makes the directory before it writes the marker, and only its
return value tells the attempt that there is a directory to remove. The cleanup removes
no directory without a marker in it. This is exactly when an attempt that returns leaves
the directory that it has made.
-/

namespace Perago

open Effect

variable {σ α β : Type} (host : Host σ) (a : WorkspaceAttempt σ)

/-! ## Directories -/

/-- What the calls do to the directories for which `present` holds. -/
structure Host.OnDisk (present : Path → σ → Prop) : Prop where
  mkdir : ∀ dir s t, host.mkdir dir s = (.ok (), t) → present dir t
  writeMarker : ∀ dir path marker s, present dir s →
    present dir (host.writeMarker path marker s).2
  isFile : ∀ dir path s, present dir (host.isFile path s).2 ↔ present dir s
  rmtree : ∀ dir s t, host.rmtree dir s = (.ok (), t) → ¬ present dir t
  unregisterOwner : ∀ dir token s, present dir (host.unregisterOwner token s) ↔ present dir s

/-- The marker that `prepare_attempt_workspace` writes. -/
def markerOf (task : TaskExecutionContext) (owner : WorkspaceOwner) : AttemptMarker where
  attempt := task.attempt
  executionId := task.executionId
  ownerWorkerId := owner.workerId
  ownerPid := owner.pid
  ownerToken := owner.token

/-- The attempt makes its directory, and is in the state `u` then. -/
def WorkspaceAttempt.Creates (s : σ) (dir : Path) (u : σ) : Prop :=
  ∃ spec, a.task.workspace = some spec ∧
    let (execution, _, v) := openAttempt host a s
    ∃ workspace params input, wrappedInput a.inputData = .ok (workspace, params) ∧
      WorkspaceRef.validate workspace = .ok input ∧
      dir = attemptWorkspaceDir a.workspaceRoot execution ∧ host.mkdir dir v = (.ok (), u)

/-- Writing the marker into the directory succeeds in the state `u`. -/
def WorkspaceAttempt.Marks (s : σ) (dir : Path) (u : σ) : Prop :=
  let (execution, owner, _) := openAttempt host a s
  ∃ w, host.writeMarker (dir ++ [attemptWorkspaceMarker]) (markerOf execution owner) u =
    (.ok (), w)

/-- The `try` statement without its `finally` clause. -/
def handledBlock (spec : WorkspaceSpec) (execution : TaskExecutionContext)
    (owner : WorkspaceOwner) : Proc PyException (Frame σ) RuntimeTaskResult :=
  .tryExcept (attemptBlock host a spec execution owner) fun exc =>
    .ofExcept (resultForException a.nestingLimit exc a.failureReasonMaxLength)

/-- The attempt cleans up the directory in the state `v`. -/
def WorkspaceAttempt.CleansUp (s : σ) (dir : Path) (v : σ) : Prop :=
  ∃ spec, a.task.workspace = some spec ∧
    let (execution, owner, u) := openAttempt host a s
    ∃ r G K, handledBlock host a spec execution owner (.enter u) = (.ok r, G) ∧
      cleanupStaged a G = (.ok (), K) ∧ K.workspaceDir = some dir ∧ K.world = v

/-- `is_file` says that the marker is there. -/
def MarkerIsFile (dir : Path) (v : σ) : Prop :=
  ∃ w, host.isFile (dir ++ [attemptWorkspaceMarker]) v = (.ok true, w)

/-- Removing the directory raises no `OSError`. -/
def RmtreeQuiet (dir : Path) (v : σ) : Prop :=
  ∀ w exc x, host.isFile (dir ++ [attemptWorkspaceMarker]) v = (.ok true, w) →
    host.rmtree dir w = (.error exc, x) → exc.cls.isOSError = false

variable {host a} {present : Path → σ → Prop} {dir : Path} {s t u v w : σ}

/-! ## The cleanup -/

/-- A marked directory is removed, and any other is left. -/
theorem cleanupAttemptWorkspace_ends (disk : host.OnDisk present)
    (quiet : RmtreeQuiet host dir v) :
    Ends (fun _ t => MarkerIsFile host dir v ∧ ¬ present dir t)
      (fun exc t => exc.cls.isOSError = true →
        ¬ MarkerIsFile host dir v ∧ (present dir t ↔ present dir v))
      (fun _ => True) (cleanupAttemptWorkspace host dir v) := by
  have same := disk.isFile dir (dir ++ [attemptWorkspaceMarker]) v
  refine .bind
    (Q := fun found x => host.isFile (dir ++ [attemptWorkspaceMarker]) v = (.ok found, x))
    (Ends.self.mono (fun _ _ h => h) (fun exc x hfile _ => ?_) fun _ _ => trivial)
    fun found x hfile => ?_
  · rw [hfile] at same
    refine ⟨?_, same⟩
    rintro ⟨y, hy⟩
    cases hfile.symm.trans hy
  · cases found with
    | true =>
      refine Ends.self.mono (fun _ y hy => ⟨⟨x, hfile⟩, disk.rmtree dir x y hy⟩)
        (fun exc y hy system => ?_) fun _ _ => trivial
      simp [quiet x exc y hfile hy] at system
    | false =>
      rw [hfile] at same
      refine .raise fun _ => ⟨?_, same⟩
      rintro ⟨y, hy⟩
      cases hfile.symm.trans hy

theorem cleanupAttemptWorkspaceSafely_ends (disk : host.OnDisk present)
    (quiet : RmtreeQuiet host dir v) :
    Ends (fun _ t => ¬ present dir t ↔ MarkerIsFile host dir v ∨ ¬ present dir v)
      (fun _ _ => True) (fun _ => True) (cleanupAttemptWorkspaceSafely host dir v) := by
  refine .tryExcept (.bind (cleanupAttemptWorkspace_ends disk quiet) fun _ t ht => ?_)
    fun exc t ht => ?_
  · exact .pure (by simp [ht])
  · split
    · rename_i system
      exact .pure (by simp [ht system])
    · exact .raise trivial

theorem cleanupLocal_gone {F : Frame σ} (disk : host.OnDisk present)
    (known : F.workspaceDir = some dir) (quiet : RmtreeQuiet host dir F.world) :
    Ends (fun _ G => ¬ present dir G.world ↔ MarkerIsFile host dir F.world ∨ ¬ present dir F.world)
      (fun _ _ => True) (fun _ => True) (cleanupLocal host F) := by
  refine .bind (Q := fun d G => d = some dir ∧ F = G) ⟨known, rfl⟩ fun d G hd => ?_
  obtain ⟨rfl, rfl⟩ := hd
  exact .bind (.zoom (cleanupAttemptWorkspaceSafely_ends disk quiet)) fun _ _ h => .pure h

theorem cleanupLocal_of_none {F : Frame σ} (unknown : F.workspaceDir = none) :
    cleanupLocal host F = (.ok (), F) := by
  have read : (Proc.get Frame.workspaceDir : Proc PyException _ _) F = (.ok none, F) := by
    rw [← unknown]
    rfl
  exact Proc.bind_of_ok read

theorem cleanupStaged_of_none {F : Frame σ} (unstaged : F.staged = none) :
    cleanupStaged a F = (.ok (), F) := by
  have read : (Proc.get Frame.staged : Proc PyException _ _) F = (.ok none, F) := by
    rw [← unstaged]
    rfl
  exact Proc.bind_of_ok read

/-! ## The directory that an attempt knows of -/

/-- However the call ends, it leaves the local `workspace_dir`. -/
def KeepsDir (f : Proc PyException (Frame σ) α) : Prop :=
  ∀ d, Keeps (fun F => F.workspaceDir = d) (fun _ => True) (fun _ => True) f

namespace KeepsDir

theorem pure {b : α} : KeepsDir (Pure.pure b : Proc PyException (Frame σ) α) := fun _ => .pure

theorem raise {exc : PyException} : KeepsDir (Proc.raise exc : Proc PyException (Frame σ) α) :=
  fun _ => .raise trivial

theorem ofExcept {x : Except PyException α} :
    KeepsDir (Proc.ofExcept x : Proc PyException (Frame σ) α) :=
  fun _ => .ofExcept fun _ _ => trivial

theorem bind {f : Proc PyException (Frame σ) α} {g : α → Proc PyException (Frame σ) β}
    (hf : KeepsDir f) (hg : ∀ b, KeepsDir (g b)) : KeepsDir (f >>= g) :=
  fun d => (hf d).bind fun b => hg b d

theorem lift {f : Proc PyException σ α} : KeepsDir (Frame.lift f) := fun _ _ hF =>
  .zoom (Ends.self.mono (fun _ _ _ => hF) (fun _ _ _ => ⟨trivial, hF⟩) fun _ _ => trivial)

theorem tryExcept {f : Proc PyException (Frame σ) α}
    {g : PyException → Proc PyException (Frame σ) α}
    (hf : KeepsDir f) (hg : ∀ exc, KeepsDir (g exc)) : KeepsDir (f.tryExcept g) :=
  fun d => (hf d).tryExcept fun exc _ => hg exc d

theorem tryFinally {f : Proc PyException (Frame σ) α} {g : Proc PyException (Frame σ) Unit}
    (hf : KeepsDir f) (hg : KeepsDir g) : KeepsDir (f.tryFinally g) :=
  fun d => (hf d).tryFinally (hg d)

theorem note {e : Event} : KeepsDir (Frame.note e : Proc PyException (Frame σ) Unit) :=
  fun _ _ hF => hF

theorem call {record : Except PyException α → Event} {f : Proc PyException σ α} :
    KeepsDir (Frame.call record f) :=
  .bind (lift.tryExcept fun _ => note.bind fun _ => raise) fun _ => note.bind fun _ => pure

theorem withRuntimeTimer {metrics : MetricRecorder σ} {operation : String}
    {f : Proc PyException (Frame σ) α} (hf : KeepsDir f) :
    KeepsDir (withRuntimeTimer a metrics operation f) :=
  lift.bind fun _ => hf.tryFinally lift

end KeepsDir

variable {p : Prepared}

theorem downloadInput_keepsDir : KeepsDir (downloadInput host a p) := by
  unfold downloadInput
  cases workspaceIoMetrics a with
  | none => exact .call
  | some metrics => exact .bind (.withRuntimeTimer .call) fun _ => .bind .lift fun _ => .lift

theorem invokeFn_keepsDir {params : PyValue} : KeepsDir (invokeFn a dir params) := by
  unfold invokeFn
  cases a.task.metrics with
  | none => exact .call
  | some _ => cases a.metrics with
    | none => exact .raise
    | some metrics => exact .call

theorem invokeWorkspaceTaskBody_keepsDir {spec : WorkspaceSpec} :
    KeepsDir (invokeWorkspaceTaskBody host a spec dir) := by
  refine .bind .ofExcept fun input => .bind .ofExcept fun _ => .bind .ofExcept fun params => ?_
  refine .bind .call fun _ => .bind invokeFn_keepsDir fun raw => .bind .ofExcept fun result => ?_
  exact .bind .call fun _ => .pure

theorem takeSnapshot_keepsDir : KeepsDir (takeSnapshot host dir) :=
  .bind (fun _ _ hF => hF) fun _ => .call

theorem runBody_keepsDir : KeepsDir (runBody host a p) := by
  unfold runBody
  refine .bind downloadInput_keepsDir fun _ => ?_
  cases p.spec.readOnly with
  | true => exact .bind .pure fun _ => .bind invokeWorkspaceTaskBody_keepsDir fun _ => .pure
  | false =>
    refine .bind (.bind takeSnapshot_keepsDir fun _ => .pure) fun _ => ?_
    refine .bind invokeWorkspaceTaskBody_keepsDir fun _ => .bind takeSnapshot_keepsDir fun _ => ?_
    exact .bind .note fun _ => .pure

theorem checkFence_keepsDir : KeepsDir (checkFence a) := .bind .call fun _ => .ofExcept

theorem completeWith_keepsDir {ref : String} {result : PyValue} :
    KeepsDir (completeWith p ref result : Proc PyException (Frame σ) RuntimeTaskResult) :=
  .bind .ofExcept fun _ => .pure

theorem withPublishTimer_keepsDir {f : Proc PyException (Frame σ) String} (hf : KeepsDir f) :
    KeepsDir (withPublishTimer a f) := by
  unfold withPublishTimer
  cases workspaceIoMetrics a with
  | none => exact hf
  | some metrics => exact .withRuntimeTimer hf

theorem stageChanges_keepsDir : KeepsDir (stageChanges host a p) := by
  have called : KeepsDir (callStage a p) :=
    .bind .call fun _ => .bind (fun _ _ hF => hF) fun _ => .pure
  unfold stageChanges
  cases workspaceIoMetrics a with
  | none => exact called
  | some metrics =>
    exact .bind .lift fun _ => .bind (.withRuntimeTimer called) fun _ => .bind .lift fun _ => .pure

theorem complete_keepsDir {result : PyValue} {completion : Completion} :
    KeepsDir (complete host a p result completion) := by
  cases completion with
  | readOnly => exact completeWith_keepsDir
  | unchanged =>
    refine .bind checkFence_keepsDir fun _ => .bind (withPublishTimer_keepsDir ?_) fun _ => ?_
    · split
      · exact .call
      · exact .raise
    · exact completeWith_keepsDir
  | changed =>
    refine .bind checkFence_keepsDir fun _ => .bind stageChanges_keepsDir fun _ => ?_
    refine .bind checkFence_keepsDir fun _ => .bind (withPublishTimer_keepsDir .call) fun _ => ?_
    exact completeWith_keepsDir

theorem cleanupStaged_keepsDir : KeepsDir (cleanupStaged a) := by
  refine .bind (fun _ _ hF => hF) fun staged => ?_
  cases staged with
  | none => exact .pure
  | some staged => exact .tryExcept .call fun _ => .pure

/-! ## Runs that have made their directory -/

variable {spec : WorkspaceSpec} {execution : TaskExecutionContext} {owner : WorkspaceOwner}

variable (host dir u execution owner) in
/-- The marker is written in the state `u`. -/
def MarkerWritten : Prop :=
  ∃ w, host.writeMarker (dir ++ [attemptWorkspaceMarker]) (markerOf execution owner) u = (.ok (), w)

variable (host dir u execution owner present) in
/-- The `try` block knows of a marked directory, and of no other. -/
inductive Knows (G : Frame σ) : Prop where
  | marked : MarkerWritten host dir u execution owner → G.workspaceDir = some dir → Knows G
  | unmarked : ¬ MarkerWritten host dir u execution owner → G.workspaceDir = none →
      G.staged = none → present dir G.world → Knows G

theorem prepareAttemptWorkspace_ends {root : Path} (disk : host.OnDisk present)
    (hdir : dir = attemptWorkspaceDir root execution) (hmkdir : host.mkdir dir v = (.ok (), u)) :
    Ends (fun d _ => d = dir ∧ MarkerWritten host dir u execution owner)
      (fun _ w => ¬ MarkerWritten host dir u execution owner ∧ present dir w)
      (fun _ => True) (prepareAttemptWorkspace host root execution owner v) := by
  subst hdir
  have kept := disk.writeMarker _ (attemptWorkspaceDir root execution ++ [attemptWorkspaceMarker])
    (markerOf execution owner) u (disk.mkdir _ _ _ hmkdir)
  unfold prepareAttemptWorkspace
  rw [Proc.bind_of_ok hmkdir]
  refine .bind
    (Q := fun _ _ => MarkerWritten host (attemptWorkspaceDir root execution) u execution owner)
    (Ends.self.mono (fun _ w hw => ⟨w, hw⟩) (fun exc w hw => ⟨?_, ?_⟩) fun _ _ => trivial)
    fun _ w hw => .pure ⟨rfl, hw⟩
  · rintro ⟨x, hx⟩
    cases hw.symm.trans hx
  · rw [show host.writeMarker _ (markerOf execution owner) u = _ from hw] at kept
    exact kept

/-- The attempt learns of the directory once it is marked. -/
theorem beginAttempt_marks (disk : host.OnDisk present) {workspace params : PyValue}
    {input : WorkspaceInput} (hinput : wrappedInput a.inputData = .ok (workspace, params))
    (hvalid : WorkspaceRef.validate workspace = .ok input)
    (hdir : dir = attemptWorkspaceDir a.workspaceRoot execution)
    (hmkdir : host.mkdir dir v = (.ok (), u)) :
    Ends (fun _ G => MarkerWritten host dir u execution owner ∧ G.workspaceDir = some dir)
      (fun _ => Knows host present dir u execution owner)
      (fun _ => True) (beginAttempt host a spec execution owner (.enter v)) := by
  unfold beginAttempt
  simp only [hinput]
  refine .bind (Q := fun r G => r = (workspace, params) ∧ G = .enter v) ⟨rfl, rfl⟩ fun r G hG => ?_
  obtain ⟨rfl, rfl⟩ := hG
  refine .bind (Q := fun i G => i = input ∧ G = .enter v) ?_ fun i G hG => ?_
  · simp only [hvalid]
    exact ⟨rfl, rfl⟩
  obtain ⟨rfl, rfl⟩ := hG
  refine .bind (Q := fun d _ => d = dir ∧ MarkerWritten host dir u execution owner) (.zoom ?_)
    fun d G hd => ?_
  · refine (prepareAttemptWorkspace_ends disk hdir hmkdir).mono (fun _ _ h => h)
      (fun exc w hw => ?_) fun _ h => h
    exact .unmarked hw.1 rfl rfl hw.2
  · obtain ⟨rfl, written⟩ := hd
    exact ⟨written, rfl⟩

theorem handledBlock_knows (spec : WorkspaceSpec) (owner : WorkspaceOwner)
    (disk : host.OnDisk present) {workspace params : PyValue} {input : WorkspaceInput}
    (hinput : wrappedInput a.inputData = .ok (workspace, params))
    (hvalid : WorkspaceRef.validate workspace = .ok input)
    (hdir : dir = attemptWorkspaceDir a.workspaceRoot execution)
    (hmkdir : host.mkdir dir v = (.ok (), u)) :
    Ends (fun _ => Knows host present dir u execution owner) (fun _ _ => True) (fun _ => True)
      (handledBlock host a spec execution owner (.enter v)) := by
  refine .tryExcept (.bind (beginAttempt_marks disk hinput hvalid hdir hmkdir) fun p G hG => ?_)
    fun exc G hG => .ofExcept (fun _ _ => hG) fun _ _ => trivial
  have rest : KeepsDir (runBody host a p >>= fun r => complete host a p r.1 r.2) :=
    .bind runBody_keepsDir fun r => complete_keepsDir
  exact (rest (some dir) G hG.2).mono (fun _ H hH => .marked hG.1 hH)
    (fun _ H hH => .marked hG.1 hH.2) fun _ _ => trivial

/-- The parts of an attempt that returns. -/
theorem runWorkspaceTaskAttempt_ok {r : RuntimeTaskResult} {x : σ}
    (hspec : a.task.workspace = some spec) (hopen : openAttempt host a s = (execution, owner, x))
    (hrun : runWorkspaceTaskAttempt host a s = (.ok r, t)) :
    ∃ G K L, handledBlock host a spec execution owner (.enter x) = (.ok r, G) ∧
      cleanupStaged a G = (.ok (), K) ∧ cleanupLocal host K = (.ok (), L) ∧
      t = host.unregisterOwner owner.token L.world := by
  simp only [runWorkspaceTaskAttempt, hspec, runInFrame, hopen] at hrun
  generalize hcall : guardedAttempt host a spec execution owner (.enter x) = call at hrun
  obtain ⟨o, H⟩ := call
  cases hrun
  obtain ⟨G, hblock, hfinish⟩ := Proc.tryFinally_ok_iff.mp hcall
  obtain ⟨_, K, hstaged, hfinish⟩ := Proc.bind_ok_iff.mp hfinish
  obtain ⟨_, L, hlocal, hunregister⟩ := Proc.bind_ok_iff.mp hfinish
  refine ⟨G, K, L, hblock, hstaged, hlocal, ?_⟩
  cases hunregister
  rfl

/-- An attempt cleans up in one state only. -/
theorem WorkspaceAttempt.CleansUp.unique (h : a.CleansUp host s dir v)
    (h' : a.CleansUp host s dir w) : v = w := by
  obtain ⟨spec, hspec, r, G, K, hblock, hstaged, -, rfl⟩ := h
  obtain ⟨spec', hspec', r', G', K', hblock', hstaged', -, rfl⟩ := h'
  cases hspec.symm.trans hspec'
  cases hblock.symm.trans hblock'
  cases hstaged.symm.trans hstaged'
  rfl

/-- An attempt that has made its directory and returns has removed it exactly when the
marker was written, and is a file at the cleanup or the directory is gone by then. -/
theorem local_workspace_gone_iff {r : RuntimeTaskResult} (disk : host.OnDisk present)
    (created : a.Creates host s dir u) (hrun : runWorkspaceTaskAttempt host a s = (.ok r, t))
    (quiet : ∀ v, a.CleansUp host s dir v → RmtreeQuiet host dir v) :
    ¬ present dir t ↔ a.Marks host s dir u ∧
      ∀ v, a.CleansUp host s dir v → MarkerIsFile host dir v ∨ ¬ present dir v := by
  obtain ⟨spec, hspec, created⟩ := created
  cases hopen : openAttempt host a s with
  | mk execution rest =>
  obtain ⟨owner, x⟩ := rest
  simp only [hopen] at created
  obtain ⟨workspace, params, input, hinput, hvalid, hdir, hmkdir⟩ := created
  obtain ⟨G, K, L, hblock, hstaged, hlocal, rfl⟩ := runWorkspaceTaskAttempt_ok hspec hopen hrun
  have marks : a.Marks host s dir u ↔ MarkerWritten host dir u execution owner := by
    simp only [WorkspaceAttempt.Marks, hopen, MarkerWritten]
  have knows := handledBlock_knows spec owner disk hinput hvalid hdir hmkdir
  rw [disk.unregisterOwner, marks]
  rw [hblock] at knows
  cases knows with
  | marked written known =>
    have remains : K.workspaceDir = some dir := by
      have kept := cleanupStaged_keepsDir (a := a) (some dir) G known
      rw [hstaged] at kept
      exact kept
    have cleans : a.CleansUp host s dir K.world := by
      refine ⟨spec, hspec, ?_⟩
      simp only [hopen]
      exact ⟨r, G, K, hblock, hstaged, remains, rfl⟩
    have ends := cleanupLocal_gone disk remains (quiet _ cleans)
    rw [hlocal] at ends
    have gone : ¬ present dir L.world ↔
      MarkerIsFile host dir K.world ∨ ¬ present dir K.world := ends
    rw [and_iff_right written, gone]
    constructor
    · intro h v hv
      exact cleans.unique hv ▸ h
    · intro h
      exact h _ cleans
  | unmarked unwritten unknown unstaged there =>
    cases (cleanupStaged_of_none unstaged).symm.trans hstaged
    cases (cleanupLocal_of_none unknown).symm.trans hlocal
    simp [there, unwritten]

/-! ## A workspace that its body has emptied -/

/-- The directories and the files below the workspace root. -/
structure RootDisk where
  dirs : List Path
  files : List Path

/-- A machine on which no file but a marker is written; `inodes` says whether there is
room for another one. -/
def rootHost (inodes : Bool) : Host RootDisk where
  workerId := "worker"
  pid := 1
  sha256 _ := ""
  uuid4Hex s := ("execution", s)
  registerOwner _ s := s
  unregisterOwner _ s := s
  mkdir dir := fun s =>
    if dir ∈ s.dirs then (.error (.mk' .fileExistsError "File exists"), s)
    else (.ok (), { s with dirs := dir :: s.dirs })
  writeMarker path _ := fun s =>
    if inodes then (.ok (), { s with files := path :: s.files })
    else (.error (.mk' .osError "No space left on device"), s)
  rglob dir := .get fun s =>
    if dir ++ [attemptWorkspaceMarker] ∈ s.files then markerTree else emptyTree
  isFile path := .get fun s => decide (path ∈ s.files)
  isDir path := .get fun s => decide (path ∈ s.dirs)
  globCount _ _ := pure 0
  readlink _ := pure []
  readBytes _ := pure []
  fileSize _ := pure 0
  writeBytes _ _ := pure ()
  rmtree dir := fun s =>
    if dir ∈ s.dirs then
      (.ok (), ⟨s.dirs.filter (!dir.isPrefixOf ·), s.files.filter (!dir.isPrefixOf ·)⟩)
    else (.error (.mk' .fileNotFoundError "No such file or directory"), s)

theorem rootHost_onDisk (inodes : Bool) : (rootHost inodes).OnDisk fun dir s => dir ∈ s.dirs where
  mkdir dir s t h := by
    simp only [rootHost] at h
    split at h <;> cases h
    exact List.mem_cons_self
  writeMarker dir path marker s h := by
    cases inodes <;> exact h
  isFile _ _ _ := Iff.rfl
  rmtree dir s t h := by
    simp only [rootHost] at h
    split at h <;> cases h
    simp
  unregisterOwner _ _ _ := Iff.rfl

/-- An attempt below an empty root, with a body that changes the disk. -/
def attemptOnRoot (leave : RootDisk → RootDisk) : WorkspaceAttempt RootDisk where
  task := leavingTree leave
  inputData := inputFrom "A"
  attempt := ConductorRuntime.someAttempt
  workspaceRoot := []
  callbacks := {
    downloadWorkspace _ _ _ := pure ()
    loadCurrentAttempt attempt := pure attempt
    stageWorkspace _ i _ task := pure ⟨i.repository, task.executionId, "C"⟩
    publishWorkspace staged _ _ _ := pure staged.commit
    cleanupStaging _ := pure ()
    completeNoopWorkspace := some fun i _ _ => pure i.ref }
  ownerWorkerId := none
  executionId := none
  metrics := none
  failureReasonMaxLength := defaultMaxLength
  nestingLimit := 900

def attemptDir : Path := [text "task_id=task-exec=execution"]

/-- An attempt whose body leaves the disk alone has removed its directory. -/
theorem local_workspace_gone_iff_untouched : ∃ r t,
    runWorkspaceTaskAttempt (rootHost true) (attemptOnRoot id) ⟨[], []⟩ = (.ok r, t) ∧
    (attemptDir ∉ t.dirs ↔
      (attemptOnRoot id).Marks (rootHost true) ⟨[], []⟩ attemptDir ⟨[attemptDir], []⟩ ∧
      ∀ v, (attemptOnRoot id).CleansUp (rootHost true) ⟨[], []⟩ attemptDir v →
        MarkerIsFile (rootHost true) attemptDir v ∨ attemptDir ∉ v.dirs) := by
  have created : (attemptOnRoot id).Creates (rootHost true) ⟨[], []⟩ attemptDir
      ⟨[attemptDir], []⟩ := ⟨_, rfl, _, _, _, rfl, rfl, rfl, rfl⟩
  have cleans : (attemptOnRoot id).CleansUp (rootHost true) ⟨[], []⟩ attemptDir
      ⟨[attemptDir], [attemptDir ++ [attemptWorkspaceMarker]]⟩ :=
    ⟨_, rfl, _, _, _, rfl, rfl, rfl, rfl⟩
  refine ⟨_, ⟨[], []⟩, rfl, local_workspace_gone_iff (rootHost_onDisk true) created rfl ?_⟩
  intro v hv w exc x hfile hremove
  obtain rfl := cleans.unique hv
  cases hfile
  cases hremove

/-- The body empties its directory, or there is no room for the marker: the attempt
returns, and leaves a directory without a marker. -/
theorem unmarked_workspace_stays :
    (∃ r, runWorkspaceTaskAttempt (rootHost true) (attemptOnRoot fun s => { s with files := [] })
      ⟨[], []⟩ = (.ok r, ⟨[attemptDir], []⟩)) ∧
    ∃ r, runWorkspaceTaskAttempt (rootHost false) (attemptOnRoot id) ⟨[], []⟩ =
      (.ok r, ⟨[attemptDir], []⟩) :=
  ⟨⟨_, rfl⟩, ⟨_, rfl⟩⟩

end Perago
