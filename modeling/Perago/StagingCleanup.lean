import Perago.LakefsReturns
import Perago.LinearHistory

/-!
# Staging branches that stay behind

`stage_workspace` creates the staging branch, but only its return value tells the
attempt that there is a branch to delete. When the call is disturbed in between, the
branch stays. This is exactly when an attempt that returns leaks its branch.
-/

namespace Perago

open Effect LakeFS

variable {X α : Type} {script : Script} {fresh : FreshId} {job : Job X} {p : Prepared}

/-! ## When the calls of LakeFS return -/

namespace LakeFS

variable {s t : LakeFS} {key : BranchKey} {a : α}

/-- The server some calls later. -/
def after (s : LakeFS) (n : Nat) : LakeFS := { s with calls := s.calls + n }

@[simp] theorem after_heads (n : Nat) : (s.after n).heads = s.heads := rfl

@[simp] theorem after_calls (n : Nat) : (s.after n).calls = s.calls + n := rfl

@[simp] theorem after_after (m n : Nat) : (s.after m).after n = s.after (m + n) := by
  simp [after, Nat.add_assoc]

theorem serve_ok_iff {effect : Nat → LakeFS → Except PyException (α × LakeFS)} :
    serve script effect s = (.ok a, t) ↔
      script.fault s.calls = .none ∧ effect s.calls (s.after 1) = .ok (a, t) := by
  unfold serve after
  dsimp only
  cases script.fault s.calls with
  | none =>
    cases effect s.calls { s with calls := s.calls + 1 } with
    | ok r =>
      obtain ⟨b, u⟩ := r
      simp
    | error exc => simp
  | before exc | crashBefore => simp
  | after exc | crashAfter =>
    cases effect s.calls { s with calls := s.calls + 1 } <;> simp

theorem read_ok_iff {answer : Nat → LakeFS → Except PyException α} :
    read script answer s = (.ok a, t) ↔
      script.fault s.calls = .none ∧ answer s.calls (s.after 1) = .ok a ∧ t = s.after 1 := by
  unfold read
  rw [serve_ok_iff]
  cases answer s.calls (s.after 1) with
  | ok b => simp [Except.map, eq_comm]
  | error exc => simp [Except.map]

/-- The branch can be created here. -/
def Creatable (s : LakeFS) (key : BranchKey) (ref : String) : Prop :=
  s.heads key = none ∧ ref ∈ s.ids

/-- The server once the branch has been created. -/
def opened (s : LakeFS) (key : BranchKey) (ref : String) : LakeFS :=
  { (s.after 1).setHead key ref with created := s.created ++ [key] }

theorem createBranch_ok_iff {ref : String} : createBranch script key ref s = (.ok (), t) ↔
    script.fault s.calls = .none ∧ s.Creatable key ref ∧ t = s.opened key ref := by
  unfold createBranch
  rw [serve_ok_iff]
  refine and_congr_right fun _ => ?_
  cases hk : s.heads key with
  | some id => simp [hk, Creatable]
  | none =>
    simp only [after_heads, hk, Creatable, true_and]
    split
    · rename_i known
      constructor
      · rintro ⟨⟩
        exact ⟨known, rfl⟩
      · rintro ⟨-, rfl⟩
        rfl
    · rename_i unknown
      exact ⟨nofun, fun h => absurd h.1 unknown⟩

/-- The creation takes effect, whatever the caller is told of it. -/
def Creates (script : Script) (s : LakeFS) (key : BranchKey) (ref : String) : Prop :=
  s.Creatable key ref ∧
    (script.fault s.calls = .none ∨ ∃ exc, script.fault s.calls = .after exc)

/-- The branches that an attempt has created, and those it has asked to delete. -/
def Logs (created deletions : List BranchKey) (s : LakeFS) : Prop :=
  s.created = created ∧ s.deletions = deletions

theorem logs_moving {created deletions : List BranchKey} : Moving (Logs created deletions) where
  steady _ _ same h := ⟨same.created.trans h.1, same.deletions.trans h.2⟩
  setHead _ _ _ h := h
  commits _ _ h := h

/-- A call whose effect succeeds fails without it or with it. -/
theorem serve_of_ok {effect : Nat → LakeFS → Except PyException (α × LakeFS)}
    (h : effect s.calls (s.after 1) = .ok (a, t)) :
    Ends (fun _ u => u = t ∧ script.fault s.calls = .none)
      (fun exc u => u = t ∧ script.fault s.calls = .after exc ∨
        u = s.after 1 ∧ script.fault s.calls = .before exc)
      (fun _ => True) (serve script effect s) := by
  unfold after at h
  unfold serve
  dsimp only
  rw [h]
  cases script.fault s.calls with
  | none => exact ⟨rfl, rfl⟩
  | before exc => exact .inr ⟨rfl, rfl⟩
  | after exc => exact .inl ⟨rfl, rfl⟩
  | crashBefore => trivial
  | crashAfter => trivial

theorem serve_of_error {effect : Nat → LakeFS → Except PyException (α × LakeFS)}
    {exc : PyException} (h : effect s.calls (s.after 1) = .error exc) :
    Ends (fun _ _ => False) (fun _ u => u = s.after 1) (fun _ => True)
      (serve script effect s) := by
  unfold after at h
  unfold serve
  dsimp only
  rw [h]
  cases script.fault s.calls with
  | none | before exc | after exc => exact rfl
  | crashBefore | crashAfter => trivial

theorem logs_steady (created deletions : List BranchKey) : Steady (Logs created deletions) :=
  logs_moving.steady

theorem createBranch_logs (script : Script) (key : BranchKey) (ref : String) (hs : Logs [] [] s) :
    Ends (fun _ => Logs [key] [])
      (fun _ t => ¬ Creates script s key ref ∧ Logs [] [] t ∨
        Creates script s key ref ∧ Logs [key] [] t)
      (fun _ => True) (createBranch script key ref s) := by
  have created : Logs [key] [] (s.opened key ref) := ⟨by simp [opened, hs.1], hs.2⟩
  by_cases creatable : s.Creatable key ref
  · refine (serve_of_ok (a := ()) (t := s.opened key ref) ?_).mono (fun _ t ht => ?_)
      (fun exc t ht => ?_) fun _ h => h
    · simp only [after_heads, creatable.1]
      rw [if_pos (show ref ∈ (s.after 1).ids from creatable.2)]
      rfl
    · exact ht.1 ▸ created
    · obtain ⟨rfl, hfault⟩ | ⟨rfl, hfault⟩ := ht
      · exact .inr ⟨⟨creatable, .inr ⟨exc, hfault⟩⟩, created⟩
      · exact .inl ⟨fun h => by simp [Creates, hfault] at h, hs⟩
  · have failed : Ends (fun _ _ => False) (fun _ u => u = s.after 1) (fun _ => True)
        (createBranch script key ref s) := by
      cases hk : (s.after 1).heads key with
      | some head =>
        apply serve_of_error
        rw [hk]
      | none =>
        apply serve_of_error
        rw [hk]
        exact if_neg fun known => creatable ⟨hk, known⟩
    refine failed.mono (fun _ _ h => h.elim) (fun _ t ht => ?_) fun _ h => h
    subst ht
    exact .inl ⟨fun h => creatable h.1, hs⟩

end LakeFS

/-! ## When `stage_workspace` returns -/

def World.after (W : World X) (n : Nat) : World X := { W with lakefs := W.lakefs.after n }

@[simp] theorem World.after_local (W : World X) (n : Nat) : (W.after n).local' = W.local' := rfl

@[simp] theorem World.after_lakefs (W : World X) (n : Nat) :
    (W.after n).lakefs = W.lakefs.after n := rfl

@[simp] theorem World.after_after (W : World X) (m n : Nat) :
    (W.after m).after n = W.after (m + n) := by
  simp [World.after]

/-- The files of a plan, read one after another. -/
def readFiles (host : Host X) (dir : Path) (files : List WorkspaceUploadFile) :
    Proc PyException X Unit :=
  .each (fun file => do
    let _ ← host.readBytes (dir ++ file.localPath)
    return ()) files

variable {V U : World X} {repository branch : String}

theorem onLakefs_ok_iff {f : Proc PyException LakeFS α} {a : α} :
    onLakefs f V = (.ok a, U) ↔ ∃ s, f V.lakefs = (.ok a, s) ∧ U = { V with lakefs := s } :=
  Proc.zoom_ok_iff

theorem onLocal_ok_iff {f : Proc PyException X α} {a : α} :
    onLocal f V = (.ok a, U) ↔ ∃ x, f V.local' = (.ok a, x) ∧ U = { V with local' := x } :=
  Proc.zoom_ok_iff

/-- A call that reads returns unless it is disturbed. -/
theorem onLakefs_read_ok_iff {answer : Nat → LakeFS → Except PyException α} {a : α} :
    onLakefs (LakeFS.read script answer) V = (.ok a, U) ↔
      script.fault V.lakefs.calls = .none ∧ answer V.lakefs.calls (V.lakefs.after 1) = .ok a ∧
        U = V.after 1 := by
  simp only [onLakefs_ok_iff, LakeFS.read_ok_iff]
  constructor
  · rintro ⟨s, ⟨quiet, answered, rfl⟩, rfl⟩
    exact ⟨quiet, answered, rfl⟩
  · rintro ⟨quiet, answered, rfl⟩
    exact ⟨_, ⟨quiet, answered, rfl⟩, rfl⟩

/-- `delete` and `upload` only need their branch to be there. -/
theorem touchBranch_ok_iff {ref : String} (hk : V.lakefs.heads (repository, branch) = some ref) :
    onLakefs (LakeFS.read script fun _ s => (s.head (repository, branch)).map fun _ => ()) V =
      (.ok (), U) ↔ script.fault V.lakefs.calls = .none ∧ U = V.after 1 := by
  have found : ((V.lakefs.after 1).head (repository, branch)).map (fun _ => ()) = .ok () := by
    simp [LakeFS.head, hk, Except.map]
  rw [onLakefs_read_ok_iff]
  exact and_congr_right fun _ => ⟨fun h => h.2, fun h => ⟨found, h⟩⟩

/-- No call of a row is disturbed. -/
def Quiet (script : Script) (first n : Nat) : Prop :=
  ∀ m < n, script.fault (first + m) = .none

theorem quiet_succ {first n : Nat} : Quiet script first (n + 1) ↔
    script.fault first = .none ∧ Quiet script (first + 1) n := by
  constructor
  · intro h
    refine ⟨h 0 (by omega), fun m hm => ?_⟩
    have := h (m + 1) (by omega)
    rwa [← Nat.add_assoc, Nat.add_right_comm] at this
  · rintro ⟨h0, h⟩ m hm
    cases m with
    | zero => exact h0
    | succ m =>
      have := h m (by omega)
      rwa [Nat.add_right_comm, Nat.add_assoc] at this

theorem quiet_add {first m n : Nat} : Quiet script first (m + n) ↔
    Quiet script first m ∧ Quiet script (first + m) n := by
  constructor
  · intro h
    refine ⟨fun k hk => h k (by omega), fun k hk => ?_⟩
    rw [Nat.add_assoc]
    exact h (m + k) (by omega)
  · rintro ⟨h, h'⟩ k hk
    by_cases hkm : k < m
    · exact h k hkm
    · have := h' (k - m) (by omega)
      rwa [show first + m + (k - m) = first + k by omega] at this

theorem deleteObjects_ok_iff {ref : String} (paths : List Text)
    (hk : V.lakefs.heads (repository, branch) = some ref) :
    Proc.each ((job.runtime script fresh).client.deleteObject repository branch) paths V =
      (.ok (), U) ↔ Quiet script V.lakefs.calls paths.length ∧ U = V.after paths.length := by
  induction paths generalizing V with
  | nil =>
    constructor
    · rintro ⟨⟩
      exact ⟨nofun, rfl⟩
    · rintro ⟨-, rfl⟩
      rfl
  | cons path paths ih =>
    simp only [Proc.each, Proc.bind_ok_iff, List.length_cons, quiet_succ]
    constructor
    · rintro ⟨_, W, first, rest⟩
      obtain ⟨quiet, rfl⟩ := (touchBranch_ok_iff hk).mp first
      obtain ⟨later, rfl⟩ := (ih (by simpa using hk)).mp rest
      exact ⟨⟨quiet, later⟩, by simp [Nat.add_comm]⟩
    · rintro ⟨⟨quiet, later⟩, rfl⟩
      refine ⟨(), V.after 1, (touchBranch_ok_iff hk).mpr ⟨quiet, rfl⟩, ?_⟩
      exact (ih (by simpa using hk)).mpr ⟨later, by simp [Nat.add_comm]⟩

/-- The uploads return when the files can be read and no upload is disturbed. -/
theorem uploadFiles_ok_iff {ref : String} {dir : Path} (files : List WorkspaceUploadFile)
    (hk : V.lakefs.heads (repository, branch) = some ref) :
    Proc.each ((job.runtime script fresh).uploadFile job.host.onWorld repository branch dir) files
      V = (.ok (), U) ↔ Quiet script V.lakefs.calls files.length ∧
        ∃ x, readFiles job.host dir files V.local' = (.ok (), x) ∧
          U = { V.after files.length with local' := x } := by
  induction files generalizing V with
  | nil =>
    constructor
    · rintro ⟨⟩
      exact ⟨nofun, _, rfl, rfl⟩
    · rintro ⟨-, x, ⟨⟩, rfl⟩
      rfl
  | cons file files ih =>
    simp only [Proc.each, readFiles, LakeFSWorkspaceRuntime.uploadFile, Proc.bind_ok_iff,
      List.length_cons, quiet_succ]
    constructor
    · rintro ⟨_, W, ⟨bytes, Z, read, first⟩, rest⟩
      obtain ⟨x, opened, rfl⟩ := onLocal_ok_iff.mp read
      obtain ⟨quiet, rfl⟩ := (touchBranch_ok_iff (by exact hk)).mp first
      obtain ⟨later, y, reads, rfl⟩ := (ih (by simpa using hk)).mp rest
      exact ⟨⟨quiet, later⟩, y, ⟨(), x, ⟨bytes, x, opened, rfl⟩, reads⟩,
        by simp [World.after, Nat.add_comm]⟩
    · rintro ⟨⟨quiet, later⟩, y, ⟨_, x, ⟨bytes, x', read, hx⟩, reads⟩, rfl⟩
      obtain rfl : x' = x := by cases hx; rfl
      refine ⟨(), World.after { V with local' := x' } 1,
        ⟨bytes, { V with local' := x' }, onLocal_ok_iff.mpr ⟨x', read, rfl⟩,
          (touchBranch_ok_iff (by exact hk)).mpr ⟨quiet, rfl⟩⟩, ?_⟩
      exact (ih (by simpa using hk)).mpr ⟨later, y, reads, by simp [World.after, Nat.add_comm]⟩

/-- `stage_workspace` is not disturbed after it has created its branch: the listing
returns, the plan is accepted, its files can be read, and no other call fails. -/
structure Undisturbed (job : Job X) (script : Script) (p : Prepared) (first : Nat) (x : X)
    (tree : LocalTree) (y z : X) (plan : WorkspaceSyncPlan) : Prop where
  listing : script.fault first = .none
  walk : job.host.rglob p.workspaceDir x = (.ok tree, y)
  accepted : buildWorkspaceSyncPlan tree p.spec.workspacePrefix
    (objectPaths (script.listing first)) = .ok plan
  reads : readFiles job.host p.workspaceDir plan.uploadFiles y = (.ok (), z)
  writes : Quiet script (first + 1) (plan.deleteObjectPaths.length + plan.uploadFiles.length + 1)

theorem objects_ok_iff {ref : String} {path : Text} {items : List ObjectItem} :
    (job.runtime script fresh).client.objects repository ref path V = (.ok items, U) ↔
      script.fault V.lakefs.calls = .none ∧ script.listing V.lakefs.calls = items ∧
        U = V.after 1 := by
  simp only [Job.runtime, lakefsClient, onLakefs_read_ok_iff, Except.ok.injEq]

theorem commit_returns_iff {ref message : String} (job : Job X) (script : Script)
    (fresh : FreshId) (V : World X) (hk : V.lakefs.heads (repository, branch) = some ref) :
    (∃ id U, (job.runtime script fresh).client.commit repository branch message V = (.ok id, U)) ↔
      script.fault V.lakefs.calls = .none := by
  have found : (V.lakefs.after 1).head (repository, branch) = .ok ref := by
    simp [LakeFS.head, hk]
  simp only [Job.runtime, lakefsClient, LakeFS.commit, onLakefs_ok_iff, LakeFS.serve_ok_iff, found]
  constructor
  · rintro ⟨id, U, s, ⟨quiet, -⟩, -⟩
    exact quiet
  · intro quiet
    exact ⟨_, _, _, ⟨quiet, rfl⟩, rfl⟩

theorem stageOnBranch_returns_iff {ref : String} {p : Prepared} (job : Job X) (script : Script)
    (fresh : FreshId) (V : World X) (hk : V.lakefs.heads (p.input.repository, branch) = some ref) :
    (∃ staged U, (job.runtime script fresh).stageOnBranch job.host.onWorld p.workspaceDir p.input
      p.spec branch V = (.ok staged, U)) ↔
        ∃ tree x y plan, Undisturbed job script p V.lakefs.calls V.local' tree x y plan := by
  simp only [LakeFSWorkspaceRuntime.stageOnBranch, Proc.bind_ok_iff]
  constructor
  · rintro ⟨staged, U, items, V₁, listed, tree, V₂, walked, plan, V₃, planned, _, V₄, deleted, _,
      V₅, uploaded, id, V₆, committed, -⟩
    obtain ⟨listing, rfl, rfl⟩ := objects_ok_iff.mp listed
    obtain ⟨x, walk, rfl⟩ := onLocal_ok_iff.mp walked
    obtain ⟨accepted, rfl⟩ := Proc.ofExcept_ok_iff.mp planned
    obtain ⟨deletes, rfl⟩ := (deleteObjects_ok_iff _ (by exact hk)).mp deleted
    obtain ⟨uploads, y, reads, rfl⟩ := (uploadFiles_ok_iff _ (by exact hk)).mp uploaded
    have last := (commit_returns_iff _ _ _ _ (by exact hk)).mp ⟨id, V₆, committed⟩
    refine ⟨tree, x, y, plan, listing, walk, accepted, reads, ?_⟩
    refine quiet_add.mpr ⟨quiet_add.mpr ⟨deletes, uploads⟩, quiet_succ.mpr ⟨?_, nofun⟩⟩
    simpa [World.after, Nat.add_assoc] using last
  · rintro ⟨tree, x, y, plan, h⟩
    obtain ⟨writes, last⟩ := quiet_add.mp h.writes
    obtain ⟨deletes, uploads⟩ := quiet_add.mp writes
    let W₁ : World X := { V.after 1 with local' := x }
    let W₂ : World X := W₁.after plan.deleteObjectPaths.length
    let W₃ : World X := { W₂.after plan.uploadFiles.length with local' := y }
    have final : script.fault W₃.lakefs.calls = .none := by
      simpa [W₃, W₂, W₁, World.after, Nat.add_assoc] using (quiet_succ.mp last).1
    obtain ⟨id, U, committed⟩ :=
      (commit_returns_iff job script fresh W₃ (by exact hk)).mpr final
    refine ⟨_, U, _, V.after 1, objects_ok_iff.mpr ⟨h.listing, rfl, rfl⟩, tree, W₁,
      onLocal_ok_iff.mpr ⟨x, h.walk, rfl⟩, plan, W₁,
      Proc.ofExcept_ok_iff.mpr ⟨h.accepted, rfl⟩, (), W₂,
      (deleteObjects_ok_iff _ (by exact hk)).mpr ⟨deletes, rfl⟩, (), W₃,
      (uploadFiles_ok_iff _ (by exact hk)).mpr ⟨uploads, y, h.reads, rfl⟩, id, U, committed, rfl⟩

/-- The staging branch of an attempt. -/
def Prepared.stagingBranch (p : Prepared) : BranchKey :=
  (p.input.repository, stagingBranchName p.execution)

/-- Nothing goes wrong in `stage_workspace`, from the world in which it is called. -/
def StageSucceeds (job : Job X) (script : Script) (p : Prepared) (V : World X) : Prop :=
  script.fault V.lakefs.calls = .none ∧
    ∃ tree x y plan, Undisturbed job script p (V.lakefs.calls + 1) V.local' tree x y plan

/-- In this world `stage_workspace` creates its branch. -/
abbrev CreatesBranch (script : Script) (p : Prepared) (V : World X) : Prop :=
  Creates script V.lakefs p.stagingBranch p.input.ref

/-- What `stage_workspace` leaves behind, and when. -/
theorem stageWorkspace_logs (job : Job X) (script : Script) (fresh : FreshId) (p : Prepared)
    (hV : OnLakefs (Logs [] []) V) :
    Ends
      (fun staged U => (CreatesBranch script p V ∧ StageSucceeds job script p V) ∧
        (staged.repository, staged.branch) = p.stagingBranch ∧
          OnLakefs (Logs [p.stagingBranch] []) U)
      (fun _ U => ¬ CreatesBranch script p V ∧ OnLakefs (Logs [] []) U ∨
        CreatesBranch script p V ∧ ¬ StageSucceeds job script p V ∧
          OnLakefs (Logs [p.stagingBranch] []) U)
      (fun _ => True)
      ((job.runtime script fresh).stageWorkspace job.host.onWorld p.workspaceDir p.input p.spec
        p.execution V) := by
  have create := (onLakefs_ends (createBranch_logs script p.stagingBranch p.input.ref hV)).and .self
  refine .bind (create.mono (fun _ _ h => h) (fun _ U h => ?_) fun _ _ => trivial) fun _ U hU => ?_
  · obtain ⟨none, logs⟩ | ⟨created, logs⟩ := h.1
    · exact .inl ⟨none, logs⟩
    · refine .inr ⟨created, fun succeeds => ?_, logs⟩
      have returned :=
        onLakefs_ok_iff.mpr ⟨_, createBranch_ok_iff.mpr ⟨succeeds.1, created.1, rfl⟩, rfl⟩
      cases h.2.symm.trans returned
  · obtain ⟨logs, returned⟩ := hU
    obtain ⟨s, hs, rfl⟩ := onLakefs_ok_iff.mp returned
    obtain ⟨quiet, creatable, rfl⟩ := createBranch_ok_iff.mp hs
    have hk : (V.lakefs.opened p.stagingBranch p.input.ref).heads p.stagingBranch =
        some p.input.ref := by simp [opened, LakeFS.setHead]
    have returns := stageOnBranch_returns_iff job script fresh
      { V with lakefs := V.lakefs.opened p.stagingBranch p.input.ref } hk
    have kept := (stageOnBranch_keeps job script fresh logs_moving p.workspaceDir p.input p.spec
      (stagingBranchName p.execution)).ends logs
    refine (kept.and .self).mono (fun staged U h => ?_) (fun _ U h => ?_) fun _ _ => trivial
    · refine ⟨⟨⟨creatable, .inl quiet⟩, quiet, returns.mp ⟨staged, U, h.2⟩⟩, ?_, h.1⟩
      have value := h.2
      simp only [LakeFSWorkspaceRuntime.stageOnBranch, Proc.bind_ok_iff] at value
      obtain ⟨_, _, _, _, _, _, _, _, _, _, _, _, _, _, _, _, _, _, ⟨⟩⟩ := value
      rfl
    · refine .inr ⟨⟨creatable, .inl quiet⟩, fun succeeds => ?_, h.1⟩
      obtain ⟨staged, U', returned⟩ := returns.mpr succeeds.2
      cases h.2.symm.trans returned

/-! ## When an attempt stages -/

/-- What comes right before the call of `stage_workspace`: the bytes of the upload are
counted and its timer is started. -/
def openUpload {σ : Type} (host : Host σ) (a : WorkspaceAttempt σ) (p : Prepared) :
    Proc PyException (Frame σ) Unit :=
  match workspaceIoMetrics a with
  | some metrics => do
    let _ ← Frame.lift (workspaceFileBytes host p.workspaceDir)
    Frame.lift (.modify (metrics.runtimeTimerEnter
      ⟨"workspace_io_duration_seconds", a.task.name, "upload"⟩))
  | none => pure ()

/-- The `try` block gets to its call of `stage_workspace`, and calls it in the frame `K`:
the body succeeded and changed the workspace, and the first fence was passed. -/
def ReachesStage {σ : Type} (host : Host σ) (a : WorkspaceAttempt σ) (spec : WorkspaceSpec)
    (execution : TaskExecutionContext) (owner : WorkspaceOwner) (F : Frame σ) (p : Prepared)
    (K : Frame σ) : Prop :=
  ∃ G H L result, beginAttempt host a spec execution owner F = (.ok p, G) ∧
    runBody host a p G = (.ok (result, .changed), H) ∧ checkFence a H = (.ok (), L) ∧
    openUpload host a p L = (.ok (), K)

variable {F : Frame (World X)} {Reached : Prepared → World X → Prop}

/-- The logs of an attempt with the given local `staged`. -/
abbrev LogsFrame (created : List BranchKey) (S : Option StagedWorkspace → Prop) :
    Frame (World X) → Prop := Frame.Inv (OnLakefs (Logs created [])) fun staged _ => S staged

/-- The local `staged` names the branch. -/
def Names (k : BranchKey) (staged : Option StagedWorkspace) : Prop :=
  ∃ s, staged = some s ∧ (s.repository, s.branch) = k

/-- Where the `try` block leaves an attempt that calls `stage_workspace` as `Reached`
says: without a branch, with one that it knows of, or with one that it does not. -/
inductive Verdict (job : Job X) (script : Script) (Reached : Prepared → World X → Prop)
    (F : Frame (World X)) : Prop where
  | clear : (∀ p V, Reached p V → ¬ CreatesBranch script p V) → LogsFrame [] (· = none) F →
      Verdict job script Reached F
  | held (p : Prepared) (V : World X) : Reached p V → CreatesBranch script p V →
      StageSucceeds job script p V → LogsFrame [p.stagingBranch] (Names p.stagingBranch) F →
      Verdict job script Reached F
  | leaked (p : Prepared) (V : World X) : Reached p V → CreatesBranch script p V →
      ¬ StageSucceeds job script p V → LogsFrame [p.stagingBranch] (· = none) F →
      Verdict job script Reached F

/-- The end of a part of the `try` block, as far as its staging branch goes. -/
abbrev VerdictEnds {β : Type} (job : Job X) (script : Script)
    (Reached : Prepared → World X → Prop) (Q : β → Frame (World X) → Prop)
    (call : Outcome PyException β × Frame (World X)) : Prop :=
  Ends Q (fun _ => Verdict job script Reached) (fun _ => True) call

/-- The call of `stage_workspace`, from the frame in which it is made. -/
theorem callStage_logs (hF : LogsFrame [] (· = none) F)
    (reached : ∀ q V, Reached q V ↔ q = p ∧ V = F.world) :
    VerdictEnds job script Reached
      (fun _ G => CreatesBranch script p F.world ∧ StageSucceeds job script p F.world ∧
        LogsFrame [p.stagingBranch] (Names p.stagingBranch) G)
      (callStage (job.workspaceAttempt script fresh) p F) := by
  have stage := stageWorkspace_logs job script fresh p hF.1
  refine .bind ((call_inv_ends (S := fun staged _ => staged = none) (fun _ => rfl) stage hF.2).mono
    (fun _ _ h => h)
    (fun _ G h => ?_) fun _ _ => trivial) fun staged G hG => ?_
  · obtain ⟨⟨none, logs⟩ | ⟨created, disturbed, logs⟩, unstaged⟩ := h
    · refine .clear (fun q V hq => ?_) ⟨logs, unstaged⟩
      obtain ⟨rfl, rfl⟩ := (reached q V).mp hq
      exact none
    · exact .leaked p F.world ((reached _ _).mpr ⟨rfl, rfl⟩) created disturbed ⟨logs, unstaged⟩
  · obtain ⟨⟨⟨created, succeeds⟩, names, logs⟩, -⟩ := hG
    exact ⟨created, succeeds, logs, staged, rfl, names⟩

theorem Verdict.same {G : Frame (World X)} (h : Verdict job script Reached F)
    (same : ∀ created S, LogsFrame created S F → LogsFrame created S G) :
    Verdict job script Reached G := by
  cases h with
  | clear never logs => exact .clear never (same _ _ logs)
  | held p V reached created succeeds logs =>
    exact .held p V reached created succeeds (same _ _ logs)
  | leaked p V reached created disturbed logs =>
    exact .leaked p V reached created disturbed (same _ _ logs)

/-- A staged workspace, in the verdict that keeps it. -/
def Holds (job : Job X) (script : Script) (Reached : Prepared → World X → Prop) (p : Prepared)
    (F : Frame (World X)) : Prop :=
  (∃ V, Reached p V ∧ CreatesBranch script p V ∧ StageSucceeds job script p V) ∧
    LogsFrame [p.stagingBranch] (Names p.stagingBranch) F

theorem Holds.verdict (h : Holds job script Reached p F) : Verdict job script Reached F := by
  obtain ⟨⟨V, reached, created, succeeds⟩, logs⟩ := h
  exact .held p V reached created succeeds logs

/-- What keeps the logs keeps a staged workspace. -/
theorem Holds.keeps {β : Type} {f : Proc PyException (Frame (World X)) β}
    (hf : Keeps (LogsFrame [p.stagingBranch] (Names p.stagingBranch)) (fun _ => True)
      (LogsFrame [p.stagingBranch] (Names p.stagingBranch)) f)
    (h : Holds job script Reached p F) :
    VerdictEnds job script Reached (fun _ => Holds job script Reached p) (f F) :=
  (hf.ends h.2).mono (fun _ _ logs => ⟨h.1, logs⟩) (fun _ _ logs => Holds.verdict ⟨h.1, logs⟩)
    fun _ _ => trivial

theorem stageChanges_logs (hF : LogsFrame [] (· = none) F)
    (reached : ∀ q V, Reached q V ↔ q = p ∧ ∃ K, openUpload job.host.onWorld
      (job.workspaceAttempt script fresh) p F = (.ok (), K) ∧ K.world = V) :
    VerdictEnds job script Reached (fun _ => Holds job script Reached p)
      (stageChanges job.host.onWorld (job.workspaceAttempt script fresh) p F) := by
  have keeps := fun created => job.workspaceAttempt_keeps script fresh (logs_steady created [])
  have called : ∀ G, LogsFrame [] (· = none) G →
      (∀ q V, Reached q V ↔ q = p ∧ V = G.world) →
      VerdictEnds job script Reached (fun _ => Holds job script Reached p)
        (callStage (job.workspaceAttempt script fresh) p G) := fun G hG hreached =>
    (callStage_logs hG hreached).mono (fun _ _ h =>
      ⟨⟨G.world, (hreached _ _).mpr ⟨rfl, rfl⟩, h.1, h.2.1⟩, h.2.2⟩) (fun _ _ h => h) fun _ h => h
  unfold openUpload at reached
  unfold stageChanges
  cases hm : workspaceIoMetrics (job.workspaceAttempt script fresh) with
  | none =>
    refine called F hF fun q V => (reached q V).trans (and_congr_right fun _ => ?_)
    simp only [hm]
    constructor
    · rintro ⟨K, ⟨⟩, rfl⟩
      rfl
    · rintro rfl
      exact ⟨F, rfl, rfl⟩
  | some metrics =>
    simp only [hm, Proc.bind_ok_iff] at reached
    have hm := workspaceIoMetrics_some hm
    have bytes := workspaceFileBytes_keeps (job.host.onWorld_keeps (P := Logs [] [])) p.workspaceDir
    refine .bind (((lift_keeps bytes).ends hF).and .self |>.mono (fun _ _ h => h)
      (fun _ G h => ?_) fun _ _ => trivial) fun n G hG => ?_
    · refine .clear (fun q V hq => ?_) h.1
      obtain ⟨-, K, ⟨m, L, counted, -⟩, -⟩ := (reached q V).mp hq
      cases h.2.symm.trans counted
    · obtain ⟨logs, counted⟩ := hG
      let metric : RuntimeMetric :=
        ⟨"workspace_io_duration_seconds", (job.workspaceAttempt script fresh).task.name, "upload"⟩
      let H : Frame (World X) := { G with world := metrics.runtimeTimerEnter metric G.world }
      have started : LogsFrame [] (· = none) H :=
        ⟨(keeps []).runtimeTimerEnter metrics hm metric _ logs.1, logs.2⟩
      refine .bind (Q := fun _ => Holds job script Reached p) ?_ fun staged L hL => ?_
      · refine .bind (Q := fun _ I => I = H) rfl fun _ I hI => ?_
        subst hI
        refine .tryFinally (called H started fun q V => (reached q V).trans
          (and_congr_right fun _ => ?_)) (fun _ L hL => ?_) fun _ L hL => ?_
        · constructor
          · rintro ⟨K, ⟨m, L, counted', ⟨⟩⟩, rfl⟩
            cases counted.symm.trans counted'
            rfl
          · rintro rfl
            exact ⟨H, ⟨n, G, counted, rfl⟩, rfl⟩
        · exact ⟨hL.1, (keeps _).runtimeTimerExit metrics hm metric _ hL.2.1, hL.2.2⟩
        · exact hL.same fun created S h =>
            ⟨(keeps created).runtimeTimerExit metrics hm metric _ h.1, h.2⟩
      · refine .bind (hL.keeps (recordWorkspaceIoBytes_keeps (keeps _) hm)) fun _ K hK => ?_
        exact hK

/-! ## The whole attempt -/

/-- A part of an attempt that does not get to `stage_workspace`. -/
theorem unstaged_ends {β : Type} {f : Proc PyException (Frame (World X)) β}
    (hf : Keeps (LogsFrame [] (· = none)) (fun _ => True) (LogsFrame [] (· = none)) f)
    (hF : LogsFrame [] (· = none) F)
    (verdict : ∀ G, LogsFrame [] (· = none) G → Verdict job script Reached G) :
    VerdictEnds job script Reached (fun _ => LogsFrame [] (· = none)) (f F) :=
  (hf.ends hF).mono (fun _ _ h => h) (fun _ G h => verdict G h) fun _ _ => trivial

/-- The `try` block ends with the verdict on the frame in which it staged. -/
theorem attemptBlock_verdict {spec : WorkspaceSpec} {execution : TaskExecutionContext}
    {owner : WorkspaceOwner} (hF : LogsFrame [] (· = none) F)
    (reached : ∀ q V, Reached q V ↔ ∃ K, ReachesStage job.host.onWorld
      (job.workspaceAttempt script fresh) spec execution owner F q K ∧ K.world = V) :
    VerdictEnds job script Reached (fun _ => Verdict job script Reached)
      (attemptBlock job.host.onWorld (job.workspaceAttempt script fresh) spec execution owner
        F) := by
  have host := fun created => job.host.onWorld_keeps (P := Logs created [])
  have keeps := fun created => job.workspaceAttempt_keeps script fresh (logs_steady created [])
  have clear : ∀ G, LogsFrame [] (· = none) G → (∀ q K, ¬ ReachesStage job.host.onWorld
      (job.workspaceAttempt script fresh) spec execution owner F q K) →
      Verdict job script Reached G := by
    intro G hG never
    refine .clear (fun q V hq => ?_) hG
    obtain ⟨K, reaches, -⟩ := (reached q V).mp hq
    exact absurd reaches (never q K)
  refine .bind (((beginAttempt_inv_ends (a := job.workspaceAttempt script fresh) (host []) hF).and
    .self).mono (fun _ _ h => h) (fun _ G h => clear G h.1 ?_) fun _ _ => trivial) fun p G hG => ?_
  · rintro q K ⟨G', H, L, result, begun, -⟩
    cases h.2.symm.trans begun
  obtain ⟨⟨-, hG⟩, begun⟩ := hG
  have ends := runBody_inv_ends (p := p) (a := job.workspaceAttempt script fresh) (host [])
    (keeps []) hG
  refine .bind ((ends.and .self).mono (fun _ _ h => h) (fun _ H h => clear H h.1 ?_)
    fun _ _ => trivial) fun r H hH => ?_
  · rintro q K ⟨G', H', L, result, begun', ran, -⟩
    cases begun.symm.trans begun'
    cases h.2.symm.trans ran
  obtain ⟨result, completion⟩ := r
  obtain ⟨⟨-, logs, -, nothing, -⟩, ran⟩ := hH
  have hH : LogsFrame [] (· = none) H := ⟨logs, nothing⟩
  -- an attempt that does not stage only leaves a completion behind
  have unstaged : completion ≠ .changed → ∀ G, LogsFrame [] (· = none) G →
      Verdict job script Reached G := by
    intro other G hG
    refine clear G hG ?_
    rintro q K ⟨G', H', L, result', begun', ran', -⟩
    cases begun.symm.trans begun'
    cases ran.symm.trans ran'
    exact other rfl
  cases completion with
  | readOnly =>
    exact (unstaged_ends completeWith_keeps hH (unstaged nofun)).mono
      (fun _ G h => unstaged nofun G h) (fun _ _ h => h) fun _ h => h
  | unchanged =>
    refine .bind (unstaged_ends (checkFence_keeps (keeps [])) hH (unstaged nofun)) fun _ G hG => ?_
    have relocated : Keeps (LogsFrame [] (· = none)) (fun _ => True) (LogsFrame [] (· = none))
        (completeNoop (job.workspaceAttempt script fresh) p) :=
      withPublishTimer_keeps (keeps [])
        (call_keeps (fun _ => rfl) (completeNoopWorkspace_keeps job logs_moving _))
    refine .bind (unstaged_ends relocated hG (unstaged nofun)) fun _ G hG => ?_
    exact (unstaged_ends completeWith_keeps hG (unstaged nofun)).mono
      (fun _ G h => unstaged nofun G h) (fun _ _ h => h) fun _ h => h
  | changed =>
    refine .bind ((((checkFence_keeps (keeps [])).ends hH).and .self).mono (fun _ _ h => h)
      (fun _ G h => clear G h.1 ?_) fun _ _ => trivial) fun _ L hL => ?_
    · rintro q K ⟨G', H', L, result', begun', ran', fenced, -⟩
      cases begun.symm.trans begun'
      cases ran.symm.trans ran'
      cases h.2.symm.trans fenced
    obtain ⟨hL, fenced⟩ := hL
    have reachedHere : ∀ q V, Reached q V ↔ q = p ∧ ∃ K, openUpload job.host.onWorld
        (job.workspaceAttempt script fresh) p L = (.ok (), K) ∧ K.world = V := by
      intro q V
      rw [reached]
      constructor
      · rintro ⟨K, ⟨G', H', L', result', begun', ran', fenced', counted⟩, hV⟩
        cases begun.symm.trans begun'
        cases ran.symm.trans ran'
        cases fenced.symm.trans fenced'
        exact ⟨rfl, K, counted, hV⟩
      · rintro ⟨rfl, K, counted, hV⟩
        exact ⟨K, ⟨G, H, L, result, begun, ran, fenced, counted⟩, hV⟩
    refine .bind (stageChanges_logs hL reachedHere) fun staged K hK => ?_
    refine .bind (hK.keeps (checkFence_keeps (keeps _))) fun _ K hK => ?_
    refine .bind (hK.keeps (withPublishTimer_keeps (keeps _)
      (call_keeps (fun _ => rfl) (publishWorkspace_keeps job logs_moving _ _)))) fun ref K hK => ?_
    exact (hK.keeps completeWith_keeps).mono (fun _ _ h => h.verdict) (fun _ _ h => h) fun _ h => h

theorem deleteBranch_logs {created deletions : List BranchKey} {s : LakeFS} (script : Script)
    (k : BranchKey) (hs : Logs created deletions s) :
    Always (Logs created (deletions ++ [k])) (deleteBranch script k s) := by
  have asked : Logs created (deletions ++ [k]) { s with deletions := s.deletions ++ [k] } :=
    ⟨hs.1, by rw [hs.2]⟩
  refine .bind (Q := fun _ => Logs created (deletions ++ [k])) asked fun _ t ht => ?_
  refine (serve_keeps logs_moving.steady fun n u _ v hu he => ?_).ends ht
  split at he <;> cases he
  exact hu

/-- The `finally` block asks once to delete the branch that the attempt knows of. -/
theorem finishAttempt_logs {created : List BranchKey} {staged : Option StagedWorkspace}
    (job : Job X) (script : Script) (fresh : FreshId) (owner : WorkspaceOwner)
    (hF : LogsFrame created (· = staged) F) :
    Always (Frame.World (OnLakefs
        (Logs created (staged.map fun s => (s.repository, s.branch)).toList)))
      (finishAttempt job.host.onWorld (job.workspaceAttempt script fresh) owner F) := by
  have host := job.host.onWorld_keeps
    (P := Logs created (staged.map fun s => (s.repository, s.branch)).toList)
  refine .bind (Q := fun _ => Frame.World (OnLakefs
    (Logs created (staged.map fun s => (s.repository, s.branch)).toList))) ?_ fun _ G hG => ?_
  · refine .bind (Q := fun st G => st = staged ∧ F = G) ⟨hF.2, rfl⟩ fun st G hG => ?_
    obtain ⟨rfl, rfl⟩ := hG
    cases st with
    | none => exact ⟨hF.1, trivial⟩
    | some s =>
      have deleted := onLakefs_ends (deleteBranch_logs script (s.repository, s.branch) hF.1)
      refine .tryExcept ((call_inv_ends (S := fun _ _ => True) (fun _ => rfl) deleted
        trivial).mono (fun _ _ h => h) (fun _ _ h => h) fun _ h => h) fun _ H hH => ?_
      exact hH
  · refine .bind ((cleanupLocal_keeps host).ends hG) fun _ H hH => ?_
    exact ⟨host.unregisterOwner _ _ hH.1, trivial⟩

/-- The `try` block of an attempt that runs in `W`. -/
def Job.block (job : Job X) (script : Script) (fresh : FreshId) (spec : WorkspaceSpec)
    (W : World X) : Outcome PyException RuntimeTaskResult × Frame (World X) :=
  let (execution, owner, V) := openAttempt job.host.onWorld (job.workspaceAttempt script fresh) W
  attemptBlock job.host.onWorld (job.workspaceAttempt script fresh) spec execution owner (.enter V)

/-- The result that the end of the `try` block asks for. -/
def Job.Asks (job : Job X) (r : RuntimeTaskResult) : Outcome PyException RuntimeTaskResult → Prop
  | .ok r' => r = r'
  | .error exc => resultForException job.nestingLimit exc job.failureReasonMaxLength = .ok r
  | .crashed => False

/-- The attempt calls `stage_workspace` in the world `V`. -/
def Job.Stages (job : Job X) (script : Script) (fresh : FreshId) (W : World X) (p : Prepared)
    (V : World X) : Prop :=
  ∃ spec, job.task.workspace = some spec ∧
    let (execution, owner, U) := openAttempt job.host.onWorld (job.workspaceAttempt script fresh) W
    ∃ K, ReachesStage job.host.onWorld (job.workspaceAttempt script fresh) spec execution owner
      (.enter U) p K ∧ K.world = V

variable {W W' : World X} {r : RuntimeTaskResult}

/-- An attempt that returns: its result, and the logs it leaves. -/
theorem Job.run_verdict (hW : OnLakefs (Logs [] []) W)
    (hrun : job.run script fresh W = (.ok r, W')) :
    (∃ spec, job.task.workspace = some spec ∧ job.Asks r (job.block script fresh spec W).1) ∧
      ∃ F : Frame (World X), Verdict job script (job.Stages script fresh W) F ∧
        OnLakefs (Logs F.world.lakefs.created
          (F.staged.map fun s => (s.repository, s.branch)).toList) W' := by
  have host := job.host.onWorld_keeps (P := Logs [] [])
  unfold Job.run runWorkspaceTaskAttempt at hrun
  cases hspec : (job.workspaceAttempt script fresh).task.workspace with
  | none => simp [hspec] at hrun
  | some spec =>
    simp only [hspec, runInFrame] at hrun
    have opened := openAttempt_inv (a := job.workspaceAttempt script fresh) host hW
    cases hopen : openAttempt job.host.onWorld (job.workspaceAttempt script fresh) W with
    | mk execution rest =>
      obtain ⟨owner, U⟩ := rest
      simp only [hopen] at hrun opened
      have verdict : VerdictEnds job script (job.Stages script fresh W)
          (fun _ => Verdict job script (job.Stages script fresh W))
          (attemptBlock job.host.onWorld (job.workspaceAttempt script fresh) spec execution owner
            (.enter U)) :=
        attemptBlock_verdict ⟨opened, rfl⟩ fun q V => by
          simp only [Job.Stages, hopen]
          constructor
          · rintro ⟨spec', hspec', rest⟩
            cases hspec.symm.trans hspec'
            exact rest
          · exact fun rest => ⟨spec, hspec, rest⟩
      have finished : ∀ G H, Verdict job script (job.Stages script fresh W) G →
          finishAttempt job.host.onWorld (job.workspaceAttempt script fresh) owner G = (.ok (), H) →
          OnLakefs (Logs G.world.lakefs.created
            (G.staged.map fun s => (s.repository, s.branch)).toList) H.world := by
        intro G H hG hfinish
        have deletions : G.world.lakefs.deletions = [] := by
          cases hG with
          | clear _ logs => exact logs.1.2
          | held _ _ _ _ _ logs => exact logs.1.2
          | leaked _ _ _ _ _ logs => exact logs.1.2
        have kept := finishAttempt_logs job script fresh owner (F := G) ⟨⟨rfl, deletions⟩, rfl⟩
        rw [hfinish] at kept
        exact kept.1
      generalize hcall : guardedAttempt job.host.onWorld (job.workspaceAttempt script fresh) spec
        execution owner (.enter U) = call at hrun
      obtain ⟨o, H⟩ := call
      cases hrun
      obtain ⟨G, hbody, hfinish⟩ := Proc.tryFinally_ok_iff.mp hcall
      have block : ∀ o, (attemptBlock job.host.onWorld (job.workspaceAttempt script fresh) spec
          execution owner (.enter U)).1 = o → (job.block script fresh spec W).1 = o := by
        rintro _ rfl
        simp only [Job.block, hopen]
      obtain hblock | ⟨exc, G', hblock, handled⟩ := Proc.tryExcept_ok_iff.mp hbody
      · rw [hblock] at verdict
        refine ⟨⟨spec, hspec, ?_⟩, G, verdict, finished G H verdict hfinish⟩
        rw [block (.ok r) (by rw [hblock])]
        rfl
      · rw [hblock] at verdict
        obtain ⟨hr, rfl⟩ := Proc.ofExcept_ok_iff.mp handled
        refine ⟨⟨spec, hspec, ?_⟩, G, verdict, finished G H verdict hfinish⟩
        rw [block (.error exc) (by rw [hblock])]
        exact hr

/-- An attempt stages at most once. -/
theorem Job.Stages.unique {q : Prepared} {V U : World X} (h : job.Stages script fresh W p V)
    (h' : job.Stages script fresh W q U) : p = q ∧ V = U := by
  obtain ⟨spec, hspec, K, ⟨G, H, L, result, begun, ran, fenced, counted⟩, rfl⟩ := h
  obtain ⟨spec', hspec', K', ⟨G', H', L', result', begun', ran', fenced', counted'⟩, rfl⟩ := h'
  cases hspec.symm.trans hspec'
  cases begun.symm.trans begun'
  cases ran.symm.trans ran'
  cases fenced.symm.trans fenced'
  cases counted.symm.trans counted'
  exact ⟨rfl, rfl⟩

/-- Every branch that was created has been asked once to be deleted. -/
def NoneLeaked (s : LakeFS) : Prop := ∀ k ∈ s.created, s.deletions.count k = 1

/-- An attempt that returns has cleaned up its staging branch, and returns the result of
its `try` block, exactly when `stage_workspace` succeeds wherever it creates a branch. -/
theorem staging_cleaned_iff (hW : W.lakefs.created = [] ∧ W.lakefs.deletions = [])
    (hrun : job.run script fresh W = (.ok r, W')) :
    (NoneLeaked W'.lakefs ∧
      ∃ spec, job.task.workspace = some spec ∧ job.Asks r (job.block script fresh spec W).1) ↔
    ∀ p V, job.Stages script fresh W p V → CreatesBranch script p V →
      StageSucceeds job script p V := by
  obtain ⟨asks, F, verdict, created, deletions⟩ := job.run_verdict hW hrun
  unfold NoneLeaked
  rw [created, deletions, and_iff_left asks]
  cases verdict with
  | clear never logs =>
    refine ⟨fun _ p V stages creates => absurd creates (never p V stages), fun _ k hk => ?_⟩
    rw [logs.1.1] at hk
    cases hk
  | held p V stages creates succeeds logs =>
    refine ⟨fun _ q U stages' _ => ?_, fun _ k hk => ?_⟩
    · obtain ⟨rfl, rfl⟩ := stages.unique stages'
      exact succeeds
    · obtain ⟨staged, hstaged, names⟩ := logs.2
      rw [logs.1.1] at hk
      obtain rfl := List.mem_singleton.mp hk
      simp [hstaged, names]
  | leaked p V stages creates disturbed logs =>
    refine ⟨fun cleaned => ?_, fun succeeds => absurd (succeeds p V stages creates) disturbed⟩
    have count := cleaned p.stagingBranch (by rw [logs.1.1]; exact List.mem_singleton_self _)
    simp [logs.2] at count

/-! ## A branch that stays behind -/

/-- A script in which no call fails. -/
def calm : Script where
  fault _ := .none
  listing _ := []
  content _ := []

/-- The first step of a workflow, with a task that leaves the given tree behind. -/
def stepLeaving (tree : LocalTree) : Job LocalTree :=
  { plainJob "1" with
    task := leavingTree fun _ => tree
    inputData := stepInput (branchMain "A" isBlank_A) (.dict []) }

theorem stepLeaving_behaved (tree : LocalTree) : (stepLeaving tree).Behaved where
  host := treeHost_keeps.mono fun _ h => h.elim
  validateParams _ _ h := nomatch h
  validateResult _ _ h := nomatch h
  fn _ _ _ := fun _ _ => trivial
  loadCurrentAttempt _ := .pure

theorem stepLeaving_returns (tree : LocalTree) :
    ∃ r V, (stepLeaving tree).run calm longer ⟨oneCommit, emptyTree⟩ = (.ok r, V) :=
  Job.run_returns rfl (stepLeaving_behaved tree) (fun _ => trivial) _

theorem staging_cleaned_iff_plain :
    ∃ r V, (stepLeaving plainTree).run calm longer ⟨oneCommit, emptyTree⟩ = (.ok r, V) ∧
      ((NoneLeaked V.lakefs ∧ ∃ spec, (stepLeaving plainTree).task.workspace = some spec ∧
        (stepLeaving plainTree).Asks r
          ((stepLeaving plainTree).block calm longer spec ⟨oneCommit, emptyTree⟩).1) ↔
      ∀ p U, (stepLeaving plainTree).Stages calm longer ⟨oneCommit, emptyTree⟩ p U →
        CreatesBranch calm p U → StageSucceeds (stepLeaving plainTree) calm p U) := by
  obtain ⟨r, V, hrun⟩ := stepLeaving_returns plainTree
  exact ⟨r, V, hrun, staging_cleaned_iff ⟨rfl, rfl⟩ hrun⟩

/-- A workspace with a symlink in it. -/
def linkTree : LocalTree where
  entries := [⟨[text "link"], .symlink⟩]
  nodup := by simp
  inside := by simp
  named := by
    simp only [List.mem_singleton, forall_eq]
    exact ⟨⟨by decide, by decide⟩, by decide⟩

/-- The frame of the attempt that leaves the symlink behind. -/
def linkPrepared : Prepared :=
  let execution : TaskExecutionContext := ⟨ConductorRuntime.someAttempt, "1"⟩
  ⟨⟨rootPrefix, [], [], false⟩, branchMain "A" isBlank_A, attemptWorkspaceDir [] execution,
    execution⟩

theorem linkTree_stages :
    (stepLeaving linkTree).Stages calm longer ⟨oneCommit, emptyTree⟩ linkPrepared
      ⟨oneCommit.after 1, linkTree⟩ :=
  ⟨_, rfl, _, ⟨_, _, _, _, rfl, rfl, rfl, rfl⟩, rfl⟩

theorem linkTree_creates : CreatesBranch calm linkPrepared ⟨oneCommit.after 1, linkTree⟩ := by
  have other : linkPrepared.stagingBranch ≠ ("repository", "main") := by decide
  have head : oneCommit.heads linkPrepared.stagingBranch = none := by simp [oneCommit, other]
  exact ⟨⟨head, List.mem_singleton_self _⟩, .inl rfl⟩

/-- No plan uploads a symlink. -/
theorem linkTree_disturbs :
    ¬ StageSucceeds (stepLeaving linkTree) calm linkPrepared ⟨oneCommit.after 1, linkTree⟩ := by
  rintro ⟨-, tree, x, y, plan, h⟩
  obtain rfl : linkTree = tree := by
    cases h.walk
    rfl
  have rejected : ∃ exc, buildWorkspaceSyncPlan linkTree rootPrefix (objectPaths []) =
      .error exc := ⟨_, rfl⟩
  obtain ⟨exc, hexc⟩ := rejected
  cases h.accepted.symm.trans hexc

/-- The plan is made after the branch, and nobody deletes the branch when it is
rejected. -/
theorem symlink_leaks_branch :
    ∃ r V, (stepLeaving linkTree).run calm longer ⟨oneCommit, emptyTree⟩ = (.ok r, V) ∧
      ∃ k ∈ V.lakefs.created, k ∉ V.lakefs.deletions := by
  obtain ⟨r, V, hrun⟩ := stepLeaving_returns linkTree
  refine ⟨r, V, hrun, ?_⟩
  obtain ⟨-, F, verdict, created, deletions⟩ := Job.run_verdict ⟨rfl, rfl⟩ hrun
  rw [created, deletions]
  cases verdict with
  | clear never logs => exact absurd linkTree_creates (never _ _ linkTree_stages)
  | held p U stages creates succeeds logs =>
    obtain ⟨rfl, rfl⟩ := linkTree_stages.unique stages
    exact absurd succeeds linkTree_disturbs
  | leaked p U stages creates disturbed logs =>
    refine ⟨p.stagingBranch, by rw [logs.1.1]; exact List.mem_singleton_self _, ?_⟩
    simp [logs.2]

end Perago
