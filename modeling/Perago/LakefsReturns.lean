import Perago.EffectOrder
import Perago.LakefsInvariants

/-!
# Attempts that nothing takes down

When no call dies and every exception is well formed, an attempt over LakeFS returns.
-/

namespace Perago

open Effect

variable {limit : Nat}

/-! ## Exceptions of the plans -/

theorem definitionError_wellFormed (message : String) :
    (definitionError message).WellFormed limit :=
  PyException.wellFormed_mk' _ (by decide)

theorem pathParts_wellFormed {value : PathValue} {exc : PyException}
    (h : pathParts value = .error exc) : exc.WellFormed limit := by
  unfold pathParts at h
  split at h
  · split at h <;> cases h
    exact definitionError_wellFormed _
  · split at h <;> cases h
    exact definitionError_wellFormed _
  · split at h
    · cases h
      exact definitionError_wellFormed _
    · split at h
      · cases h
        exact definitionError_wellFormed _
      · split at h <;> cases h
        exact definitionError_wellFormed _

theorem canonicalWorkspacePath_wellFormed {value : PathValue} {exc : PyException}
    (h : canonicalWorkspacePath value = .error exc) : exc.WellFormed limit := by
  unfold canonicalWorkspacePath at h
  split at h
  · rename_i e he
    cases h
    exact pathParts_wellFormed he
  · split at h
    · cases h
      exact definitionError_wellFormed _
    · split at h <;> cases h
      exact definitionError_wellFormed _

theorem workspaceLocalParts_wellFormed {p : WorkspacePrefix} {objectPath : Text} {exc : PyException}
    (h : workspaceLocalParts p objectPath = .error exc) : exc.WellFormed limit := by
  rw [workspaceLocalParts_eq] at h
  split at h
  · rename_i e he
    cases h
    exact canonicalWorkspacePath_wellFormed he
  · split at h
    · cases h
    · dsimp only at h
      split at h
      · split at h
        · rename_i e he
          cases h
          exact canonicalWorkspacePath_wellFormed he
        · cases h
      · cases h

theorem workspaceObjectPath_wellFormed {p : WorkspacePrefix} {value : PathValue} {exc : PyException}
    (h : workspaceObjectPath p value = .error exc) : exc.WellFormed limit := by
  unfold workspaceObjectPath at h
  split at h
  · rename_i e he
    cases h
    exact canonicalWorkspacePath_wellFormed he
  · split at h <;> cases h

theorem collect_error {ε α β : Type} {f : α → Except ε (Option β)} {xs : List α} {e : ε}
    (h : collect f xs = .error e) : ∃ x ∈ xs, f x = .error e := by
  induction xs with
  | nil => cases h
  | cons x xs ih =>
    rw [collect] at h
    split at h
    · rename_i e' he
      cases h
      exact ⟨x, List.mem_cons_self, he⟩
    · split at h
      · rename_i e' he
        cases h
        obtain ⟨y, hy, hfy⟩ := ih he
        exact ⟨y, List.mem_cons_of_mem x hy, hfy⟩
      · cases h

theorem workspaceDownloadFiles_wellFormed {p : WorkspacePrefix} {paths : List Text}
    {exc : PyException} (h : workspaceDownloadFiles p paths = .error exc) :
    exc.WellFormed limit := by
  rw [workspaceDownloadFiles_eq] at h
  obtain ⟨path, -, h⟩ := collect_error h
  unfold downloadObject at h
  split at h
  · rename_i e he
    cases h
    exact workspaceLocalParts_wellFormed he
  · cases h

theorem buildWorkspaceSyncPlan_wellFormed {tree : LocalTree} {p : WorkspacePrefix}
    {existing : List Text} {exc : PyException}
    (h : buildWorkspaceSyncPlan tree p existing = .error exc) : exc.WellFormed limit := by
  unfold buildWorkspaceSyncPlan at h
  split at h
  · rename_i e he
    cases h
    obtain ⟨entry, -, h⟩ := collect_error he
    unfold uploadEntry at h
    split at h
    · cases h
    · split at h
      · cases h
        exact PyException.wellFormed_mk' _ (by decide)
      · split at h
        · rename_i e he
          cases h
          exact workspaceObjectPath_wellFormed he
        · cases h
      · cases h
      · cases h
  · split at h
    · rename_i e he
      cases h
      obtain ⟨path, -, h⟩ := collect_error he
      rw [deleteObject_parts] at h
      split at h
      · cases h
      · split at h
        · rename_i e he
          cases h
          exact workspaceLocalParts_wellFormed he
        · cases h
    · cases h

/-! ## Calls of LakeFS -/

/-- Every call of LakeFS returns, or raises a well-formed exception. -/
def Script.Behaved (limit : Nat) (script : Script) : Prop :=
  ∀ n, match script.fault n with
    | .none => True
    | .before exc | .after exc => exc.WellFormed limit
    | .crashBefore | .crashAfter => False

variable {X α : Type} {script : Script} {fresh : FreshId} {job : Job X}

namespace LakeFS

variable {key : BranchKey}

theorem notFound_wellFormed (what : String) : (notFound what).WellFormed limit :=
  PyException.wellFormed_mk' _ (by decide)

theorem serve_survives {effect : Nat → LakeFS → Except PyException (α × LakeFS)}
    (hs : script.Behaved limit) (wf : ∀ n s exc, effect n s = .error exc → exc.WellFormed limit) :
    Survives (PyException.WellFormed limit) (serve script effect) := by
  intro s _
  have quiet := hs s.calls
  unfold serve
  dsimp only
  cases hfault : script.fault s.calls with
  | crashBefore | crashAfter =>
    rw [hfault] at quiet
    exact quiet.elim
  | before exc =>
    rw [hfault] at quiet
    exact ⟨quiet, trivial⟩
  | none =>
    dsimp only
    split
    · trivial
    · rename_i exc he
      exact ⟨wf _ _ _ he, trivial⟩
  | after exc =>
    rw [hfault] at quiet
    dsimp only
    split
    · exact ⟨quiet, trivial⟩
    · rename_i exc' he
      exact ⟨wf _ _ _ he, trivial⟩

theorem read_survives {answer : Nat → LakeFS → Except PyException α} (hs : script.Behaved limit)
    (wf : ∀ n s exc, answer n s = .error exc → exc.WellFormed limit) :
    Survives (PyException.WellFormed limit) (read script answer) := by
  refine serve_survives hs fun n s exc he => ?_
  cases hanswer : answer n s with
  | ok a => simp [hanswer, Except.map] at he
  | error e =>
    simp only [hanswer, Except.map, Except.error.injEq] at he
    exact he ▸ wf n s e hanswer

theorem head_wellFormed {s : LakeFS} {exc : PyException} (h : s.head key = .error exc) :
    exc.WellFormed limit := by
  unfold head at h
  split at h <;> cases h
  exact notFound_wellFormed _

theorem createBranch_survives {ref : String} (hs : script.Behaved limit) :
    Survives (PyException.WellFormed limit) (createBranch script key ref) := by
  refine serve_survives hs fun n s exc he => ?_
  split at he
  · cases he
    exact PyException.wellFormed_mk' _ (by decide)
  · split at he <;> cases he
    exact notFound_wellFormed _

theorem commit_survives (hs : script.Behaved limit) :
    Survives (PyException.WellFormed limit) (commit script fresh key) := by
  refine serve_survives hs fun n s exc he => ?_
  split at he
  · cases he
  · rename_i e hhead
    cases he
    exact head_wellFormed hhead

theorem getCommit_survives (hs : script.Behaved limit) :
    Survives (PyException.WellFormed limit) (getCommit script key) := by
  refine read_survives hs fun n s exc he => ?_
  split at he
  · split at he <;> cases he
    exact notFound_wellFormed _
  · rename_i e hhead
    cases he
    exact head_wellFormed hhead

theorem mergeInto_survives {source : BranchKey} (hs : script.Behaved limit) :
    Survives (PyException.WellFormed limit) (mergeInto script fresh source key) := by
  refine serve_survives hs fun n s exc he => ?_
  cases hsource : s.head source with
  | error e =>
    simp only [hsource, Except.error.injEq] at he
    exact he ▸ head_wellFormed hsource
  | ok id =>
    cases htarget : s.head key with
    | error e =>
      simp only [hsource, htarget, Except.error.injEq] at he
      exact he ▸ head_wellFormed htarget
    | ok parent => simp [hsource, htarget] at he

theorem hardResetBranch_survives {ref : String} (hs : script.Behaved limit) :
    Survives (PyException.WellFormed limit) (hardResetBranch script key ref) := by
  refine serve_survives hs fun n s exc he => ?_
  split at he
  · split at he <;> cases he
    exact notFound_wellFormed _
  · rename_i e hhead
    cases he
    exact head_wellFormed hhead

theorem deleteBranch_survives (hs : script.Behaved limit) :
    Survives (PyException.WellFormed limit) (deleteBranch script key) := by
  refine .bind (fun _ _ => trivial) fun _ => serve_survives hs fun n s exc he => ?_
  split at he
  · cases he
  · rename_i e hhead
    cases he
    exact head_wellFormed hhead

end LakeFS

/-! ## Attempts -/

/-- What the task, the operating system and Conductor do, less LakeFS. -/
structure Job.Behaved (job : Job X) : Prop where
  host : job.host.Behaved
  validateParams : ∀ v exc, job.task.validateParams v = .error exc →
    exc.WellFormed job.nestingLimit
  validateResult : ∀ v exc, job.task.validateResult v = .error exc →
    exc.WellFormed job.nestingLimit
  fn : ∀ dir params metrics,
    Survives (PyException.WellFormed job.nestingLimit) (job.task.fn dir params metrics)
  loadCurrentAttempt : ∀ attempt,
    Survives (PyException.WellFormed job.nestingLimit) (job.loadCurrentAttempt attempt)

theorem onLocal_survives {W : PyException → Prop} {f : Proc PyException X α} (hf : Survives W f) :
    Survives W (onLocal f) :=
  fun V _ => .zoom ((hf V.local' trivial).mono (fun _ _ h => h) (fun _ _ h => h) fun _ h => h)

theorem onLakefs_survives {W : PyException → Prop} {f : Proc PyException LakeFS α}
    (hf : Survives W f) : Survives W (onLakefs f : Proc PyException (World X) α) :=
  fun V _ => .zoom ((hf V.lakefs trivial).mono (fun _ _ h => h) (fun _ _ h => h) fun _ h => h)

theorem answer_survives (answer : Nat → α) (hs : script.Behaved limit) :
    Survives (PyException.WellFormed limit)
      (onLakefs (LakeFS.read script fun n _ => .ok (answer n)) : Proc PyException (World X) α) :=
  onLakefs_survives (LakeFS.read_survives hs fun _ _ _ h => nomatch h)

theorem Host.onWorld_behaved {host : Host X} (hh : host.Behaved) : host.onWorld.Behaved where
  uuid4Hex _ _ := trivial
  registerOwner _ _ _ := trivial
  unregisterOwner _ _ _ := trivial
  mkdir dir := onLocal_survives (hh.mkdir dir)
  writeMarker path marker := onLocal_survives (hh.writeMarker path marker)
  rglob dir := onLocal_survives (hh.rglob dir)
  isFile path := onLocal_survives (hh.isFile path)
  isDir path := onLocal_survives (hh.isDir path)
  globCount dir pattern := onLocal_survives (hh.globCount dir pattern)
  readlink path := onLocal_survives (hh.readlink path)
  readBytes path := onLocal_survives (hh.readBytes path)
  fileSize path := onLocal_survives (hh.fileSize path)
  writeBytes path bytes := onLocal_survives (hh.writeBytes path bytes)
  rmtree dir := onLocal_survives (hh.rmtree dir)

theorem Job.workspaceAttempt_behaved (fresh : FreshId) (hj : job.Behaved)
    (hs : script.Behaved job.nestingLimit) :
    (job.workspaceAttempt script fresh).Behaved where
  validateParams := hj.validateParams
  validateResult := hj.validateResult
  fn dir params _ := onLocal_survives (hj.fn dir params _)
  downloadWorkspace i spec dir := by
    have host := (Host.onWorld_behaved hj.host).mono fun _ h => h.wellFormed job.nestingLimit
    refine .bind (answer_survives script.listing hs) fun items => ?_
    refine .bind (.ofExcept fun _ => workspaceDownloadFiles_wellFormed)
      fun files => .each fun file => ?_
    exact .bind (answer_survives script.content hs) fun bytes => host.writeBytes _ _
  loadCurrentAttempt attempt := onLocal_survives (hj.loadCurrentAttempt attempt)
  stageWorkspace dir i spec execution := by
    have host := (Host.onWorld_behaved hj.host).mono fun _ h => h.wellFormed job.nestingLimit
    have touched : Survives (PyException.WellFormed job.nestingLimit)
        (onLakefs (LakeFS.read script fun _ s =>
            (s.head (i.repository, stagingBranchName execution)).map fun _ => ()) :
          Proc PyException (World X) Unit) := by
      refine onLakefs_survives (LakeFS.read_survives hs fun n s exc he => ?_)
      cases hhead : s.head (i.repository, stagingBranchName execution) with
      | ok id => simp [hhead, Except.map] at he
      | error e =>
        simp only [hhead, Except.map, Except.error.injEq] at he
        exact he ▸ LakeFS.head_wellFormed hhead
    refine .bind (onLakefs_survives (LakeFS.createBranch_survives hs)) fun _ => ?_
    refine .bind (answer_survives script.listing hs) fun items => ?_
    refine (host.rglob dir).bind fun tree => ?_
    refine .bind (.ofExcept fun _ => buildWorkspaceSyncPlan_wellFormed) fun plan => ?_
    refine .bind (.each fun path => touched) fun _ => ?_
    refine .bind (.each fun file => (host.readBytes _).bind fun bytes => touched) fun _ => ?_
    exact .bind (onLakefs_survives (LakeFS.commit_survives hs)) fun commit => .pure
  publishWorkspace staged i spec execution := by
    refine .bind (onLakefs_survives (LakeFS.getCommit_survives hs)) fun head => ?_
    split
    · unfold LakeFSWorkspaceRuntime.mergeStagedWorkspace
      split
      · exact onLakefs_survives (LakeFS.mergeInto_survives hs)
      · exact onLakefs_survives (LakeFS.mergeInto_survives hs)
    · split
      · exact .bind (onLakefs_survives (LakeFS.hardResetBranch_survives hs)) fun _ => .pure
      · exact .raise (PyException.wellFormed_mk' _ (by decide))
  cleanupStaging staged := onLakefs_survives (LakeFS.deleteBranch_survives hs)
  completeNoopWorkspace noop hnoop i spec execution := by
    cases hnoop
    refine .bind (onLakefs_survives (LakeFS.getCommit_survives hs)) fun head => ?_
    split
    · exact .pure
    · split
      · exact .bind (onLakefs_survives (LakeFS.hardResetBranch_survives hs)) fun _ => .pure
      · exact .raise (PyException.wellFormed_mk' _ (by decide))

/-- An attempt that nothing takes down returns. -/
theorem Job.run_returns {spec : WorkspaceSpec} (hspec : job.task.workspace = some spec)
    (hj : job.Behaved) (hs : script.Behaved job.nestingLimit) (W : World X) :
    ∃ r V, job.run script fresh W = (.ok r, V) := by
  have ended := guardedAttempt_ends
    (openAttempt job.host.onWorld (job.workspaceAttempt script fresh) W).1
    (openAttempt job.host.onWorld (job.workspaceAttempt script fresh) W).2.1
    ⟨Host.onWorld_behaved hj.host, fun _ h => h⟩ (Job.workspaceAttempt_behaved fresh hj hs) rfl
    (⟨rfl, trivial, rfl, rfl, .nil⟩ : At job.host.onWorld (job.workspaceAttempt script fresh) spec
      none .begun (.enter (openAttempt job.host.onWorld (job.workspaceAttempt script fresh) W).2.2))
  have run := runWorkspaceTaskAttempt_ends (Q := fun _ _ => True) (E := fun _ _ => False)
    (C := fun _ => False) (a := job.workspaceAttempt script fresh) (s := W) hspec
    (ended.mono (fun _ _ _ => trivial) (fun _ _ h => h) fun _ h => h)
  obtain ⟨r, V, hrun, -⟩ := run.returns
  exact ⟨r, V, hrun⟩

end Perago
