import Perago.Execution

/-!
# The LakeFS workspace runtime

The callbacks of a workspace attempt, over the calls of the LakeFS SDK.
-/

namespace Perago

open Effect
open ConductorRuntime (ConductorTaskAttempt)

/-! ## The SDK -/

/-- An entry of `objects(...)`. -/
structure ObjectItem where
  path : Text
  pathType : Option String

/-- A parent of a commit object: its id, or an object or mapping that may hold one. -/
inductive ParentRef where
  | id (s : String)
  | record (id : Option String)

/-- A commit object; `parents` is absent when the attribute is no sequence. -/
structure CommitObject where
  id : String
  parents : Option (List ParentRef)

/-- The calls of the SDK, on a state `σ`. A ref is a branch or a commit; a timeout is
the `_request_timeout` of a publish budget. -/
structure LakeFSClient (σ : Type) where
  objects : String → String → Text → Proc PyException σ (List ObjectItem)
  readObject : String → String → Text → Proc PyException σ Bytes
  createBranch : String → String → String → Proc PyException σ Unit
  deleteObject : String → String → Text → Proc PyException σ Unit
  uploadObject : String → String → Text → Bytes → Proc PyException σ Unit
  commit : String → String → String → Proc PyException σ String
  getCommit : String → String → Proc PyException σ CommitObject
  mergeInto : String → String → String → Option Nat → Proc PyException σ String
  hardResetBranch : String → String → String → Option Nat → Proc PyException σ Unit
  deleteBranch : String → String → Proc PyException σ Unit

/-- `_first_parent_id`. -/
def firstParentId (commit : CommitObject) : Option String :=
  match commit.parents.getD [] with
  | [] => none
  | .id s :: _ => some s
  | .record id :: _ => id

/-- The object paths of a listing. -/
def objectPaths (items : List ObjectItem) : List Text :=
  (items.filter fun item => item.pathType.getD "object" = "object").map (·.path)

/-! ## The runtime -/

/-- `LakeFSWorkspaceRuntime`; the budget holds `lakefs_merge_timeout_seconds`. -/
structure LakeFSWorkspaceRuntime (σ : Type) where
  client : LakeFSClient σ
  publishBudget : Option Nat

namespace LakeFSWorkspaceRuntime

variable {σ : Type} (host : Host σ) (R : LakeFSWorkspaceRuntime σ)

/-- The loop body of `download_workspace`. -/
def downloadFile (i : WorkspaceInput) (workspaceDir : Path) (file : WorkspaceDownloadFile) :
    Proc PyException σ Unit := do
  let bytes ← R.client.readObject i.repository i.ref file.objectPath
  host.writeBytes (workspaceDir ++ file.localPath) bytes

def downloadWorkspace (i : WorkspaceInput) (spec : WorkspaceSpec) (workspaceDir : Path) :
    Proc PyException σ Unit := do
  let items ← R.client.objects i.repository i.ref (workspaceObjectPrefix spec.workspacePrefix)
  let files ← .ofExcept (workspaceDownloadFiles spec.workspacePrefix (objectPaths items))
  .each (R.downloadFile host i workspaceDir) files

/-- The upload of one planned file. -/
def uploadFile (repository branch : String) (workspaceDir : Path) (file : WorkspaceUploadFile) :
    Proc PyException σ Unit := do
  let bytes ← host.readBytes (workspaceDir ++ file.localPath)
  R.client.uploadObject repository branch file.objectPath bytes

/-- `stage_workspace`, after the branch has been created. -/
def stageOnBranch (workspaceDir : Path) (i : WorkspaceInput) (spec : WorkspaceSpec)
    (branch : String) : Proc PyException σ StagedWorkspace := do
  let items ← R.client.objects i.repository branch (workspaceObjectPrefix spec.workspacePrefix)
  let tree ← host.rglob workspaceDir
  let plan ← .ofExcept (buildWorkspaceSyncPlan tree spec.workspacePrefix (objectPaths items))
  .each (R.client.deleteObject i.repository branch) plan.deleteObjectPaths
  .each (R.uploadFile host i.repository branch workspaceDir) plan.uploadFiles
  let commit ← R.client.commit i.repository branch "perago try"
  return { repository := i.repository, branch := branch, commit := commit }

def stageWorkspace (workspaceDir : Path) (i : WorkspaceInput) (spec : WorkspaceSpec)
    (task : TaskExecutionContext) : Proc PyException σ StagedWorkspace := do
  let branch := stagingBranchName task
  R.client.createBranch i.repository branch i.ref
  R.stageOnBranch host workspaceDir i spec branch

/-- `_merge_staged_workspace`: with a budget the repository is that of the input. -/
def mergeStagedWorkspace (staged : StagedWorkspace) (i : WorkspaceInput) :
    Proc PyException σ String :=
  match R.publishBudget with
  | none => R.client.mergeInto staged.repository staged.branch i.branch none
  | some timeout => R.client.mergeInto i.repository staged.branch i.branch (some timeout)

/-- `_hard_reset_target_to_ref`. -/
def hardResetTargetToRef (i : WorkspaceInput) (ref : String) : Proc PyException σ String := do
  R.client.hardResetBranch i.repository i.branch ref R.publishBudget
  return ref

def publishFenceError (i : WorkspaceInput) (what currentHead : String) : PyException :=
  .mk' .publishFenceError (i.branch ++ " cannot " ++ what ++ " from input ref " ++ i.ref ++
    "; current head is " ++ currentHead)

def publishWorkspace (staged : StagedWorkspace) (i : WorkspaceInput) :
    Proc PyException σ String := do
  let head ← R.client.getCommit i.repository i.branch
  if head.id = i.ref then R.mergeStagedWorkspace staged i
  else if firstParentId head = some i.ref then R.hardResetTargetToRef i staged.commit
  else .raise (publishFenceError i "publish" head.id)

def completeNoopWorkspace (i : WorkspaceInput) : Proc PyException σ String := do
  let head ← R.client.getCommit i.repository i.branch
  if head.id = i.ref then return i.ref
  else if firstParentId head = some i.ref then R.hardResetTargetToRef i i.ref
  else .raise (publishFenceError i "complete no-op" head.id)

def cleanupStaging (staged : StagedWorkspace) : Proc PyException σ Unit :=
  R.client.deleteBranch staged.repository staged.branch

/-- The callbacks that `execute_polled_task` passes on. -/
def callbacks
    (loadCurrentAttempt : ConductorTaskAttempt → Proc PyException σ ConductorTaskAttempt) :
    WorkspaceCallbacks σ where
  downloadWorkspace := R.downloadWorkspace host
  loadCurrentAttempt := loadCurrentAttempt
  stageWorkspace := R.stageWorkspace host
  publishWorkspace staged i _ _ := R.publishWorkspace staged i
  cleanupStaging := R.cleanupStaging
  completeNoopWorkspace := some fun i _ _ => R.completeNoopWorkspace i

end LakeFSWorkspaceRuntime

end Perago
