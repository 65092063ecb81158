import Perago.LakefsRuntime
import Mathlib.Data.Finset.Basic

/-!
# A LakeFS server

LakeFS as a commit graph with branch heads. A script decides what becomes of each
call: it may fail or take the worker process down, before or after it takes effect.
The server also remembers which branches were created, which deletions were
requested, and every change of a head.
-/

namespace Perago

open Effect
open ConductorRuntime (ConductorTaskAttempt)

/-! ## The server -/

/-- What becomes of a call. -/
inductive Fault where
  | none
  | before (exc : PyException)
  | after (exc : PyException)
  | crashBefore
  | crashAfter

/-- What becomes of each call of an attempt, and what the calls that read objects
are answered. -/
structure Script where
  fault : Nat → Fault
  listing : Nat → List ObjectItem
  content : Nat → Bytes

structure Commit where
  id : String
  parents : List String

/-- Commit ids are digests: each new commit gets a new one. -/
def FreshId := { pick : List String → String // ∀ ids, pick ids ∉ ids }

/-- A repository and the name of a branch in it. -/
abbrev BranchKey := String × String

structure LakeFS where
  commits : List Commit
  heads : BranchKey → Option String
  calls : Nat
  created : List BranchKey
  deletions : List BranchKey
  moves : List (BranchKey × Option String)

namespace LakeFS

def notFound (what : String) : PyException := .mk' (.other "NotFoundException") what

def ids (s : LakeFS) : List String := s.commits.map (·.id)

/-- The head of a branch. -/
def head (s : LakeFS) (key : BranchKey) : Except PyException String :=
  match s.heads key with
  | some id => .ok id
  | none => .error (notFound "branch not found")

def setHead (s : LakeFS) (key : BranchKey) (id : String) : LakeFS :=
  { s with
    heads := Function.update s.heads key (some id)
    moves := s.moves ++ [(key, some id)] }

def dropHead (s : LakeFS) (key : BranchKey) : LakeFS :=
  { s with
    heads := Function.update s.heads key none
    moves := s.moves ++ [(key, none)] }

/-- A new commit on top of the head of a branch. -/
def commitOn (fresh : FreshId) (s : LakeFS) (key : BranchKey) (parent : String) : String × LakeFS :=
  let id := fresh.val s.ids
  (id, { s with commits := { id := id, parents := [parent] } :: s.commits }.setHead key id)

variable {α : Type} (script : Script)

/-- One call, with the effect it has when it is reached. -/
def serve (effect : Nat → LakeFS → Except PyException (α × LakeFS)) :
    Proc PyException LakeFS α := fun s =>
  let served := { s with calls := s.calls + 1 }
  match script.fault s.calls with
  | .crashBefore => (.crashed, served)
  | .before exc => (.error exc, served)
  | .none => match effect s.calls served with
    | .ok (a, t) => (.ok a, t)
    | .error exc => (.error exc, served)
  | .after exc => match effect s.calls served with
    | .ok (_, t) => (.error exc, t)
    | .error exc => (.error exc, served)
  | .crashAfter => match effect s.calls served with
    | .ok (_, t) => (.crashed, t)
    | .error _ => (.crashed, served)

/-- A call that leaves the commit graph and the heads as they are. -/
def read (answer : Nat → LakeFS → Except PyException α) : Proc PyException LakeFS α :=
  serve script fun n s => (answer n s).map (·, s)

def createBranch (key : BranchKey) (source : String) : Proc PyException LakeFS Unit :=
  serve script fun _ s => match s.heads key with
    | some _ => .error (.mk' (.other "ConflictException") "branch already exists")
    | none =>
      if source ∈ s.ids then .ok ((), { s.setHead key source with created := s.created ++ [key] })
      else .error (notFound "source ref not found")

def commit (fresh : FreshId) (key : BranchKey) : Proc PyException LakeFS String :=
  serve script fun _ s => match s.head key with
    | .ok parent => .ok (s.commitOn fresh key parent)
    | .error exc => .error exc

def getCommit (key : BranchKey) : Proc PyException LakeFS CommitObject :=
  read script fun _ s => match s.head key with
    | .ok id => match s.commits.find? (·.id = id) with
      | some commit => .ok { id := commit.id, parents := some (commit.parents.map .id) }
      | none => .error (notFound "commit not found")
    | .error exc => .error exc

/-- A squash merge: one new commit, whose parent is the head of the target. -/
def mergeInto (fresh : FreshId) (source target : BranchKey) : Proc PyException LakeFS String :=
  serve script fun _ s => match s.head source, s.head target with
    | .ok _, .ok parent => .ok (s.commitOn fresh target parent)
    | .error exc, _ | _, .error exc => .error exc

def hardResetBranch (key : BranchKey) (ref : String) : Proc PyException LakeFS Unit :=
  serve script fun _ s => match s.head key with
    | .ok _ => if ref ∈ s.ids then .ok ((), s.setHead key ref)
      else .error (notFound "ref not found")
    | .error exc => .error exc

/-- The request is remembered whatever becomes of it. -/
def deleteBranch (key : BranchKey) : Proc PyException LakeFS Unit := do
  .modify fun s => { s with deletions := s.deletions ++ [key] }
  serve script fun _ s => match s.head key with
    | .ok _ => .ok ((), s.dropHead key)
    | .error exc => .error exc

end LakeFS

/-! ## The world of a worker -/

/-- LakeFS, and all that is not LakeFS: the local disk, Conductor, the clock. -/
structure World (X : Type) where
  lakefs : LakeFS
  local' : X

variable {X α : Type}

def onLakefs (f : Proc PyException LakeFS α) : Proc PyException (World X) α :=
  .zoom World.lakefs (fun s W => { W with lakefs := s }) f

def onLocal (f : Proc PyException X α) : Proc PyException (World X) α :=
  .zoom World.local' (fun x W => { W with local' := x }) f

/-- The SDK of a worker. Object contents are the script's, and a timeout is one of
its faults. -/
def lakefsClient (script : Script) (fresh : FreshId) : LakeFSClient (World X) where
  objects _ _ _ := onLakefs (LakeFS.read script fun n _ => .ok (script.listing n))
  readObject _ _ _ := onLakefs (LakeFS.read script fun n _ => .ok (script.content n))
  createBranch repository branch source :=
    onLakefs (LakeFS.createBranch script (repository, branch) source)
  deleteObject repository branch _ :=
    onLakefs (LakeFS.read script fun _ s => (s.head (repository, branch)).map fun _ => ())
  uploadObject repository branch _ _ :=
    onLakefs (LakeFS.read script fun _ s => (s.head (repository, branch)).map fun _ => ())
  commit repository branch _ := onLakefs (LakeFS.commit script fresh (repository, branch))
  getCommit repository branch := onLakefs (LakeFS.getCommit script (repository, branch))
  mergeInto repository source target _ :=
    onLakefs (LakeFS.mergeInto script fresh (repository, source) (repository, target))
  hardResetBranch repository branch ref _ :=
    onLakefs (LakeFS.hardResetBranch script (repository, branch) ref)
  deleteBranch repository branch := onLakefs (LakeFS.deleteBranch script (repository, branch))

/-! ## Attempts in a world -/

/-- The operating system does not touch LakeFS. -/
def Host.onWorld (host : Host X) : Host (World X) where
  workerId := host.workerId
  pid := host.pid
  sha256 := host.sha256
  uuid4Hex W := ((host.uuid4Hex W.local').1, { W with local' := (host.uuid4Hex W.local').2 })
  registerOwner token W := { W with local' := host.registerOwner token W.local' }
  unregisterOwner token W := { W with local' := host.unregisterOwner token W.local' }
  mkdir dir := onLocal (host.mkdir dir)
  writeMarker path marker := onLocal (host.writeMarker path marker)
  rglob dir := onLocal (host.rglob dir)
  isFile path := onLocal (host.isFile path)
  isDir path := onLocal (host.isDir path)
  globCount dir pattern := onLocal (host.globCount dir pattern)
  readlink path := onLocal (host.readlink path)
  readBytes path := onLocal (host.readBytes path)
  fileSize path := onLocal (host.fileSize path)
  writeBytes path bytes := onLocal (host.writeBytes path bytes)
  rmtree dir := onLocal (host.rmtree dir)

def MetricRecorder.onWorld (metrics : MetricRecorder X) : MetricRecorder (World X) where
  runtimeTimerEnter metric W := { W with local' := metrics.runtimeTimerEnter metric W.local' }
  runtimeTimerExit metric W := { W with local' := metrics.runtimeTimerExit metric W.local' }
  runtimeHistogram metric n W := { W with local' := metrics.runtimeHistogram metric n W.local' }

/-- An attempt of a task over the LakeFS runtime: what differs between attempts. The
body, the operating system, the recorder and Conductor do not touch LakeFS. -/
structure Job (X : Type) where
  host : Host X
  task : TaskDefinition X
  inputData : PyValue
  attempt : ConductorTaskAttempt
  workspaceRoot : Path
  loadCurrentAttempt : ConductorTaskAttempt → Proc PyException X ConductorTaskAttempt
  publishBudget : Option Nat
  ownerWorkerId : Option String
  executionId : Option String
  metrics : Option (MetricRecorder X)
  failureReasonMaxLength : MaxLength
  nestingLimit : Nat

/-- The task, with a body that leaves LakeFS alone. -/
def Job.taskOnWorld (job : Job X) : TaskDefinition (World X) where
  name := job.task.name
  workspace := job.task.workspace
  metrics := job.task.metrics
  validateParams := job.task.validateParams
  validateResult := job.task.validateResult
  fn dir params metrics :=
    onLocal (job.task.fn dir params (if metrics.isSome then job.metrics else none))

def Job.runtime (job : Job X) (script : Script) (fresh : FreshId) :
    LakeFSWorkspaceRuntime (World X) where
  client := lakefsClient script fresh
  publishBudget := job.publishBudget

def Job.workspaceAttempt (job : Job X) (script : Script) (fresh : FreshId) :
    WorkspaceAttempt (World X) where
  task := job.taskOnWorld
  inputData := job.inputData
  attempt := job.attempt
  workspaceRoot := job.workspaceRoot
  callbacks := (job.runtime script fresh).callbacks job.host.onWorld
    fun attempt => onLocal (job.loadCurrentAttempt attempt)
  ownerWorkerId := job.ownerWorkerId
  executionId := job.executionId
  metrics := job.metrics.map MetricRecorder.onWorld
  failureReasonMaxLength := job.failureReasonMaxLength
  nestingLimit := job.nestingLimit

/-- `run_workspace_task_attempt` over `LakeFSWorkspaceRuntime`. -/
def Job.run (job : Job X) (script : Script) (fresh : FreshId) :
    Proc PyException (World X) RuntimeTaskResult :=
  runWorkspaceTaskAttempt job.host.onWorld (job.workspaceAttempt script fresh)

end Perago
