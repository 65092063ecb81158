import Perago.Effect.Process
import Perago.Segments
import Perago.Workspace.Sync

/-!
# Attempt workspaces

The directory of one attempt, from `mkdir` to `rmtree`. `Host` is what the runtime
asks of the operating system; any of its calls may raise.
-/

namespace Perago

open Effect
open ConductorRuntime (ConductorTaskAttempt)

/-- A local path, by its parts. -/
abbrev Path := List Text

abbrev Bytes := List UInt8

/-- The fields of the marker file, `started_at` apart, which only the collector reads. -/
structure AttemptMarker where
  attempt : ConductorTaskAttempt
  executionId : String
  ownerWorkerId : String
  ownerPid : Nat
  ownerToken : String

/-- The operating system, on a state `σ`: `pathlib`, `shutil` and `os`, the process
environment, `uuid4`, SHA-256, and the set of active owner tokens. `rglob` gives
each entry with what `is_symlink` and `is_file` say of it. -/
structure Host (σ : Type) where
  workerId : String
  pid : Nat
  sha256 : Bytes → String
  uuid4Hex : σ → String × σ
  registerOwner : String → σ → σ
  unregisterOwner : String → σ → σ
  mkdir : Path → Proc PyException σ Unit
  writeMarker : Path → AttemptMarker → Proc PyException σ Unit
  rglob : Path → Proc PyException σ LocalTree
  isFile : Path → Proc PyException σ Bool
  isDir : Path → Proc PyException σ Bool
  globCount : Path → Text → Proc PyException σ Nat
  readlink : Path → Proc PyException σ Text
  readBytes : Path → Proc PyException σ Bytes
  fileSize : Path → Proc PyException σ Nat
  writeBytes : Path → Bytes → Proc PyException σ Unit
  rmtree : Path → Proc PyException σ Unit

structure WorkspaceOwner where
  workerId : String
  pid : Nat
  token : String

variable {σ : Type} (host : Host σ)

/-- `attempt_workspace_dir`. -/
def attemptWorkspaceDir (workspaceRoot : Path) (task : TaskExecutionContext) : Path :=
  workspaceRoot ++ [text ("task_id=" ++ safeSegment task.attempt.taskId ++
    "-exec=" ++ safeSegment task.executionId)]

/-- `new_workspace_owner`. -/
def newWorkspaceOwner (workerId : String) (s : σ) : WorkspaceOwner × σ :=
  let (token, s) := host.uuid4Hex s
  ({ workerId := workerId, pid := host.pid, token := token }, s)

/-- `prepare_attempt_workspace`. -/
def prepareAttemptWorkspace (workspaceRoot : Path) (task : TaskExecutionContext)
    (owner : WorkspaceOwner) : Proc PyException σ Path := do
  let workspaceDir := attemptWorkspaceDir workspaceRoot task
  host.mkdir workspaceDir
  host.writeMarker (workspaceDir ++ [attemptWorkspaceMarker]) {
    attempt := task.attempt
    executionId := task.executionId
    ownerWorkerId := owner.workerId
    ownerPid := owner.pid
    ownerToken := owner.token }
  return workspaceDir

/-- `cleanup_attempt_workspace`. -/
def cleanupAttemptWorkspace (workspaceDir : Path) : Proc PyException σ Unit := do
  let isFile ← host.isFile (workspaceDir ++ [attemptWorkspaceMarker])
  if isFile then host.rmtree workspaceDir
  else .raise (.mk' .fileNotFoundError
    ((joinSlash workspaceDir).render ++ " is not a Perago attempt workspace"))

/-- `cleanup_attempt_workspace_safely`: an `OSError` is logged. -/
def cleanupAttemptWorkspaceSafely (workspaceDir : Path) : Proc PyException σ Bool :=
  .tryExcept (do
      cleanupAttemptWorkspace host workspaceDir
      return true)
    fun exc => if exc.cls.isOSError then pure false else .raise exc

/-! ## What the operating system may do -/

/-- Every call of the operating system keeps `I`, raises only exceptions of which `W`
holds, and leaves `C` behind where it dies. -/
structure Host.Keeps (I : σ → Prop) (W : PyException → Prop) (C : σ → Prop) : Prop where
  uuid4Hex : ∀ s, I s → I (host.uuid4Hex s).2
  registerOwner : ∀ token s, I s → I (host.registerOwner token s)
  unregisterOwner : ∀ token s, I s → I (host.unregisterOwner token s)
  mkdir : ∀ dir, Effect.Keeps I W C (host.mkdir dir)
  writeMarker : ∀ path marker, Effect.Keeps I W C (host.writeMarker path marker)
  rglob : ∀ dir, Effect.Keeps I W C (host.rglob dir)
  isFile : ∀ path, Effect.Keeps I W C (host.isFile path)
  isDir : ∀ path, Effect.Keeps I W C (host.isDir path)
  globCount : ∀ dir pattern, Effect.Keeps I W C (host.globCount dir pattern)
  readlink : ∀ path, Effect.Keeps I W C (host.readlink path)
  readBytes : ∀ path, Effect.Keeps I W C (host.readBytes path)
  fileSize : ∀ path, Effect.Keeps I W C (host.fileSize path)
  writeBytes : ∀ path bytes, Effect.Keeps I W C (host.writeBytes path bytes)
  rmtree : ∀ dir, Effect.Keeps I W C (host.rmtree dir)

variable {host} {I : σ → Prop} {W V : PyException → Prop} {C : σ → Prop}

theorem Host.Keeps.mono (hh : host.Keeps I V C) (weaker : ∀ e, V e → W e) : host.Keeps I W C where
  uuid4Hex := hh.uuid4Hex
  registerOwner := hh.registerOwner
  unregisterOwner := hh.unregisterOwner
  mkdir dir := (hh.mkdir dir).mono weaker
  writeMarker path marker := (hh.writeMarker path marker).mono weaker
  rglob dir := (hh.rglob dir).mono weaker
  isFile path := (hh.isFile path).mono weaker
  isDir path := (hh.isDir path).mono weaker
  globCount dir pattern := (hh.globCount dir pattern).mono weaker
  readlink path := (hh.readlink path).mono weaker
  readBytes path := (hh.readBytes path).mono weaker
  fileSize path := (hh.fileSize path).mono weaker
  writeBytes path bytes := (hh.writeBytes path bytes).mono weaker
  rmtree dir := (hh.rmtree dir).mono weaker

theorem prepareAttemptWorkspace_keeps (hh : host.Keeps I W C) (root : Path)
    (task : TaskExecutionContext) (owner : WorkspaceOwner) :
    Effect.Keeps I W C (prepareAttemptWorkspace host root task owner) :=
  (hh.mkdir _).bind fun _ => (hh.writeMarker _ _).bind fun _ => .pure

/-- The cleanup raises nothing that is an `OSError`. -/
theorem cleanupAttemptWorkspaceSafely_keeps (hh : host.Keeps I V C)
    (other : ∀ e, V e → e.cls.isOSError = false → W e) (dir : Path) :
    Effect.Keeps I W C (cleanupAttemptWorkspaceSafely host dir) := by
  refine .tryExcept (V := fun e => e.cls.isOSError = false → W e) (.bind ?_ fun _ => .pure)
    fun exc he => ?_
  · refine ((hh.isFile _).mono other).bind fun found => ?_
    cases found with
    | true => exact (hh.rmtree dir).mono other
    | false => exact .raise nofun
  · split
    · exact .pure
    · rename_i system
      exact .raise (he (by simpa using system))

/-! ## A machine to run on -/

/-- A machine with one attempt workspace: its state is the tree of that directory. -/
def treeHost : Host LocalTree where
  workerId := "worker"
  pid := 1
  sha256 _ := ""
  uuid4Hex tree := ("execution", tree)
  registerOwner _ tree := tree
  unregisterOwner _ tree := tree
  mkdir _ := pure ()
  writeMarker _ _ := pure ()
  rglob _ := .get id
  isFile _ := pure true
  isDir _ := pure true
  globCount _ _ := pure 0
  readlink _ := pure []
  readBytes _ := pure []
  fileSize _ := pure 0
  writeBytes _ _ := pure ()
  rmtree _ := pure ()

/-- It raises nothing. -/
theorem treeHost_keeps : treeHost.Keeps (fun _ => True) (fun _ => False) fun _ => False where
  uuid4Hex _ _ := trivial
  registerOwner _ _ _ := trivial
  unregisterOwner _ _ _ := trivial
  mkdir _ := .pure
  writeMarker _ _ := .pure
  rglob _ := fun _ _ => trivial
  isFile _ := .pure
  isDir _ := .pure
  globCount _ _ := .pure
  readlink _ := .pure
  readBytes _ := .pure
  fileSize _ := .pure
  writeBytes _ _ := .pure
  rmtree _ := .pure

/-- A machine whose calls change nothing. -/
def restingHost (tree : σ → LocalTree) (sha256 : Bytes → String) : Host σ where
  workerId := "worker"
  pid := 1
  sha256 := sha256
  uuid4Hex s := ("execution", s)
  registerOwner _ s := s
  unregisterOwner _ s := s
  mkdir _ := pure ()
  writeMarker _ _ := pure ()
  rglob _ := .get tree
  isFile _ := pure true
  isDir _ := pure true
  globCount _ _ := pure 0
  readlink _ := pure []
  readBytes _ := pure []
  fileSize _ := pure 0
  writeBytes _ _ := pure ()
  rmtree _ := pure ()

/-- An empty workspace. -/
def emptyTree : LocalTree := ⟨[], by simp, by simp, by simp⟩

/-- A prepared workspace holds one file, the marker. -/
def markerTree : LocalTree where
  entries := [⟨[attemptWorkspaceMarker], .file⟩]
  nodup := by simp
  inside := by simp
  named := by
    simp only [List.mem_singleton, forall_eq]
    exact ⟨⟨by decide, by decide⟩, by decide⟩

end Perago
