import Perago.Workspace.Lifecycle

/-!
# Workspace garbage collection

`garbage_collect_attempt_workspaces` looks for files named like the attempt marker at any
depth below the workspace root, and removes the directory of each one whose content
describes an attempt that is old enough and has no live owner.
-/

namespace Perago

open Effect

/-! ## Markers -/

/-- What reading a path and decoding it as JSON comes to: an `OSError`, a
`JSONDecodeError`, another exception, or a value. -/
inductive MarkerContent where
  | unreadable
  | invalid
  | raises (exc : PyException)
  | json (data : PyValue)

/-- An aware or naive `datetime`, in microseconds. -/
structure Timestamp where
  wall : Int
  utcoffset : Option Int
  deriving DecidableEq

/-- A naive time is taken as UTC. -/
def Timestamp.instant (t : Timestamp) : Int := t.wall - t.utcoffset.getD 0

structure GcMarker where
  ownerWorkerId : String
  ownerPid : Int
  ownerToken : String
  executionId : String
  startedAt : Int
  deriving DecidableEq

/-- A `str` that is not empty. -/
def PyValue.nonemptyStr? : PyValue → Option String
  | .str s => if s = "" then .none else some s
  | _ => .none

def PyValue.str? : PyValue → Option String
  | .str s => some s
  | _ => .none

/-- An `int`; the booleans are numbers too. -/
def PyValue.int? : PyValue → Option Int
  | .int n => some n
  | .bool b => some b.toInt
  | _ => .none

/-- `_read_gc_marker`, for a given `datetime.fromisoformat`. -/
def readGcMarker (fromisoformat : String → Option Timestamp) :
    MarkerContent → Except PyException (Option GcMarker)
  | .unreadable | .invalid => .ok none
  | .raises exc => .error exc
  | .json data => .ok do
    let ownerWorkerId ← data.get? "owner_worker_id"
    let ownerPid ← data.get? "owner_pid"
    let ownerToken ← data.get? "owner_token"
    let executionId ← data.get? "execution_id"
    let startedAt ← data.get? "started_at"
    let ownerWorkerId ← ownerWorkerId.nonemptyStr?
    let ownerPid ← ownerPid.int?
    let ownerToken ← ownerToken.nonemptyStr?
    let executionId ← executionId.nonemptyStr?
    let startedAt ← startedAt.str?
    let parsedStartedAt ← fromisoformat startedAt
    return { ownerWorkerId, ownerPid, ownerToken, executionId
             startedAt := parsedStartedAt.instant }

/-! ## Arguments -/

/-- The arguments of `garbage_collect_attempt_workspaces` after its defaults; times in
microseconds. -/
structure GcArguments where
  ttl : Int
  processOwners : List (String × Int)
  ownerTokens : List String
  targetProcessOwner : Option (String × Int)
  currentTime : Int

/-- `sweep_abandoned_attempt_workspaces`. -/
def sweepArguments (activeTokens : List String) (currentTime : Int) : GcArguments :=
  ⟨0, [], activeTokens, none, currentTime⟩

/-- `garbage_collect_workspace_owner`. -/
def ownerArguments (ownerWorkerId : String) (ownerPid : Int) (currentTime : Int) : GcArguments :=
  ⟨0, [], [], some (ownerWorkerId, ownerPid), currentTime⟩

/-- `WorkspaceGCLoop.run_once`. -/
def loopArguments (workspaceGcTtl : Int) (activeProcessOwners : List (String × Int))
    (activeTokens : List String) (currentTime : Int) : GcArguments :=
  ⟨workspaceGcTtl, activeProcessOwners, activeTokens, none, currentTime⟩

/-- The four `continue`s of the loop are not taken. -/
def GcArguments.collects (args : GcArguments) (m : GcMarker) : Bool :=
  let owner := (m.ownerWorkerId, m.ownerPid)
  args.targetProcessOwner.all (owner == ·) &&
    !args.processOwners.contains owner &&
    !args.ownerTokens.contains m.ownerToken &&
    !decide (args.currentTime - m.startedAt < args.ttl)

/-! ## The pass -/

/-- A path below the root that is named like the attempt marker: its directory, and what
reading it gives. `links` are the paths below the root on which the reading depends, if
the path is a symlink. -/
structure MarkerPath where
  dir : List Text
  links : List (List Text)
  content : MarkerContent

/-- The results of `rglob`, which does not follow symlinked directories, so that every
one passes `require_inside`. -/
structure MarkerTree where
  markers : List MarkerPath
  nodup : (markers.map (·.dir)).Nodup

def MarkerPath.path (x : MarkerPath) : List Text := x.dir ++ [attemptWorkspaceMarker]

/-- A path is gone when a directory above it has been removed. -/
def MarkerPath.gone (x : MarkerPath) (removed : List (List Text)) : Bool :=
  removed.any fun d => d.isPrefixOf x.dir || x.links.any (d.isPrefixOf ·)

/-- `sorted(workspace_root.rglob(ATTEMPT_WORKSPACE_MARKER))`. -/
def MarkerTree.sorted (tree : MarkerTree) : List MarkerPath :=
  tree.markers.insertionSort fun x y => x.path ≤ y.path

section

variable (fromisoformat : String → Option Timestamp) (args : GcArguments)
variable (rmtreeFails : List Text → Option PyException)

/-- The loop body. The state is what `shutil.rmtree` was called on, in order; where it
raises, it may have removed some of the directory. -/
def gcVisit (marker : MarkerPath) : Proc PyException (List (List Text)) Unit := fun removed =>
  let content := if marker.gone removed then .unreadable else marker.content
  match readGcMarker fromisoformat content with
  | .error exc => (.error exc, removed)
  | .ok none => (.ok (), removed)
  | .ok (some m) =>
    if args.collects m then match rmtreeFails marker.dir with
      | some exc => (.error exc, removed ++ [marker.dir])
      | none => (.ok (), removed ++ [marker.dir])
    else (.ok (), removed)

/-- `garbage_collect_attempt_workspaces`; below a missing root there are no markers. -/
def garbageCollectAttemptWorkspaces (tree : MarkerTree) :
    Proc PyException (List (List Text)) Unit :=
  .each (gcVisit fromisoformat args rmtreeFails) tree.sorted

end

end Perago
