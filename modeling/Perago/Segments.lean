import Perago.ConductorRuntime.Models

/-!
# Names made from attempts

The sanitisers of path segments and branch names, and the staging branch of one
execution of one attempt.
-/

namespace Perago

open ConductorRuntime (ConductorTaskAttempt)

def isAsciiAlphanumeric (c : Char) : Bool :=
  ('A' ≤ c && c ≤ 'Z') || ('a' ≤ c && c ≤ 'z') || ('0' ≤ c && c ≤ '9')

/-- `re.sub` with a class of characters to keep: each run of others becomes one
`replacement`. `inRun` says that the character before was replaced. -/
def subRuns (keep : Char → Bool) (replacement : Char) : Bool → List Char → List Char
  | _, [] => []
  | inRun, c :: cs =>
    if keep c then c :: subRuns keep replacement false cs
    else if inRun then subRuns keep replacement true cs
    else replacement :: subRuns keep replacement true cs

/-- `str.strip(chars)`. -/
def stripChars (chars : List Char) (cs : List Char) : List Char :=
  ((cs.dropWhile (· ∈ chars)).reverse.dropWhile (· ∈ chars)).reverse

/-- `safe_segment` on a string. -/
def safeSegment (value : String) : String :=
  let segment := stripChars ['.', '_'] (subRuns
    (fun c => isAsciiAlphanumeric c || c ∈ ['_', '.', '=', '-']) '_' false value.toList)
  if segment = [] then "unknown" else String.ofList segment

/-- `_lakefs_branch_segment`. -/
def lakefsBranchSegment (value : String) : String :=
  let segment := stripChars ['-', '_'] (subRuns
    (fun c => isAsciiAlphanumeric c || c ∈ ['_', '-']) '-' false value.toList)
  if segment = [] ∨ segment.head? = some '-' then "unknown" else String.ofList segment

/-- `TaskExecutionContext`: an attempt, with the id of one execution of it. -/
structure TaskExecutionContext where
  attempt : ConductorTaskAttempt
  executionId : String

/-- `staging_branch_name`. -/
def stagingBranchName (task : TaskExecutionContext) : String :=
  "-".intercalate [
    "perago",
    "staging",
    lakefsBranchSegment task.attempt.workflowInstanceId,
    lakefsBranchSegment task.attempt.referenceTaskName,
    "seq-" ++ lakefsBranchSegment (toString task.attempt.seq),
    "iteration-" ++ lakefsBranchSegment (toString task.attempt.iteration),
    "task-id-" ++ lakefsBranchSegment task.attempt.taskId,
    "retry-" ++ lakefsBranchSegment (toString task.attempt.retryCount),
    "exec-" ++ lakefsBranchSegment task.executionId]

end Perago
