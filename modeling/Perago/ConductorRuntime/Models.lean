import Perago.Python

/-!
# The attempt snapshot of a polled Conductor task
-/

namespace Perago.ConductorRuntime

/-- A Conductor task snapshot, less its unused lineage and lease fields. -/
structure ConductorTaskAttempt where
  workflowInstanceId : String
  taskId : String
  retryCount : Int
  taskDefName : String
  referenceTaskName : String
  seq : Int
  iteration : Int
  status : String
  inputData : PyValue

/-- The attempt of the example runs. -/
def someAttempt : ConductorTaskAttempt :=
  ⟨"workflow", "task", 0, "task", "task", 1, 0, "IN_PROGRESS", .dict []⟩

end Perago.ConductorRuntime
