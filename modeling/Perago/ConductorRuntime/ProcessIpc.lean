import Perago.Result
import Perago.ConductorRuntime.Models
import Mathlib.Data.Finset.Basic

/-!
# Messages between supervisor, broker and executors

The messages of a slot pipe, the lifecycle events of the supervisor, and the
broker's record of a slot. `κ` is the type of broker-side pipe ends.
-/

namespace Perago.ConductorRuntime

structure ProcessTaskAssignment where
  attempt : ConductorTaskAttempt
  executionId : String

structure ProcessTaskCompletion where
  taskId : String
  executionId : String
  result : RuntimeTaskResult

/-- What the executor end of a slot pipe receives. -/
inductive ExecutorMessage where
  | assignment (a : ProcessTaskAssignment)
  | stopProcessExecutor
  | invalid

/-- What the broker end of a slot pipe receives. -/
inductive BrokerMessage where
  | completion (c : ProcessTaskCompletion)
  | invalid

variable (κ : Type)

/-- The broker's record of one slot; the worker id is its key. -/
structure ProcessExecutorSlot where
  connection : Option κ
  generation : Nat := 1
  exitedGeneration : Option Nat := none
  deriving DecidableEq

/-- Lifecycle events. `invalid` is any other object, which the broker logs. -/
inductive ExecutorEvent where
  | exited (workerId : String) (generation : Nat) (exitCode : Option Int)
  | started (workerId : String) (generation : Nat) (connection : κ)
  | invalid
  deriving DecidableEq

end Perago.ConductorRuntime
