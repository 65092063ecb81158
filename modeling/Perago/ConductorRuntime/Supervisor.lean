import Perago.ConductorRuntime.Quiescence

/-!
# The supervisor

The loop of `_run_worker_supervisor_locked` and its shutdown sequence, around the
broker and the executors. The supervisor keeps its copy of every executor end it
has not closed, so an end of file needs more than the exit of the executor. What
`TaskRunner` does after `stop()` is not part of the repository: calls may still
begin, or not, as `beginsAfterStop` says.
-/

namespace Perago.ConductorRuntime

open Perago.Transition

/-- Control points of the main loop and of the `finally` block. `rest` are the
slots that the `for` loop over `executors`, or over `broker_slots`, has yet to reach.
At `deadlocked` the signal handler waits inside `stop.set()` for the code it interrupted. -/
inductive SupervisorPoint where
  | loopTest
  | brokerTest
  | pass (rest : List String)
  | closing (w : String) (rest : List String)
  | backoff (w : String) (rest : List String)
  | starting (w : String) (rest : List String)
  | pollWait
  | draining (rest : List String)
  | terminating
  | joining
  | finished
  | deadlocked

structure SupervisorConfig extends ProcessRuntimeConfig where
  beginsAfterStop : Bool

/-- `executorConnections` are the executor ends that the supervisor holds open. -/
structure Supervised where
  runtime : ProcessRuntime
  point : SupervisorPoint := .loopTest
  stop : Bool := false
  executorConnections : SlotPipe → Bool
  brokerAlive : Bool := true
  runnerStopped : Bool := false

/-- The broker and the executors of generation 1 are started. -/
def Supervised.start (cfg : SupervisorConfig) : Supervised where
  runtime := .start cfg.toProcessRuntimeConfig
  executorConnections p := p.1 ∈ cfg.workerIds ∧ p.2 = 1

/-- `supervisor` is the next step of the supervisor, with the exit code it reads. A
broker may exit at any time; a signal sets the flag of its receiver. `signalInEvent` is a
signal to the supervisor that interrupts a method of the event `stop` itself. -/
inductive SupervisedAction where
  | supervisor (exitCode : Option Int)
  | signalSupervisor
  | signalInEvent
  | signalBroker
  | brokerExit
  | begin (i : Nat) (attempt : ConductorTaskAttempt) (executionId : String)
  | call (i : Nat) (a : CallAction)
  | receive (i : Nat)
  | executor (p : SlotPipe) (a : ExecutorAction)

namespace Supervised

/-- Every holder of the executor end has closed it. -/
def executorEndClosed (s : Supervised) (p : SlotPipe) : Bool :=
  s.runtime.exited p && !s.executorConnections p

def endOfFile (s : Supervised) (p : SlotPipe) : Bool :=
  s.runtime.atEof p && s.executorEndClosed p

/-- What the pipe allows: a send or a read fails, and a poll without data returns
true, only when the far end is closed. -/
def pipeAllows (s : Supervised) (c : ExecuteCall SlotPipe) : CallAction → Bool
  | .sendBroken => match c.phase with
    | .send l => s.executorEndClosed l.connection
    | _ => false
  | .poll true => match c.phase with
    | .waitPoll l => !(s.runtime.pipes l.connection).toBroker.isEmpty ||
        s.executorEndClosed l.connection
    | _ => false
  | .recvBroken => match c.phase with
    | .waitPoll l | .waitRecv l => s.executorEndClosed l.connection
    | _ => false
  | _ => true

/-- The step of the runtime, the rest being as it was. -/
def lift (s : Supervised) (r : Option ProcessRuntime) : Option Supervised :=
  r.map fun runtime => { s with runtime := runtime }

/-- `_stop_worker_processes`: every child has exited. With a deadline what is left is killed,
which is a crash or an exit of it here; that a killed child is joined in time is assumed. -/
def joined (cfg : SupervisorConfig) (s : Supervised) : Bool :=
  !s.brokerAlive && cfg.workerIds.all fun w => match s.runtime.slots w with
    | some slot => s.runtime.exited (w, slot.generation)
    | none => true

def supervisorStep (cfg : SupervisorConfig) (s : Supervised) (exitCode : Option Int) :
    Option Supervised :=
  match s.point with
  | .loopTest =>
    if s.stop then some { s with point := .draining cfg.workerIds }
    else some { s with point := .brokerTest }
  | .brokerTest =>
    if s.brokerAlive then some { s with point := .pass cfg.workerIds }
    else some { s with stop := true, point := .draining cfg.workerIds }
  | .pass [] => some { s with point := .pollWait }
  | .pass (w :: rest) => match s.runtime.slots w with
    | some slot =>
      if s.runtime.exited (w, slot.generation) then
        { s with point := .closing w rest }.lift
          (s.runtime.step cfg.toProcessRuntimeConfig (.reportExit w exitCode))
      else some { s with point := .pass rest }
    | none => none
  | .closing w rest => match s.runtime.slots w with
    | some slot => some { s with
        point := .backoff w rest
        executorConnections := Function.update s.executorConnections (w, slot.generation) false }
    | none => none
  -- `stop.wait(delay)` returns whether the event is set
  | .backoff w rest =>
    if s.stop then some { s with point := .pollWait }
    else match s.runtime.slots w with
      | some slot =>
        { s with
          point := .starting w rest
          executorConnections :=
            Function.update s.executorConnections (w, slot.generation + 1) true }.lift
          (s.runtime.step cfg.toProcessRuntimeConfig (.respawn w))
      | none => none
  | .starting w rest =>
    { s with point := .pass rest }.lift
      (s.runtime.step cfg.toProcessRuntimeConfig (.reportStarted w))
  | .pollWait => some { s with point := .loopTest }
  | .draining [] => some { s with point := .terminating }
  -- a send that fails is skipped
  | .draining (w :: rest) => match s.runtime.slots w with
    | some slot =>
      if s.executorEndClosed (w, slot.generation) then some { s with point := .draining rest }
      else { s with point := .draining rest }.lift
        (s.runtime.step cfg.toProcessRuntimeConfig (.sendStop w))
    | none => none
  | .terminating => some { s with runnerStopped := true, point := .joining }
  | .joining => if s.joined cfg then some { s with point := .finished } else none
  | .finished | .deadlocked => none

/-- The supervisor is in `stop.is_set()`, in `stop.wait()` or in `stop.set()`. -/
def inEvent (s : Supervised) : Bool :=
  match s.point with
  | .loopTest | .backoff _ _ | .pollWait => true
  | .brokerTest => !s.brokerAlive
  | _ => false

def step (cfg : SupervisorConfig) (s : Supervised) : SupervisedAction → Option Supervised
  | .supervisor exitCode => s.supervisorStep cfg exitCode
  | .signalSupervisor => some { s with stop := true }
  -- the lock of the event is not reentrant, and `notify_all` waits for the sleeper to wake
  | .signalInEvent =>
    if s.inEvent then some { s with stop := true, point := .deadlocked } else none
  | .signalBroker => some { s with runnerStopped := true }
  | .brokerExit => some { s with brokerAlive := false }
  | .begin i attempt executionId =>
    if s.brokerAlive && (!s.runnerStopped || cfg.beginsAfterStop) then
      s.lift (s.runtime.step cfg.toProcessRuntimeConfig (.begin i attempt executionId))
    else none
  | .call i a => match s.runtime.dispatch.calls i with
    | some c =>
      if s.brokerAlive && s.pipeAllows c a then
        s.lift (s.runtime.step cfg.toProcessRuntimeConfig (.call i a))
      else none
    | none => none
  | .receive i =>
    if s.brokerAlive then s.lift (s.runtime.step cfg.toProcessRuntimeConfig (.receive i)) else none
  -- the supervisor holds the broker end of a running executor's pipe until it has joined it
  | .executor _ .broken | .executor _ .sendBroken => none
  | .executor p a => s.lift (s.runtime.step cfg.toProcessRuntimeConfig (.executor p a))

end Supervised

def supervised (cfg : SupervisorConfig) : Machine Supervised SupervisedAction where
  init s := s = .start cfg
  step := Supervised.step cfg

/-! ## The steps, one by one -/

namespace Supervised

/-- The slots that the loop will still look at: all of them while `stop` is not set,
else those the current pass has not reached. -/
def ahead (s : Supervised) (w : String) : Bool :=
  match s.point with
  | .loopTest | .brokerTest | .closing _ _ | .backoff _ _ | .pollWait => !s.stop
  | .pass rest | .starting _ rest => !s.stop || decide (w ∈ rest)
  | .draining _ | .terminating | .joining | .finished | .deadlocked => false

/-- The steps after which the loop does not look at slot `w` any more: `stop` is set
when the current pass has not `w` before it; or, with `stop` set, the pass finds the
executor of `w` alive, or it breaks off at another slot. -/
def LooksAway (s : Supervised) (w : String) : SupervisedAction → Prop
  | .signalSupervisor => match s.point with
    | .pass rest | .starting _ rest => w ∉ rest
    | _ => True
  | .signalInEvent => True
  | .supervisor _ => s.stop = true ∧ ∃ v rest slot, s.point = .pass (v :: rest) ∧
      s.runtime.slots v = some slot ∧ (w = v ↔ s.runtime.exited (v, slot.generation) = false)
  | _ => False

/-- Which steps of the runtime the broker and the executors take. -/
inductive Acts (s : Supervised) : SupervisedAction → RuntimeAction → Prop where
  | begin (i : Nat) (attempt : ConductorTaskAttempt) (executionId : String) :
      s.brokerAlive = true → Acts s (.begin i attempt executionId) (.begin i attempt executionId)
  | call (i : Nat) (a : CallAction) (c : ExecuteCall SlotPipe) : s.brokerAlive = true →
      s.runtime.dispatch.calls i = some c → s.pipeAllows c a = true → Acts s (.call i a) (.call i a)
  | receive (i : Nat) : s.brokerAlive = true → Acts s (.receive i) (.receive i)
  | executor (p : SlotPipe) (a : ExecutorAction) : a ≠ .broken → a ≠ .sendBroken →
      Acts s (.executor p a) (.executor p a)

/-- The transitions of the supervisor, by control point. -/
inductive SupervisorStep (cfg : SupervisorConfig) (s : Supervised) (exitCode : Option Int) :
    Supervised → Prop where
  | stopSeen : s.point = .loopTest → s.stop = true →
      SupervisorStep cfg s exitCode { s with point := .draining cfg.workerIds }
  | loopEntered : s.point = .loopTest → s.stop = false →
      SupervisorStep cfg s exitCode { s with point := .brokerTest }
  | brokerFound : s.point = .brokerTest → s.brokerAlive = true →
      SupervisorStep cfg s exitCode { s with point := .pass cfg.workerIds }
  | brokerGone : s.point = .brokerTest → s.brokerAlive = false →
      SupervisorStep cfg s exitCode { s with stop := true, point := .draining cfg.workerIds }
  | passed : s.point = .pass [] → SupervisorStep cfg s exitCode { s with point := .pollWait }
  | exitReported (w : String) (rest : List String) (slot : SupervisedSlot) (r : ProcessRuntime) :
      s.point = .pass (w :: rest) → s.runtime.slots w = some slot →
      s.runtime.exited (w, slot.generation) = true →
      s.runtime.step cfg.toProcessRuntimeConfig (.reportExit w exitCode) = some r →
      SupervisorStep cfg s exitCode { s with runtime := r, point := .closing w rest }
  | executorFound (w : String) (rest : List String) (slot : SupervisedSlot) :
      s.point = .pass (w :: rest) → s.runtime.slots w = some slot →
      s.runtime.exited (w, slot.generation) = false →
      SupervisorStep cfg s exitCode { s with point := .pass rest }
  | closed (w : String) (rest : List String) (slot : SupervisedSlot) :
      s.point = .closing w rest → s.runtime.slots w = some slot →
      SupervisorStep cfg s exitCode { s with
        point := .backoff w rest
        executorConnections := Function.update s.executorConnections (w, slot.generation) false }
  | brokenOff (w : String) (rest : List String) : s.point = .backoff w rest → s.stop = true →
      SupervisorStep cfg s exitCode { s with point := .pollWait }
  | respawned (w : String) (rest : List String) (slot : SupervisedSlot) (r : ProcessRuntime) :
      s.point = .backoff w rest → s.stop = false → s.runtime.slots w = some slot →
      s.runtime.step cfg.toProcessRuntimeConfig (.respawn w) = some r →
      SupervisorStep cfg s exitCode { s with
        runtime := r
        point := .starting w rest
        executorConnections :=
          Function.update s.executorConnections (w, slot.generation + 1) true }
  | startReported (w : String) (rest : List String) (r : ProcessRuntime) :
      s.point = .starting w rest →
      s.runtime.step cfg.toProcessRuntimeConfig (.reportStarted w) = some r →
      SupervisorStep cfg s exitCode { s with runtime := r, point := .pass rest }
  | waited : s.point = .pollWait → SupervisorStep cfg s exitCode { s with point := .loopTest }
  | drained : s.point = .draining [] →
      SupervisorStep cfg s exitCode { s with point := .terminating }
  | stopSkipped (w : String) (rest : List String) : s.point = .draining (w :: rest) →
      (∃ slot, s.runtime.slots w = some slot ∧
        s.executorEndClosed (w, slot.generation) = true) →
      SupervisorStep cfg s exitCode { s with point := .draining rest }
  | stopSent (w : String) (rest : List String) (r : ProcessRuntime) :
      s.point = .draining (w :: rest) →
      s.runtime.step cfg.toProcessRuntimeConfig (.sendStop w) = some r →
      SupervisorStep cfg s exitCode { s with runtime := r, point := .draining rest }
  | terminated : s.point = .terminating →
      SupervisorStep cfg s exitCode { s with runnerStopped := true, point := .joining }
  | joined : s.point = .joining → s.joined cfg = true →
      SupervisorStep cfg s exitCode { s with point := .finished }

/-- The transitions of the whole, by party. -/
inductive Step (cfg : SupervisorConfig) (s : Supervised) :
    SupervisedAction → Supervised → Prop where
  | supervisor (exitCode : Option Int) (t : Supervised) : SupervisorStep cfg s exitCode t →
      Step cfg s (.supervisor exitCode) t
  | signalSupervisor : Step cfg s .signalSupervisor { s with stop := true }
  | signalInEvent : s.inEvent = true →
      Step cfg s .signalInEvent { s with stop := true, point := .deadlocked }
  | signalBroker : Step cfg s .signalBroker { s with runnerStopped := true }
  | brokerExit : Step cfg s .brokerExit { s with brokerAlive := false }
  | acts (a : SupervisedAction) (b : RuntimeAction) (r : ProcessRuntime) : Acts s a b →
      s.runtime.step cfg.toProcessRuntimeConfig b = some r →
      Step cfg s a { s with runtime := r }

variable {cfg : SupervisorConfig} {s t : Supervised} {a : SupervisedAction}

theorem lift_eq_some {r : Option ProcessRuntime} (h : s.lift r = some t) :
    ∃ runtime, r = some runtime ∧ t = { s with runtime := runtime } := by
  obtain ⟨runtime, hr, rfl⟩ := Option.map_eq_some_iff.mp h
  exact ⟨runtime, hr, rfl⟩

theorem supervisorStep_inv {exitCode : Option Int}
    (h : s.supervisorStep cfg exitCode = some t) : SupervisorStep cfg s exitCode t := by
  unfold supervisorStep at h
  split at h
  · rename_i hp
    split at h <;> cases h
    · exact .stopSeen hp (by assumption)
    · exact .loopEntered hp (Bool.eq_false_of_not_eq_true (by assumption))
  · rename_i hp
    split at h <;> cases h
    · exact .brokerFound hp (by assumption)
    · exact .brokerGone hp (Bool.eq_false_of_not_eq_true (by assumption))
  · cases h
    exact .passed (by assumption)
  · rename_i w rest hp
    split at h
    · rename_i slot hslot
      split at h
      · obtain ⟨r, hr, rfl⟩ := lift_eq_some h
        exact .exitReported w rest slot r hp hslot (by assumption) hr
      · cases h
        exact .executorFound w rest slot hp hslot (Bool.eq_false_of_not_eq_true (by assumption))
    · cases h
  · split at h <;> cases h
    exact .closed _ _ _ (by assumption) (by assumption)
  · rename_i w rest hp
    split at h
    · cases h
      exact .brokenOff w rest hp (by assumption)
    · rename_i hstop
      split at h
      · obtain ⟨r, hr, rfl⟩ := lift_eq_some h
        exact .respawned w rest _ r hp (Bool.eq_false_of_not_eq_true hstop) (by assumption) hr
      · cases h
  · obtain ⟨r, hr, rfl⟩ := lift_eq_some h
    exact .startReported _ _ r (by assumption) hr
  · cases h
    exact .waited (by assumption)
  · cases h
    exact .drained (by assumption)
  · rename_i w rest hp
    split at h
    · split at h
      · cases h
        exact .stopSkipped w rest hp ⟨_, by assumption, by assumption⟩
      · obtain ⟨r, hr, rfl⟩ := lift_eq_some h
        exact .stopSent w rest r hp hr
    · cases h
  · cases h
    exact .terminated (by assumption)
  · split at h <;> cases h
    exact .joined (by assumption) (by assumption)
  · cases h
  · cases h

theorem step_inv (h : s.step cfg a = some t) : Step cfg s a t := by
  have acts : ∀ {b r}, Acts s a b → s.lift r = some t →
      r = s.runtime.step cfg.toProcessRuntimeConfig b → Step cfg s a t := by
    rintro b r ha hl rfl
    obtain ⟨runtime, hr, rfl⟩ := lift_eq_some hl
    exact .acts a b runtime ha hr
  unfold step at h
  split at h
  · exact .supervisor _ t (supervisorStep_inv h)
  · cases h
    exact .signalSupervisor
  · split at h <;> cases h
    exact .signalInEvent (by assumption)
  · cases h
    exact .signalBroker
  · cases h
    exact .brokerExit
  · split at h
    · rename_i alive
      exact acts (.begin _ _ _ (by simp_all)) h rfl
    · cases h
  · split at h
    · rename_i hc
      split at h
      · rename_i allowed
        rw [Bool.and_eq_true] at allowed
        exact acts (.call _ _ _ allowed.1 hc allowed.2) h rfl
      · cases h
    · cases h
  · split at h
    · exact acts (.receive _ (by assumption)) h rfl
    · cases h
  · cases h
  · cases h
  · rename_i hbroken hsend
    exact acts (.executor _ _ hbroken hsend) h rfl

/-- Seen from the processes and their pipes, a step is one step of the runtime or none. -/
theorem step_runtime (h : s.step cfg a = some t) : t.runtime = s.runtime ∨
    ∃ b, s.runtime.step cfg.toProcessRuntimeConfig b = some t.runtime := by
  cases step_inv h with
  | acts _ b r ha hr => exact .inr ⟨b, hr⟩
  | signalSupervisor | signalInEvent | signalBroker | brokerExit => exact .inl rfl
  | supervisor exitCode _ hst =>
    cases hst with
    | exitReported w rest slot r _ _ _ hr | respawned w rest slot r _ _ _ hr
    | startReported w rest r _ hr | stopSent w rest r _ hr => exact .inr ⟨_, hr⟩
    | _ => exact .inl rfl

theorem refines_processRuntime : (supervised cfg).Refines (fun _ _ => True)
    (processRuntime cfg.toProcessRuntimeConfig) (fun _ _ => True) (·.runtime) := by
  refine ⟨?_, ?_⟩
  · rintro _ rfl
    rfl
  · exact fun s a t _ _ hst => (step_runtime hst).imp_right fun ⟨b, hb⟩ => ⟨b, trivial, hb⟩

end Supervised

end Perago.ConductorRuntime
