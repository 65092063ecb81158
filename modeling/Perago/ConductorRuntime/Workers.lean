import Perago.ConductorRuntime.SlotTable
import Perago.Transition.Machine

/-!
# The process dispatch worker

`PeragoProcessDispatchWorker` as a machine. Any number of `execute` calls run
concurrently; one step of a call is one lock region, one queue operation or one
pipe operation. What the pipes and the supervisor do is left open here: events
arrive in any order, and a pipe operation has any result.
-/

namespace Perago.ConductorRuntime

open Perago.Transition

/-! ## How a call is settled -/

/-- The exits of `execute`: a completion, or one of the broker's own failures. -/
inductive Outcome where
  | completion (c : ProcessTaskCompletion)
  | invalidCompletion
  | otherTask (taskId : String)
  | otherExecution (executionId : String)
  | brokenPipe
  | exited
  | deadline

/-- The checks on a received message, in the order of `_wait_for_completion`. -/
def inspectCompletion (attempt : ConductorTaskAttempt) (executionId : String) :
    BrokerMessage → Outcome
  | .invalid => .invalidCompletion
  | .completion c =>
    if c.taskId ≠ attempt.taskId then .otherTask c.taskId
    else if c.executionId ≠ executionId then .otherExecution c.executionId
    else .completion c

/-- The result `execute` maps to the SDK. -/
def Outcome.result (workerId : String) (attempt : ConductorTaskAttempt) (executionId : String)
    (maxLength : MaxLength) : Outcome → RuntimeTaskResult
  | .completion c => c.result
  | .invalidCompletion =>
    failedResult ("executor returned invalid completion for task " ++ attempt.taskId) maxLength
  | .otherTask taskId =>
    failedResult ("executor returned completion for task " ++ taskId ++ "; expected " ++
      attempt.taskId) maxLength
  | .otherExecution other =>
    failedResult ("executor returned completion for execution " ++ other ++ "; expected " ++
      executionId) maxLength
  | .brokenPipe =>
    failedResult ("executor pipe for worker " ++ workerId ++ " is broken for task " ++
      attempt.taskId) maxLength
  | .exited =>
    failedResult ("executor process for worker " ++ workerId ++ " exited while running task " ++
      attempt.taskId) maxLength
  | .deadline =>
    failedResult ("executor did not return result for task " ++ attempt.taskId) maxLength

/-! ## One call -/

variable {κ : Type}

/-- Where an `execute` call stands. The `drain` phases are the loop of
`_drain_executor_events`; `markExited` is the lock region after a broken pipe. -/
inductive Phase (κ : Type) where
  | leaseDrain
  | leaseGet
  | leaseLock (w : String)
  | send (l : Lease κ)
  | waitDrain (l : Lease κ)
  | waitCheck (l : Lease κ)
  | waitPoll (l : Lease κ)
  | waitRecv (l : Lease κ)
  | markExited (l : Lease κ)
  | releaseDrain (l : Lease κ) (o : Outcome)
  | releaseLock (l : Lease κ) (o : Outcome)
  | returned (l : Lease κ) (o : Outcome)

/-- The lease held: from the return of `_lease_slot` to the end of `_release_slot`. -/
def Phase.lease : Phase κ → Option (Lease κ)
  | .leaseDrain | .leaseGet | .leaseLock _ | .returned _ _ => none
  | .send l | .waitDrain l | .waitCheck l | .waitPoll l | .waitRecv l | .markExited l
  | .releaseDrain l _ | .releaseLock l _ => some l

/-- The slot popped from the queue and not yet looked at under the lock. -/
def Phase.popped : Phase κ → Option String
  | .leaseLock w => some w
  | _ => none

/-- The phase after a drain loop finds the event queue empty. -/
def Phase.drained : Phase κ → Option (Phase κ)
  | .leaseDrain => some .leaseGet
  | .waitDrain l => some (.waitCheck l)
  | .releaseDrain l o => some (.releaseLock l o)
  | _ => none

/-- `event` is the lifecycle event popped and not yet handled. -/
structure ExecuteCall (κ : Type) where
  attempt : ConductorTaskAttempt
  executionId : String
  phase : Phase κ := .leaseDrain
  event : Option (ExecutorEvent κ) := none

/-- The assignment that `execute` sends. -/
def ExecuteCall.assignment (c : ExecuteCall κ) : ProcessTaskAssignment where
  attempt := c.attempt
  executionId := c.executionId

structure Broker (κ : Type) where
  table : SlotTable κ
  executorEventQueue : List (ExecutorEvent κ)

inductive CallAction where
  | popEvent
  | handleEvent
  | drained
  | getSlot
  | getEmpty
  | lockLease
  | sendOk
  | sendBroken
  | checkExited
  | poll (ready : Bool)
  | deadline
  | recv (m : BrokerMessage)
  | recvBroken
  | lockMarkExited
  | lockRelease

/-- One step of a call that has no event in hand. -/
def phaseStep (completionTimeoutSeconds : Option Nat) (b : Broker κ) (c : ExecuteCall κ) :
    CallAction → Option (Broker κ × ExecuteCall κ)
  | .popEvent => match c.phase.drained, b.executorEventQueue with
    | some _, ev :: rest =>
      some ({ b with executorEventQueue := rest }, { c with event := some ev })
    | _, _ => none
  | .drained => c.phase.drained.map fun p => (b, { c with phase := p })
  | .getSlot => match c.phase, b.table.availableSlots with
    | .leaseGet, w :: rest =>
      some ({ b with table := { b.table with availableSlots := rest } },
        { c with phase := .leaseLock w })
    | _, _ => none
  | .getEmpty => match c.phase with
    | .leaseGet => some (b, { c with phase := .leaseDrain })
    | _ => none
  | .lockLease => match c.phase with
    | .leaseLock w => match b.table.leaseSlotLocked w with
      | some (l, table) => some ({ b with table := table }, { c with phase := .send l })
      | none => some (b, { c with phase := .leaseDrain })
    | _ => none
  | .sendOk => match c.phase with
    | .send l => some (b, { c with phase := .waitDrain l })
    | _ => none
  | .sendBroken => match c.phase with
    | .send l => some (b, { c with phase := .markExited l })
    | _ => none
  | .checkExited => match c.phase with
    | .waitCheck l =>
      if b.table.slotGenerationExited l.workerId l.generation then
        some (b, { c with phase := .releaseDrain l .exited })
      else some (b, { c with phase := .waitPoll l })
    | _ => none
  | .poll ready => match c.phase with
    | .waitPoll l => some (b, { c with phase := if ready then .waitRecv l else .waitDrain l })
    | _ => none
  | .deadline => match c.phase, completionTimeoutSeconds with
    | .waitPoll l, some _ => some (b, { c with phase := .releaseDrain l .deadline })
    | _, _ => none
  | .recv m => match c.phase with
    | .waitRecv l => some (b, { c with
        phase := .releaseDrain l (inspectCompletion c.attempt c.executionId m) })
    | _ => none
  | .recvBroken => match c.phase with
    | .waitPoll l | .waitRecv l => some (b, { c with phase := .markExited l })
    | _ => none
  | .lockMarkExited => match c.phase with
    | .markExited l =>
      some ({ b with table := b.table.markSlotExited l.workerId l.generation },
        { c with phase := .releaseDrain l .brokenPipe })
    | _ => none
  | .lockRelease => match c.phase with
    | .releaseLock l o =>
      some ({ b with table := b.table.releaseSlotLocked l.workerId },
        { c with phase := .returned l o })
    | _ => none
  | .handleEvent => none

/-- One step of a call: an event in hand is handled before anything else. -/
def callStep (completionTimeoutSeconds : Option Nat) (b : Broker κ) (c : ExecuteCall κ)
    (a : CallAction) : Option (Broker κ × ExecuteCall κ) :=
  match c.event with
  | some ev => match a with
    | .handleEvent =>
      some ({ b with table := b.table.handleExecutorEvent ev }, { c with event := none })
    | _ => none
  | none => phaseStep completionTimeoutSeconds b c a

/-! ## The machine -/

/-- Slots with distinct worker ids, none of them exited. -/
structure SlotList (κ : Type) where
  slots : List (String × κ × Nat)
  nodup : (slots.map Prod.fst).Nodup

/-- The constructor arguments of the worker that its slot protocol uses. -/
structure DispatchConfig (κ : Type) where
  slots : SlotList κ
  completionTimeoutSeconds : Option Nat

structure Dispatch (κ : Type) where
  broker : Broker κ
  calls : Nat → Option (ExecuteCall κ)
  /-- Every event put on the queue so far. -/
  emitted : List (ExecutorEvent κ)

inductive DispatchAction (κ : Type) where
  | emit (ev : ExecutorEvent κ)
  | begin (i : Nat) (attempt : ConductorTaskAttempt) (executionId : String)
  | call (i : Nat) (a : CallAction)

/-- `__init__`. -/
def SlotList.table (slots : SlotList κ) : SlotTable κ :=
  .ofSlots (slots.slots.map fun s => (s.1, { connection := some s.2.1, generation := s.2.2 }))

def Dispatch.start (cfg : DispatchConfig κ) : Dispatch κ where
  broker := { table := cfg.slots.table, executorEventQueue := [] }
  calls _ := none
  emitted := []

/-- A thread that has taken its step. -/
def Dispatch.withCall (s : Dispatch κ) (i : Nat) (r : Broker κ × ExecuteCall κ) : Dispatch κ :=
  { s with broker := r.1, calls := Function.update s.calls i (some r.2) }

def Dispatch.step (cfg : DispatchConfig κ) (s : Dispatch κ) : DispatchAction κ → Option (Dispatch κ)
  | .emit ev => some { s with
      broker := { s.broker with executorEventQueue := s.broker.executorEventQueue ++ [ev] }
      emitted := s.emitted ++ [ev] }
  | .begin i attempt executionId => match s.calls i with
    | none => some { s with calls := Function.update s.calls i (some { attempt, executionId }) }
    | some _ => none
  | .call i a => match s.calls i with
    | some c => (callStep cfg.completionTimeoutSeconds s.broker c a).map (s.withCall i)
    | none => none

/-- The worker serving any number of calls and any stream of events. -/
def dispatchMachine (cfg : DispatchConfig κ) : Machine (Dispatch κ) (DispatchAction κ) where
  init s := s = .start cfg
  step := Dispatch.step cfg

/-! ## The steps of a call, one by one -/

/-- The transitions of `callStep`, with the guard of each. -/
inductive CallStep (timeout : Option Nat) (b : Broker κ) (c : ExecuteCall κ) :
    CallAction → Broker κ → ExecuteCall κ → Prop where
  | handleEvent (ev : ExecutorEvent κ) : c.event = some ev →
      CallStep timeout b c .handleEvent { b with table := b.table.handleExecutorEvent ev }
        { c with event := none }
  | popEvent (p : Phase κ) (ev : ExecutorEvent κ) (rest : List (ExecutorEvent κ)) :
      c.event = none → c.phase.drained = some p → b.executorEventQueue = ev :: rest →
      CallStep timeout b c .popEvent { b with executorEventQueue := rest }
        { c with event := some ev }
  | drained (p : Phase κ) : c.event = none → c.phase.drained = some p →
      CallStep timeout b c .drained b { c with phase := p }
  | getSlot (w : String) (rest : List String) : c.event = none → c.phase = .leaseGet →
      b.table.availableSlots = w :: rest →
      CallStep timeout b c .getSlot { b with table := { b.table with availableSlots := rest } }
        { c with phase := .leaseLock w }
  | getEmpty : c.event = none → c.phase = .leaseGet →
      CallStep timeout b c .getEmpty b { c with phase := .leaseDrain }
  | leased (w : String) (l : Lease κ) (table : SlotTable κ) : c.event = none →
      c.phase = .leaseLock w → b.table.leaseSlotLocked w = some (l, table) →
      CallStep timeout b c .lockLease { b with table := table } { c with phase := .send l }
  | refused (w : String) : c.event = none → c.phase = .leaseLock w →
      b.table.leaseSlotLocked w = none →
      CallStep timeout b c .lockLease b { c with phase := .leaseDrain }
  | sendOk (l : Lease κ) : c.event = none → c.phase = .send l →
      CallStep timeout b c .sendOk b { c with phase := .waitDrain l }
  | sendBroken (l : Lease κ) : c.event = none → c.phase = .send l →
      CallStep timeout b c .sendBroken b { c with phase := .markExited l }
  | exited (l : Lease κ) : c.event = none → c.phase = .waitCheck l →
      b.table.slotGenerationExited l.workerId l.generation = true →
      CallStep timeout b c .checkExited b { c with phase := .releaseDrain l .exited }
  | running (l : Lease κ) : c.event = none → c.phase = .waitCheck l →
      b.table.slotGenerationExited l.workerId l.generation = false →
      CallStep timeout b c .checkExited b { c with phase := .waitPoll l }
  | poll (ready : Bool) (l : Lease κ) : c.event = none → c.phase = .waitPoll l →
      CallStep timeout b c (.poll ready) b
        { c with phase := if ready then .waitRecv l else .waitDrain l }
  | deadline (l : Lease κ) (seconds : Nat) : c.event = none → c.phase = .waitPoll l →
      timeout = some seconds →
      CallStep timeout b c .deadline b { c with phase := .releaseDrain l .deadline }
  | recv (m : BrokerMessage) (l : Lease κ) : c.event = none → c.phase = .waitRecv l →
      CallStep timeout b c (.recv m) b
        { c with phase := .releaseDrain l (inspectCompletion c.attempt c.executionId m) }
  | recvBroken (l : Lease κ) : c.event = none → c.phase = .waitPoll l ∨ c.phase = .waitRecv l →
      CallStep timeout b c .recvBroken b { c with phase := .markExited l }
  | markExited (l : Lease κ) : c.event = none → c.phase = .markExited l →
      CallStep timeout b c .lockMarkExited
        { b with table := b.table.markSlotExited l.workerId l.generation }
        { c with phase := .releaseDrain l .brokenPipe }
  | released (l : Lease κ) (o : Outcome) : c.event = none → c.phase = .releaseLock l o →
      CallStep timeout b c .lockRelease
        { b with table := b.table.releaseSlotLocked l.workerId } { c with phase := .returned l o }

variable {timeout : Option Nat} {b b' : Broker κ} {c c' : ExecuteCall κ} {a : CallAction}

theorem callStep_inv (h : callStep timeout b c a = some (b', c')) :
    CallStep timeout b c a b' c' := by
  unfold callStep at h
  split at h
  · split at h <;> cases h
    exact .handleEvent _ (by assumption)
  rename_i idle
  cases a <;> simp only [phaseStep] at h
  case popEvent =>
    split at h <;> cases h
    exact .popEvent _ _ _ idle (by assumption) (by assumption)
  case handleEvent => cases h
  case drained =>
    obtain ⟨p, hp, h⟩ := Option.map_eq_some_iff.mp h
    cases h
    exact .drained p idle hp
  case getSlot =>
    split at h <;> cases h
    exact .getSlot _ _ idle (by assumption) (by assumption)
  case getEmpty =>
    split at h <;> cases h
    exact .getEmpty idle (by assumption)
  case lockLease =>
    split at h
    · rename_i w hp
      split at h <;> cases h
      · exact .leased w _ _ idle hp (by assumption)
      · exact .refused w idle hp (by assumption)
    · cases h
  case sendOk =>
    split at h <;> cases h
    exact .sendOk _ idle (by assumption)
  case sendBroken =>
    split at h <;> cases h
    exact .sendBroken _ idle (by assumption)
  case checkExited =>
    split at h
    · rename_i l hp
      split at h <;> cases h
      · exact .exited l idle hp (by assumption)
      · exact .running l idle hp (Bool.eq_false_of_not_eq_true (by assumption))
    · cases h
  case poll ready =>
    split at h <;> cases h
    exact .poll ready _ idle (by assumption)
  case deadline =>
    split at h <;> cases h
    exact .deadline _ _ idle (by assumption) rfl
  case recv m =>
    split at h <;> cases h
    exact .recv m _ idle (by assumption)
  case recvBroken =>
    split at h <;> cases h
    · exact .recvBroken _ idle (.inl (by assumption))
    · exact .recvBroken _ idle (.inr (by assumption))
  case lockMarkExited =>
    split at h <;> cases h
    exact .markExited _ idle (by assumption)
  case lockRelease =>
    split at h <;> cases h
    exact .released _ _ idle (by assumption)

theorem CallStep.callStep (h : CallStep timeout b c a b' c') :
    callStep timeout b c a = some (b', c') := by
  unfold Perago.ConductorRuntime.callStep
  cases h with
  | handleEvent ev hev => simp [hev]
  | recvBroken l idle hp => rcases hp with hp | hp <;> simp [idle, phaseStep, hp]
  | _ => simp_all [phaseStep]

/-! ## What a call step changes

An invariant of the slot protocol only sees the table, the lease held and the
slot popped. -/

/-- The ways a call step can change the table, the lease and the popped slot. -/
inductive CallEffect (b : Broker κ) (c : ExecuteCall κ) (b' : Broker κ) (c' : ExecuteCall κ) :
    Prop where
  | quiet : b'.table = b.table → c'.phase.lease = c.phase.lease →
      c'.phase.popped = c.phase.popped → CallEffect b c b' c'
  | event (ev : ExecutorEvent κ) : c.event = some ev →
      b'.table = b.table.handleExecutorEvent ev → c'.phase = c.phase → CallEffect b c b' c'
  | got (w : String) (rest : List String) : c.phase = .leaseGet →
      b.table.availableSlots = w :: rest → b'.table = { b.table with availableSlots := rest } →
      c'.phase = .leaseLock w → CallEffect b c b' c'
  | refused (w : String) : c.phase = .leaseLock w → b.table.leaseSlotLocked w = none →
      b'.table = b.table → c'.phase = .leaseDrain → CallEffect b c b' c'
  | leased (w : String) (l : Lease κ) : c.phase = .leaseLock w →
      b.table.leaseSlotLocked w = some (l, b'.table) → c'.phase = .send l → CallEffect b c b' c'
  | markedExited (l : Lease κ) : c.phase = .markExited l →
      b'.table = b.table.markSlotExited l.workerId l.generation →
      c'.phase = .releaseDrain l .brokenPipe → CallEffect b c b' c'
  | released (l : Lease κ) (o : Outcome) : c.phase = .releaseLock l o →
      b'.table = b.table.releaseSlotLocked l.workerId →
      c'.phase = .returned l o → CallEffect b c b' c'

theorem Phase.drained_lease {p q : Phase κ} (h : p.drained = some q) :
    q.lease = p.lease ∧ q.popped = p.popped := by
  cases p <;> simp only [Phase.drained, Option.some.injEq, reduceCtorEq] at h <;> subst h <;>
    exact ⟨rfl, rfl⟩

theorem callStep_effect (h : callStep timeout b c a = some (b', c')) : CallEffect b c b' c' := by
  have quiet : ∀ {p : Phase κ}, c.phase = p → c'.phase.lease = p.lease →
      c'.phase.popped = p.popped → b'.table = b.table → CallEffect b c b' c' :=
    fun hp hl hw ht => .quiet ht (hp ▸ hl) (hp ▸ hw)
  cases callStep_inv h with
  | handleEvent ev hev => exact .event ev hev rfl rfl
  | popEvent => exact .quiet rfl rfl rfl
  | drained p _ hp => exact .quiet rfl (Phase.drained_lease hp).1 (Phase.drained_lease hp).2
  | getSlot w rest _ hp hq => exact .got w rest hp hq rfl rfl
  | leased w l table _ hp hl => exact .leased w l hp hl rfl
  | refused w _ hp hl => exact .refused w hp hl rfl rfl
  | markExited l _ hp => exact .markedExited l hp rfl rfl
  | released l o _ hp => exact .released l o hp rfl rfl
  | poll ready l _ hp => cases ready <;> exact quiet hp rfl rfl rfl
  | recvBroken l _ hp => rcases hp with hp | hp <;> exact quiet hp rfl rfl rfl
  | getEmpty _ hp => exact quiet hp rfl rfl rfl
  | sendOk l _ hp => exact quiet hp rfl rfl rfl
  | sendBroken l _ hp => exact quiet hp rfl rfl rfl
  | exited l _ hp => exact quiet hp rfl rfl rfl
  | running l _ hp => exact quiet hp rfl rfl rfl
  | deadline l seconds _ hp => exact quiet hp rfl rfl rfl
  | recv m l _ hp => exact quiet hp rfl rfl rfl

end Perago.ConductorRuntime
