import Perago.ConductorRuntime.ProcessExecutor
import Perago.ConductorRuntime.SlotSafety

/-!
# The process runtime

The dispatch worker together with its slot pipes, the executor loops and the
restarts of the supervisor. A pipe belongs to one worker id and one generation,
and that pair is its name. The broker's part is the worker as it stands, with
pipe operations that now have the results the pipes give them.
-/

namespace Perago.ConductorRuntime

open Perago.Transition

/-- The pipe of a worker id and a generation. -/
abbrev SlotPipe := String × Nat

/-- Where the supervisor's loop stands with a slot: it reports the exit of the
executor, starts a replacement in the next generation, and reports that. -/
inductive SupervisedPhase where
  | running
  | exitReported
  | respawned
  deriving DecidableEq

structure SupervisedSlot where
  generation : Nat := 1
  phase : SupervisedPhase := .running

structure ProcessRuntimeConfig where
  workerIds : List String
  nodup : workerIds.Nodup
  completionTimeoutSeconds : Option Nat

structure ProcessRuntime where
  dispatch : Dispatch SlotPipe
  pipes : SlotPipe → Pipe
  executors : SlotPipe → Option Executor
  slots : String → Option SupervisedSlot

/-- The broker's slots as the supervisor first builds them, all in generation 1. -/
def ProcessRuntimeConfig.dispatch (cfg : ProcessRuntimeConfig) : DispatchConfig SlotPipe where
  slots := {
    slots := cfg.workerIds.map fun w => (w, (w, 1), 1)
    nodup := by simpa [List.map_map, Function.comp_def] using cfg.nodup }
  completionTimeoutSeconds := cfg.completionTimeoutSeconds

def ProcessRuntime.start (cfg : ProcessRuntimeConfig) : ProcessRuntime where
  dispatch := .start cfg.dispatch
  pipes _ := {}
  executors p := if p.1 ∈ cfg.workerIds ∧ p.2 = 1 then some {} else none
  slots w := if w ∈ cfg.workerIds then some {} else none

/-! ## The steps -/

/-- `call` is any step of an `execute` call but a receive, whose message the pipe gives. -/
inductive RuntimeAction where
  | begin (i : Nat) (attempt : ConductorTaskAttempt) (executionId : String)
  | call (i : Nat) (a : CallAction)
  | receive (i : Nat)
  | executor (p : SlotPipe) (a : ExecutorAction)
  | reportExit (w : String) (exitCode : Option Int)
  | respawn (w : String)
  | reportStarted (w : String)
  | sendStop (w : String)

namespace ProcessRuntime

/-- The executor process of a pipe has exited. -/
def exited (s : ProcessRuntime) (p : SlotPipe) : Bool :=
  match s.executors p with
  | some e => match e.phase with
    | .dead => true
    | _ => false
  | none => false

/-- The broker reads end of file: nobody is left to write and nothing is left to read. -/
def atEof (s : ProcessRuntime) (p : SlotPipe) : Bool :=
  s.exited p && (s.pipes p).toBroker.isEmpty

def setPipe (s : ProcessRuntime) (p : SlotPipe) (pipe : Pipe) : ProcessRuntime :=
  { s with pipes := Function.update s.pipes p pipe }

/-- The pipes after a broker's pipe operation other than a receive. A poll finds
data or the end of file, and a failed read is the end of file. -/
def brokerPipes (s : ProcessRuntime) (c : ExecuteCall SlotPipe) :
    CallAction → Option (SlotPipe → Pipe)
  | .sendOk => match c.phase with
    | .send l => some (Function.update s.pipes l.connection { s.pipes l.connection with
        toExecutor := (s.pipes l.connection).toExecutor ++ [.assignment c.assignment] })
    | _ => none
  | .poll ready => match c.phase with
    | .waitPoll l =>
      if ready = true → (s.pipes l.connection).toBroker ≠ [] ∨ s.exited l.connection = true then
        if ready = false → (s.pipes l.connection).toBroker = [] then some s.pipes else none
      else none
    | _ => none
  | .recvBroken => match c.phase with
    | .waitPoll l | .waitRecv l => if s.atEof l.connection then some s.pipes else none
    | _ => none
  | .recv _ => none
  | _ => some s.pipes

def setCall (s : ProcessRuntime) (i : Nat) (b : Broker SlotPipe) (c : ExecuteCall SlotPipe) :
    ProcessRuntime :=
  { s with dispatch := s.dispatch.withCall i (b, c) }

def emit (s : ProcessRuntime) (ev : ExecutorEvent SlotPipe) : ProcessRuntime :=
  { s with dispatch := { s.dispatch with
      broker := { s.dispatch.broker with
        executorEventQueue := s.dispatch.broker.executorEventQueue ++ [ev] }
      emitted := s.dispatch.emitted ++ [ev] } }

def setSlot (s : ProcessRuntime) (w : String) (slot : SupervisedSlot) : ProcessRuntime :=
  { s with slots := Function.update s.slots w (some slot) }

/-- A new `Pipe()` and the executor started on it. -/
def spawn (s : ProcessRuntime) (p : SlotPipe) : ProcessRuntime :=
  { s with
    pipes := Function.update s.pipes p {}
    executors := Function.update s.executors p (some {}) }

def step (cfg : ProcessRuntimeConfig) (s : ProcessRuntime) : RuntimeAction → Option ProcessRuntime
  | .begin i attempt executionId =>
    (s.dispatch.step cfg.dispatch (.begin i attempt executionId)).map
      fun d => { s with dispatch := d }
  | .call i a => match s.dispatch.calls i with
    | none => none
    | some c => match s.brokerPipes c a with
      | none => none
      | some pipes => (s.dispatch.step cfg.dispatch (.call i a)).map
          fun d => { s with dispatch := d, pipes := pipes }
  | .receive i => match s.dispatch.calls i with
    | none => none
    | some c => match c.phase with
      | .waitRecv l => match (s.pipes l.connection).toBroker with
        | [] => none
        | m :: rest => (s.dispatch.step cfg.dispatch (.call i (.recv m))).map
            fun d => { s with dispatch := d }.setPipe l.connection
              { s.pipes l.connection with toBroker := rest }
      | _ => none
  | .executor p a => match s.executors p with
    | none => none
    | some e => (executorStep (s.pipes p) e a).map fun r =>
        { s.setPipe p r.1 with executors := Function.update s.executors p (some r.2) }
  | .reportExit w exitCode => match s.slots w with
    | some ⟨g, .running⟩ =>
      if s.exited (w, g) then some ((s.emit (.exited w g exitCode)).setSlot w ⟨g, .exitReported⟩)
      else none
    | _ => none
  | .respawn w => match s.slots w with
    | some ⟨g, .exitReported⟩ => some ((s.spawn (w, g + 1)).setSlot w ⟨g + 1, .respawned⟩)
    | _ => none
  | .reportStarted w => match s.slots w with
    | some ⟨g, .respawned⟩ => some ((s.emit (.started w g (w, g))).setSlot w ⟨g, .running⟩)
    | _ => none
  | .sendStop w => match s.slots w with
    | some slot => some (s.setPipe (w, slot.generation) { s.pipes (w, slot.generation) with
        toExecutor := (s.pipes (w, slot.generation)).toExecutor ++ [.stopProcessExecutor] })
    | none => none

end ProcessRuntime

def processRuntime (cfg : ProcessRuntimeConfig) : Machine ProcessRuntime RuntimeAction where
  init s := s = .start cfg
  step := ProcessRuntime.step cfg

/-! ## The steps, one by one -/

namespace ProcessRuntime

/-- The transitions of the runtime: the calls' by their effect on the pipes. -/
inductive Step (timeout : Option Nat) (s : ProcessRuntime) :
    RuntimeAction → ProcessRuntime → Prop where
  | begin (i : Nat) (attempt : ConductorTaskAttempt) (executionId : String) :
      s.dispatch.calls i = none →
      Step timeout s (.begin i attempt executionId) { s with dispatch := { s.dispatch with
        calls := Function.update s.dispatch.calls i (some { attempt, executionId }) } }
  | call (i : Nat) (a : CallAction) (c : ExecuteCall SlotPipe) (b' : Broker SlotPipe)
      (c' : ExecuteCall SlotPipe) : s.dispatch.calls i = some c → a ≠ .sendOk →
      CallStep timeout s.dispatch.broker c a b' c' → (∀ m, a ≠ .recv m) →
      (∀ l, a = .recvBroken → c.phase = .waitPoll l ∨ c.phase = .waitRecv l →
        s.atEof l.connection = true) →
      Step timeout s (.call i a) (s.setCall i b' c')
  | sent (i : Nat) (c : ExecuteCall SlotPipe) (l : Lease SlotPipe) :
      s.dispatch.calls i = some c → c.event = none → c.phase = .send l →
      Step timeout s (.call i .sendOk)
        ((s.setCall i s.dispatch.broker { c with phase := .waitDrain l }).setPipe l.connection
          { s.pipes l.connection with
            toExecutor := (s.pipes l.connection).toExecutor ++ [.assignment c.assignment] })
  | received (i : Nat) (c : ExecuteCall SlotPipe) (l : Lease SlotPipe) (m : BrokerMessage)
      (rest : List BrokerMessage) : s.dispatch.calls i = some c → c.event = none →
      c.phase = .waitRecv l → (s.pipes l.connection).toBroker = m :: rest →
      Step timeout s (.receive i)
        ((s.setCall i s.dispatch.broker
          { c with phase := .releaseDrain l (inspectCompletion c.attempt c.executionId m) }).setPipe
            l.connection { s.pipes l.connection with toBroker := rest })
  | executor (p : SlotPipe) (a : ExecutorAction) (e e' : Executor) (pipe : Pipe) :
      s.executors p = some e → ExecutorStep (s.pipes p) e a pipe e' →
      Step timeout s (.executor p a)
        { s.setPipe p pipe with executors := Function.update s.executors p (some e') }
  | exitReported (w : String) (g : Nat) (exitCode : Option Int) : s.slots w = some ⟨g, .running⟩ →
      s.exited (w, g) = true →
      Step timeout s (.reportExit w exitCode)
        ((s.emit (.exited w g exitCode)).setSlot w ⟨g, .exitReported⟩)
  | respawned (w : String) (g : Nat) : s.slots w = some ⟨g, .exitReported⟩ →
      Step timeout s (.respawn w) ((s.spawn (w, g + 1)).setSlot w ⟨g + 1, .respawned⟩)
  | startReported (w : String) (g : Nat) : s.slots w = some ⟨g, .respawned⟩ →
      Step timeout s (.reportStarted w)
        ((s.emit (.started w g (w, g))).setSlot w ⟨g, .running⟩)
  | stopSent (w : String) (slot : SupervisedSlot) : s.slots w = some slot →
      Step timeout s (.sendStop w)
        (s.setPipe (w, slot.generation) { s.pipes (w, slot.generation) with
          toExecutor := (s.pipes (w, slot.generation)).toExecutor ++ [.stopProcessExecutor] })

variable {cfg : ProcessRuntimeConfig} {s t : ProcessRuntime} {a : RuntimeAction}

/-- What a call step of the worker amounts to. -/
theorem dispatch_call_inv {κ : Type} {cfg : DispatchConfig κ} {d d' : Dispatch κ} {i : Nat}
    {a : CallAction} {c : ExecuteCall κ} (hc : d.calls i = some c)
    (h : d.step cfg (.call i a) = some d') :
    ∃ b' c', CallStep cfg.completionTimeoutSeconds d.broker c a b' c' ∧
      d' = d.withCall i (b', c') := by
  simp only [Dispatch.step, hc] at h
  obtain ⟨⟨b', c'⟩, hcall, rfl⟩ := Option.map_eq_some_iff.mp h
  exact ⟨b', c', callStep_inv hcall, rfl⟩

theorem step_call_inv {i : Nat} {a : CallAction} (h : s.step cfg (.call i a) = some t) :
    Step cfg.completionTimeoutSeconds s (.call i a) t := by
  simp only [step] at h
  cases hc : s.dispatch.calls i with
  | none => simp [hc] at h
  | some c =>
    cases hp : s.brokerPipes c a with
    | none => simp [hc, hp] at h
    | some pipes =>
      simp only [hc, hp] at h
      obtain ⟨d, hd, rfl⟩ := Option.map_eq_some_iff.mp h
      obtain ⟨b', c', hcall, rfl⟩ := dispatch_call_inv hc hd
      by_cases hsend : a = .sendOk
      · subst hsend
        cases hcall with
        | sendOk l idle hphase =>
          simp only [brokerPipes, hphase, Option.some.injEq] at hp
          subst hp
          exact .sent i c l hc idle hphase
      · have keep : pipes = s.pipes ∧ (∀ m, a ≠ .recv m) ∧
            ∀ l, a = .recvBroken → c.phase = .waitPoll l ∨ c.phase = .waitRecv l →
              s.atEof l.connection = true := by
          cases a <;> simp only [brokerPipes] at hp
          case sendOk => exact absurd rfl hsend
          case recv m => cases hp
          case poll ready =>
            split at hp
            · split at hp
              · split at hp <;> cases hp
                exact ⟨rfl, by simp, by simp⟩
              · cases hp
            · cases hp
          case recvBroken =>
            split at hp
            · rename_i l hphase
              split at hp <;> cases hp
              refine ⟨rfl, by simp, fun m _ hm => ?_⟩
              obtain rfl : l = m := by simpa [hphase] using hm
              assumption
            · rename_i l hphase
              split at hp <;> cases hp
              refine ⟨rfl, by simp, fun m _ hm => ?_⟩
              obtain rfl : l = m := by simpa [hphase] using hm
              assumption
            · cases hp
          all_goals
            cases hp
            exact ⟨rfl, by simp, by simp⟩
        obtain ⟨rfl, hrecv, heof⟩ := keep
        exact .call i a c b' c' hc hsend hcall hrecv heof

theorem step_inv (h : s.step cfg a = some t) : Step cfg.completionTimeoutSeconds s a t := by
  cases a with
  | call i a => exact step_call_inv h
  | begin i attempt executionId =>
    simp only [step] at h
    obtain ⟨d, hd, rfl⟩ := Option.map_eq_some_iff.mp h
    simp only [Dispatch.step] at hd
    split at hd <;> cases hd
    exact .begin i attempt executionId (by assumption)
  | receive i =>
    simp only [step] at h
    split at h
    · cases h
    rename_i c hc
    split at h
    · rename_i l hphase
      split at h
      · cases h
      rename_i m rest hpipe
      obtain ⟨d, hd, rfl⟩ := Option.map_eq_some_iff.mp h
      obtain ⟨b', c', hcall, rfl⟩ := dispatch_call_inv hc hd
      cases hcall with
      | recv _ l' idle hphase' =>
        obtain rfl : l = l' := by simpa [hphase] using hphase'
        exact .received i c l m rest hc idle hphase hpipe
    · cases h
  | executor p a =>
    simp only [step] at h
    split at h
    · cases h
    rename_i e he
    obtain ⟨⟨pipe, e'⟩, hstep, rfl⟩ := Option.map_eq_some_iff.mp h
    exact .executor p a e e' pipe he (executorStep_inv hstep)
  | reportExit w exitCode =>
    simp only [step] at h
    split at h
    · split at h <;> cases h
      exact .exitReported w _ exitCode (by assumption) (by assumption)
    · cases h
  | respawn w =>
    simp only [step] at h
    split at h <;> cases h
    exact .respawned w _ (by assumption)
  | reportStarted w =>
    simp only [step] at h
    split at h <;> cases h
    exact .startReported w _ (by assumption)
  | sendStop w =>
    simp only [step] at h
    split at h <;> cases h
    exact .stopSent w _ (by assumption)

/-! ## The worker's part -/

/-- Seen from the worker, a step of the runtime is a step of the worker or none. -/
theorem step_dispatch (h : s.step cfg a = some t) : t.dispatch = s.dispatch ∨
    ∃ b, s.dispatch.step cfg.dispatch b = some t.dispatch ∧
      ∀ i, b = .call i .lockRelease → a = .call i .lockRelease := by
  have call : ∀ {i b c b' c'}, s.dispatch.calls i = some c →
      CallStep cfg.completionTimeoutSeconds s.dispatch.broker c b b' c' →
      s.dispatch.step cfg.dispatch (.call i b) = some (s.dispatch.withCall i (b', c')) := by
    intro i b c b' c' hc hcall
    have := hcall.callStep
    simp [Dispatch.step, hc, ProcessRuntimeConfig.dispatch, this]
  cases step_inv h with
  | begin i attempt executionId hc =>
    exact .inr ⟨.begin i attempt executionId, by simp [Dispatch.step, hc], by simp⟩
  | call i a c b' c' hc hsend hcall =>
    refine .inr ⟨.call i a, call hc hcall, ?_⟩
    rintro j ⟨⟩
    rfl
  | sent i c l hc idle hphase =>
    exact .inr ⟨.call i .sendOk, call hc (.sendOk l idle hphase), by simp⟩
  | received i c l m rest hc idle hphase =>
    exact .inr ⟨.call i (.recv m), call hc (.recv m l idle hphase), by simp⟩
  | executor | respawned | stopSent => exact .inl rfl
  | exitReported w g exitCode =>
    exact .inr ⟨.emit (.exited w g exitCode), rfl, by simp⟩
  | startReported w g => exact .inr ⟨.emit (.started w g (w, g)), rfl, by simp⟩

end ProcessRuntime

end Perago.ConductorRuntime
