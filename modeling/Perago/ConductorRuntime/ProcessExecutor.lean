import Perago.ConductorRuntime.ProcessIpc

/-!
# The executor loop

`run_process_executor_loop` as a step function on one executor process and its
slot pipe. Next to the loop's own state an executor carries the history that the
results are about: what it consumed, what `execute_polled_task` returned, and
what it sent.
-/

namespace Perago.ConductorRuntime

/-- The two directions of a slot pipe, oldest message first. -/
structure Pipe where
  toExecutor : List ExecutorMessage := []
  toBroker : List BrokerMessage := []

/-- `left` is a process that has returned from the loop, `dead` one that has exited. -/
inductive ExecutorPhase where
  | testing
  | polling
  | receiving
  | executing (a : ProcessTaskAssignment)
  | sending (a : ProcessTaskAssignment) (r : RuntimeTaskResult)
  | left
  | dead

structure Executor where
  phase : ExecutorPhase := .testing
  shutdownRequested : Bool := false
  consumed : List ProcessTaskAssignment := []
  produced : List (ProcessTaskAssignment × RuntimeTaskResult) := []
  sent : List ProcessTaskCompletion := []
  /-- `StopProcessExecutor` was received. -/
  stopReceived : Bool := false
  /-- The loop test found `shutdown_requested`. -/
  shutdownSeen : Bool := false

/-- The completion that the loop builds from a result. -/
def completionOf (p : ProcessTaskAssignment × RuntimeTaskResult) : ProcessTaskCompletion where
  taskId := p.1.attempt.taskId
  executionId := p.1.executionId
  result := p.2

inductive ExecutorAction where
  | signal
  | test
  | poll (ready : Bool)
  | broken
  | recv
  | finish (r : RuntimeTaskResult)
  | sendOk
  | sendBroken
  | exit
  | crash

def executorStep (p : Pipe) (e : Executor) : ExecutorAction → Option (Pipe × Executor)
  | .signal => some (p, { e with shutdownRequested := true })
  | .test => match e.phase with
    | .testing =>
      if e.shutdownRequested then some (p, { e with phase := .left, shutdownSeen := true })
      else some (p, { e with phase := .polling })
    | _ => none
  | .poll ready => match e.phase with
    | .polling => some (p, { e with phase := if ready then .receiving else .testing })
    | _ => none
  | .broken => match e.phase with
    | .polling | .receiving => some (p, { e with phase := .left })
    | _ => none
  | .recv => match e.phase, p.toExecutor with
    | .receiving, .assignment a :: rest =>
      some ({ p with toExecutor := rest },
        { e with phase := .executing a, consumed := e.consumed ++ [a] })
    | .receiving, .stopProcessExecutor :: rest =>
      some ({ p with toExecutor := rest }, { e with phase := .left, stopReceived := true })
    | .receiving, .invalid :: rest =>
      some ({ p with toExecutor := rest }, { e with phase := .testing })
    | _, _ => none
  | .finish r => match e.phase with
    | .executing a =>
      some (p, { e with phase := .sending a r, produced := e.produced ++ [(a, r)] })
    | _ => none
  | .sendOk => match e.phase with
    | .sending a r =>
      some ({ p with toBroker := p.toBroker ++ [.completion (completionOf (a, r))] },
        { e with phase := .testing, sent := e.sent ++ [completionOf (a, r)] })
    | _ => none
  | .sendBroken => match e.phase with
    | .sending _ _ => some (p, { e with phase := .left })
    | _ => none
  | .exit => match e.phase with
    | .left => some (p, { e with phase := .dead })
    | _ => none
  | .crash => some (p, { e with phase := .dead })

/-! ## The steps of the loop, one by one -/

inductive ExecutorStep (p : Pipe) (e : Executor) : ExecutorAction → Pipe → Executor → Prop where
  | signal : ExecutorStep p e .signal p { e with shutdownRequested := true }
  | shutdown : e.phase = .testing → e.shutdownRequested = true →
      ExecutorStep p e .test p { e with phase := .left, shutdownSeen := true }
  | enter : e.phase = .testing → e.shutdownRequested = false →
      ExecutorStep p e .test p { e with phase := .polling }
  | poll (ready : Bool) : e.phase = .polling →
      ExecutorStep p e (.poll ready) p { e with phase := if ready then .receiving else .testing }
  | broken : e.phase = .polling ∨ e.phase = .receiving →
      ExecutorStep p e .broken p { e with phase := .left }
  | consume (a : ProcessTaskAssignment) (rest : List ExecutorMessage) : e.phase = .receiving →
      p.toExecutor = .assignment a :: rest →
      ExecutorStep p e .recv { p with toExecutor := rest }
        { e with phase := .executing a, consumed := e.consumed ++ [a] }
  | stop (rest : List ExecutorMessage) : e.phase = .receiving →
      p.toExecutor = .stopProcessExecutor :: rest →
      ExecutorStep p e .recv { p with toExecutor := rest }
        { e with phase := .left, stopReceived := true }
  | skip (rest : List ExecutorMessage) : e.phase = .receiving → p.toExecutor = .invalid :: rest →
      ExecutorStep p e .recv { p with toExecutor := rest } { e with phase := .testing }
  | finish (a : ProcessTaskAssignment) (r : RuntimeTaskResult) : e.phase = .executing a →
      ExecutorStep p e (.finish r) p
        { e with phase := .sending a r, produced := e.produced ++ [(a, r)] }
  | sendOk (a : ProcessTaskAssignment) (r : RuntimeTaskResult) : e.phase = .sending a r →
      ExecutorStep p e .sendOk
        { p with toBroker := p.toBroker ++ [.completion (completionOf (a, r))] }
        { e with phase := .testing, sent := e.sent ++ [completionOf (a, r)] }
  | sendBroken (a : ProcessTaskAssignment) (r : RuntimeTaskResult) : e.phase = .sending a r →
      ExecutorStep p e .sendBroken p { e with phase := .left }
  | exit : e.phase = .left → ExecutorStep p e .exit p { e with phase := .dead }
  | crash : ExecutorStep p e .crash p { e with phase := .dead }

variable {p p' : Pipe} {e e' : Executor} {a : ExecutorAction}

theorem executorStep_inv (h : executorStep p e a = some (p', e')) :
    ExecutorStep p e a p' e' := by
  cases a <;> simp only [executorStep] at h
  case signal => cases h; exact .signal
  case crash => cases h; exact .crash
  case test =>
    split at h
    · rename_i hp
      split at h <;> cases h
      · exact .shutdown hp (by assumption)
      · exact .enter hp (Bool.eq_false_of_not_eq_true (by assumption))
    · cases h
  case poll ready =>
    split at h <;> cases h
    exact .poll ready (by assumption)
  case broken =>
    split at h <;> cases h
    · exact .broken (.inl (by assumption))
    · exact .broken (.inr (by assumption))
  case recv =>
    split at h <;> cases h
    · exact .consume _ _ (by assumption) (by assumption)
    · exact .stop _ (by assumption) (by assumption)
    · exact .skip _ (by assumption) (by assumption)
  case finish r =>
    split at h <;> cases h
    exact .finish _ r (by assumption)
  case sendOk =>
    split at h <;> cases h
    exact .sendOk _ _ (by assumption)
  case sendBroken =>
    split at h <;> cases h
    exact .sendBroken _ _ (by assumption)
  case exit =>
    split at h <;> cases h
    exact .exit (by assumption)

/-! ## The histories of a loop -/

/-- Consumed, produced and sent agree in order: each history is a prefix of the one
before, short of what is in hand. -/
structure Executor.Ordered (e : Executor) : Prop where
  produced : e.produced.map Prod.fst <+: e.consumed
  sent : e.sent <+: e.produced.map completionOf
  idle : e.phase = .testing ∨ e.phase = .polling ∨ e.phase = .receiving →
    e.produced.map Prod.fst = e.consumed ∧ e.sent = e.produced.map completionOf
  executing : ∀ a, e.phase = .executing a → e.consumed = e.produced.map Prod.fst ++ [a] ∧
    e.sent = e.produced.map completionOf
  sending : ∀ a r, e.phase = .sending a r → e.produced.map Prod.fst = e.consumed ∧
    e.produced.map completionOf = e.sent ++ [completionOf (a, r)]

theorem Executor.Ordered.start : ({} : Executor).Ordered := by
  refine ⟨by simp, by simp, by simp, ?_, ?_⟩ <;> simp

theorem Executor.Ordered.step (h : e.Ordered) (st : ExecutorStep p e a p' e') : e'.Ordered := by
  have left : ∀ stop seen, Executor.Ordered
      { e with phase := .left, stopReceived := stop, shutdownSeen := seen } := fun _ _ =>
    ⟨h.produced, h.sent, by simp, by simp, by simp⟩
  cases st with
  | signal => exact ⟨h.produced, h.sent, h.idle, h.executing, h.sending⟩
  | shutdown | broken | stop | sendBroken => exact left _ _
  | exit | crash => exact ⟨h.produced, h.sent, by simp, by simp, by simp⟩
  | enter hp _ =>
    have idle := h.idle (.inl hp)
    exact ⟨h.produced, h.sent, fun _ => idle, by simp, by simp⟩
  | poll ready hp =>
    have idle := h.idle (.inr (.inl hp))
    cases ready <;> exact ⟨h.produced, h.sent, fun _ => idle, by simp, by simp⟩
  | skip rest hp _ =>
    have idle := h.idle (.inr (.inr hp))
    exact ⟨h.produced, h.sent, fun _ => idle, by simp, by simp⟩
  | consume b rest hp _ =>
    obtain ⟨hproduced, hsent⟩ := h.idle (.inr (.inr hp))
    refine ⟨h.produced.trans (List.prefix_append _ _), h.sent, by simp, ?_, by simp⟩
    intro c hc
    cases hc
    exact ⟨by rw [hproduced], hsent⟩
  | finish b r hp =>
    obtain ⟨hconsumed, hsent⟩ := h.executing b hp
    refine ⟨by simp [hconsumed], by simp [hsent], by simp, by simp, ?_⟩
    intro c r' hc
    cases hc
    exact ⟨by simp [hconsumed], by simp [hsent]⟩
  | sendOk b r hp =>
    obtain ⟨hproduced, hsent⟩ := h.sending b r hp
    exact ⟨h.produced, by simp [hsent], fun _ => ⟨hproduced, hsent.symm⟩, by simp, by simp⟩

/-- A loop that received a stop or saw a shutdown request is over. -/
def Executor.Stopped (e : Executor) : Prop := e.stopReceived = true ∨ e.shutdownSeen = true

/-- The process is out of the loop. -/
def Executor.Gone (e : Executor) : Prop := e.phase = .left ∨ e.phase = .dead

theorem Executor.gone_of_stopped_step (h : e.Stopped → e.Gone)
    (st : ExecutorStep p e a p' e') : e'.Stopped → e'.Gone := by
  unfold Executor.Stopped Executor.Gone at *
  intro hs
  cases st with
  | signal => exact h hs
  | shutdown | broken | stop | sendBroken => exact .inl rfl
  | exit | crash => exact .inr rfl
  | _ => rcases h hs with hp | hp <;> simp_all

theorem ExecutorStep.sent (h : ExecutorStep p e a p' e') : e.sent <+: e'.sent := by
  cases h with
  | sendOk b r => exact List.prefix_append _ _
  | _ => exact List.prefix_rfl

/-- Out of the loop, an executor consumes, produces and sends nothing more. -/
theorem Executor.Gone.step (h : e.Gone) (st : ExecutorStep p e a p' e') :
    e'.Gone ∧ e'.consumed = e.consumed ∧ e'.sent = e.sent ∧ p' = p := by
  unfold Executor.Gone at *
  cases st with
  | signal => exact ⟨h, rfl, rfl, rfl⟩
  | exit | crash => exact ⟨.inr rfl, rfl, rfl, rfl⟩
  | _ => rcases h with hp | hp <;> simp_all

end Perago.ConductorRuntime
