import Perago.ConductorRuntime.Drain

/-!
# A shutdown in time

`Timely` is a condition on when signals, crashes and calls happen. In runs that meet it
every waiting call is attended: the invariants below say what the pipes and the calls
look like once `stop` is set and once the supervisor is in its `finally` block, and they
make every timely step an orderly one.
-/

namespace Perago.ConductorRuntime

open Perago.Transition

/-- The call has sent its assignment, or has failed to. -/
def Phase.sent {κ : Type} : Phase κ → Bool
  | .leaseDrain | .leaseGet | .leaseLock _ | .send _ => false
  | _ => true

theorem CallStep.sent {κ : Type} {timeout : Option Nat} {b b' : Broker κ} {c c' : ExecuteCall κ}
    {a : CallAction} (h : CallStep timeout b c a b' c') (hc : c.phase.sent = true) :
    c'.phase.sent = true := by
  cases h with
  | handleEvent | popEvent => exact hc
  | drained p _ hp =>
    cases hphase : c.phase <;> simp [hphase, Phase.drained, Phase.sent] at hp hc <;>
      simp [← hp, Phase.sent]
  | poll ready => cases ready <;> rfl
  | getSlot _ _ _ hp | getEmpty _ hp | leased _ _ _ _ hp | refused _ _ hp =>
    simp [hp, Phase.sent] at hc
  | _ => rfl

/-- Behind a stop sentinel stands no assignment. -/
def Pipe.Sealed (p : Pipe) : Prop :=
  p.toExecutor.Pairwise fun x y => x = .stopProcessExecutor → ∀ a, y ≠ .assignment a

theorem Pipe.Sealed.unread {p : Pipe} (h : p.Sealed)
    (head : p.toExecutor.head? = some .stopProcessExecutor) : p.unread = [] := by
  unfold Sealed at h
  obtain ⟨rest, hpipe⟩ : ∃ rest, p.toExecutor = .stopProcessExecutor :: rest :=
    List.head?_eq_some_iff.mp head
  rw [hpipe, List.pairwise_cons] at h
  rw [Pipe.unread, hpipe, List.flatMap_cons, List.append_eq_nil_iff]
  refine ⟨rfl, List.flatMap_eq_nil_iff.mpr fun y hy => ?_⟩
  cases y with
  | assignment a => exact absurd rfl (h.1 _ hy rfl a)
  | stopProcessExecutor | invalid => rfl

namespace ProcessRuntime

variable {s t : ProcessRuntime} {timeout : Option Nat} {a : RuntimeAction}

/-- What can happen to the messages for an executor. -/
theorem Step.toExecutor (st : Step timeout s a t) (p : SlotPipe) :
    (t.pipes p).toExecutor = (s.pipes p).toExecutor ∨
      (∃ x, (s.pipes p).toExecutor = x :: (t.pipes p).toExecutor ∧
        (x = .stopProcessExecutor → t.Gone p)) ∨
      (∃ w, a = .respawn w ∧ (t.pipes p).toExecutor = []) ∨
      (∃ i c l, a = .call i .sendOk ∧ s.dispatch.calls i = some c ∧ c.phase = .send l ∧
        l.connection = p ∧ (t.pipes p).toExecutor =
          (s.pipes p).toExecutor ++ [.assignment c.assignment]) ∨
      ∃ w, a = .sendStop w ∧
        (t.pipes p).toExecutor = (s.pipes p).toExecutor ++ [.stopProcessExecutor] := by
  cases st with
  | begin | call | exitReported | startReported => exact .inl rfl
  | sent i c l hc _ hphase =>
    by_cases hq : p = l.connection
    · subst hq
      exact .inr (.inr (.inr (.inl ⟨i, c, l, rfl, hc, hphase, rfl, by simp [setPipe]⟩)))
    · exact .inl (by simp [setPipe, setCall, hq])
  | received i c l m rest =>
    by_cases hq : p = l.connection
    · subst hq
      exact .inl (by simp [setPipe])
    · exact .inl (by simp [setPipe, setCall, hq])
  | executor q b e e' pipe he hstep =>
    by_cases hq : p = q
    · subst hq
      simp only [setPipe, Function.update_self]
      cases hstep with
      | consume _ rest _ hpipe | skip rest _ hpipe =>
        exact .inr (.inl ⟨_, hpipe, by simp⟩)
      | stop rest _ hpipe =>
        exact .inr (.inl ⟨_, hpipe, fun _ =>
          ⟨{ e with phase := .left, stopReceived := true }, by simp, .inl rfl⟩⟩)
      | _ => exact .inl rfl
    · exact .inl (by simp [setPipe, hq])
  | respawned w g =>
    by_cases hq : p = (w, g + 1)
    · subst hq
      exact .inr (.inr (.inl ⟨w, rfl, by simp [setSlot, spawn]⟩))
    · exact .inl (by simp [setSlot, spawn, hq])
  | stopSent w slot =>
    by_cases hq : p = (w, slot.generation)
    · subst hq
      exact .inr (.inr (.inr (.inr ⟨w, rfl, by simp [setPipe]⟩)))
    · exact .inl (by simp [setPipe, hq])

/-- An executor in its loop that has got a signal had it before with the same unread
assignment, gets it now, or is sent the assignment now. -/
theorem Step.signalled_origin (st : Step timeout s a t) {p : SlotPipe} {e' : Executor} {x : String}
    (he' : t.executors p = some e') (signalled : e'.shutdownRequested = true) (alive : ¬ e'.Gone)
    (hx : x ∈ (t.pipes p).unread) :
    (∃ e, s.executors p = some e ∧ ¬ e.Gone ∧ x ∈ (s.pipes p).unread ∧
        (e.shutdownRequested = true ∨ a = .executor p .signal)) ∨
      ∃ i c l, a = .call i .sendOk ∧ s.dispatch.calls i = some c ∧ c.phase = .send l ∧
        l.connection = p ∧ s.executors p = some e' := by
  cases st with
  | begin | call | exitReported | startReported =>
    exact .inl ⟨e', he', alive, hx, .inl signalled⟩
  | sent i c l hc _ hphase =>
    by_cases hq : p = l.connection
    · exact .inr ⟨i, c, l, rfl, hc, hphase, hq.symm, he'⟩
    · exact .inl ⟨e', he', alive, by simpa [setPipe, setCall, hq] using hx, .inl signalled⟩
  | received i c l m rest =>
    refine .inl ⟨e', he', alive, ?_, .inl signalled⟩
    by_cases hq : p = l.connection
    · subst hq
      simpa [setPipe, Pipe.unread] using hx
    · simpa [setPipe, setCall, hq] using hx
  | executor q b e d pipe he hstep =>
    by_cases hq : p = q
    · subst hq
      obtain rfl : d = e' := by simpa using he'
      have inLoop : ¬ e.Gone := fun gone => alive (gone.step hstep).1
      replace hx : x ∈ pipe.unread := by simpa [setPipe] using hx
      refine .inl ⟨e, he, inLoop, ?_, ?_⟩
      · cases hstep with
        | consume _ rest _ hpipe | stop rest _ hpipe | skip rest _ hpipe =>
          rw [Pipe.unread, hpipe, List.flatMap_cons]
          exact List.mem_append_right _ hx
        | _ => exact hx
      · cases hstep with
        | signal => exact .inr rfl
        | _ => exact .inl signalled
    · exact .inl ⟨e', by simpa [hq] using he', alive, by simpa [setPipe, hq] using hx,
        .inl signalled⟩
  | respawned w g =>
    by_cases hq : p = (w, g + 1)
    · subst hq
      simp [setSlot, spawn, Pipe.unread] at hx
    · refine .inl ⟨e', by simpa [setSlot, spawn, hq] using he', alive, ?_, .inl signalled⟩
      simpa [setSlot, spawn, hq] using hx
  | stopSent w slot =>
    refine .inl ⟨e', he', alive, ?_, .inl signalled⟩
    by_cases hq : p = (w, slot.generation)
    · subst hq
      simpa [setPipe, Pipe.unread, ExecutorMessage.executionIds] using hx
    · simpa [setPipe, hq] using hx

/-- The exit of a lost executor was not put, nor the start of a newer one. -/
theorem Lost.unreported {cfg : ProcessRuntimeConfig} {p : SlotPipe} (lost : s.Lost p)
    (h : (processRuntime cfg).Reachable s) : ¬ s.Superseded p.1 p.2 := by
  rintro (⟨code, hev⟩ | ⟨g, connection, hlt, hev⟩)
  · obtain ⟨slot, hslot, hor⟩ := (told h).exits _ _ _ hev
    obtain rfl : slot = ⟨p.2, .running⟩ := by simpa [lost.2] using hslot.symm
    simp at hor
  · obtain ⟨-, hspawned⟩ := (named h).started _ _ _ hev
    obtain ⟨-, slot, hslot, hle⟩ := (overseen h).spawned _ hspawned
    obtain rfl : slot = ⟨p.2, .running⟩ := by simpa [lost.2] using hslot.symm
    exact absurd hlt (Nat.not_lt.mpr hle)

end ProcessRuntime

namespace Supervised

/-- The supervisor is in its `finally` block. -/
def inFinally (s : Supervised) : Bool :=
  match s.point with
  | .draining _ | .terminating | .joining | .finished => true
  | _ => false

/-- What the steps of a run may not be, by their moment. -/
structure Timely (s : Supervised) (a : SupervisedAction) : Prop where
  /-- No signal comes inside the event `stop`. -/
  outside : a ≠ .signalInEvent
  /-- Until the `finally` block, no call releases a slot whose newer generation is leased. -/
  release : s.inFinally = false → ∀ i, a = .call i .lockRelease →
    ¬ s.runtime.dispatch.view.StaleRelease i
  /-- When `stop` is set, no call waits without an answer for an executor that has left its
  loop and was not reported, or that will find a signal before it reads the assignment. -/
  stops : a = .signalSupervisor → s.stop = false → ∀ i c l, s.Waiting i c l →
    (s.runtime.Lost l.connection → s.runtime.Answered l.connection c.executionId) ∧
      ∀ e, s.runtime.executors l.connection = some e → e.shutdownRequested = true → ¬ e.Gone →
        c.executionId ∉ (s.runtime.pipes l.connection).unread
  /-- From then on, no executor crashes with the assignment of a waiting call. -/
  crashes : s.stop = true → ∀ p, a = .executor p .crash → ∀ i c l, s.Waiting i c l →
    l.connection = p → ¬ s.runtime.Working p c.executionId
  /-- Nor does one that has not read such an assignment get a signal. -/
  signals : s.stop = true → ∀ p, a = .executor p .signal → ∀ i c l, s.Waiting i c l →
    l.connection = p → c.executionId ∉ (s.runtime.pipes p).unread
  /-- Nor is an assignment sent to an executor that is out of its loop or has got a signal. -/
  sends : s.stop = true → ∀ i c l, a = .call i .sendOk → s.runtime.dispatch.calls i = some c →
    c.phase = .send l → ∃ e, s.runtime.executors l.connection = some e ∧ ¬ e.Gone ∧
      e.shutdownRequested = false
  /-- Every call has sent its assignment when the `finally` block is entered, -/
  enters : s.stop = true → s.point = .loopTest → s.brokerAlive = true →
    ∀ exitCode, a = .supervisor exitCode → ∀ i c, s.runtime.dispatch.calls i = some c →
      c.phase.sent = true
  /-- and none begins there. -/
  begins : s.inFinally = true → ∀ i attempt executionId, a ≠ .begin i attempt executionId

variable {cfg : SupervisorConfig} {s t : Supervised} {a : SupervisedAction}
variable {i j : Nat} {c c' d : ExecuteCall SlotPipe} {l m : Lease SlotPipe} {p : SlotPipe}

/-! ## The `finally` block -/

/-- The supervisor does not leave its `finally` block, and enters it from the loop test or
because the broker is gone. -/
theorem inFinally_step (hst : s.step cfg a = some t) :
    (s.inFinally = true → t.inFinally = true) ∧ (t.inFinally = true → s.inFinally = true ∨
      t.runtime = s.runtime ∧ t.brokerAlive = s.brokerAlive ∧ t.stop = true ∧
        (s.brokerAlive = true → s.stop = true ∧ s.point = .loopTest ∧
          ∃ exitCode, a = .supervisor exitCode)) := by
  cases step_inv hst with
  | signalSupervisor | signalBroker | brokerExit | acts => exact ⟨id, .inl⟩
  | signalInEvent inside =>
    refine ⟨fun f => ?_, by simp [inFinally]⟩
    cases hp : s.point <;> simp [inEvent, inFinally, hp] at inside f
  | supervisor exitCode _ hsup =>
    cases hsup with
    | stopSeen hp hstop =>
      exact ⟨by simp [inFinally], fun _ => .inr ⟨rfl, rfl, hstop, fun _ => ⟨hstop, hp, _, rfl⟩⟩⟩
    | brokerGone hp dead =>
      refine ⟨by simp [inFinally], fun _ => .inr ⟨rfl, rfl, rfl, fun alive => ?_⟩⟩
      simp [dead] at alive
    | drained hp | stopSkipped w rest hp | stopSent w rest r hp | terminated hp | joined hp =>
      simp [inFinally, hp]
    | loopEntered hp | brokerFound hp | passed hp | exitReported _ _ _ _ hp
    | executorFound _ _ _ hp | closed _ _ _ hp | brokenOff _ _ hp | respawned _ _ _ _ hp
    | startReported _ _ _ hp | waited hp =>
      simp [inFinally, hp]

theorem stop_step (hst : s.step cfg a = some t) (hstop : t.stop = true) : s.stop = true ∨
    s.stop = false ∧ (a = .signalInEvent ∨ a = .signalSupervisor ∧ t.runtime = s.runtime ∨
      t.brokerAlive = false) := by
  cases hs : s.stop with
  | true => exact .inl rfl
  | false =>
    refine .inr ⟨rfl, ?_⟩
    cases step_inv hst with
    | signalInEvent => exact .inl rfl
    | signalSupervisor => exact .inr (.inl ⟨rfl, rfl⟩)
    | signalBroker | brokerExit | acts => simp [hs] at hstop
    | supervisor exitCode _ hsup =>
      cases hsup with
      | brokerGone _ dead => exact .inr (.inr dead)
      | _ => simp [hs] at hstop

theorem stop_kept (hst : s.step cfg a = some t) (hstop : s.stop = true) : t.stop = true := by
  cases step_inv hst with
  | supervisor exitCode _ hsup => cases hsup <;> first | exact hstop | rfl
  | signalSupervisor | signalInEvent => rfl
  | _ => exact hstop

theorem stop_of_inFinally (h : (supervised cfg).Reachable s) (f : s.inFinally = true) :
    s.stop = true := by
  refine h.invariant (P := fun s => s.inFinally = true → s.stop = true) ?_ ?_ f
  · rintro _ rfl f
    simp [start, inFinally] at f
  · intro s a t _ ih _ hst f
    obtain before | ⟨-, -, hstop, -⟩ := (inFinally_step hst).2 f
    · exact stop_kept hst (ih before)
    · exact hstop

theorem not_deadlocked (h : (supervised cfg).Guarded Timely s) : s.point ≠ .deadlocked := by
  refine h.invariant (P := fun s => s.point ≠ .deadlocked) ?_ ?_
  · rintro _ rfl
    simp [start]
  · intro s a t _ ih ok hst
    cases step_inv hst with
    | signalInEvent => exact absurd rfl ok.outside
    | supervisor exitCode _ hsup => cases hsup <;> simp
    | _ => exact ih

/-- A slot that the loop will not look at again: `stop` is set. -/
theorem stop_of_not_ahead (h : (supervised cfg).Guarded Timely s) {w : String}
    (hahead : s.ahead w = false) : s.stop = true := by
  have deadlocked := not_deadlocked h
  have inFinally := stop_of_inFinally h.reachable
  by_contra running
  rw [Bool.not_eq_true] at running
  cases hp : s.point <;> simp_all [ahead, Supervised.inFinally]

theorem alive_of_call {x : CallAction} (hst : s.step cfg (.call i x) = some t) :
    s.brokerAlive = true := by
  cases step_inv hst with
  | acts _ b r ha => cases ha; assumption

theorem executors_of_call {x : CallAction} (hst : s.step cfg (.call i x) = some t) :
    t.runtime.executors = s.runtime.executors := by
  cases step_inv hst with
  | acts _ b r ha hr =>
    cases ha
    cases ProcessRuntime.step_inv hr <;> rfl

/-- In the `finally` block every call has sent its assignment. -/
theorem calls_sent (h : (supervised cfg).Guarded Timely s) (f : s.inFinally = true)
    (alive : s.brokerAlive = true) (hc : s.runtime.dispatch.calls i = some c) :
    c.phase.sent = true := by
  refine h.invariant (P := fun s => s.inFinally = true → s.brokerAlive = true →
    ∀ i c, s.runtime.dispatch.calls i = some c → c.phase.sent = true) ?_ ?_ f alive i c hc
  · rintro _ rfl f
    simp [start, inFinally] at f
  · intro s a t _ ih ok hst f alive i c hc
    have before := brokerAlive_of_step hst alive
    obtain f | ⟨same, -, -, entered⟩ := (inFinally_step hst).2 f
    · obtain same | ⟨b, st, -, -, -, hbegin, -⟩ := runtime_step hst
      · exact ih f before i c (same ▸ hc)
      · generalize t.runtime = r at st hc
        cases st with
        | begin k attempt executionId =>
          exact absurd (hbegin k attempt executionId rfl) (ok.begins f k attempt executionId)
        | call k x d b' d' hd _ hstep =>
          obtain ⟨rfl, rfl⟩ | ⟨-, hc⟩ := ProcessRuntime.setCall_calls hc
          · exact hstep.sent (ih f before i d hd)
          · exact ih f before i c hc
        | sent k d l | received k d l m rest =>
          obtain ⟨rfl, rfl⟩ | ⟨-, hc⟩ := ProcessRuntime.setCall_calls hc
          · rfl
          · exact ih f before i c hc
        | _ => exact ih f before i c hc
    · obtain ⟨hstop, hp, exitCode, rfl⟩ := entered before
      exact ok.enters hstop hp before exitCode rfl i c (same ▸ hc)

/-- The sentinels are sent in the `finally` block, and no assignment comes behind one. -/
theorem sealed (h : (supervised cfg).Guarded Timely s) :
    (s.inFinally = false → ∀ p, .stopProcessExecutor ∉ (s.runtime.pipes p).toExecutor) ∧
      ∀ p, (s.runtime.pipes p).Sealed := by
  refine h.invariant (P := fun s => (s.inFinally = false →
    ∀ p, .stopProcessExecutor ∉ (s.runtime.pipes p).toExecutor) ∧
      ∀ p, (s.runtime.pipes p).Sealed) ?_ ?_
  · rintro _ rfl
    simp [start, ProcessRuntime.start, Pipe.Sealed]
  · intro s a t hs ih ok hst
    have outside : t.inFinally = false → s.inFinally = false := fun f =>
      Bool.eq_false_iff.mpr fun before => by simp [(inFinally_step hst).1 before] at f
    obtain same | ⟨b, st, -, -, hcall, -, hstop⟩ := runtime_step hst
    · rw [same]
      exact ⟨fun f => ih.1 (outside f), ih.2⟩
    have sends : ∀ {i c l}, b = .call i .sendOk → s.runtime.dispatch.calls i = some c →
        c.phase = .send l → s.inFinally = false := by
      rintro i c l rfl hc hphase
      obtain ⟨rfl, -⟩ := hcall i _ c rfl hc
      refine Bool.eq_false_iff.mpr fun f => ?_
      have := calls_sent hs f (alive_of_call hst) hc
      simp [hphase, Phase.sent] at this
    have stops : ∀ {w}, b = .sendStop w → t.inFinally = true := by
      intro w hb
      obtain ⟨rest, hp⟩ := hstop w hb
      exact (inFinally_step hst).1 (by simp [inFinally, hp])
    refine ⟨fun f p hmem => ?_, fun p => ?_⟩
    · have before := ih.1 (outside f) p
      rcases st.toExecutor p with same | ⟨x, hread, -⟩ | ⟨w, -, hnew⟩ |
        ⟨i, c, l, -, -, -, -, hsent⟩ | ⟨w, hb, -⟩
      · exact before (same ▸ hmem)
      · exact before (hread ▸ List.mem_cons_of_mem x hmem)
      · simp [hnew] at hmem
      · rw [hsent, List.mem_append] at hmem
        exact hmem.elim before (by simp)
      · simp [stops hb] at f
    · have before := ih.2 p
      unfold Pipe.Sealed at before ⊢
      rcases st.toExecutor p with same | ⟨x, hread, -⟩ | ⟨w, -, hnew⟩ |
        ⟨i, c, l, hb, hc, hphase, rfl, hsent⟩ | ⟨w, hb, hsent⟩
      · exact same ▸ before
      · exact (List.pairwise_cons.mp (hread ▸ before)).2
      · simp [hnew]
      · have clean := ih.1 (sends hb hc hphase) l.connection
        rw [hsent, List.pairwise_append]
        refine ⟨before, List.pairwise_singleton _ _, fun x hx y _ stop => ?_⟩
        exact absurd (stop ▸ hx) clean
      · rw [hsent, List.pairwise_append]
        refine ⟨before, List.pairwise_singleton _ _, fun x _ y hy _ a => ?_⟩
        simp [List.mem_singleton.mp hy]

/-! ## One waiting call on a pipe -/

theorem dispatch_step (hst : s.step cfg a = some t) :
    t.runtime.dispatch = s.runtime.dispatch ∨
      ∃ b, s.runtime.dispatch.step cfg.dispatch b = some t.runtime.dispatch ∧
        ∀ i, b = .call i .lockRelease → a = .call i .lockRelease := by
  cases step_inv hst with
  | signalSupervisor | signalInEvent | signalBroker | brokerExit => exact .inl rfl
  | acts _ b r ha hr =>
    refine (ProcessRuntime.step_dispatch hr).imp_right fun ⟨x, hx, release⟩ => ⟨x, hx, ?_⟩
    intro i hi
    cases release i hi
    cases ha
    rfl
  | supervisor exitCode _ hsup =>
    cases hsup with
    | exitReported w rest slot r _ _ _ hr | respawned w rest slot r _ _ _ hr
    | startReported w rest r _ hr | stopSent w rest r _ hr =>
      refine (ProcessRuntime.step_dispatch hr).imp_right fun ⟨x, hx, release⟩ => ⟨x, hx, ?_⟩
      exact fun i hi => RuntimeAction.noConfusion (release i hi)
    | _ => exact .inl rfl

theorem exclusive (h : (supervised cfg).Guarded Timely s) (f : s.inFinally = false) :
    s.runtime.dispatch.view.Exclusive := by
  refine h.invariant (P := fun s => s.inFinally = false → s.runtime.dispatch.view.Exclusive)
    ?_ ?_ f
  · rintro _ rfl -
    exact .init cfg.dispatch
  · intro s a t _ ih ok hst f
    have before : s.inFinally = false :=
      Bool.eq_false_iff.mpr fun before => by simp [(inFinally_step hst).1 before] at f
    obtain same | ⟨b, hb, release⟩ := dispatch_step hst
    · exact same ▸ ih before
    · refine (ih before).step (Dispatch.step_view hb) fun i held gone => ?_
      exact ok.release before i (release i (Dispatch.lease_dropped hb held gone))

theorem eq_of_exclusive (hs : (supervised cfg).Reachable s)
    (exclusive : s.runtime.dispatch.view.Exclusive) (hi : s.Waiting i c l) (hj : s.Waiting j d m)
    (same : l.connection = m.connection) : i = j := by
  by_contra hij
  have hl := (ProcessRuntime.lease_overseen (reachable_runtime hs) hi.2.1 hi.held).1
  have hm := (ProcessRuntime.lease_overseen (reachable_runtime hs) hj.2.1 hj.held).1
  rw [hl, hm, Prod.mk.injEq] at same
  refine exclusive.excl i j l m hij ?_ ?_ same.1 same.2
  · simp [Dispatch.view, hi.2.1, Phase.lease_of_waiting hi.2.2]
  · simp [Dispatch.view, hj.2.1, Phase.lease_of_waiting hj.2.2]

/-- Only one call waits on a pipe. In the `finally` block no call leases a slot any more. -/
theorem waiting_unique (h : (supervised cfg).Guarded Timely s) (hi : s.Waiting i c l)
    (hj : s.Waiting j d m) (same : l.connection = m.connection) : i = j := by
  refine h.invariant (P := fun s => ∀ i j c d l m, s.Waiting i c l → s.Waiting j d m →
    l.connection = m.connection → i = j) ?_ ?_ i j c d l m hi hj same
  · rintro _ rfl i j c d l m ⟨-, hc, -⟩
    simp [start, ProcessRuntime.start, Dispatch.start] at hc
  · intro s a t hs ih ok hst i j c d l m hi hj same
    have ht := Machine.Guarded.step a hs ok hst
    cases f : t.inFinally with
    | false => exact eq_of_exclusive ht.reachable (exclusive ht f) hi hj same
    | true =>
      cases before : s.inFinally with
      | false =>
        obtain inside | ⟨kept, alive, -⟩ := (inFinally_step hst).2 f
        · simp [before] at inside
        have hi' : s.Waiting i c l := ⟨alive ▸ hi.1, kept ▸ hi.2.1, hi.2.2⟩
        have hj' : s.Waiting j d m := ⟨alive ▸ hj.1, kept ▸ hj.2.1, hj.2.2⟩
        exact eq_of_exclusive hs.reachable (exclusive hs before) hi' hj' same
      | true =>
        have old : ∀ {k e n}, t.Waiting k e n → ∃ e', s.Waiting k e' n := by
          intro k e n hk
          obtain ⟨e', hk', -⟩ | ⟨e', rfl, he', hphase, -⟩ := hk.origin hst
          · exact ⟨e', hk'⟩
          · have := calls_sent hs before (alive_of_call hst) he'
            simp [hphase, Phase.sent] at this
        obtain ⟨c', hi'⟩ := old hi
        obtain ⟨d', hj'⟩ := old hj
        exact ih i j c' d' l m hi' hj' same

/-! ## Waiting calls once `stop` is set -/

/-- What a timely run keeps of its waiting calls. -/
structure Heeded (s : Supervised) : Prop where
  attended : ∀ i c l, s.Waiting i c l → s.Attended c l
  answered : s.stop = true → ∀ i c l, s.Waiting i c l → s.runtime.Lost l.connection →
    s.runtime.Answered l.connection c.executionId
  unread : s.stop = true → ∀ i c l e, s.Waiting i c l →
    s.runtime.executors l.connection = some e → e.shutdownRequested = true → ¬ e.Gone →
    c.executionId ∉ (s.runtime.pipes l.connection).unread

/-- Once `stop` is set, an executor does not leave its loop with the assignment of a call
that waits. -/
theorem Heeded.stays (k : s.Heeded) (h : (supervised cfg).Guarded Timely s) (ok : s.Timely a)
    (hstop : s.stop = true) {x : ExecutorAction} {e : Executor} (ha : a = .executor p x)
    (hst : s.step cfg a = some t) (he : s.runtime.executors p = some e)
    (leaves : e.Leaves (s.runtime.pipes p) x) (hw : s.Waiting i c l) (hp : l.connection = p) :
    c.executionId ∉ e.phase.inHand ++ (s.runtime.pipes p).unread := by
  subst ha hp
  have alive : ∀ {ph}, e.phase = ph → ph ≠ .left → ph ≠ .dead → ¬ e.Gone := by
    rintro ph rfl hleft hdead (gone | gone)
    · exact hleft gone
    · exact hdead gone
  obtain ⟨pipe, e', hstep⟩ :
      ∃ pipe e', ExecutorStep (s.runtime.pipes l.connection) e x pipe e' := by
    cases step_inv hst with
    | acts _ b r ha hr =>
      cases ha
      cases ProcessRuntime.step_inv hr with
      | executor _ _ d e' pipe hd hstep =>
        obtain rfl : e = d := by simpa [he] using hd
        exact ⟨pipe, e', hstep⟩
  cases hstep with
  | shutdown hphase signalled =>
    have unread := k.unread hstop i c l e hw he signalled (alive hphase (by simp) (by simp))
    simpa [hphase, ExecutorPhase.inHand] using unread
  | stop rest hphase hpipe =>
    have sealed := ((sealed h).2 l.connection).unread (by simp [hpipe])
    simp [hphase, ExecutorPhase.inHand, sealed]
  | crash =>
    intro working
    exact ok.crashes hstop _ rfl i c l hw rfl ⟨e, he, leaves, working⟩
  | enter _ running => simp [Executor.Leaves, running] at leaves
  | consume a rest _ hpipe | skip rest _ hpipe => simp [Executor.Leaves, hpipe] at leaves
  | _ => exact leaves.elim

/-- A timely step leaves no waiting call behind. -/
theorem Heeded.orderly (k : s.Heeded) (h : (supervised cfg).Guarded Timely s) (ok : s.Timely a)
    (hst : s.step cfg a = some t) : s.Orderly a := by
  refine ⟨?_, ?_, ?_, ?_⟩
  · intro p x e ha he leaves hahead i c l hw hp
    exact k.stays h ok (stop_of_not_ahead h hahead) ha hst he leaves hw hp
  · intro i c l ha hc hphase lost
    by_contra hahead
    rw [Bool.not_eq_true] at hahead
    obtain ⟨e, he, alive, -⟩ := ok.sends (stop_of_not_ahead h hahead) i c l ha hc hphase
    obtain ⟨e', he', gone⟩ := lost.1
    obtain rfl : e = e' := by simpa [he] using he'
    exact alive gone
  · intro i c l hw away lost
    cases hstop : s.stop with
    | true => exact k.answered hstop i c l hw lost
    | false =>
      cases a with
      | signalSupervisor => exact (ok.stops rfl hstop i c l hw).1 lost
      | signalInEvent => exact absurd rfl ok.outside
      | supervisor exitCode => simp [LooksAway, hstop] at away
      | _ => exact away.elim
  · rintro i c l m rest rfl hc hphase hpipe j d k' hij hw hconn same
    have alive : s.brokerAlive = true := by
      cases step_inv hst with
      | acts _ b r ha => cases ha; assumption
    have hi : s.Waiting i c l := ⟨alive, hc, by simp [hphase, Phase.waiting]⟩
    exact hij (waiting_unique h hw hi hconn)

/-- The event is set by a signal beside the loop, or was set before, as long as the broker
lives. -/
theorem Timely.stop_origin (ok : s.Timely a) (hst : s.step cfg a = some t) (hstop : t.stop = true)
    (alive : t.brokerAlive = true) :
    s.stop = true ∨ s.stop = false ∧ a = .signalSupervisor ∧ t.runtime = s.runtime := by
  obtain before | ⟨running, inside | signal | dead⟩ := stop_step hst hstop
  · exact .inl before
  · exact absurd inside ok.outside
  · exact .inr ⟨running, signal⟩
  · simp [alive] at dead

theorem Heeded.answered_step (k : s.Heeded) (h : (supervised cfg).Guarded Timely s)
    (ok : s.Timely a) (hst : s.step cfg a = some t) (hstop : t.stop = true)
    (hw' : t.Waiting i c' l) (lost : t.runtime.Lost l.connection) :
    t.runtime.Answered l.connection c'.executionId := by
  have ht : (supervised cfg).Reachable t := (Machine.Guarded.step a h ok hst).reachable
  have unreported := lost.unreported (reachable_runtime ht)
  obtain ⟨e', he', gone⟩ := lost.1
  obtain before | ⟨running, rfl, same⟩ := ok.stop_origin hst hstop hw'.1
  · obtain ⟨c, hw, same⟩ | ⟨c, rfl, hc, hphase, -⟩ := hw'.origin hst
    · have kept := answered_kept h.reachable hst (k.orderly h ok hst) hw hw' same
      have hname := (ProcessRuntime.lease_overseen (reachable_runtime h.reachable) hw.2.1 hw.held).1
      have reported : ¬ s.runtime.Superseded l.workerId l.generation := by
        intro superseded
        rw [hname] at unreported
        obtain same | ⟨b, st, -⟩ := runtime_step hst
        · exact unreported (same ▸ superseded)
        · exact unreported (st.superseded superseded)
      cases k.attended i c l hw with
      | answered answered => exact kept answered
      | superseded superseded => exact absurd superseded reported
      | ahead lost => exact kept (k.answered before i c l hw (hname ▸ lost))
      | endOfFile eof =>
        simp only [Supervised.endOfFile, Bool.and_eq_true] at eof
        exact absurd (.inl (hname ▸ endOfFile_reported h.reachable eof.2)) reported
      | working working =>
        have idle : ¬ t.runtime.Working l.connection c.executionId := by
          rintro ⟨e, he, alive, -⟩
          obtain rfl : e = e' := by simpa [he'] using he.symm
          exact alive gone
        obtain same' | ⟨b, st, hexecutor, -⟩ := runtime_step hst
        · exact absurd (same' ▸ working) idle
        have o := ProcessRuntime.overseen (reachable_runtime h.reachable)
        rcases working.step o st fun q x hb => (hexecutor q x hb).2.1 with working | answered |
          ⟨x, e, hb, he, leaves, hx, -⟩
        · exact absurd working idle
        · exact same ▸ answered
        · exact absurd hx (k.stays h ok before (hexecutor _ x hb).1 hst he leaves hw rfl)
    · obtain ⟨e, he, alive, -⟩ := ok.sends before i c l rfl hc hphase
      rw [executors_of_call hst] at he'
      obtain rfl : e = e' := by simpa [he'] using he.symm
      exact absurd gone alive
  · obtain ⟨c, hw, same'⟩ | ⟨-, ⟨⟩, -⟩ := hw'.origin hst
    rw [same] at lost ⊢
    exact same' ▸ (ok.stops rfl running i c l hw).1 lost

theorem Heeded.unread_step (k : s.Heeded) (ok : s.Timely a) (hst : s.step cfg a = some t)
    (hstop : t.stop = true) (hw' : t.Waiting i c' l) {e' : Executor}
    (he' : t.runtime.executors l.connection = some e') (signalled : e'.shutdownRequested = true)
    (alive : ¬ e'.Gone) : c'.executionId ∉ (t.runtime.pipes l.connection).unread := by
  intro hx
  obtain before | ⟨running, rfl, same⟩ := ok.stop_origin hst hstop hw'.1
  · -- an executor that an assignment is sent to has got no signal
    have unsent : ∀ {j d k}, a = .call j .sendOk → s.runtime.dispatch.calls j = some d →
        d.phase = .send k → k.connection = l.connection → False := by
      rintro j d k rfl hd hphase hconn
      obtain ⟨e, he, -, calm⟩ := ok.sends before j d k rfl hd hphase
      rw [executors_of_call hst, ← hconn, he] at he'
      simp [← Option.some.inj he', calm] at signalled
    obtain ⟨c, hw, same⟩ | ⟨c, ha, hc, hphase, -⟩ := hw'.origin hst
    · rw [← same] at hx
      obtain same | ⟨b, st, hexecutor, -, hcall, -⟩ := runtime_step hst
      · rw [same] at he' hx
        exact k.unread before i c l e' hw he' signalled alive hx
      · obtain ⟨e, he, inLoop, hx, flag | hb⟩ | ⟨j, d, m, hb, hd, hphase, hconn, -⟩ :=
          st.signalled_origin he' signalled alive hx
        · exact k.unread before i c l e hw he flag inLoop hx
        · exact ok.signals before _ (hexecutor _ _ hb).1 i c l hw rfl hx
        · exact unsent (hcall j _ d hb hd).1 hd hphase hconn
    · exact unsent ha hc hphase rfl
  · obtain ⟨c, hw, same'⟩ | ⟨-, ⟨⟩, -⟩ := hw'.origin hst
    rw [same] at he' hx
    exact (ok.stops rfl running i c l hw).2 e' he' signalled alive (same' ▸ hx)

theorem heeded (h : (supervised cfg).Guarded Timely s) : s.Heeded := by
  refine h.invariant (P := Heeded) ?_ ?_
  · rintro _ rfl
    have none : ∀ i c l, ¬ (Supervised.start cfg).Waiting i c l := by
      rintro i c l ⟨-, hc, -⟩
      simp [start, ProcessRuntime.start, Dispatch.start] at hc
    exact ⟨fun i c l hw => absurd hw (none i c l), fun _ i c l hw => absurd hw (none i c l),
      fun _ i c l e hw => absurd hw (none i c l)⟩
  · intro s a t hs k ok hst
    have orderly := k.orderly hs ok hst
    refine ⟨fun i c' l hw' => ?_, fun hstop i c' l hw' => k.answered_step hs ok hst hstop hw',
      fun hstop i c' l e' hw' => k.unread_step ok hst hstop hw'⟩
    obtain ⟨c, hw, same⟩ | ⟨c, rfl, hc, hphase, same, pipe⟩ := hw'.origin hst
    · exact (k.attended i c l hw).step hs.reachable hst orderly hw hw' same
    · exact .sent hs.reachable hst orderly hc hphase hw' same pipe

end Supervised

end Perago.ConductorRuntime
