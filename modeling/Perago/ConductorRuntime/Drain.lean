import Perago.ConductorRuntime.Reports

/-!
# Calls that wait for an executor that is gone

An `execute` call without a completion deadline waits for a completion, for a
report of the supervisor or for an end of file. It is attended while one of them
is to come. Shutdown breaks this: once `stop` is set the supervisor puts no more
reports, and executors leave their loops with assignments behind them.
-/

namespace Perago.ConductorRuntime

open Perago.Transition

/-- The steps by which an executor that is in its loop leaves it. -/
def Executor.Leaves (e : Executor) (p : Pipe) : ExecutorAction → Prop
  | .test => e.shutdownRequested = true
  | .recv => p.toExecutor.head? = some .stopProcessExecutor
  | .crash => ¬ e.Gone
  | _ => False

namespace ProcessRuntime

variable {s : ProcessRuntime} {p : SlotPipe} {x : String}

/-- The executor is in its loop, with the assignment unread or in progress. -/
def Working (s : ProcessRuntime) (p : SlotPipe) (x : String) : Prop :=
  ∃ e, s.executors p = some e ∧ ¬ e.Gone ∧ x ∈ e.phase.inHand ++ (s.pipes p).unread

/-- The completion is on the pipe. -/
def Answered (s : ProcessRuntime) (p : SlotPipe) (x : String) : Prop :=
  ∃ m, .completion m ∈ (s.pipes p).toBroker ∧ m.executionId = x

/-- An exit of this generation or the start of a newer one was put on the event queue. -/
def Superseded (s : ProcessRuntime) (w : String) (g : Nat) : Prop :=
  s.ReportedExit (w, g) ∨ ∃ g' connection, g < g' ∧ .started w g' connection ∈ s.dispatch.emitted

/-- The executor has left its loop, and the supervisor has not reported its exit. -/
def Lost (s : ProcessRuntime) (p : SlotPipe) : Prop :=
  s.Gone p ∧ s.slots p.1 = some ⟨p.2, .running⟩

/-! ## What a step of the runtime keeps -/

variable {t : ProcessRuntime} {timeout : Option Nat} {a : RuntimeAction}

theorem Working.executor {e e' : Executor} {pipe : Pipe} {b : ExecutorAction}
    (alive : ¬ e.Gone) (hx : x ∈ e.phase.inHand ++ (s.pipes p).unread)
    (st : ExecutorStep (s.pipes p) e b pipe e') (calm : b ≠ .broken ∧ b ≠ .sendBroken) :
    (¬ e'.Gone ∧ x ∈ e'.phase.inHand ++ pipe.unread) ∨
      (∃ m, .completion m ∈ pipe.toBroker ∧ m.executionId = x) ∨
      e.Leaves (s.pipes p) b ∧ e'.Gone := by
  unfold Executor.Gone at alive ⊢
  cases st with
  | signal => exact .inl ⟨alive, hx⟩
  | shutdown hp seen => exact .inr (.inr ⟨seen, .inl rfl⟩)
  | enter hp | finish b r hp => exact .inl (by simp_all [ExecutorPhase.inHand])
  | poll ready hp => cases ready <;> exact .inl (by simp_all [ExecutorPhase.inHand])
  | broken => exact absurd rfl calm.1
  | sendBroken => exact absurd rfl calm.2
  | consume b rest hp hpipe =>
    left
    simp_all [ExecutorPhase.inHand, Pipe.unread, ExecutorMessage.executionIds]
  | stop rest hp hpipe => exact .inr (.inr ⟨by simp [Executor.Leaves, hpipe], .inl rfl⟩)
  | skip rest hp hpipe =>
    left
    simp_all [ExecutorPhase.inHand, Pipe.unread, ExecutorMessage.executionIds]
  | sendOk b r hp =>
    simp only [hp, ExecutorPhase.inHand, List.cons_append, List.nil_append, List.mem_cons] at hx
    obtain rfl | hx := hx
    · exact .inr (.inl ⟨_, List.mem_append_right _ (List.mem_singleton_self _), rfl⟩)
    · exact .inl ⟨by simp, by simpa [ExecutorPhase.inHand, Pipe.unread] using hx⟩
  | exit hp => exact absurd (.inl hp) alive
  | crash => exact .inr (.inr ⟨alive, .inr rfl⟩)

theorem Working.step (h : s.Working p x) (o : s.Overseen) (st : Step timeout s a t)
    (calm : ∀ q b, a = .executor q b → b ≠ .broken ∧ b ≠ .sendBroken) :
    t.Working p x ∨ t.Answered p x ∨ ∃ b e, a = .executor p b ∧ s.executors p = some e ∧
      e.Leaves (s.pipes p) b ∧ x ∈ e.phase.inHand ++ (s.pipes p).unread ∧ t.Gone p := by
  obtain ⟨e, he, alive, hx⟩ := h
  have hp : (s.executors p).isSome := by simp [he]
  -- a step that leaves the executor and what it has not read
  have same : t.executors p = some e → (s.pipes p).unread.Sublist (t.pipes p).unread →
      t.Working p x := by
    intro he' hsub
    refine ⟨e, he', alive, ?_⟩
    exact (List.Sublist.append_left hsub _).subset hx
  cases st with
  | executor q b d e' pipe hd hstep =>
    by_cases hq : p = q
    · subst hq
      obtain rfl : e = d := by simpa [he] using hd
      rcases Working.executor alive hx hstep (calm p b rfl) with ⟨alive', hx'⟩ | ⟨m, hm, hid⟩ |
        ⟨leaves, gone⟩
      · exact .inl ⟨e', by simp, alive', by simpa [setPipe] using hx'⟩
      · exact .inr (.inl ⟨m, by simpa [setPipe] using hm, hid⟩)
      · exact .inr (.inr ⟨b, e, rfl, he, leaves, hx, e', by simp, gone⟩)
    · exact .inl (same (by simpa [hq] using he) (by simp [setPipe, hq]))
  | sent i c l =>
    by_cases hq : p = l.connection
    · subst hq
      exact .inl (same he (by simp [setPipe, setCall, Pipe.unread]))
    · exact .inl (same he (by simp [setPipe, setCall, hq]))
  | received i c l m rest =>
    by_cases hq : p = l.connection
    · subst hq
      exact .inl (same he (by simp [setPipe, Pipe.unread]))
    · exact .inl (same he (by simp [setPipe, setCall, hq]))
  | respawned w g hslot =>
    have hq := o.not_spawned hp hslot
    exact .inl (same (by simpa [setSlot, spawn, hq] using he) (by simp [setSlot, spawn, hq]))
  | stopSent w slot =>
    by_cases hq : p = (w, slot.generation)
    · subst hq
      exact .inl (same he (by simp [setPipe, Pipe.unread]))
    · exact .inl (same he (by simp [setPipe, hq]))
  | begin | call | exitReported | startReported =>
    exact .inl (same he (List.Sublist.refl _))

theorem Answered.step (h : s.Answered p x) (o : s.Overseen) (hp : (s.executors p).isSome)
    (st : Step timeout s a t) : t.Answered p x ∨ ∃ i c l m rest, a = .receive i ∧
      s.dispatch.calls i = some c ∧ c.phase = .waitRecv l ∧
      (s.pipes l.connection).toBroker = .completion m :: rest ∧ l.connection = p ∧
      m.executionId = x ∧ ∀ c', t.dispatch.calls i = some c' → c'.phase.waiting = none := by
  obtain ⟨m, hm, hid⟩ := h
  have same : .completion m ∈ (t.pipes p).toBroker → t.Answered p x := fun hm => ⟨m, hm, hid⟩
  cases st with
  | executor q b e e' pipe he hstep =>
    by_cases hq : p = q
    · subst hq
      refine .inl (same ?_)
      simp only [setPipe, Function.update_self]
      cases hstep with
      | sendOk => exact List.mem_append_left _ hm
      | _ => exact hm
    · exact .inl (same (by simpa [setPipe, hq] using hm))
  | sent i c l =>
    by_cases hq : p = l.connection
    · subst hq
      exact .inl (same (by simpa [setPipe] using hm))
    · exact .inl (same (by simpa [setPipe, setCall, hq] using hm))
  | received i c l y rest hc idle hphase hpipe =>
    by_cases hq : p = l.connection
    · subst hq
      rw [hpipe] at hm
      obtain rfl | hm := List.mem_cons.mp hm
      · refine .inr ⟨i, c, l, m, rest, rfl, hc, hphase, hpipe, rfl, hid, fun c' hc' => ?_⟩
        obtain ⟨-, rfl⟩ | ⟨hne, -⟩ := setCall_calls hc'
        · rfl
        · exact absurd rfl hne
      · exact .inl (same (by simpa [setPipe] using hm))
    · exact .inl (same (by simpa [setPipe, setCall, hq] using hm))
  | respawned w g hslot =>
    have hq := o.not_spawned hp hslot
    exact .inl (same (by simpa [setSlot, spawn, hq] using hm))
  | stopSent w slot =>
    by_cases hq : p = (w, slot.generation)
    · subst hq
      exact .inl (same (by simpa [setPipe] using hm))
    · exact .inl (same (by simpa [setPipe, hq] using hm))
  | begin | call | exitReported | startReported => exact .inl (same hm)

theorem Step.superseded (st : Step timeout s a t) {w : String} {g : Nat}
    (h : s.Superseded w g) : t.Superseded w g := by
  obtain ⟨code, hev⟩ | ⟨g', connection, hlt, hev⟩ := h
  · exact .inl ⟨code, st.emitted hev⟩
  · exact .inr ⟨g', connection, hlt, st.emitted hev⟩

theorem Step.gone_of_overseen (st : Step timeout s a t) (o : s.Overseen) (h : s.Gone p) :
    t.Gone p := by
  obtain ⟨e, he, gone⟩ := h
  cases st with
  | executor q b d e' pipe hd hstep =>
    by_cases hq : p = q
    · subst hq
      obtain rfl : e = d := by simpa [he] using hd
      exact ⟨e', by simp, (gone.step hstep).1⟩
    · exact ⟨e, by simpa [hq] using he, gone⟩
  | respawned w g hslot =>
    have hq := o.not_spawned (p := p) (by simp [he]) hslot
    exact ⟨e, by simpa [setSlot, spawn, hq] using he, gone⟩
  | _ => exact ⟨e, he, gone⟩

/-- A lost executor stays lost until its exit is put. -/
theorem Lost.step (h : s.Lost p) (o : s.Overseen) (st : Step timeout s a t) :
    t.Lost p ∨ t.ReportedExit p := by
  obtain ⟨gone, hslot⟩ := h
  have gone' := st.gone_of_overseen o gone
  have kept : ∀ {v x} {y : SupervisedSlot}, s.slots v = some y → y.phase ≠ .running →
      Function.update s.slots v (some x) p.1 = some ⟨p.2, .running⟩ := by
    intro v x y hv hy
    by_cases hw : p.1 = v
    · subst hw
      obtain rfl : y = ⟨p.2, .running⟩ := by simpa [hslot] using hv.symm
      exact absurd rfl hy
    · simpa [hw] using hslot
  cases st with
  | exitReported w g code hw =>
    by_cases hq : p.1 = w
    · subst hq
      obtain rfl : p.2 = g := by simpa [hslot] using hw
      exact .inr ⟨code, by simp [setSlot, emit]⟩
    · exact .inl ⟨gone', by simpa [setSlot, emit, hq] using hslot⟩
  | respawned w g hw => exact .inl ⟨gone', kept hw (by simp)⟩
  | startReported w g hw => exact .inl ⟨gone', kept hw (by simp)⟩
  | _ => exact .inl ⟨gone', hslot⟩

end ProcessRuntime

namespace Supervised

/-- A call that is in `_wait_for_completion` on a lease. -/
def Waiting (s : Supervised) (i : Nat) (c : ExecuteCall SlotPipe) (l : Lease SlotPipe) : Prop :=
  s.brokerAlive = true ∧ s.runtime.dispatch.calls i = some c ∧ c.phase.waiting = some l

/-- What a waiting call can be waiting for. -/
inductive Attended (s : Supervised) (c : ExecuteCall SlotPipe) (l : Lease SlotPipe) : Prop where
  | working : s.runtime.Working l.connection c.executionId → Attended s c l
  | answered : s.runtime.Answered l.connection c.executionId → Attended s c l
  | superseded : s.runtime.Superseded l.workerId l.generation → Attended s c l
  /-- The supervisor is still going to put the exit. -/
  | ahead : s.runtime.Lost (l.workerId, l.generation) → s.ahead l.workerId = true → Attended s c l
  | endOfFile : s.endOfFile l.connection = true → Attended s c l

/-- The steps that leave no waiting call behind: an executor leaves its loop with the
assignment of a waiting call only while its slot is ahead of the supervisor; no
assignment is sent to an executor that was lost out of its sight; the supervisor looks
away only from slots with no unanswered call on a lost executor; and no call reads the
completion of another that waits. -/
structure Orderly (s : Supervised) (a : SupervisedAction) : Prop where
  leaves : ∀ p x e, a = .executor p x → s.runtime.executors p = some e →
    e.Leaves (s.runtime.pipes p) x → s.ahead p.1 = false →
    ∀ i c l, s.Waiting i c l → l.connection = p →
      c.executionId ∉ e.phase.inHand ++ (s.runtime.pipes p).unread
  sends : ∀ i c l, a = .call i .sendOk → s.runtime.dispatch.calls i = some c →
    c.phase = .send l → s.runtime.Lost l.connection → s.ahead l.workerId = true
  looks : ∀ i c l, s.Waiting i c l → s.LooksAway l.workerId a → s.runtime.Lost l.connection →
    s.runtime.Answered l.connection c.executionId
  reads : ∀ i c l m rest, a = .receive i → s.runtime.dispatch.calls i = some c →
    c.phase = .waitRecv l → (s.runtime.pipes l.connection).toBroker = .completion m :: rest →
    ∀ j d k, j ≠ i → s.Waiting j d k → k.connection = l.connection →
      d.executionId ≠ m.executionId

variable {cfg : SupervisorConfig} {s t : Supervised} {a : SupervisedAction}
variable {i : Nat} {c c' : ExecuteCall SlotPipe} {l : Lease SlotPipe}

/-! ## What a step keeps -/

/-- A slot ahead of the supervisor stays ahead, until the supervisor looks away from
it, finds the broker gone or reports it. -/
theorem ahead_step (hst : s.step cfg a = some t) {w : String} (h : s.ahead w = true) :
    t.ahead w = true ∨ s.LooksAway w a ∨ t.brokerAlive = false ∨
      ∃ g, t.runtime.slots w = some ⟨g, .exitReported⟩ := by
  cases step_inv hst with
  | acts | signalBroker | brokerExit => exact .inl h
  | signalInEvent => exact .inr (.inl trivial)
  | signalSupervisor =>
    cases hp : s.point with
    | pass rest | starting v rest =>
      by_cases hw : w ∈ rest
      · exact .inl (by simp [ahead, hw])
      · exact .inr (.inl (by simp [LooksAway, hp, hw]))
    | _ => exact .inr (.inl (by simp [LooksAway, hp]))
  | supervisor exitCode _ hsup =>
    cases hsup with
    | brokerGone hp dead => exact .inr (.inr (.inl dead))
    | stopSeen hp hstop => simp [ahead, hp, hstop] at h
    | brokenOff v rest hp hstop => simp [ahead, hp, hstop] at h
    | loopEntered hp hstop => exact .inl (by simp [ahead, hstop])
    | brokerFound hp => exact .inl (by simp_all [ahead])
    | passed hp => exact .inl (by simpa [ahead, hp] using h)
    | closed v rest slot hp => exact .inl (by simpa [ahead, hp] using h)
    | respawned v rest slot r hp hstop => exact .inl (by simp [ahead, hstop])
    | startReported v rest r hp => exact .inl (by simpa [ahead, hp] using h)
    | waited hp => exact .inl (by simpa [ahead, hp] using h)
    | drained hp | stopSkipped v rest hp | stopSent v rest r hp | terminated hp | joined hp =>
      simp [ahead, hp] at h
    | exitReported v rest slot r hp hslot hexit hr =>
      by_cases hw : w = v
      · subst hw
        cases ProcessRuntime.step_inv hr with
        | exitReported _ g => exact .inr (.inr (.inr ⟨g, by simp [ProcessRuntime.setSlot]⟩))
      · cases hstop : s.stop with
        | false => exact .inl (by simp [ahead])
        | true => exact .inr (.inl ⟨hstop, v, rest, slot, hp, hslot, by simp [hw, hexit]⟩)
    | executorFound v rest slot hp hslot hexit =>
      cases hstop : s.stop with
      | false => exact .inl (by simp [ahead])
      | true =>
        simp only [ahead, hp, hstop, Bool.not_true, Bool.false_or, decide_eq_true_eq,
          List.mem_cons] at h
        obtain hw | hw := h
        · exact .inr (.inl ⟨hstop, v, rest, slot, hp, hslot, by simp [hw, hexit]⟩)
        · exact .inl (by simp [ahead, hw])

theorem Waiting.held (h : s.Waiting i c l) : c.phase.held = some l :=
  Phase.held_of_lease (Phase.lease_of_waiting h.2.2)

theorem brokerAlive_of_step (hst : s.step cfg a = some t) (alive : t.brokerAlive = true) :
    s.brokerAlive = true := by
  cases step_inv hst with
  | supervisor _ _ hsup =>
    cases hsup with
    | _ => exact alive
  | brokerExit => cases alive
  | _ => exact alive

/-- A waiting call was waiting before the step, or the step is its send. -/
theorem Waiting.origin (hst : s.step cfg a = some t) (h : t.Waiting i c' l) :
    (∃ c, s.Waiting i c l ∧ c.executionId = c'.executionId) ∨
      ∃ c, a = .call i .sendOk ∧ s.runtime.dispatch.calls i = some c ∧ c.phase = .send l ∧
        c.executionId = c'.executionId ∧
        .assignment c.assignment ∈ (t.runtime.pipes l.connection).toExecutor := by
  obtain ⟨alive, hc', hw⟩ := h
  have kept := brokerAlive_of_step hst alive
  have old : t.runtime.dispatch.calls i = s.runtime.dispatch.calls i →
      ∃ c, s.Waiting i c l ∧ c.executionId = c'.executionId :=
    fun same => ⟨c', ⟨kept, same ▸ hc', hw⟩, rfl⟩
  cases step_inv hst with
  | signalSupervisor | signalInEvent | signalBroker | brokerExit => exact .inl (old rfl)
  | supervisor _ _ hsup =>
    refine .inl (old ?_)
    cases hsup with
    | exitReported w rest slot r _ _ _ hr | respawned w rest slot r _ _ _ hr
    | startReported w rest r _ hr | stopSent w rest r _ hr =>
      cases ProcessRuntime.step_inv hr
      rfl
    | _ => rfl
  | acts _ b r ha hr =>
    cases ProcessRuntime.step_inv hr with
    | begin j attempt executionId hnone =>
      by_cases hij : i = j
      · subst hij
        simp only [Function.update_self, Option.some.injEq] at hc'
        subst hc'
        cases hw
      · exact .inl (old (by simp [hij]))
    | call j x d b' d' hd hsend hcall hrecv =>
      obtain ⟨rfl, rfl⟩ | ⟨hij, -⟩ := ProcessRuntime.setCall_calls hc'
      · have same := congrArg ProcessTaskAssignment.executionId hcall.assignment
        refine .inl ⟨d, ⟨kept, hd, ?_⟩, same.symm⟩
        cases hcall with
        | handleEvent | popEvent => exact hw
        | drained q _ hq => exact (Phase.drained_waiting hq).1 ▸ hw
        | poll ready m _ hphase => cases ready <;> simp_all [Phase.waiting]
        | sendOk => exact absurd rfl hsend
        | _ => simp_all [Phase.waiting]
      · exact .inl (old (by simp [ProcessRuntime.setCall, Dispatch.withCall, hij]))
    | sent j d m hd idle hphase =>
      obtain ⟨rfl, rfl⟩ | ⟨hij, -⟩ := ProcessRuntime.setCall_calls hc'
      · obtain rfl : m = l := by simpa [Phase.waiting] using hw
        cases ha
        exact .inr ⟨d, rfl, hd, hphase, rfl, by simp [ProcessRuntime.setPipe]⟩
      · refine .inl (old ?_)
        simp [ProcessRuntime.setPipe, ProcessRuntime.setCall, Dispatch.withCall, hij]
    | received j d m y rest hd idle hphase =>
      obtain ⟨rfl, rfl⟩ | ⟨hij, -⟩ := ProcessRuntime.setCall_calls hc'
      · cases hw
      · refine .inl (old ?_)
        simp [ProcessRuntime.setPipe, ProcessRuntime.setCall, Dispatch.withCall, hij]
    | _ => exact .inl (old rfl)

/-- The step of the runtime behind a step, and whose it is. -/
theorem runtime_step (hst : s.step cfg a = some t) : t.runtime = s.runtime ∨
    ∃ b, ProcessRuntime.Step cfg.completionTimeoutSeconds s.runtime b t.runtime ∧
      (∀ q x, b = .executor q x → a = .executor q x ∧ (x ≠ .broken ∧ x ≠ .sendBroken) ∧
        ∀ w, t.ahead w = s.ahead w) ∧
      (∀ j, b = .receive j → a = .receive j) ∧
      (∀ j x d, b = .call j x → s.runtime.dispatch.calls j = some d →
        a = .call j x ∧ s.pipeAllows d x = true) ∧
      (∀ j attempt x, b = .begin j attempt x → a = .begin j attempt x) ∧
      ∀ w, b = .sendStop w → ∃ rest, s.point = .draining (w :: rest) := by
  cases step_inv hst with
  | signalSupervisor | signalInEvent | signalBroker | brokerExit => exact .inl rfl
  | acts _ b r ha hr =>
    refine .inr ⟨b, ProcessRuntime.step_inv hr, ?_, ?_, ?_, ?_, ?_⟩
    · rintro q x rfl
      cases ha with
      | executor _ _ hbroken hsend => exact ⟨rfl, ⟨hbroken, hsend⟩, fun _ => rfl⟩
    · rintro j rfl
      cases ha
      rfl
    · rintro j x d rfl hd
      cases ha with
      | call _ _ c _ hc allowed =>
        obtain rfl : d = c := by simpa [hd] using hc
        exact ⟨rfl, allowed⟩
    · rintro j attempt x rfl
      cases ha
      rfl
    · rintro w rfl
      cases ha
  | supervisor exitCode _ hsup =>
    cases hsup with
    | exitReported w rest slot r _ _ _ hr | respawned w rest slot r _ _ _ hr
    | startReported w rest r _ hr =>
      exact .inr ⟨_, ProcessRuntime.step_inv hr, by simp, by simp, by simp, by simp, by simp⟩
    | stopSent w rest r hp hr =>
      exact .inr ⟨_, ProcessRuntime.step_inv hr, by simp, by simp, by simp, by simp, by simp [hp]⟩
    | _ => exact .inl rfl

/-- A call whose executor has left its loop under the eyes of the supervisor is attended. -/
theorem Attended.lost (hs : (supervised cfg).Reachable s) (hw : s.Waiting i c l)
    (gone : s.runtime.Gone l.connection) (hahead : s.ahead l.workerId = true) :
    s.Attended c l := by
  obtain ⟨hname, -, reported | running⟩ :=
    ProcessRuntime.lease_overseen (reachable_runtime hs) hw.2.1 hw.held
  · exact .superseded (.inl (hname ▸ reported))
  · exact .ahead ⟨hname ▸ gone, running⟩ hahead

/-- The call that an orderly step sends for is attended. -/
theorem Attended.sent (hs : (supervised cfg).Reachable s)
    (hst : s.step cfg (.call i .sendOk) = some t) (ok : s.Orderly (.call i .sendOk))
    (hc : s.runtime.dispatch.calls i = some c) (hphase : c.phase = .send l)
    (hw : t.Waiting i c' l) (same : c.executionId = c'.executionId)
    (pipe : .assignment c.assignment ∈ (t.runtime.pipes l.connection).toExecutor) :
    t.Attended c' l := by
  have ht : (supervised cfg).Reachable t := .step (.call i .sendOk) hs trivial hst
  have held : c.phase.held = some l := by simp [hphase, Phase.held]
  obtain ⟨hname, hexec, oversight⟩ :=
    ProcessRuntime.lease_overseen (reachable_runtime hs) hc held
  obtain ⟨e, he⟩ := Option.isSome_iff_exists.mp hexec
  obtain ⟨r, rfl, hr⟩ : ∃ r, t = { s with runtime := r } ∧
      s.runtime.step cfg.toProcessRuntimeConfig (.call i .sendOk) = some r := by
    cases step_inv hst with
    | acts _ b r ha hr =>
      cases ha
      exact ⟨r, rfl, hr⟩
  have he' : r.executors l.connection = some e := by
    cases ProcessRuntime.step_inv hr with
    | call _ _ _ _ _ _ hsend => exact absurd rfl hsend
    | sent => exact he
  by_cases gone : e.Gone
  · have lost : s.runtime.Lost l.connection ∨ s.runtime.ReportedExit l.connection := by
      obtain reported | running := oversight
      · exact .inr reported
      · exact .inl ⟨⟨e, he, gone⟩, by rw [hname]; exact running⟩
    obtain lost | reported := lost
    · exact .lost ht hw ⟨e, he', gone⟩ (ok.sends i c l rfl hc hphase lost)
    · refine .superseded ((ProcessRuntime.step_inv hr).superseded (.inl ?_))
      exact hname ▸ reported
  · refine .working ⟨e, he', gone, List.mem_append_right _ ?_⟩
    refine List.mem_flatMap.mpr ⟨_, pipe, ?_⟩
    simp [ExecutorMessage.executionIds, ExecuteCall.assignment, same]

/-- A completion on the pipe waits for its call. -/
theorem answered_kept (hs : (supervised cfg).Reachable s) (hst : s.step cfg a = some t)
    (ok : s.Orderly a) (hw : s.Waiting i c l) (hw' : t.Waiting i c' l)
    (same : c.executionId = c'.executionId)
    (h : s.runtime.Answered l.connection c.executionId) :
    t.runtime.Answered l.connection c'.executionId := by
  have o := ProcessRuntime.overseen (reachable_runtime hs)
  have hexec := (ProcessRuntime.lease_overseen (reachable_runtime hs) hw.2.1 hw.held).2.1
  obtain hsame | ⟨b, st, -, hreceive, -⟩ := runtime_step hst
  · exact hsame ▸ same ▸ h
  · obtain h | ⟨j, d, k, m, rest, rfl, hd, hphase, hpipe, hconn, hid, hend⟩ := h.step o hexec st
    · exact same ▸ h
    · obtain rfl := hreceive j rfl
      by_cases hij : i = j
      · subst hij
        have := hend c' hw'.2.1
        simp [hw'.2.2] at this
      · exact absurd hid.symm (ok.reads j d k m rest rfl hd hphase hpipe i c l hij hw hconn.symm)

theorem Attended.step (hs : (supervised cfg).Reachable s) (hst : s.step cfg a = some t)
    (ok : s.Orderly a) (hw : s.Waiting i c l) (hw' : t.Waiting i c' l)
    (same : c.executionId = c'.executionId) (h : s.Attended c l) : t.Attended c' l := by
  have ht : (supervised cfg).Reachable t := .step a hs trivial hst
  have o := ProcessRuntime.overseen (reachable_runtime hs)
  have superseded : s.runtime.Superseded l.workerId l.generation → t.Attended c' l := by
    intro hsup
    obtain hsame | ⟨b, st, -⟩ := runtime_step hst
    · exact .superseded (hsame ▸ hsup)
    · exact .superseded (st.superseded hsup)
  have hname := (ProcessRuntime.lease_overseen (reachable_runtime hs) hw.2.1 hw.held).1
  cases h with
  | superseded hsup => exact superseded hsup
  | answered hanswer => exact .answered (answered_kept hs hst ok hw hw' same hanswer)
  | endOfFile heof =>
    simp only [Supervised.endOfFile, Bool.and_eq_true] at heof
    exact superseded (.inl (hname ▸ endOfFile_reported hs heof.2))
  | working hwork =>
    obtain hsame | ⟨b, st, hexecutor, -⟩ := runtime_step hst
    · exact .working (hsame ▸ same ▸ hwork)
    rcases hwork.step o st fun q x hb => (hexecutor q x hb).2.1 with hwork | hanswer |
      ⟨x, e, hb, he, leaves, hx, gone⟩
    · exact .working (same ▸ hwork)
    · exact .answered (same ▸ hanswer)
    · obtain ⟨rfl, -, hahead⟩ := hexecutor _ x hb
      refine .lost ht hw' gone ?_
      rw [hahead]
      by_contra hnot
      refine ok.leaves _ x e rfl he leaves ?_ i c l hw rfl hx
      rw [hname]
      exact Bool.eq_false_of_not_eq_true hnot
  | ahead lost hahead =>
    have later : t.runtime.Lost (l.workerId, l.generation) ∨
        t.runtime.ReportedExit (l.workerId, l.generation) := by
      obtain hsame | ⟨b, st, -⟩ := runtime_step hst
      · exact .inl (hsame ▸ lost)
      · exact lost.step o st
    obtain lost' | reported := later
    · obtain hahead' | away | dead | ⟨g, hslot⟩ := ahead_step hst hahead
      · exact .ahead lost' hahead'
      · have answered := ok.looks i c l hw away (hname ▸ lost)
        exact .answered (answered_kept hs hst ok hw hw' same answered)
      · simp [hw'.1] at dead
      · have := hslot.symm.trans lost'.2
        simp at this
    · exact .superseded (.inl reported)

/-! ## One worker slot -/

def oneSupervisor : SupervisorConfig where
  toProcessRuntimeConfig := ProcessRuntime.oneWorker
  beginsAfterStop := false

def onlyLease : Lease SlotPipe := ⟨"w", 1, ("w", 1)⟩

/-- Call 0 leases the slot. -/
def leasingSchedule : List SupervisedAction :=
  .begin 0 someAttempt "e0" :: [.drained, .getSlot, .lockLease].map (.call 0)

end Supervised

end Perago.ConductorRuntime
