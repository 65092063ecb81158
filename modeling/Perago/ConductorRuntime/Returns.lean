import Perago.ConductorRuntime.Shutdown

/-!
# Waiting calls return

In a timely run a call that waits can always still return, if nothing else goes wrong:
its executor answers or exits, the supervisor reports the exit and closes its end of the
pipe, and the call finds a message or an end of file. So the broker can always drain.
-/

namespace Perago.ConductorRuntime

open Perago.Transition

/-! ## One executor -/

/-- Steps of the loop that are no fault and no signal. -/
def ExecutorAction.Proper : ExecutorAction → Prop
  | .signal | .broken | .sendBroken | .crash => False
  | _ => True

def ExecutorPhase.rank : ExecutorPhase → Nat
  | .dead => 0
  | .left => 1
  | .receiving => 2
  | .polling => 3
  | .testing => 4
  | .sending _ _ => 5
  | .executing _ => 6

/-- Bounds the steps of an executor until it has exited or waits for a message. -/
def Executor.rank (e : Executor) (p : Pipe) : Nat := 6 * p.toExecutor.length + e.phase.rank

theorem ExecutorStep.executorStep {p p' : Pipe} {e e' : Executor} {a : ExecutorAction}
    (h : ExecutorStep p e a p' e') : executorStep p e a = some (p', e') := by
  unfold Perago.ConductorRuntime.executorStep
  cases h with
  | broken hp => rcases hp with hp | hp <;> simp [hp]
  | _ => simp_all

/-- An executor that need not wait for a message comes nearer to its exit. -/
theorem Executor.progress {e : Executor} {p : Pipe} (alive : e.phase ≠ .dead)
    (told : e.phase = .receiving → p.toExecutor ≠ []) :
    ∃ a p' e', a.Proper ∧ ExecutorStep p e a p' e' ∧ e'.rank p' < e.rank p := by
  unfold Executor.rank
  cases hp : e.phase with
  | dead => exact absurd hp alive
  | left => exact ⟨.exit, _, _, trivial, .exit hp, by simp [ExecutorPhase.rank]⟩
  | testing =>
    cases signalled : e.shutdownRequested with
    | true => exact ⟨.test, _, _, trivial, .shutdown hp signalled, by simp [ExecutorPhase.rank]⟩
    | false => exact ⟨.test, _, _, trivial, .enter hp signalled, by simp [ExecutorPhase.rank]⟩
  | polling => exact ⟨.poll true, _, _, trivial, .poll true hp, by simp [ExecutorPhase.rank]⟩
  | receiving =>
    cases hpipe : p.toExecutor with
    | nil => exact absurd hpipe (told hp)
    | cons x rest =>
      cases x with
      | assignment a =>
        refine ⟨.recv, _, _, trivial, .consume a rest hp hpipe, ?_⟩
        simp only [ExecutorPhase.rank, List.length_cons]
        omega
      | stopProcessExecutor =>
        refine ⟨.recv, _, _, trivial, .stop rest hp hpipe, ?_⟩
        simp only [ExecutorPhase.rank, List.length_cons]
        omega
      | invalid =>
        refine ⟨.recv, _, _, trivial, .skip rest hp hpipe, ?_⟩
        simp only [ExecutorPhase.rank, List.length_cons]
        omega
  | executing a =>
    -- the task comes to its end, with whatever result
    exact ⟨.finish (completedResult []), _, _, trivial, .finish a _ hp,
      by simp [ExecutorPhase.rank]⟩
  | sending a r => exact ⟨.sendOk, _, _, trivial, .sendOk a r hp, by simp [ExecutorPhase.rank]⟩

/-! ## One call -/

def Phase.rank {κ : Type} : Phase κ → Nat
  | .returned _ _ => 0
  | .releaseLock _ _ => 1
  | .releaseDrain _ _ => 2
  | .markExited _ => 3
  | .waitRecv _ => 4
  | .waitPoll _ => 5
  | .waitCheck _ => 6
  | .waitDrain _ => 7
  | .send _ | .leaseLock _ | .leaseGet | .leaseDrain => 8

/-- Bounds the steps of a call until it returns, once what it waits for is there. -/
def ExecuteCall.rank {κ : Type} (c : ExecuteCall κ) : Nat :=
  2 * c.phase.rank + c.event.isSome.toNat

theorem Phase.sent_of_waiting {κ : Type} {p : Phase κ} {l : Lease κ} (h : p.waiting = some l) :
    p.sent = true := by
  cases p <;> simp_all [Phase.waiting, Phase.sent]

def Phase.isReturned {κ : Type} : Phase κ → Bool
  | .returned _ _ => true
  | _ => false

namespace ProcessRuntime

variable {cfg : ProcessRuntimeConfig} {s t : ProcessRuntime} {p : SlotPipe} {w : String}

theorem slots_isSome (h : (processRuntime cfg).Reachable s) (hw : w ∈ cfg.workerIds) :
    ∃ slot, s.slots w = some slot := by
  refine h.invariant (P := fun s => ∃ slot, s.slots w = some slot) ?_ ?_
  · rintro _ rfl
    exact ⟨{}, by simp [ProcessRuntime.start, hw]⟩
  · rintro s a t _ ⟨slot, hslot⟩ _ hst
    obtain ⟨slot', hslot', -⟩ := (step_inv hst).slot_next hslot
    exact ⟨slot', hslot'⟩

theorem gone_of_exited (h : s.exited p = true) : s.Gone p := by
  obtain ⟨e, he, dead⟩ := exited_iff.mp h
  exact ⟨e, he, .inr dead⟩

/-- An executor with an exit or a successor on the event queue has exited. -/
theorem exited_of_superseded (h : (processRuntime cfg).Reachable s) (hp : (s.executors p).isSome)
    (superseded : s.Superseded p.1 p.2) : s.exited p = true := by
  by_contra live
  obtain ⟨slot, hslot, hgen, unreported⟩ :=
    newest h p hp (Bool.eq_false_of_not_eq_true live)
  obtain ⟨code, hev⟩ | ⟨g, connection, hlt, hev⟩ := superseded
  · obtain ⟨slot', hslot', older | same⟩ := (told h).exits _ _ _ hev
    · obtain rfl : slot = slot' := by simpa [hslot] using hslot'
      omega
    · obtain rfl : slot = slot' := by simpa [hslot] using hslot'
      exact unreported (by rw [same])
  · obtain ⟨-, spawned⟩ := (named h).started _ _ _ hev
    obtain ⟨-, slot', hslot', hle⟩ := (overseen h).spawned _ spawned
    obtain rfl : slot = slot' := by simpa [hslot] using hslot'
    exact absurd hlt (Nat.not_lt.mpr (hgen ▸ hle))

end ProcessRuntime

namespace Supervised

variable {cfg : SupervisorConfig} {s t : Supervised} {a : SupervisedAction}
variable {i j : Nat} {c c' : ExecuteCall SlotPipe} {l : Lease SlotPipe} {p : SlotPipe} {w : String}

/-! ## Steps in which nothing goes wrong -/

/-- There is no crash, no signal and no new call, and the broker exits when its runner has
been stopped and every call has returned. -/
def Cooperative (s : Supervised) : SupervisedAction → Prop
  | .supervisor _ | .call _ _ | .receive _ => True
  | .executor _ x => x.Proper
  | .brokerExit => s.runnerStopped = true ∧
      ∀ i c, s.runtime.dispatch.calls i = some c → c.phase.isReturned = true
  | .signalSupervisor | .signalInEvent | .signalBroker | .begin _ _ _ => False

theorem reachable_of_steps {ok : Supervised → SupervisedAction → Prop}
    (h : (supervised cfg).Reachable s) (steps : (supervised cfg).Steps ok s t) :
    (supervised cfg).Reachable t := by
  induction steps with
  | refl => exact h
  | tail _ last ih =>
    obtain ⟨a, -, hst⟩ := last
    exact .step a ih trivial hst

/-! ## The executor answers or exits -/

theorem timely_of_proper {x : ExecutorAction} (proper : x.Proper) : s.Timely (.executor p x) where
  outside := by simp
  release := by simp
  stops := by simp
  crashes := by
    rintro - q ⟨⟩
    exact proper.elim
  signals := by
    rintro - q ⟨⟩
    exact proper.elim
  sends := by simp
  enters := by simp
  begins := by simp

/-- An executor that need not wait for a message takes a step towards its exit. -/
theorem executor_moves (cfg : SupervisorConfig) {e : Executor}
    (he : s.runtime.executors p = some e) (alive : e.phase ≠ .dead)
    (told : e.phase = .receiving → (s.runtime.pipes p).toExecutor ≠ []) :
    ∃ x r e', x.Proper ∧ s.step cfg (.executor p x) = some { s with runtime := r } ∧
      s.runtime.step cfg.toProcessRuntimeConfig (.executor p x) = some r ∧
      r.dispatch = s.runtime.dispatch ∧ r.slots = s.runtime.slots ∧
      r.executors p = some e' ∧ e'.rank (r.pipes p) < e.rank (s.runtime.pipes p) := by
  obtain ⟨x, pipe, e', proper, hstep, nearer⟩ := Executor.progress alive told
  have runs : s.runtime.step cfg.toProcessRuntimeConfig (.executor p x) =
      some { s.runtime.setPipe p pipe with
        executors := Function.update s.runtime.executors p (some e') } := by
    simp [ProcessRuntime.step, he, hstep.executorStep]
  refine ⟨x, _, e', proper, ?_, runs, rfl, rfl, by simp, by simpa [ProcessRuntime.setPipe]⟩
  cases x with
  | broken | sendBroken => exact proper.elim
  | _ => simp only [step, lift, runs, Option.map_some]

/-- An executor that has an assignment answers it or exits, and so does one that is out of
its loop. -/
theorem executor_settles (h : (supervised cfg).Guarded Timely s) {x : String}
    (busy : s.runtime.Working p x ∨ s.runtime.Gone p) :
    ∃ t, (supervised cfg).Steps Cooperative s t ∧ (supervised cfg).Guarded Timely t ∧
      t.runtime.dispatch = s.runtime.dispatch ∧ t.brokerAlive = s.brokerAlive ∧
      (t.runtime.Answered p x ∨ t.runtime.exited p = true) := by
  obtain ⟨e, he⟩ : ∃ e, s.runtime.executors p = some e := by
    obtain ⟨e, he, -⟩ | ⟨e, he, -⟩ := busy <;> exact ⟨e, he⟩
  refine Machine.Steps.by_rank (n := e.rank (s.runtime.pipes p)) (P := fun n u =>
    (supervised cfg).Guarded Timely u ∧ u.runtime.dispatch = s.runtime.dispatch ∧
      u.brokerAlive = s.brokerAlive ∧ (u.runtime.Working p x ∨ u.runtime.Gone p) ∧
      ∃ e, u.runtime.executors p = some e ∧ e.rank (u.runtime.pipes p) = n)
    ⟨h, rfl, rfl, busy, e, he, rfl⟩ ?_
  rintro n u ⟨hu, same, alive, busy, e, he, rfl⟩
  by_cases dead : e.phase = .dead
  · exact .inl ⟨hu, same, alive, .inr (ProcessRuntime.exited_iff.mpr ⟨e, he, dead⟩)⟩
  have told : e.phase = .receiving → (u.runtime.pipes p).toExecutor ≠ [] := by
    intro receiving empty
    obtain ⟨d, hd, -, hx⟩ | ⟨d, hd, gone⟩ := busy <;>
      obtain rfl : e = d := by simpa [he] using hd
    · simp [receiving, ExecutorPhase.inHand, Pipe.unread, empty] at hx
    · simp [Executor.Gone, receiving] at gone
  obtain ⟨b, r, e', proper, hst, runs, dispatch, -, he', nearer⟩ := executor_moves cfg he dead told
  have hr : (supervised cfg).Guarded Timely { u with runtime := r } :=
    .step (.executor p b) hu (timely_of_proper proper) hst
  refine .inr ⟨.executor p b, _, proper, hst, ?_⟩
  have o := ProcessRuntime.overseen (reachable_runtime hu.reachable)
  have st := ProcessRuntime.step_inv runs
  have calm : ∀ q y, RuntimeAction.executor p b = .executor q y →
      y ≠ .broken ∧ y ≠ .sendBroken := by
    rintro q y ⟨⟩
    cases b with
    | broken | sendBroken => exact proper.elim
    | _ => simp
  have after : r.Answered p x ∨ r.Working p x ∨ r.Gone p := by
    obtain working | gone := busy
    · obtain working | answered | ⟨-, -, -, -, -, -, gone⟩ := working.step o st calm
      · exact .inr (.inl working)
      · exact .inl answered
      · exact .inr (.inr gone)
    · exact .inr (.inr (st.gone_of_overseen o gone))
  exact after.imp (fun answered => ⟨hr, dispatch.trans same, alive, .inl answered⟩)
    fun busy => ⟨_, nearer, hr, dispatch.trans same, alive, busy, e', he', rfl⟩

/-! ## The supervisor reports an exit and closes its end -/

/-- The supervisor closes its end of a pipe right after it has put the exit. -/
theorem released (h : (supervised cfg).Reachable s) (hp : s.runtime.ReportedExit p) :
    s.executorConnections p = false ∨ ∃ rest slot, s.point = .closing p.1 rest ∧
      s.runtime.slots p.1 = some slot ∧ slot.generation = p.2 := by
  refine h.invariant (P := fun s => ∀ p, s.runtime.ReportedExit p →
    s.executorConnections p = false ∨ ∃ rest slot, s.point = .closing p.1 rest ∧
      s.runtime.slots p.1 = some slot ∧ slot.generation = p.2) ?_ ?_ p hp
  · rintro _ rfl p ⟨code, hev⟩
    simp [start, ProcessRuntime.start, Dispatch.start] at hev
  · intro s a t hs ih _ hst p hp
    -- at other points the end is closed already
    have closed : (∀ rest, s.point ≠ .closing p.1 rest) → s.runtime.ReportedExit p →
        s.executorConnections p = false := by
      intro elsewhere hp
      obtain closed | ⟨rest, slot, hpoint, -⟩ := ih p hp
      · exact closed
      · exact absurd hpoint (elsewhere rest)
    cases step_inv hst with
    | signalSupervisor | signalBroker | brokerExit => exact ih p hp
    | signalInEvent inside =>
      refine .inl (closed (fun rest hpoint => ?_) hp)
      simp [inEvent, hpoint] at inside
    | acts _ b r ha hr =>
      obtain ⟨slots, emitted⟩ := ha.frame hr
      simp only [ProcessRuntime.ReportedExit] at hp
      rw [emitted] at hp
      simp only [slots]
      exact ih p hp
    | supervisor exitCode _ hsup =>
      cases hsup with
      | exitReported w rest slot r hpoint hslot _ hr =>
        cases ProcessRuntime.step_inv hr with
        | exitReported _ g _ hg =>
          obtain ⟨code, hev⟩ := hp
          obtain hev | hev := List.mem_append.mp hev
          · exact .inl (closed (by simp [hpoint]) ⟨code, hev⟩)
          · obtain ⟨hw, hgen, -⟩ := ExecutorEvent.exited.inj (List.mem_singleton.mp hev)
            refine .inr ⟨rest, ⟨g, .exitReported⟩, by rw [hw], ?_, hgen.symm⟩
            simp [ProcessRuntime.setSlot, hw]
      | closed w rest slot hpoint hslot =>
        refine .inl ?_
        obtain closed | ⟨rest', slot', hpoint', hslot', hgen⟩ := ih p hp
        · by_cases hq : p = (w, slot.generation)
          · simp [hq]
          · simpa [hq] using closed
        · obtain ⟨rfl, -⟩ : w = p.1 ∧ rest = rest' := by simpa [hpoint] using hpoint'
          obtain rfl : slot = slot' := by simpa [hslot] using hslot'
          have hq : p = (p.1, slot.generation) := Prod.ext rfl hgen.symm
          rw [← hq]
          simp
      | respawned w rest slot r hpoint _ hslot hr =>
        have emitted : r.dispatch.emitted = s.runtime.dispatch.emitted := by
          cases ProcessRuntime.step_inv hr
          rfl
        have hp : s.runtime.ReportedExit p := by
          simpa only [ProcessRuntime.ReportedExit, emitted] using hp
        refine .inl ?_
        have hq : p ≠ (w, slot.generation + 1) := by
          rintro rfl
          obtain ⟨code, hev⟩ := hp
          obtain ⟨slot', hslot', hor⟩ :=
            (ProcessRuntime.told (reachable_runtime hs)).exits _ _ _ hev
          obtain rfl : slot = slot' := by simpa [hslot] using hslot'
          obtain hlt | hsame := hor
          · simp at hlt
          · have := congrArg SupervisedSlot.generation hsame
            simp at this
        simpa [hq] using closed (by simp [hpoint]) hp
      | startReported w rest r hpoint hr =>
        cases ProcessRuntime.step_inv hr with
        | startReported _ g =>
          obtain ⟨code, hev⟩ := hp
          refine .inl (closed (by simp [hpoint]) ⟨code, ?_⟩)
          obtain hev | hev := List.mem_append.mp hev
          · exact hev
          · simp at hev
      | stopSent w rest r hpoint hr =>
        cases ProcessRuntime.step_inv hr with
        | stopSent _ slot => exact .inl (closed (by simp [hpoint]) hp)
      | stopSeen hpoint | loopEntered hpoint | brokerFound hpoint | brokerGone hpoint
      | passed hpoint | executorFound _ _ _ hpoint | brokenOff _ _ hpoint | waited hpoint
      | drained hpoint | stopSkipped _ _ hpoint | terminated hpoint | joined hpoint =>
        exact .inl (closed (by simp [hpoint]) hp)

/-- The slots that the `for` loop has yet to reach. -/
def toVisit (s : Supervised) : List String :=
  match s.point with
  | .pass rest | .closing _ rest | .backoff _ rest | .starting _ rest => rest
  | _ => []

/-- The slot whose executor the loop replaces. -/
def atSlot (s : Supervised) : Option String :=
  match s.point with
  | .closing w _ | .backoff w _ | .starting w _ => some w
  | _ => none

/-- What the loop finds while `stop` is not set: the slots of the configuration, all of them
running but the one it is at. -/
structure Looping (cfg : SupervisorConfig) (s : Supervised) : Prop where
  names : ∀ w ∈ s.toVisit, w ∈ cfg.workerIds
  running : s.stop = false → ∀ w slot, s.runtime.slots w = some slot → slot.phase ≠ .running →
    s.atSlot = some w
  deadlocked : s.point = .deadlocked → s.stop = true
  fits : s.PointFits

theorem looping (h : (supervised cfg).Reachable s) : s.Looping cfg := by
  refine h.invariant (P := Looping cfg) ?_ ?_
  · rintro _ rfl
    refine ⟨by simp [start, toVisit], fun _ w slot hslot hphase => ?_, by simp [start], trivial⟩
    simp only [start, ProcessRuntime.start] at hslot
    split at hslot <;> cases hslot
    exact absurd rfl hphase
  · intro s a t hs k _ hst
    have fits := k.fits.step (reachable_runtime hs) hst
    cases step_inv hst with
    | signalBroker | brokerExit => exact { k with fits }
    | signalSupervisor => exact ⟨k.names, by simp, by simp, fits⟩
    | signalInEvent => exact ⟨by simp [toVisit], by simp, by simp, fits⟩
    | acts _ b r ha hr =>
      refine ⟨k.names, ?_, k.deadlocked, fits⟩
      simp only [(ha.frame hr).1]
      exact k.running
    | supervisor exitCode _ hsup =>
      -- away from the replacement of an executor all slots are running
      have between : s.atSlot = none → ∀ {o : Option String}, s.stop = false → ∀ w slot,
          s.runtime.slots w = some slot → slot.phase ≠ .running → o = some w := by
        intro away o running w slot hslot hphase
        have := k.running running w slot hslot hphase
        simp [away] at this
      have behind : ∀ {v rest}, s.point = .pass (v :: rest) → ∀ w ∈ rest, w ∈ cfg.workerIds :=
        fun hp w hw => k.names w (by simp [toVisit, hp, hw])
      cases hsup with
      | stopSeen hp hstop => exact ⟨by simp [toVisit], by simp [hstop], by simp, fits⟩
      | brokerGone => exact ⟨by simp [toVisit], by simp, by simp, fits⟩
      | loopEntered hp | waited hp | passed hp | drained hp | terminated hp | joined hp =>
        exact ⟨by simp [toVisit], between (by simp [atSlot, hp]), by simp, fits⟩
      | stopSkipped v rest hp =>
        exact ⟨by simp [toVisit], between (by simp [atSlot, hp]), by simp, fits⟩
      | stopSent v rest r hp hr =>
        cases ProcessRuntime.step_inv hr
        exact ⟨by simp [toVisit], between (by simp [atSlot, hp]), by simp, fits⟩
      | brokerFound hp => exact ⟨fun w => id, between (by simp [atSlot, hp]), by simp, fits⟩
      | executorFound v rest _ hp =>
        exact ⟨behind hp, between (by simp [atSlot, hp]), by simp, fits⟩
      | exitReported v rest _ r hp _ _ hr =>
        cases ProcessRuntime.step_inv hr with
        | exitReported _ g =>
          refine ⟨behind hp, fun running w slot hslot hphase => ?_, by simp, fits⟩
          by_cases hw : w = v
          · simp [atSlot, hw]
          · replace hslot : s.runtime.slots w = some slot := by
              simpa [ProcessRuntime.setSlot, ProcessRuntime.emit, hw] using hslot
            exact between (by simp [atSlot, hp]) running w slot hslot hphase
      | closed v rest _ hp =>
        have names := k.names
        have running := k.running
        simp only [toVisit, atSlot, hp] at names running
        exact ⟨names, running, by simp, fits⟩
      | brokenOff v rest hp hstop => exact ⟨by simp [toVisit], by simp [hstop], by simp, fits⟩
      | respawned v rest _ r hp _ _ hr =>
        have names := k.names
        have running := k.running
        simp only [toVisit, atSlot, hp] at names running
        cases ProcessRuntime.step_inv hr with
        | respawned _ g =>
          refine ⟨names, fun go w slot hslot hphase => ?_, by simp, fits⟩
          by_cases hw : w = v
          · simp [atSlot, hw]
          · have hslot : s.runtime.slots w = some slot := by
              simpa [ProcessRuntime.setSlot, ProcessRuntime.spawn, hw] using hslot
            exact running go w slot hslot hphase
      | startReported v rest r hp hr =>
        have names := k.names
        have running := k.running
        simp only [toVisit, atSlot, hp] at names running
        cases ProcessRuntime.step_inv hr with
        | startReported _ g =>
          refine ⟨names, fun go w slot hslot hphase => ?_, by simp, fits⟩
          by_cases hw : w = v
          · obtain rfl : slot = ⟨g, .running⟩ := by
              simpa [ProcessRuntime.setSlot, hw] using hslot.symm
            exact absurd rfl hphase
          · have hslot : s.runtime.slots w = some slot := by
              simpa [ProcessRuntime.setSlot, ProcessRuntime.emit, hw] using hslot
            exact absurd (Option.some.inj (running go w slot hslot hphase)).symm hw

/-- Bounds the steps of the loop until it comes to slot `w`: in this pass, or in the next. -/
def distance (cfg : SupervisorConfig) (w : String) (s : Supervised) : Nat :=
  let pass := 4 * cfg.workerIds.length
  let left (rest : List String) := 4 * rest.length + if w ∈ rest then 0 else pass + 4
  match s.point with
  | .pass rest => left rest
  | .starting _ rest => left rest + 1
  | .backoff _ rest => left rest + 2
  | .closing _ rest => left rest + 3
  | .pollWait => pass + 3
  | .loopTest => pass + 2
  | .brokerTest => pass + 1
  | _ => 0

/-- While `stop` is not set the loop comes nearer to the slot of a lost executor, and puts its
exit there. -/
theorem supervisor_nears (h : (supervised cfg).Reachable s) (running : s.stop = false)
    (alive : s.brokerAlive = true) (lost : s.runtime.Lost p)
    (exited : s.runtime.exited p = true) :
    ∃ t, s.step cfg (.supervisor none) = some t ∧ t.stop = false ∧ t.brokerAlive = true ∧
      t.runtime.dispatch.calls = s.runtime.dispatch.calls ∧
      (t.runtime.ReportedExit p ∨ t.distance cfg p.1 < s.distance cfg p.1) := by
  have hr := reachable_runtime h
  have k := looping h
  have hp : p.1 ∈ cfg.workerIds := ProcessRuntime.slots_configured hr lost.2
  have inFinally : s.inFinally = true → False := fun f => by
    simp [stop_of_inFinally h f] at running
  cases hpoint : s.point with
  | loopTest =>
    refine ⟨{ s with point := .brokerTest }, ?_, running, alive, rfl, .inr ?_⟩
    · simp [step, supervisorStep, hpoint, running]
    · simp [distance, hpoint]
  | brokerTest =>
    refine ⟨{ s with point := .pass cfg.workerIds }, ?_, running, alive, rfl, .inr ?_⟩
    · simp [step, supervisorStep, hpoint, alive]
    · simp [distance, hpoint, hp]
  | pass rest =>
    cases rest with
    | nil =>
      refine ⟨{ s with point := .pollWait }, ?_, running, alive, rfl, .inr ?_⟩
      · simp [step, supervisorStep, hpoint]
      · simp [distance, hpoint]
    | cons v rest =>
      obtain ⟨⟨g, phase⟩, hslot⟩ :=
        ProcessRuntime.slots_isSome hr (k.names v (by simp [toVisit, hpoint]))
      cases live : s.runtime.exited (v, g) with
      | false =>
        have hv : p.1 ≠ v := by
          rintro rfl
          have hg : p.2 = g ∧ .running = phase := by simpa using lost.2.symm.trans hslot
          rw [← hg.1, exited] at live
          cases live
        refine ⟨{ s with point := .pass rest }, ?_, running, alive, rfl, .inr ?_⟩
        · simp [step, supervisorStep, hpoint, hslot, live]
        · simp [distance, hpoint, hv]
      | true =>
        obtain rfl : phase = .running := by
          by_contra hphase
          simpa [atSlot, hpoint] using k.running running v ⟨g, phase⟩ hslot hphase
        refine ⟨{ s with
          runtime := (s.runtime.emit (.exited v g none)).setSlot v ⟨g, .exitReported⟩
          point := .closing v rest }, ?_, running, alive, rfl, ?_⟩
        · simp [step, supervisorStep, hpoint, hslot, live, lift, ProcessRuntime.step]
        · by_cases hv : p.1 = v
          · subst hv
            have hg : p.2 = g := by simpa using lost.2.symm.trans hslot
            exact .inl ⟨none, by simp [ProcessRuntime.setSlot, ProcessRuntime.emit, hg]⟩
          · refine .inr ?_
            simp only [distance, hpoint, List.mem_cons, hv, false_or, List.length_cons]
            omega
  | closing v rest =>
    have fits := k.fits
    simp only [PointFits, hpoint] at fits
    obtain ⟨g, hslot⟩ := fits
    refine ⟨{ s with
      point := .backoff v rest
      executorConnections := Function.update s.executorConnections (v, g) false },
      ?_, running, alive, rfl, .inr ?_⟩
    · simp [step, supervisorStep, hpoint, hslot]
    · simp [distance, hpoint]
  | backoff v rest =>
    have fits := k.fits
    simp only [PointFits, hpoint] at fits
    obtain ⟨g, hslot⟩ := fits
    refine ⟨{ s with
      runtime := (s.runtime.spawn (v, g + 1)).setSlot v ⟨g + 1, .respawned⟩
      point := .starting v rest
      executorConnections := Function.update s.executorConnections (v, g + 1) true },
      ?_, running, alive, rfl, .inr ?_⟩
    · simp [step, supervisorStep, hpoint, hslot, running, lift, ProcessRuntime.step]
    · simp [distance, hpoint]
  | starting v rest =>
    have fits := k.fits
    simp only [PointFits, hpoint] at fits
    obtain ⟨g, hslot⟩ := fits
    refine ⟨{ s with
      runtime := (s.runtime.emit (.started v g (v, g))).setSlot v ⟨g, .running⟩
      point := .pass rest }, ?_, running, alive, rfl, .inr ?_⟩
    · simp [step, supervisorStep, hpoint, hslot, lift, ProcessRuntime.step]
    · simp [distance, hpoint]
  | pollWait =>
    refine ⟨{ s with point := .loopTest }, ?_, running, alive, rfl, .inr ?_⟩
    · simp [step, supervisorStep, hpoint]
    · simp [distance, hpoint]
  | deadlocked => simp [k.deadlocked hpoint] at running
  | draining | terminating | joining | finished =>
    exact (inFinally (by simp [Supervised.inFinally, hpoint])).elim

/-- A lost executor that has exited is reported while `stop` is not set. -/
theorem exit_reported (h : (supervised cfg).Reachable s) (running : s.stop = false)
    (alive : s.brokerAlive = true) (lost : s.runtime.Lost p)
    (exited : s.runtime.exited p = true) :
    ∃ t, (supervised cfg).Steps Cooperative s t ∧ t.brokerAlive = true ∧
      t.runtime.dispatch.calls = s.runtime.dispatch.calls ∧
      t.runtime.exited p = true ∧ t.runtime.ReportedExit p := by
  refine Machine.Steps.by_rank (n := s.distance cfg p.1) (P := fun n u =>
    (supervised cfg).Reachable u ∧ u.stop = false ∧ u.brokerAlive = true ∧
      u.runtime.dispatch.calls = s.runtime.dispatch.calls ∧ u.runtime.Lost p ∧
      u.runtime.exited p = true ∧ u.distance cfg p.1 = n)
    ⟨h, running, alive, rfl, lost, exited, rfl⟩ ?_
  rintro n u ⟨hu, running, alive, same, lost, exited, rfl⟩
  obtain ⟨t, hst, running', alive', calls, nearer⟩ :=
    supervisor_nears hu running alive lost exited
  refine .inr ⟨.supervisor none, t, trivial, hst, ?_⟩
  have ht : (supervised cfg).Reachable t := .step (.supervisor none) hu trivial hst
  have exited' := exited_step (reachable_runtime hu) hst exited
  obtain hp | nearer := nearer
  · exact .inl ⟨alive', calls.trans same, exited', hp⟩
  have kept : t.runtime.Lost p ∨ t.runtime.ReportedExit p := by
    obtain same | ⟨b, hb⟩ := step_runtime hst
    · exact .inl (same ▸ lost)
    · exact lost.step (ProcessRuntime.overseen (reachable_runtime hu)) (ProcessRuntime.step_inv hb)
  obtain lost | hp := kept
  · exact .inr ⟨_, nearer, ht, running', alive', calls.trans same, lost, exited', rfl⟩
  · exact .inl ⟨alive', calls.trans same, exited', hp⟩

/-- Behind its report the supervisor closes its end. -/
theorem end_closes (h : (supervised cfg).Reachable s) (exited : s.runtime.exited p = true)
    (reported : s.runtime.ReportedExit p) :
    ∃ t, (supervised cfg).Steps Cooperative s t ∧ t.brokerAlive = s.brokerAlive ∧
      t.runtime = s.runtime ∧ t.executorEndClosed p = true := by
  obtain closed | ⟨rest, slot, hp, hslot, hgen⟩ := released h reported
  · exact ⟨s, .refl, rfl, rfl, by simp [executorEndClosed, exited, closed]⟩
  · have hq : (p.1, slot.generation) = p := Prod.ext rfl hgen
    refine ⟨{ s with
      point := .backoff p.1 rest
      executorConnections := Function.update s.executorConnections p false }, ?_, rfl, rfl, ?_⟩
    · refine .single ⟨.supervisor none, trivial, ?_⟩
      simp [supervised, step, supervisorStep, hp, hslot, hq]
    · simp [executorEndClosed, exited]

/-! ## The call returns -/

/-- There is a message, or an end of file, for a call that waits. -/
def Ready (s : Supervised) (c : ExecuteCall SlotPipe) : Prop :=
  ∀ l, c.phase.waiting = some l →
    (s.runtime.pipes l.connection).toBroker ≠ [] ∨ s.executorEndClosed l.connection = true

/-- One call has taken steps of its own. -/
structure Moved (s t : Supervised) (i : Nat) (c' : ExecuteCall SlotPipe) : Prop where
  point : t.point = s.point
  alive : t.brokerAlive = s.brokerAlive
  executors : t.runtime.executors = s.runtime.executors
  calls : t.runtime.dispatch.calls = Function.update s.runtime.dispatch.calls i (some c')

/-- A step of one call on pipes that stay as they are. -/
theorem step_call {x : CallAction} {b' : Broker SlotPipe}
    (alive : s.brokerAlive = true) (hc : s.runtime.dispatch.calls i = some c)
    (allowed : s.pipeAllows c x = true) (hpipes : s.runtime.brokerPipes c x = some s.runtime.pipes)
    (hstep : CallStep cfg.completionTimeoutSeconds s.runtime.dispatch.broker c x b' c') :
    ∃ t, s.step cfg (.call i x) = some t ∧ s.Moved t i c' ∧ t.runtime.pipes = s.runtime.pipes ∧
      t.executorConnections = s.executorConnections := by
  have runs : s.runtime.step cfg.toProcessRuntimeConfig (.call i x) =
      some { s.runtime with dispatch := s.runtime.dispatch.withCall i (b', c') } := by
    simp [ProcessRuntime.step, hc, hpipes, Dispatch.step, ProcessRuntimeConfig.dispatch,
      hstep.callStep]
  refine ⟨{ s with runtime := { s.runtime with
    dispatch := s.runtime.dispatch.withCall i (b', c') } }, ?_, ⟨rfl, rfl, rfl, rfl⟩, rfl, rfl⟩
  simp [step, hc, alive, allowed, lift, runs]

theorem step_receive (cfg : SupervisorConfig) {m : BrokerMessage} {rest : List BrokerMessage}
    (alive : s.brokerAlive = true)
    (hc : s.runtime.dispatch.calls i = some c) (idle : c.event = none)
    (hphase : c.phase = .waitRecv l)
    (hpipe : (s.runtime.pipes l.connection).toBroker = m :: rest) :
    ∃ t, s.step cfg (.receive i) = some t ∧ s.Moved t i { c with
      phase := .releaseDrain l (inspectCompletion c.attempt c.executionId m) } := by
  have hstep : callStep cfg.completionTimeoutSeconds s.runtime.dispatch.broker c (.recv m) =
      some (s.runtime.dispatch.broker, { c with
        phase := .releaseDrain l (inspectCompletion c.attempt c.executionId m) }) :=
    (CallStep.recv m l idle hphase).callStep
  have runs : s.runtime.step cfg.toProcessRuntimeConfig (.receive i) =
      some (({ s.runtime with
        dispatch := s.runtime.dispatch.withCall i (s.runtime.dispatch.broker, { c with
          phase := .releaseDrain l (inspectCompletion c.attempt c.executionId m) }) } :
            ProcessRuntime).setPipe l.connection
        { s.runtime.pipes l.connection with toBroker := rest }) := by
    simp [ProcessRuntime.step, hc, hphase, hpipe, Dispatch.step, ProcessRuntimeConfig.dispatch,
      hstep]
  obtain ⟨r, hr, hexec, hcalls⟩ : ∃ r, s.runtime.step cfg.toProcessRuntimeConfig (.receive i) =
      some r ∧ r.executors = s.runtime.executors ∧
      r.dispatch.calls = Function.update s.runtime.dispatch.calls i (some { c with
        phase := .releaseDrain l (inspectCompletion c.attempt c.executionId m) }) :=
    ⟨_, runs, rfl, rfl⟩
  exact ⟨{ s with runtime := r }, by simp [step, alive, lift, hr], rfl, rfl, hexec, hcalls⟩

/-- A call that has sent its assignment, and has what it waits for, comes nearer to its
return. -/
theorem call_progress (cfg : SupervisorConfig) (alive : s.brokerAlive = true)
    (hc : s.runtime.dispatch.calls i = some c) (sent : c.phase.sent = true) (ready : s.Ready c)
    (running : c.phase.isReturned = false) :
    ∃ a t c', s.Cooperative a ∧ s.step cfg a = some t ∧ s.Moved t i c' ∧
      c'.phase.sent = true ∧ t.Ready c' ∧ c'.rank < c.rank := by
  have call : ∀ {x b' c'}, s.pipeAllows c x = true →
      s.runtime.brokerPipes c x = some s.runtime.pipes →
      CallStep cfg.completionTimeoutSeconds s.runtime.dispatch.broker c x b' c' →
      c'.rank < c.rank → c'.phase.waiting = c.phase.waiting ∨ c'.phase.waiting = none →
      ∃ a t c', s.Cooperative a ∧ s.step cfg a = some t ∧ s.Moved t i c' ∧
        c'.phase.sent = true ∧ t.Ready c' ∧ c'.rank < c.rank := by
    intro x b' c' allowed hpipes hstep nearer hwaiting
    obtain ⟨t, hst, moved, pipes, connections⟩ := step_call alive hc allowed hpipes hstep
    refine ⟨.call i x, t, c', trivial, hst, moved, hstep.sent sent, fun l hl => ?_, nearer⟩
    have waiting : c.phase.waiting = some l := by
      obtain same | none := hwaiting
      · exact same ▸ hl
      · simp [none] at hl
    have closed : t.executorEndClosed l.connection = s.executorEndClosed l.connection := by
      simp [executorEndClosed, ProcessRuntime.exited, moved.executors, connections]
    rw [pipes, closed]
    exact ready l waiting
  cases idle : c.event with
  | some ev =>
    exact call rfl rfl (.handleEvent ev idle) (by simp [ExecuteCall.rank, idle]) (.inl rfl)
  | none =>
    cases hphase : c.phase with
    | leaseDrain | leaseGet | leaseLock _ | send _ => simp [hphase, Phase.sent] at sent
    | returned => simp [hphase, Phase.isReturned] at running
    | waitDrain l =>
      exact call rfl rfl (.drained (.waitCheck l) idle (by simp [hphase, Phase.drained]))
        (by simp [ExecuteCall.rank, hphase, Phase.rank]) (.inl (by simp [hphase, Phase.waiting]))
    | waitCheck l =>
      cases exited :
        s.runtime.dispatch.broker.table.slotGenerationExited l.workerId l.generation with
      | true =>
        exact call rfl rfl (.exited l idle hphase exited)
          (by simp [ExecuteCall.rank, hphase, Phase.rank]) (.inr rfl)
      | false =>
        exact call rfl rfl (.running l idle hphase exited)
          (by simp [ExecuteCall.rank, hphase, Phase.rank]) (.inl (by simp [hphase, Phase.waiting]))
    | waitPoll l =>
      have found := ready l (by simp [hphase, Phase.waiting])
      have pipes : s.runtime.brokerPipes c (.poll true) = some s.runtime.pipes := by
        have found : (s.runtime.pipes l.connection).toBroker ≠ [] ∨
            s.runtime.exited l.connection = true := by
          refine found.imp_right fun closed => ?_
          simp only [executorEndClosed, Bool.and_eq_true] at closed
          exact closed.1
        simpa [ProcessRuntime.brokerPipes, hphase, or_iff_not_imp_left] using found
      have allowed : s.pipeAllows c (.poll true) = true := by
        simpa [pipeAllows, hphase] using found
      exact call allowed pipes (.poll true l idle hphase)
        (by simp [ExecuteCall.rank, hphase, Phase.rank]) (.inl (by simp [hphase, Phase.waiting]))
    | waitRecv l =>
      cases hpipe : (s.runtime.pipes l.connection).toBroker with
      | cons m rest =>
        obtain ⟨t, hst, moved⟩ := step_receive cfg alive hc idle hphase hpipe
        exact ⟨.receive i, t, _, trivial, hst, moved, rfl, by simp [Ready, Phase.waiting],
          by simp [ExecuteCall.rank, hphase, Phase.rank]⟩
      | nil =>
        have closed := (ready l (by simp [hphase, Phase.waiting])).resolve_left (by simp [hpipe])
        have allowed : s.pipeAllows c .recvBroken = true := by
          simpa [pipeAllows, hphase] using closed
        simp only [executorEndClosed, Bool.and_eq_true] at closed
        have pipes : s.runtime.brokerPipes c .recvBroken = some s.runtime.pipes := by
          simp [ProcessRuntime.brokerPipes, hphase, ProcessRuntime.atEof, closed.1, hpipe]
        exact call allowed pipes (.recvBroken l idle (.inr hphase))
          (by simp [ExecuteCall.rank, hphase, Phase.rank]) (.inr rfl)
    | markExited l =>
      exact call rfl rfl (.markExited l idle hphase)
        (by simp [ExecuteCall.rank, hphase, Phase.rank]) (.inr rfl)
    | releaseDrain l o =>
      exact call rfl rfl (.drained (.releaseLock l o) idle (by simp [hphase, Phase.drained]))
        (by simp [ExecuteCall.rank, hphase, Phase.rank]) (.inr rfl)
    | releaseLock l o =>
      exact call rfl rfl (.released l o idle hphase)
        (by simp [ExecuteCall.rank, hphase, Phase.rank]) (.inr rfl)

theorem call_returns (cfg : SupervisorConfig) (alive : s.brokerAlive = true)
    (hc : s.runtime.dispatch.calls i = some c) (sent : c.phase.sent = true) (ready : s.Ready c) :
    ∃ t, (supervised cfg).Steps Cooperative s t ∧
      ∃ c', s.Moved t i c' ∧ c'.phase.isReturned = true := by
  refine Machine.Steps.by_rank (n := c.rank) (P := fun n u => ∃ d, s.Moved u i d ∧
    d.phase.sent = true ∧ u.Ready d ∧ d.rank = n)
    ⟨c, ⟨rfl, rfl, rfl, by simp [← hc]⟩, sent, ready, rfl⟩ ?_
  rintro n u ⟨d, moved, sent, ready, rfl⟩
  cases running : d.phase.isReturned with
  | true => exact .inl ⟨d, moved, running⟩
  | false =>
    have hd : u.runtime.dispatch.calls i = some d := by simp [moved.calls]
    obtain ⟨a, t, c', coop, hst, more, sent', ready', nearer⟩ :=
      call_progress cfg (moved.alive.trans alive) hd sent ready running
    refine .inr ⟨a, t, coop, hst, .inr ⟨_, nearer, c', ⟨more.point.trans moved.point,
      more.alive.trans moved.alive, more.executors.trans moved.executors, ?_⟩, sent', ready', rfl⟩⟩
    simp [more.calls, moved.calls]

/-- A call that waits can always return: its broker is never held up by it for ever. -/
theorem waiting_call_returns (h : (supervised cfg).Guarded Timely s) (hw : s.Waiting i c l) :
    ∃ t c', (supervised cfg).Steps Cooperative s t ∧ t.runtime.dispatch.calls i = some c' ∧
      c'.phase.isReturned = true := by
  -- with a message or an end of file on its pipe the call returns
  have returns : ∀ {u}, (supervised cfg).Steps Cooperative s u → u.brokerAlive = true →
      u.runtime.dispatch.calls = s.runtime.dispatch.calls →
      u.runtime.Answered l.connection c.executionId ∨ u.executorEndClosed l.connection = true →
      ∃ t c', (supervised cfg).Steps Cooperative s t ∧ t.runtime.dispatch.calls i = some c' ∧
        c'.phase.isReturned = true := by
    intro u steps alive calls found
    have ready : u.Ready c := by
      intro k hk
      obtain rfl : l = k := by simpa [hw.2.2] using hk
      obtain ⟨m, hm, -⟩ | closed := found
      · exact .inl (List.ne_nil_of_mem hm)
      · exact .inr closed
    obtain ⟨t, more, c', moved, returned⟩ :=
      call_returns cfg alive (calls ▸ hw.2.1) (Phase.sent_of_waiting hw.2.2) ready
    exact ⟨t, c', steps.trans more, by simp [moved.calls], returned⟩
  -- the supervisor closes its end behind the report of an exit
  have closes : ∀ {u}, (supervised cfg).Steps Cooperative s u → u.brokerAlive = true →
      u.runtime.dispatch.calls = s.runtime.dispatch.calls →
      u.runtime.exited l.connection = true → u.runtime.ReportedExit l.connection →
      ∃ t c', (supervised cfg).Steps Cooperative s t ∧ t.runtime.dispatch.calls i = some c' ∧
        c'.phase.isReturned = true := by
    intro u steps alive calls exited reported
    obtain ⟨t, more, alive', same, closed⟩ :=
      end_closes (reachable_of_steps h.reachable steps) exited reported
    exact returns (steps.trans more) (alive'.trans alive) (same ▸ calls) (.inr closed)
  have hr := reachable_runtime h.reachable
  obtain ⟨hname, hexec, -⟩ := ProcessRuntime.lease_overseen hr hw.2.1 hw.held
  obtain ⟨u, steps, hu, same, alive, settled⟩ : ∃ u, (supervised cfg).Steps Cooperative s u ∧
      (supervised cfg).Guarded Timely u ∧ u.runtime.dispatch = s.runtime.dispatch ∧
      u.brokerAlive = s.brokerAlive ∧ (u.runtime.Answered l.connection c.executionId ∨
        u.runtime.exited l.connection = true) := by
    cases (heeded h).attended i c l hw with
    | working working => exact executor_settles h (.inl working)
    | answered answered => exact ⟨s, .refl, h, rfl, rfl, .inl answered⟩
    | superseded superseded =>
      have exited : s.runtime.exited l.connection = true :=
        ProcessRuntime.exited_of_superseded hr hexec (by rw [hname]; exact superseded)
      exact ⟨s, .refl, h, rfl, rfl, .inr exited⟩
    | ahead lost => exact executor_settles h (.inr (hname ▸ lost.1))
    | endOfFile eof =>
      simp only [Supervised.endOfFile, executorEndClosed, Bool.and_eq_true] at eof
      exact ⟨s, .refl, h, rfl, rfl, .inr eof.2.1⟩
  have calls : u.runtime.dispatch.calls = s.runtime.dispatch.calls := by rw [same]
  have hw' : u.Waiting i c l := ⟨alive.trans hw.1, calls ▸ hw.2.1, hw.2.2⟩
  obtain answered | exited := settled
  · exact returns steps hw'.1 calls (.inl answered)
  obtain ⟨-, -, reported | running⟩ :=
    ProcessRuntime.lease_overseen (reachable_runtime hu.reachable) hw'.2.1 hw'.held
  · exact closes steps hw'.1 calls exited reported
  have lost : u.runtime.Lost l.connection :=
    ⟨ProcessRuntime.gone_of_exited exited, by rw [hname]; exact running⟩
  cases hstop : u.stop with
  | true => exact returns steps hw'.1 calls (.inl ((heeded hu).answered hstop i c l hw' lost))
  | false =>
    obtain ⟨v, more, alive', calls', exited', reported⟩ :=
      exit_reported hu.reachable hstop hw'.1 lost exited
    exact closes (steps.trans more) alive' (calls'.trans calls) exited' reported

end Supervised

end Perago.ConductorRuntime
