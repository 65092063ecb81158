import Perago.ConductorRuntime.Returns

/-!
# Shutdown comes to its end

From every state of the `finally` block that a timely run reaches, the supervisor, the
executors and the broker can bring the shutdown to its end, if nothing else goes wrong.
The supervisor sends its sentinels, every executor reads its sentinel or has left its
loop, every call that waits finds a completion or an end of file, and the broker exits.
-/

namespace Perago.ConductorRuntime

open Perago.Transition

namespace ProcessRuntime

variable {cfg : ProcessRuntimeConfig} {s t : ProcessRuntime} {w : String}

/-- The newest executor of a slot is out of its loop, or will read a sentinel. -/
def Notified (s : ProcessRuntime) (w : String) : Prop :=
  ∀ slot, s.slots w = some slot → s.Gone (w, slot.generation) ∨
    .stopProcessExecutor ∈ (s.pipes (w, slot.generation)).toExecutor

theorem Notified.step {timeout : Option Nat} {a : RuntimeAction} (n : s.Notified w)
    (o : s.Overseen) (st : Step timeout s a t) (slots : t.slots = s.slots)
    (started : ∀ v, a ≠ .respawn v) : t.Notified w := by
  intro slot hslot
  rw [slots] at hslot
  obtain gone | waits := n slot hslot
  · exact .inl (st.gone_of_overseen o gone)
  rcases st.toExecutor (w, slot.generation) with same | ⟨x, hread, hstop⟩ | ⟨v, ha, -⟩ |
    ⟨i, c, l, -, -, -, -, hsent⟩ | ⟨v, -, hsent⟩
  · exact .inr (same ▸ waits)
  · rw [hread] at waits
    obtain rfl | waits := List.mem_cons.mp waits
    · exact .inl (hstop rfl)
    · exact .inr waits
  · exact absurd ha (started v)
  · exact .inr (hsent ▸ List.mem_append_left _ waits)
  · exact .inr (hsent ▸ List.mem_append_left _ waits)

end ProcessRuntime

namespace Supervised

variable {cfg : SupervisorConfig} {s t : Supervised} {a : SupervisedAction}
variable {i j : Nat} {c c' : ExecuteCall SlotPipe} {l : Lease SlotPipe} {p : SlotPipe} {w : String}

/-! ## Steps in which nothing goes wrong -/

theorem Cooperative.timely (coop : s.Cooperative a) (h : (supervised cfg).Guarded Timely s)
    (f : s.inFinally = true) (hst : s.step cfg a = some t) : s.Timely a where
  outside := by
    rintro rfl
    exact coop
  release outside := by simp [f] at outside
  stops := by
    rintro rfl
    exact coop.elim
  crashes := by
    rintro - p rfl
    exact coop.elim
  signals := by
    rintro - p rfl
    exact coop.elim
  sends := by
    rintro - i c l rfl hc hphase
    have := calls_sent h f (alive_of_call hst) hc
    simp [hphase, Phase.sent] at this
  enters _ hp := by simp [inFinally, hp] at f
  begins := by
    rintro - i attempt executionId rfl
    exact coop

theorem guarded_of_cooperative (h : (supervised cfg).Guarded Timely s) (f : s.inFinally = true)
    (steps : (supervised cfg).Steps Cooperative s t) :
    (supervised cfg).Guarded Timely t ∧ t.inFinally = true := by
  induction steps with
  | refl => exact ⟨h, f⟩
  | tail _ last ih =>
    obtain ⟨a, coop, hst⟩ := last
    exact ⟨.step a ih.1 (coop.timely ih.1 ih.2 hst) hst, (inFinally_step hst).1 ih.2⟩

/-! ## What the supervisor has done -/

/-- The slots whose sentinel is still to be sent. -/
def remaining (s : Supervised) : List String :=
  match s.point with
  | .draining rest => rest
  | _ => []

structure Dismissed (cfg : SupervisorConfig) (s : Supervised) : Prop where
  names : ∀ w ∈ s.remaining, w ∈ cfg.workerIds
  notified : ∀ w ∈ cfg.workerIds, w ∉ s.remaining → s.runtime.Notified w
  terminated : s.point = .joining → s.runnerStopped = true

theorem dismissed (h : (supervised cfg).Reachable s) (f : s.inFinally = true) :
    s.Dismissed cfg := by
  refine h.invariant (P := fun s => s.inFinally = true → s.Dismissed cfg) ?_ ?_ f
  · rintro _ rfl f
    simp [start, inFinally] at f
  · intro s a t hs ih _ hst f
    have o := ProcessRuntime.overseen (reachable_runtime hs)
    cases step_inv hst with
    | signalSupervisor | brokerExit => exact { ih f with }
    | signalBroker => exact { ih f with terminated := fun _ => rfl }
    | signalInEvent => simp [inFinally] at f
    | acts _ b r ha hr =>
      have d := ih f
      refine { d with notified := fun w hw hrest => ?_ }
      refine (d.notified w hw hrest).step o (ProcessRuntime.step_inv hr) (ha.frame hr).1 ?_
      rintro v rfl
      cases ha
    | supervisor exitCode _ hsup =>
      cases hsup with
      | stopSeen | brokerGone =>
        exact ⟨fun w hw => hw, fun w hw hrest => absurd hw hrest, by simp⟩
      | drained hp =>
        have d := ih (by simp [inFinally, hp])
        exact ⟨by simp [remaining], fun w hw _ => d.notified w hw (by simp [remaining, hp]),
          by simp⟩
      | stopSkipped v rest hp hclosed =>
        have d := ih (by simp [inFinally, hp])
        obtain ⟨slot, hslot, closed⟩ := hclosed
        refine ⟨fun w hw => d.names w ?_, fun w hw hrest => ?_, by simp⟩
        · simp only [remaining, hp]
          exact List.mem_cons_of_mem v hw
        · by_cases hv : w = v
          · subst hv
            intro slot' hslot'
            obtain rfl : slot = slot' := by simpa [hslot] using hslot'
            simp only [executorEndClosed, Bool.and_eq_true] at closed
            exact .inl (ProcessRuntime.gone_of_exited closed.1)
          · exact d.notified w hw (by simpa [remaining, hp, hv] using hrest)
      | stopSent v rest r hp hr =>
        have d := ih (by simp [inFinally, hp])
        refine ⟨fun w hw => d.names w ?_, fun w hw hrest => ?_, by simp⟩
        · simp only [remaining, hp]
          exact List.mem_cons_of_mem v hw
        · have st := ProcessRuntime.step_inv hr
          have slots : r.slots = s.runtime.slots := by cases st; rfl
          by_cases hv : w = v
          · subst hv
            intro slot hslot
            cases st with
            | stopSent _ slot' hslot' =>
              have same : slot' = slot := by simpa [ProcessRuntime.setPipe, hslot'] using hslot
              subst same
              exact .inr (by simp [ProcessRuntime.setPipe])
          · have before := d.notified w hw (by simpa [remaining, hp, hv] using hrest)
            exact before.step o st slots (by simp)
      | terminated hp =>
        have d := ih (by simp [inFinally, hp])
        exact ⟨by simp [remaining], fun w hw _ => d.notified w hw (by simp [remaining, hp]),
          fun _ => rfl⟩
      | joined hp =>
        have d := ih (by simp [inFinally, hp])
        exact ⟨by simp [remaining], fun w hw _ => d.notified w hw (by simp [remaining, hp]),
          by simp⟩
      | _ => simp [inFinally] at f

/-! ## The supervisor comes to join its children -/

theorem supervisor_drains (h : (supervised cfg).Guarded Timely s) {rest : List String}
    (hp : s.point = .draining rest) :
    ∃ t, (supervised cfg).Steps Cooperative s t ∧ t.point = .joining := by
  have one : ∀ {s t : Supervised}, s.supervisorStep cfg none = some t →
      (supervised cfg).Steps Cooperative s t := fun hst => .single ⟨.supervisor none, trivial, hst⟩
  induction rest generalizing s with
  | nil =>
    refine ⟨{ s with runnerStopped := true, point := .joining }, ?_, rfl⟩
    have first : s.supervisorStep cfg none = some { s with point := .terminating } := by
      simp [supervisorStep, hp]
    exact (one first).trans (one rfl)
  | cons w rest ih =>
    have f : s.inFinally = true := by simp [inFinally, hp]
    have hw : w ∈ cfg.workerIds := (dismissed h.reachable f).names w (by simp [remaining, hp])
    obtain ⟨slot, hslot⟩ := ProcessRuntime.slots_isSome (reachable_runtime h.reachable) hw
    obtain ⟨u, hst, hu⟩ : ∃ u, s.supervisorStep cfg none = some u ∧ u.point = .draining rest := by
      by_cases closed : s.executorEndClosed (w, slot.generation) = true
      · exact ⟨_, by simp [supervisorStep, hp, hslot, closed]; rfl, rfl⟩
      · exact ⟨_, by simp [supervisorStep, hp, hslot, closed, lift, ProcessRuntime.step]; rfl, rfl⟩
    obtain ⟨t, steps, ht⟩ := ih (guarded_of_cooperative h f (one hst)).1 hu
    exact ⟨t, (one hst).trans steps, ht⟩

/-! ## The executors exit -/

theorem executor_exits (h : (supervised cfg).Guarded Timely s) (hp : s.point = .joining)
    {slot : SupervisedSlot} (hslot : s.runtime.slots w = some slot) :
    ∃ t, (supervised cfg).Steps Cooperative s t ∧ t.point = .joining ∧
      t.runtime.slots = s.runtime.slots ∧ t.runtime.exited (w, slot.generation) = true ∧
      ∀ q, s.runtime.exited q = true → t.runtime.exited q = true := by
  have hr := reachable_runtime h.reachable
  have hw : w ∈ cfg.workerIds := ProcessRuntime.slots_configured hr hslot
  obtain ⟨e, he⟩ := Option.isSome_iff_exists.mp ((ProcessRuntime.named hr).spawned w slot hslot)
  refine Machine.Steps.by_rank (n := e.rank (s.runtime.pipes (w, slot.generation)))
    (P := fun n u => (supervised cfg).Guarded Timely u ∧ u.point = .joining ∧
      u.runtime.slots = s.runtime.slots ∧
      (∀ q, s.runtime.exited q = true → u.runtime.exited q = true) ∧
      ∃ e, u.runtime.executors (w, slot.generation) = some e ∧
        e.rank (u.runtime.pipes (w, slot.generation)) = n)
    ⟨h, hp, rfl, fun _ => id, e, he, rfl⟩ ?_
  rintro n u ⟨hu, hp, slots, kept, e, he, rfl⟩
  by_cases dead : e.phase = .dead
  · exact .inl ⟨hp, slots, ProcessRuntime.exited_iff.mpr ⟨e, he, dead⟩, kept⟩
  have told : e.phase = .receiving →
      (u.runtime.pipes (w, slot.generation)).toExecutor ≠ [] := by
    intro receiving
    have notified := (dismissed hu.reachable (by simp [inFinally, hp])).notified w hw
      (by simp [remaining, hp])
    obtain ⟨d, hd, gone⟩ | waits := notified slot (slots ▸ hslot)
    · obtain rfl : e = d := by simpa [he] using hd
      simp [Executor.Gone, receiving] at gone
    · exact List.ne_nil_of_mem waits
  obtain ⟨x, r, e', proper, hst, runs, -, same, he', nearer⟩ := executor_moves cfg he dead told
  refine .inr ⟨.executor (w, slot.generation) x, _, proper, hst, .inr ⟨_, nearer, ?_, hp,
    same.trans slots, fun q hq => ?_, e', he', rfl⟩⟩
  · exact .step (.executor (w, slot.generation) x) hu (timely_of_proper proper) hst
  · exact exited_step (reachable_runtime hu.reachable) hst (kept q hq)

theorem executors_exit (h : (supervised cfg).Guarded Timely s) (hp : s.point = .joining) :
    ∃ t, (supervised cfg).Steps Cooperative s t ∧ t.point = .joining ∧
      ∀ q, (t.runtime.executors q).isSome → t.runtime.exited q = true := by
  have some : ∀ l : List String, ∃ t, (supervised cfg).Steps Cooperative s t ∧ t.point = .joining ∧
      ∀ w ∈ l, ∀ slot, t.runtime.slots w = some slot →
        t.runtime.exited (w, slot.generation) = true := by
    intro l
    induction l with
    | nil => exact ⟨s, .refl, hp, by simp⟩
    | cons w l ih =>
      obtain ⟨u, steps, hu, gone⟩ := ih
      have hu' := (guarded_of_cooperative h (by simp [inFinally, hp]) steps).1
      cases hslot : u.runtime.slots w with
      | none =>
        refine ⟨u, steps, hu, fun v hv slot hv' => ?_⟩
        obtain rfl | hv := List.mem_cons.mp hv
        · simp [hslot] at hv'
        · exact gone v hv slot hv'
      | some slot =>
        obtain ⟨t, more, ht, slots, exited, kept⟩ := executor_exits hu' hu hslot
        refine ⟨t, steps.trans more, ht, fun v hv slot' hv' => ?_⟩
        rw [slots] at hv'
        obtain rfl | hv := List.mem_cons.mp hv
        · obtain rfl : slot = slot' := by simpa [hslot] using hv'
          exact exited
        · exact kept _ (gone v hv slot' hv')
  obtain ⟨t, steps, ht, gone⟩ := some cfg.workerIds
  have hr := reachable_runtime
    (guarded_of_cooperative h (by simp [inFinally, hp]) steps).1.reachable
  refine ⟨t, steps, ht, fun q hq => ?_⟩
  by_contra live
  obtain ⟨slot, hslot, newest, -⟩ :=
    ProcessRuntime.newest hr q hq (Bool.eq_false_of_not_eq_true live)
  have exited := gone q.1 (ProcessRuntime.slots_configured hr hslot) slot hslot
  rw [← newest] at exited
  exact live exited

/-! ## The calls return -/

/-- With every executor gone, a call that waits finds a message or an end of file. -/
theorem ready_of_gone (h : (supervised cfg).Guarded Timely s) (hp : s.point = .joining)
    (gone : ∀ q, (s.runtime.executors q).isSome → s.runtime.exited q = true)
    (alive : s.brokerAlive = true) (hc : s.runtime.dispatch.calls i = some c) : s.Ready c := by
  intro l hl
  have hw : s.Waiting i c l := ⟨alive, hc, hl⟩
  have hr := reachable_runtime h.reachable
  obtain ⟨hname, hexec, -⟩ := ProcessRuntime.lease_overseen hr hc hw.held
  have exited := gone _ hexec
  have closed : s.runtime.ReportedExit l.connection → s.executorEndClosed l.connection = true := by
    intro reported
    obtain closed | ⟨rest, _, hpoint, _⟩ := released h.reachable reported
    · simp [executorEndClosed, exited, closed]
    · simp [hp] at hpoint
  cases (heeded h).attended i c l hw with
  | answered answered =>
    obtain ⟨m, hm, -⟩ := answered
    exact .inl (List.ne_nil_of_mem hm)
  | endOfFile eof =>
    simp only [Supervised.endOfFile, Bool.and_eq_true] at eof
    exact .inr eof.2
  | ahead _ ahead => simp [Supervised.ahead, hp] at ahead
  | working working =>
    obtain ⟨e, he, alive, -⟩ := working
    obtain ⟨d, hd, dead⟩ := ProcessRuntime.exited_iff.mp exited
    obtain rfl : e = d := by simpa [he] using hd
    exact absurd (.inr dead) alive
  | superseded superseded =>
    refine .inr (closed ?_)
    obtain reported | ⟨g, connection, hlt, hev⟩ := superseded
    · exact hname ▸ reported
    · have o := ProcessRuntime.overseen hr
      obtain ⟨-, spawned⟩ := (ProcessRuntime.named hr).started _ _ _ hev
      obtain ⟨-, slot, hslot, hle⟩ := o.spawned _ spawned
      have young := (o.spawned _ hexec).1
      rw [hname] at young ⊢
      exact o.exited _ slot hslot young (.inl (hlt.trans_le hle))

/-- Only finitely many calls have begun. -/
theorem calls_finite (h : (supervised cfg).Reachable s) :
    ∃ n, ∀ i, n ≤ i → s.runtime.dispatch.calls i = none := by
  refine h.invariant (P := fun s => ∃ n, ∀ i, n ≤ i → s.runtime.dispatch.calls i = none) ?_ ?_
  · rintro _ rfl
    exact ⟨0, fun i _ => rfl⟩
  · rintro s a t _ ⟨n, hn⟩ _ hst
    obtain same | ⟨b, st⟩ := step_runtime hst
    · exact ⟨n, same ▸ hn⟩
    have update : ∀ {i x}, (∀ j, t.runtime.dispatch.calls j =
        Function.update s.runtime.dispatch.calls i x j) →
        ∃ n, ∀ i, n ≤ i → t.runtime.dispatch.calls i = none := by
      intro i x hcalls
      refine ⟨max n (i + 1), fun j hj => ?_⟩
      have hij : j ≠ i := by omega
      rw [hcalls, Function.update_of_ne hij]
      exact hn j (by omega)
    generalize t.runtime = r at st update
    cases ProcessRuntime.step_inv st with
    | begin | call | sent | received => exact update fun j => rfl
    | _ => exact ⟨n, hn⟩

theorem calls_return (h : (supervised cfg).Guarded Timely s) (hp : s.point = .joining)
    (gone : ∀ q, (s.runtime.executors q).isSome → s.runtime.exited q = true)
    (alive : s.brokerAlive = true) :
    ∃ t, (supervised cfg).Steps Cooperative s t ∧ t.point = .joining ∧
      (∀ q, (t.runtime.executors q).isSome → t.runtime.exited q = true) ∧
      ∀ i c, t.runtime.dispatch.calls i = some c → c.phase.isReturned = true := by
  have upTo : ∀ n, ∃ t, (supervised cfg).Steps Cooperative s t ∧ t.point = .joining ∧
      t.brokerAlive = true ∧ t.runtime.executors = s.runtime.executors ∧
      (∀ i c, i < n → t.runtime.dispatch.calls i = some c → c.phase.isReturned = true) ∧
      ∀ i, s.runtime.dispatch.calls i = none → t.runtime.dispatch.calls i = none := by
    intro n
    induction n with
    | zero => exact ⟨s, .refl, hp, alive, rfl, by simp, fun _ => id⟩
    | succ n ih =>
      obtain ⟨u, steps, hu, halive, hexec, returned, fresh⟩ := ih
      obtain ⟨hu', f⟩ := guarded_of_cooperative h (by simp [inFinally, hp]) steps
      cases hc : u.runtime.dispatch.calls n with
      | none =>
        refine ⟨u, steps, hu, halive, hexec, fun i c hi hc' => ?_, fresh⟩
        obtain hlt | rfl := Nat.lt_succ_iff_lt_or_eq.mp hi
        · exact returned i c hlt hc'
        · simp [hc] at hc'
      | some c =>
        have gone' : ∀ q, (u.runtime.executors q).isSome → u.runtime.exited q = true := by
          intro q hq
          rw [hexec] at hq
          simpa [ProcessRuntime.exited, hexec] using gone q hq
        obtain ⟨t, more, c', moved, done⟩ := call_returns cfg halive hc (calls_sent hu' f halive hc)
          (ready_of_gone hu' hu gone' halive hc)
        refine ⟨t, steps.trans more, moved.point.trans hu, moved.alive.trans halive,
          moved.executors.trans hexec, fun i d hi hd => ?_, fun i hi => ?_⟩
        · by_cases hin : i = n
          · subst hin
            obtain rfl : c' = d := by simpa [moved.calls] using hd
            exact done
          · refine returned i d (by omega) ?_
            simpa [moved.calls, hin] using hd
        · have hin : i ≠ n := by
            rintro rfl
            simp [fresh i hi] at hc
          simpa [moved.calls, hin] using fresh i hi
  obtain ⟨n, hn⟩ := calls_finite h.reachable
  obtain ⟨t, steps, ht, -, hexec, returned, fresh⟩ := upTo n
  refine ⟨t, steps, ht, fun q hq => ?_, fun i c hc => ?_⟩
  · rw [hexec] at hq
    simpa [ProcessRuntime.exited, hexec] using gone q hq
  · refine returned i c (Nat.lt_of_not_le fun hi => ?_) hc
    simp [fresh i (hn i hi)] at hc

/-! ## The end -/

/-- From every state of the `finally` block the shutdown can come to its end. -/
theorem shutdown_ends (h : (supervised cfg).Guarded Timely s) (f : s.inFinally = true) :
    ∃ t, (supervised cfg).Steps Cooperative s t ∧ t.point = .finished := by
  have join : ∀ {s : Supervised}, (supervised cfg).Guarded Timely s → s.point = .joining →
      ∃ t, (supervised cfg).Steps Cooperative s t ∧ t.point = .finished := by
    intro s h hp
    obtain ⟨u, steps, hu, gone⟩ := executors_exit h hp
    have hu' := (guarded_of_cooperative h (by simp [inFinally, hp]) steps).1
    have finish : ∀ {v : Supervised}, v.point = .joining → v.brokerAlive = false →
        (∀ q, (v.runtime.executors q).isSome → v.runtime.exited q = true) →
        (supervised cfg).Guarded Timely v →
        ∃ t, (supervised cfg).Steps Cooperative v t ∧ t.point = .finished := by
      intro v hv dead gone hg
      have all : v.joined cfg = true := by
        simp only [joined, dead, Bool.not_false, Bool.true_and, List.all_eq_true]
        intro w hw
        have hr := reachable_runtime hg.reachable
        obtain ⟨slot, hslot⟩ := ProcessRuntime.slots_isSome hr hw
        simpa [hslot] using gone _ ((ProcessRuntime.named hr).spawned w slot hslot)
      refine ⟨{ v with point := .finished }, .single ⟨.supervisor none, trivial, ?_⟩, rfl⟩
      simp [supervised, step, supervisorStep, hv, all]
    cases alive : u.brokerAlive with
    | false =>
      obtain ⟨t, more, ht⟩ := finish hu alive gone hu'
      exact ⟨t, steps.trans more, ht⟩
    | true =>
      obtain ⟨v, more, hv, gone', returned⟩ := calls_return hu' hu gone alive
      have hv' := guarded_of_cooperative hu' (by simp [inFinally, hu]) more
      have terminated := (dismissed hv'.1.reachable hv'.2).terminated hv
      have exits : (supervised cfg).Steps Cooperative v { v with brokerAlive := false } :=
        .single ⟨.brokerExit, ⟨terminated, returned⟩, rfl⟩
      obtain ⟨t, last, ht⟩ := finish (v := { v with brokerAlive := false }) hv rfl gone'
        (guarded_of_cooperative hv'.1 hv'.2 exits).1
      exact ⟨t, ((steps.trans more).trans exits).trans last, ht⟩
  cases hp : s.point with
  | draining rest =>
    obtain ⟨u, steps, hu⟩ := supervisor_drains h hp
    obtain ⟨t, more, ht⟩ := join (guarded_of_cooperative h f steps).1 hu
    exact ⟨t, steps.trans more, ht⟩
  | terminating =>
    have one : (supervised cfg).Steps Cooperative s
        { s with runnerStopped := true, point := .joining } :=
      .single ⟨.supervisor none, trivial, by simp [supervised, step, supervisorStep, hp]⟩
    obtain ⟨t, more, ht⟩ := join (guarded_of_cooperative h f one).1 rfl
    exact ⟨t, one.trans more, ht⟩
  | joining => exact join h hp
  | finished => exact ⟨s, .refl, hp⟩
  | _ => simp [inFinally, hp] at f

/-- Before `stop` is set, only releases and signals can be untimely. -/
theorem timely_of_running (hstop : s.stop = false) (f : s.inFinally = false)
    (hrelease : ∀ i, a ≠ .call i .lockRelease) (hsignal : a ≠ .signalSupervisor)
    (outside : a ≠ .signalInEvent) : s.Timely a where
  outside := outside
  release _ i ha := absurd ha (hrelease i)
  stops ha := absurd ha hsignal
  crashes running := by simp [hstop] at running
  signals running := by simp [hstop] at running
  sends running := by simp [hstop] at running
  enters running := by simp [hstop] at running
  begins inside := by simp [f] at inside

/-- Call 0 sends its assignment, and the executor receives it. -/
def workingSchedule : List SupervisedAction :=
  leasingSchedule ++ .call 0 .sendOk :: [.test, .poll true, .recv].map (.executor ("w", 1))

def working : Supervised := (supervised oneSupervisor).follow (.start oneSupervisor) workingSchedule

/-- A signal sets `stop`, and the loop test finds it. -/
def stopping : Supervised :=
  (supervised oneSupervisor).follow working [.signalSupervisor, .supervisor none]

theorem working_timely : (supervised oneSupervisor).Guarded Timely working := by
  refine Machine.Guarded.follow_of (P := fun s => s.stop = false ∧ s.inFinally = false)
    (.init rfl) ⟨rfl, rfl⟩ workingSchedule (fun a ha s hs => ?_) (fun a ha s t hs hst => ?_)
  · simp only [workingSchedule, leasingSchedule, List.map_cons, List.map_nil, List.cons_append,
      List.nil_append, List.mem_cons, List.not_mem_nil, or_false] at ha
    refine timely_of_running hs.1 hs.2 ?_ ?_ ?_ <;> rcases ha with rfl | rfl | rfl | rfl | rfl |
      rfl | rfl | rfl <;> simp
  · simp only [workingSchedule, leasingSchedule, List.map_cons, List.map_nil, List.cons_append,
      List.nil_append, List.mem_cons, List.not_mem_nil, or_false] at ha
    have acts : t.stop = s.stop ∧ t.point = s.point := by
      cases step_inv hst with
      | acts => exact ⟨rfl, rfl⟩
      | _ => simp at ha
    simpa [inFinally, acts.1, acts.2] using hs

theorem stopping_timely : (supervised oneSupervisor).Guarded Timely stopping := by
  have alone : ∀ {i c}, working.runtime.dispatch.calls i = some c → c.phase.sent = true := by
    rintro (_ | i) c hc
    · cases hc
      rfl
    · cases hc
  have inLoop : ∀ e, working.runtime.executors ("w", 1) = some e → ¬ e.Gone ∧
      e.shutdownRequested = false := by
    rintro e he
    cases he
    exact ⟨by simp [Executor.Gone], rfl⟩
  have signalled : (supervised oneSupervisor).Guarded Timely
      ((supervised oneSupervisor).follow working [.signalSupervisor]) := by
    refine .step .signalSupervisor working_timely ⟨by simp, by simp, ?_, by simp, by simp, by simp,
      by simp, by simp⟩ rfl
    rintro - - (_ | i) c l ⟨-, hc, hw⟩
    · cases hc
      cases hw
      refine ⟨?_, fun e he flag => ?_⟩
      · rintro ⟨⟨e, he, gone⟩, -⟩
        exact absurd gone (inLoop e he).1
      · simp [(inLoop e he).2] at flag
    · cases hc
  refine .step (.supervisor none) signalled ⟨by simp, by simp, by simp, by simp, by simp, by simp,
    ?_, by simp⟩ rfl
  exact fun _ _ _ _ _ i c hc => alone hc

/-- The supervisor finds the executor alive, the executor crashes in the task, and a signal
sets `stop` behind the pass over the executors. -/
def crashSchedule : List SupervisedAction :=
  List.replicate 3 (.supervisor none) ++ [.executor ("w", 1) .crash, .signalSupervisor] ++
    List.replicate 3 (.supervisor none)

def stranded : Supervised := (supervised oneSupervisor).follow working crashSchedule

/-- What never changes from there on while the broker lives. -/
structure Stuck (s : Supervised) : Prop where
  point : (∃ rest, s.point = .draining rest) ∨ s.point = .terminating ∨ s.point = .joining
  slots : s.runtime.slots = stranded.runtime.slots
  executors : ∀ p e, s.runtime.executors p = some e → e.phase = .dead
  silent : s.runtime.dispatch.emitted = [] ∧ s.runtime.dispatch.broker.executorEventQueue = []
  table : s.runtime.dispatch.broker.table = stranded.runtime.dispatch.broker.table
  unanswered : (s.runtime.pipes ("w", 1)).toBroker = []
  held : s.executorConnections ("w", 1) = true
  idle : ∀ i c, s.runtime.dispatch.calls i = some c → c.event = none ∧
    (c.phase = .leaseDrain ∨ c.phase = .leaseGet ∨ c.phase = .waitDrain onlyLease ∨
      c.phase = .waitCheck onlyLease ∨ c.phase = .waitPoll onlyLease)
  waiting : ∃ c, s.runtime.dispatch.calls 0 = some c ∧ c.phase.waiting = some onlyLease

theorem reachable_stranded : (supervised oneSupervisor).Reachable stranded :=
  Machine.Guarded.follow (Machine.Reachable.follow rfl) crashSchedule fun _ _ _ => trivial

theorem stuck_stranded : stranded.Stuck := by
  refine ⟨.inl ⟨["w"], rfl⟩, rfl, ?_, ⟨rfl, rfl⟩, rfl, rfl, rfl, ?_, ⟨_, rfl, rfl⟩⟩
  · intro p e he
    have o := ProcessRuntime.overseen (reachable_runtime reachable_stranded)
    obtain ⟨hone, slot, hslot, hle⟩ := o.spawned p (by simp [he])
    have hw : p.1 = "w" ∧ slot = {} := by
      change (if p.1 ∈ ["w"] then some {} else none) = some slot at hslot
      split at hslot <;> simp_all
    rw [hw.2] at hle
    obtain rfl : p = ("w", 1) := Prod.ext hw.1 (Nat.le_antisymm hle hone)
    cases he
    rfl
  · intro i c hc
    obtain _ | i := i
    · cases hc
      exact ⟨rfl, .inr (.inr (.inl rfl))⟩
    · cases hc

theorem Stuck.not_attended (h : s.Stuck) : ¬ s.Attended c onlyLease := by
  have hslot : s.runtime.slots "w" = some ⟨1, .running⟩ := by
    rw [h.slots]
    rfl
  intro attended
  cases attended with
  | working hwork =>
    obtain ⟨e, he, alive, -⟩ := hwork
    exact alive (.inr (h.executors _ e he))
  | answered hanswer =>
    obtain ⟨m, hm, -⟩ := hanswer
    simp [onlyLease, h.unanswered] at hm
  | superseded hsup =>
    rcases hsup with ⟨code, hev⟩ | ⟨g, connection, -, hev⟩ <;> simp [h.silent.1] at hev
  | ahead _ hahead =>
    rcases h.point with ⟨rest, hp⟩ | hp | hp <;> simp [Supervised.ahead, hp] at hahead
  | endOfFile heof =>
    simp [Supervised.endOfFile, executorEndClosed, onlyLease, h.held] at heof

theorem Stuck.idle_call (h : s.Stuck) {x : CallAction} {b : Broker SlotPipe}
    (hc : s.runtime.dispatch.calls i = some c) (allowed : s.pipeAllows c x = true)
    (hcall : CallStep none s.runtime.dispatch.broker c x b c') :
    b = s.runtime.dispatch.broker ∧ c'.event = none ∧ (c'.phase.waiting = c.phase.waiting) ∧
      (c'.phase = .leaseDrain ∨ c'.phase = .leaseGet ∨ c'.phase = .waitDrain onlyLease ∨
        c'.phase = .waitCheck onlyLease ∨ c'.phase = .waitPoll onlyLease) := by
  obtain ⟨hevent, hphase⟩ := h.idle i c hc
  have running : s.runtime.dispatch.broker.table.slotGenerationExited "w" 1 = false := by
    rw [h.table]
    rfl
  have empty : s.runtime.dispatch.broker.table.availableSlots = [] := by
    rw [h.table]
    rfl
  have opened : s.executorEndClosed ("w", 1) = false := by simp [executorEndClosed, h.held]
  cases hcall with
  | handleEvent ev hev => simp [hevent] at hev
  | popEvent q ev rest _ _ hqueue => simp [h.silent.2] at hqueue
  | drained q _ hq =>
    refine ⟨rfl, hevent, (Phase.drained_waiting hq).1, ?_⟩
    rcases hphase with hp | hp | hp | hp | hp <;> simp [hp, Phase.drained] at hq <;> simp [← hq]
  | getSlot w rest _ _ hqueue => simp [empty] at hqueue
  | getEmpty _ hp => exact ⟨rfl, hevent, by simp [hp, Phase.waiting], .inl rfl⟩
  | exited m _ hp hexit =>
    obtain rfl : m = onlyLease := by simpa [hp] using hphase
    exact absurd hexit (by simp [onlyLease, running])
  | running m _ hp =>
    obtain rfl : m = onlyLease := by simpa [hp] using hphase
    exact ⟨rfl, hevent, by simp [hp, Phase.waiting], by simp⟩
  | poll ready m _ hp =>
    obtain rfl : m = onlyLease := by simpa [hp] using hphase
    cases ready with
    | true => simp [pipeAllows, hp, onlyLease, h.unanswered, opened] at allowed
    | false => exact ⟨rfl, hevent, by simp [hp, Phase.waiting], by simp⟩
  | deadline m seconds _ _ htimeout => cases htimeout
  | recvBroken m _ hp =>
    obtain hp | hp := hp
    · obtain rfl : m = onlyLease := by simpa [hp] using hphase
      simp [pipeAllows, hp, onlyLease, opened] at allowed
    · simp [hp] at hphase
  | leased _ _ _ _ hp | refused _ _ hp | sendOk _ _ hp | sendBroken _ _ hp | recv _ _ _ hp
  | markExited _ _ hp | released _ _ _ hp => simp [hp] at hphase

theorem Stuck.step (h : s.Stuck) (hst : s.step oneSupervisor a = some t)
    (alive : t.brokerAlive = true) : t.Stuck := by
  obtain ⟨w₀, hw₀, hwaiting⟩ := h.waiting
  cases step_inv hst with
  | signalSupervisor | signalBroker => exact { h with }
  | signalInEvent inside =>
    rcases h.point with ⟨rest, hp⟩ | hp | hp <;> simp [inEvent, hp] at inside
  | brokerExit => cases alive
  | supervisor exitCode _ hsup =>
    have outside : ∀ {q}, s.point = q → (∀ rest, q ≠ .draining rest) → q ≠ .terminating →
        q ≠ .joining → False := by
      rintro q rfl hd ht hj
      obtain ⟨rest, hp⟩ | hp | hp := h.point
      · exact hd rest hp
      · exact ht hp
      · exact hj hp
    cases hsup with
    | drained => exact { h with point := .inr (.inl rfl) }
    | stopSkipped w rest => exact { h with point := .inl ⟨rest, rfl⟩ }
    | terminated => exact { h with point := .inr (.inr rfl) }
    | joined _ all =>
      -- the broker is not joined while it lives
      have alive : s.brokerAlive = true := alive
      simp [joined, alive] at all
    | stopSent w rest r hp hr =>
      cases ProcessRuntime.step_inv hr with
      | stopSent _ slot hslot =>
        refine { h with point := .inl ⟨rest, rfl⟩, unanswered := ?_ }
        by_cases hq : ("w", 1) = (w, slot.generation)
        · simpa [ProcessRuntime.setPipe, ← hq] using h.unanswered
        · simpa [ProcessRuntime.setPipe, hq] using h.unanswered
    | stopSeen hp | loopEntered hp | brokerFound hp | brokerGone hp | passed hp
    | exitReported _ _ _ _ hp | executorFound _ _ _ hp | closed _ _ _ hp | brokenOff _ _ hp
    | respawned _ _ _ _ hp | startReported _ _ _ hp | waited hp =>
      exact (outside hp (by simp) (by simp) (by simp)).elim
  | acts _ b r ha hr =>
    cases ProcessRuntime.step_inv hr with
    | begin j attempt executionId hnone =>
      have hj : j ≠ 0 := by
        rintro rfl
        simp [hw₀] at hnone
      refine { h with idle := ?_, waiting := ⟨w₀, by simp [hj.symm, hw₀], hwaiting⟩ }
      intro k d hd
      by_cases hk : k = j
      · subst hk
        simp only [Function.update_self, Option.some.injEq] at hd
        subst hd
        exact ⟨rfl, .inl rfl⟩
      · exact h.idle k d (by simpa [hk] using hd)
    | call j x c b' c' hc hsend hcall =>
      cases ha with
      | call _ _ d _ hd allowed =>
        obtain rfl : c = d := by simpa [hc] using hd
        obtain ⟨rfl, hevent, hsame, hphase⟩ := h.idle_call hc allowed hcall
        refine { h with idle := ?_, waiting := ?_ }
        · intro k e he
          obtain ⟨rfl, rfl⟩ | ⟨-, he⟩ := ProcessRuntime.setCall_calls he
          · exact ⟨hevent, hphase⟩
          · exact h.idle k e he
        · by_cases hj : j = 0
          · subst hj
            obtain rfl : c = w₀ := by simpa [hw₀] using hc.symm
            exact ⟨c', ProcessRuntime.setCall_self, hsame.trans hwaiting⟩
          · exact ⟨w₀, by simp [ProcessRuntime.setCall, Dispatch.withCall, Ne.symm hj, hw₀],
              hwaiting⟩
    | sent j c l hc _ hphase =>
      have := (h.idle j c hc).2
      simp [hphase] at this
    | received j c l m rest hc _ hphase =>
      have := (h.idle j c hc).2
      simp [hphase] at this
    | executor p x e e' pipe he hstep =>
      have dead := h.executors p e he
      have gone : e.Gone := .inr dead
      have dead' : e'.phase = .dead := by
        cases hstep with
        | broken hp => rcases hp with hp | hp <;> simp [dead] at hp
        | _ => simp_all
      obtain ⟨-, -, -, rfl⟩ := gone.step hstep
      refine { h with executors := ?_, unanswered := ?_ }
      · intro q d hd
        by_cases hq : q = p
        · subst hq
          simp only [Function.update_self, Option.some.injEq] at hd
          exact hd ▸ dead'
        · exact h.executors q d (by simpa [hq] using hd)
      · simpa [ProcessRuntime.setPipe] using h.unanswered
    | exitReported | respawned | startReported | stopSent => cases ha

/-- The supervisor finds the executor alive, and a signal comes in its `stop.wait(0.5)`. -/
def signalledInWait : Supervised := (supervised oneSupervisor).follow (.start oneSupervisor)
  (List.replicate 4 (.supervisor none) ++ [.signalInEvent])

theorem deadlocked_step (hp : s.point = .deadlocked) (hst : s.step cfg a = some t) :
    t.point = .deadlocked := by
  cases step_inv hst with
  | signalInEvent => rfl
  | supervisor exitCode _ hsup => cases hsup <;> simp_all
  | _ => exact hp

end Supervised

end Perago.ConductorRuntime
