import Perago.ConductorRuntime.ProcessRuntime

/-!
# Results are attributed to their calls

Every message of a pipe is traced to the call that caused it. A completion that a
call returns was made from that call's own assignment, by the executor of the
pipe it leased, whatever else is on the pipe.
-/

namespace Perago.ConductorRuntime

open Perago.Transition

variable {κ : Type}

/-! ## Calls that may have sent their assignment -/

/-- The lease of a call that is past its send. -/
def Phase.past : Phase κ → Option (Lease κ)
  | .leaseDrain | .leaseGet | .leaseLock _ | .send _ => none
  | .waitDrain l | .waitCheck l | .waitPoll l | .waitRecv l | .markExited l
  | .releaseDrain l _ | .releaseLock l _ | .returned l _ => some l

/-- How a call was settled. -/
def Phase.outcome : Phase κ → Option (Lease κ × Outcome)
  | .releaseDrain l o | .releaseLock l o | .returned l o => some (l, o)
  | _ => none

theorem Phase.past_of_outcome {p : Phase κ} {l : Lease κ} {o : Outcome}
    (h : p.outcome = some (l, o)) : p.past = some l := by
  cases p <;> simp_all [Phase.outcome, Phase.past]

theorem Phase.drained_past {p q : Phase κ} (h : p.drained = some q) :
    q.past = p.past ∧ q.outcome = p.outcome := by
  cases p <;> simp only [Phase.drained, Option.some.injEq, reduceCtorEq] at h <;> subst h <;>
    exact ⟨rfl, rfl⟩

variable {timeout : Option Nat} {b b' : Broker κ} {c c' : ExecuteCall κ} {a : CallAction}

theorem CallStep.assignment (h : CallStep timeout b c a b' c') : c'.assignment = c.assignment := by
  cases h <;> rfl

theorem CallStep.past (h : CallStep timeout b c a b' c') {l : Lease κ}
    (hl : c.phase.past = some l) : c'.phase.past = some l := by
  cases h with
  | drained p _ hp => exact (Phase.drained_past hp).1 ▸ hl
  | poll ready m => cases ready <;> simp_all [Phase.past]
  | recvBroken m _ hp => rcases hp with hp | hp <;> simp_all [Phase.past]
  | handleEvent | popEvent => exact hl
  | _ => simp_all [Phase.past]

/-- A step that settles a call anew settles it by what it received, or by a failure
of the broker's own. -/
theorem CallStep.outcome (h : CallStep timeout b c a b' c') {l : Lease κ} {o : Outcome}
    (ho : c'.phase.outcome = some (l, o)) : c.phase.outcome = some (l, o) ∨
      (∃ m, a = .recv m ∧ c.phase = .waitRecv l ∧
        o = inspectCompletion c.attempt c.executionId m) ∨
      (a = .checkExited ∧ c.phase = .waitCheck l ∧ o = .exited) ∨
      (a = .deadline ∧ c.phase = .waitPoll l ∧ o = .deadline) ∨
      (a = .lockMarkExited ∧ c.phase = .markExited l ∧ o = .brokenPipe) := by
  cases h with
  | drained p _ hp => exact .inl ((Phase.drained_past hp).2 ▸ ho)
  | poll ready m => cases ready <;> simp [Phase.outcome] at ho
  | handleEvent | popEvent => exact .inl ho
  | _ => simp_all [Phase.outcome]

namespace ProcessRuntime

variable {cfg : ProcessRuntimeConfig} {s t : ProcessRuntime}

/-! ## The invariant -/

/-- Execution ids are `uuid4` values: a call begins with one no call has had. -/
def FreshExecutionId (s : ProcessRuntime) (a : RuntimeAction) : Prop :=
  ∀ i attempt executionId, a = .begin i attempt executionId →
    ∀ j c, s.dispatch.calls j = some c → c.executionId ≠ executionId

/-- Some call that leased the pipe has sent this assignment. -/
def Dispatched (s : ProcessRuntime) (p : SlotPipe) (a : ProcessTaskAssignment) : Prop :=
  ∃ i c l, s.dispatch.calls i = some c ∧ c.phase.past = some l ∧ l.connection = p ∧
    a = c.assignment

/-- The executor of the pipe has sent this completion. -/
def Completed (s : ProcessRuntime) (p : SlotPipe) (m : ProcessTaskCompletion) : Prop :=
  ∃ e, s.executors p = some e ∧ m ∈ e.sent

structure Traced (s : ProcessRuntime) : Prop where
  fresh : ∀ i j c d, s.dispatch.calls i = some c → s.dispatch.calls j = some d →
    c.executionId = d.executionId → i = j
  unread : ∀ p a, .assignment a ∈ (s.pipes p).toExecutor → s.Dispatched p a
  consumed : ∀ p e a, s.executors p = some e → a ∈ e.consumed → s.Dispatched p a
  ordered : ∀ p e, s.executors p = some e → e.Ordered
  delivered : ∀ p x, x ∈ (s.pipes p).toBroker → ∃ m, x = .completion m ∧ s.Completed p m
  settled : ∀ i c l m, s.dispatch.calls i = some c →
    c.phase.outcome = some (l, .completion m) → m.taskId = c.attempt.taskId ∧
      m.executionId = c.executionId ∧ s.Completed l.connection m
  stopped : ∀ p e, s.executors p = some e → e.Stopped → e.Gone
  spawned : ∀ p e, s.executors p = some e →
    ∃ slot, s.slots p.1 = some slot ∧ p.2 ≤ slot.generation

/-! ## What a step keeps -/

/-- Calls stay past their sends, and executors keep what they sent. -/
structure Grows (s t : ProcessRuntime) : Prop where
  calls : ∀ i c, s.dispatch.calls i = some c → ∃ c', t.dispatch.calls i = some c' ∧
    c'.assignment = c.assignment ∧ ∀ l, c.phase.past = some l → c'.phase.past = some l
  executors : ∀ p e, s.executors p = some e → ∃ e', t.executors p = some e' ∧
    (∀ m ∈ e.sent, m ∈ e'.sent) ∧ (e.Gone → e'.Gone ∧ e'.consumed = e.consumed)

theorem Grows.dispatched (h : s.Grows t) {p : SlotPipe} {a : ProcessTaskAssignment}
    (hd : s.Dispatched p a) : t.Dispatched p a := by
  obtain ⟨i, c, l, hc, hl, hp, ha⟩ := hd
  obtain ⟨c', hc', hsame, hpast⟩ := h.calls i c hc
  exact ⟨i, c', l, hc', hpast l hl, hp, ha.trans hsame.symm⟩

theorem Grows.completed (h : s.Grows t) {p : SlotPipe} {m : ProcessTaskCompletion}
    (hd : s.Completed p m) : t.Completed p m := by
  obtain ⟨e, he, hm⟩ := hd
  obtain ⟨e', he', hsent, -⟩ := h.executors p e he
  exact ⟨e', he', hsent m hm⟩

/-- Where an executor of the next state comes from. -/
theorem Step.executor_origin {a : RuntimeAction} (h : Step timeout s a t) {p : SlotPipe}
    {e' : Executor} (he : t.executors p = some e') : s.executors p = some e' ∨ e' = {} ∨
      ∃ e a, s.executors p = some e ∧ ExecutorStep (s.pipes p) e a (t.pipes p) e' := by
  cases h with
  | executor q a e e'' pipe heq hstep =>
    by_cases hp : p = q
    · subst hp
      simp only [Function.update_self, Option.some.injEq] at he
      subst he
      exact .inr (.inr ⟨e, a, heq, by simpa [setPipe] using hstep⟩)
    · simp only [Function.update_of_ne hp] at he
      exact .inl he
  | respawned w g hslot =>
    by_cases hp : p = (w, g + 1)
    · subst hp
      simp only [setSlot, spawn, Function.update_self, Option.some.injEq] at he
      exact .inr (.inl he.symm)
    · simp only [setSlot, spawn, Function.update_of_ne hp] at he
      exact .inl he
  | _ => exact .inl he

/-- Where a call of the next state comes from. -/
theorem Step.call_origin {a : RuntimeAction} (h : Step timeout s a t) {i : Nat}
    {c' : ExecuteCall SlotPipe} (hc' : t.dispatch.calls i = some c') :
    s.dispatch.calls i = some c' ∨
      (∃ attempt executionId, a = .begin i attempt executionId ∧
        s.dispatch.calls i = none ∧ c' = { attempt, executionId }) ∨
      ∃ c a b', s.dispatch.calls i = some c ∧ CallStep timeout s.dispatch.broker c a b' c' ∧
        ∀ m l, a = .recv m → c.phase = .waitRecv l →
          (s.pipes l.connection).toBroker.head? = some m := by
  have update : ∀ {j c''}, Function.update s.dispatch.calls j (some c'') i = some c' →
      (i = j ∧ c' = c'') ∨ s.dispatch.calls i = some c' := by
    intro j c'' hupd
    by_cases hij : i = j
    · subst hij
      simp only [Function.update_self, Option.some.injEq] at hupd
      exact .inl ⟨rfl, hupd.symm⟩
    · exact .inr (by simpa [hij] using hupd)
  cases h with
  | begin j attempt executionId hnone =>
    obtain ⟨rfl, rfl⟩ | hc' := update hc'
    · exact .inr (.inl ⟨attempt, executionId, rfl, hnone, rfl⟩)
    · exact .inl hc'
  | call j a c b' c'' hc hsend hcall hrecv heof =>
    obtain ⟨rfl, rfl⟩ | hc' := update hc'
    · exact .inr (.inr ⟨c, a, b', hc, hcall, fun m _ hm => absurd hm (hrecv m)⟩)
    · exact .inl hc'
  | sent j c l hc idle hphase =>
    obtain ⟨rfl, rfl⟩ | hc' := update hc'
    · exact .inr (.inr ⟨c, _, _, hc, .sendOk l idle hphase, by simp⟩)
    · exact .inl hc'
  | received j c l m rest hc idle hphase hpipe =>
    obtain ⟨rfl, rfl⟩ | hc' := update hc'
    · refine .inr (.inr ⟨c, _, _, hc, .recv m l idle hphase, ?_⟩)
      rintro m' l' ⟨⟩ hphase'
      obtain rfl : l = l' := by simpa [hphase] using hphase'
      simp [hpipe]
    · exact .inl hc'
  | _ => exact .inl hc'

/-- Where an assignment on a pipe comes from. -/
theorem Step.unread_origin {a : RuntimeAction} (h : Step timeout s a t) {p : SlotPipe}
    {x : ProcessTaskAssignment} (hx : .assignment x ∈ (t.pipes p).toExecutor) :
    .assignment x ∈ (s.pipes p).toExecutor ∨ t.Dispatched p x := by
  cases h with
  | sent i c l hc idle hphase =>
    by_cases hp : p = l.connection
    · subst hp
      simp only [setPipe, Function.update_self, List.mem_append, List.mem_singleton,
        ExecutorMessage.assignment.injEq] at hx
      refine hx.imp_right fun hx => ?_
      exact ⟨i, { c with phase := .waitDrain l }, l, by simp [setPipe, setCall, Dispatch.withCall],
        rfl, rfl, hx⟩
    · exact .inl (by simpa [setPipe, setCall, hp] using hx)
  | received i c l m rest =>
    by_cases hp : p = l.connection
    · subst hp
      exact .inl (by simpa [setPipe] using hx)
    · exact .inl (by simpa [setPipe, setCall, hp] using hx)
  | executor q a e e' pipe heq hstep =>
    by_cases hp : p = q
    · subst hp
      simp only [setPipe, Function.update_self] at hx
      cases hstep with
      | consume b rest _ hpipe | stop rest _ hpipe | skip rest _ hpipe =>
        rw [hpipe]
        exact .inl (List.mem_cons_of_mem _ hx)
      | _ => exact .inl hx
    · exact .inl (by simpa [setPipe, hp] using hx)
  | respawned w g =>
    by_cases hp : p = (w, g + 1)
    · subst hp
      simp [setSlot, spawn] at hx
    · exact .inl (by simpa [setSlot, spawn, hp] using hx)
  | stopSent w slot =>
    by_cases hp : p = (w, slot.generation)
    · subst hp
      exact .inl (by simpa [setPipe] using hx)
    · exact .inl (by simpa [setPipe, hp] using hx)
  | begin | call | exitReported | startReported => exact .inl hx

/-- Where a message for the broker comes from. -/
theorem Step.delivered_origin {a : RuntimeAction} (h : Step timeout s a t) {p : SlotPipe}
    {x : BrokerMessage} (hx : x ∈ (t.pipes p).toBroker) :
    x ∈ (s.pipes p).toBroker ∨ ∃ m, x = .completion m ∧ t.Completed p m := by
  cases h with
  | sent i c l =>
    by_cases hp : p = l.connection
    · subst hp
      exact .inl (by simpa [setPipe] using hx)
    · exact .inl (by simpa [setPipe, setCall, hp] using hx)
  | received i c l m rest _ _ _ hpipe =>
    by_cases hp : p = l.connection
    · subst hp
      simp only [setPipe, Function.update_self] at hx
      rw [hpipe]
      exact .inl (List.mem_cons_of_mem _ hx)
    · exact .inl (by simpa [setPipe, setCall, hp] using hx)
  | executor q a e e' pipe heq hstep =>
    by_cases hp : p = q
    · subst hp
      simp only [setPipe, Function.update_self] at hx
      cases hstep with
      | sendOk b r hphase =>
        simp only [List.mem_append, List.mem_singleton] at hx
        refine hx.imp_right fun hx => ⟨_, hx, _, Function.update_self .., ?_⟩
        exact List.mem_append_right _ (List.mem_singleton_self _)
      | _ => exact .inl hx
    · exact .inl (by simpa [setPipe, hp] using hx)
  | respawned w g =>
    by_cases hp : p = (w, g + 1)
    · subst hp
      simp [setSlot, spawn] at hx
    · exact .inl (by simpa [setSlot, spawn, hp] using hx)
  | stopSent w slot =>
    by_cases hp : p = (w, slot.generation)
    · subst hp
      exact .inl (by simpa [setPipe] using hx)
    · exact .inl (by simpa [setPipe, hp] using hx)
  | begin | call | exitReported | startReported => exact .inl hx

theorem Step.call_next {a : RuntimeAction} (h : Step timeout s a t) {i : Nat}
    {c : ExecuteCall SlotPipe} (hc : s.dispatch.calls i = some c) :
    t.dispatch.calls i = some c ∨ ∃ a b' c', t.dispatch.calls i = some c' ∧
      CallStep timeout s.dispatch.broker c a b' c' := by
  have update : ∀ {j d d'}, s.dispatch.calls j = some d →
      (∃ a b', CallStep timeout s.dispatch.broker d a b' d') →
      Function.update s.dispatch.calls j (some d') i = some c ∨
        ∃ a b' c', Function.update s.dispatch.calls j (some d') i = some c' ∧
          CallStep timeout s.dispatch.broker c a b' c' := by
    rintro j d d' hd ⟨a, b', hcall⟩
    by_cases hij : i = j
    · subst hij
      obtain rfl : c = d := by simpa [hc] using hd
      exact .inr ⟨a, b', d', by simp, hcall⟩
    · exact .inl (by simpa [hij] using hc)
  cases h with
  | begin j attempt executionId hnone =>
    have hij : i ≠ j := by
      rintro rfl
      simp [hnone] at hc
    exact .inl (by simpa [hij] using hc)
  | call j a d b' d' hd hsend hcall => exact update hd ⟨a, b', hcall⟩
  | sent j d l hd idle hphase => exact update hd ⟨_, _, .sendOk l idle hphase⟩
  | received j d l m rest hd idle hphase => exact update hd ⟨_, _, .recv m l idle hphase⟩
  | _ => exact .inl hc

theorem Step.grows {a : RuntimeAction} (h : Step timeout s a t) (traced : s.Traced) :
    s.Grows t := by
  refine ⟨?_, ?_⟩
  · intro i c hc
    obtain hc' | ⟨a, b', c', hc', hcall⟩ := h.call_next hc
    · exact ⟨c, hc', rfl, fun _ hl => hl⟩
    · exact ⟨c', hc', hcall.assignment, fun _ => hcall.past⟩
  · intro p e he
    have same : t.executors p = some e → ∃ e', t.executors p = some e' ∧
        (∀ m ∈ e.sent, m ∈ e'.sent) ∧ (e.Gone → e'.Gone ∧ e'.consumed = e.consumed) :=
      fun he' => ⟨e, he', fun _ hm => hm, fun hgone => ⟨hgone, rfl⟩⟩
    cases h with
    | executor q a d e' pipe hd hstep =>
      by_cases hp : p = q
      · subst hp
        obtain rfl : e = d := by simpa [he] using hd
        refine ⟨e', by simp, fun m hm => hstep.sent.subset hm, fun hgone => ?_⟩
        exact ⟨(hgone.step hstep).1, (hgone.step hstep).2.1⟩
      · exact same (by simpa [hp, setPipe] using he)
    | respawned w g hslot =>
      -- the supervisor has never used the next generation
      have hp : p ≠ (w, g + 1) := by
        rintro rfl
        obtain ⟨slot, hslot', hle⟩ := traced.spawned _ e he
        obtain rfl : slot = ⟨g, .exitReported⟩ := by simpa [hslot] using hslot'.symm
        simp at hle
      exact same (by simpa [hp, setSlot, spawn] using he)
    | _ => exact same he

theorem Traced.start (cfg : ProcessRuntimeConfig) : (ProcessRuntime.start cfg).Traced := by
  have executors : ∀ p e, (ProcessRuntime.start cfg).executors p = some e →
      e = {} ∧ p.1 ∈ cfg.workerIds ∧ p.2 = 1 := by
    intro p e he
    simp only [ProcessRuntime.start] at he
    split at he <;> cases he
    exact ⟨rfl, by assumption⟩
  refine ⟨?_, ?_, ?_, ?_, ?_, ?_, ?_, ?_⟩
  · simp [ProcessRuntime.start, Dispatch.start]
  · simp [ProcessRuntime.start]
  · intro p e a he ha
    simp [(executors p e he).1] at ha
  · exact fun p e he => (executors p e he).1 ▸ .start
  · simp [ProcessRuntime.start]
  · simp [ProcessRuntime.start, Dispatch.start]
  · intro p e he hs
    simp [(executors p e he).1, Executor.Stopped] at hs
  · intro p e he
    obtain ⟨-, hp, hg⟩ := executors p e he
    exact ⟨{}, by simp [ProcessRuntime.start, hp], by simp [hg]⟩

theorem Step.spawned {a : RuntimeAction} (h : Step timeout s a t) (traced : s.Traced) :
    ∀ p e, t.executors p = some e → ∃ slot, t.slots p.1 = some slot ∧ p.2 ≤ slot.generation := by
  intro p e he
  have old : ∀ {w g ph ph'} {u : ProcessRuntime}, u.executors p = some e →
      (∀ q d, u.executors q = some d → ∃ slot, u.slots q.1 = some slot ∧ q.2 ≤ slot.generation) →
      u.slots w = some ⟨g, ph⟩ → ∃ slot, (u.setSlot w ⟨g, ph'⟩).slots p.1 = some slot ∧
        p.2 ≤ slot.generation := by
    intro w g ph ph' u he hu hslot
    obtain ⟨slot, hslot', hle⟩ := hu p e he
    by_cases hw : p.1 = w
    · obtain rfl : slot = ⟨g, ph⟩ := by simpa [hw, hslot] using hslot'.symm
      exact ⟨⟨g, ph'⟩, by simp [setSlot, hw], hle⟩
    · exact ⟨slot, by simpa [setSlot, hw] using hslot', hle⟩
  cases h with
  | executor q a d e' pipe hd hstep =>
    by_cases hp : p = q
    · subst hp
      exact traced.spawned p d hd
    · exact traced.spawned p e (by simpa [hp] using he)
  | exitReported w g code hslot => exact old (u := s.emit _) he traced.spawned hslot
  | startReported w g hslot => exact old (u := s.emit _) he traced.spawned hslot
  | respawned w g hslot =>
    by_cases hw : p.1 = w
    · refine ⟨⟨g + 1, .respawned⟩, by simp [setSlot, hw], ?_⟩
      by_cases hp : p = (w, g + 1)
      · simp [hp]
      · obtain ⟨slot, hslot', hle⟩ := traced.spawned p e (by simpa [setSlot, spawn, hp] using he)
        obtain rfl : slot = ⟨g, .exitReported⟩ := by simpa [hw, hslot] using hslot'.symm
        exact Nat.le_succ_of_le hle
    · have hp : p ≠ (w, g + 1) := fun hp => hw (by simp [hp])
      obtain ⟨slot, hslot', hle⟩ := traced.spawned p e (by simpa [setSlot, spawn, hp] using he)
      exact ⟨slot, by simpa [setSlot, spawn, hw] using hslot', hle⟩
  | _ => exact traced.spawned p e he

theorem inspectCompletion_completion {attempt : ConductorTaskAttempt} {executionId : String}
    {m : BrokerMessage} {r : ProcessTaskCompletion}
    (h : inspectCompletion attempt executionId m = .completion r) :
    m = .completion r ∧ r.taskId = attempt.taskId ∧ r.executionId = executionId := by
  unfold inspectCompletion at h
  split at h
  · cases h
  split at h
  · cases h
  split at h <;> cases h
  exact ⟨rfl, by simp_all, by simp_all⟩

theorem Traced.step {a : RuntimeAction} (traced : s.Traced) (fresh : s.FreshExecutionId a)
    (h : Step timeout s a t) : t.Traced := by
  have grows := h.grows traced
  refine ⟨?_, ?_, ?_, ?_, ?_, ?_, ?_, h.spawned traced⟩
  · -- a call keeps its execution id, and a new one brings a fresh id
    have origin : ∀ i c, t.dispatch.calls i = some c →
        (∃ c₀, s.dispatch.calls i = some c₀ ∧ c₀.executionId = c.executionId) ∨
          s.dispatch.calls i = none ∧ ∃ attempt, a = .begin i attempt c.executionId := by
      intro i c hc
      rcases h.call_origin hc with hc | ⟨attempt, executionId, rfl, hnone, rfl⟩ |
        ⟨c₀, a, b', hc₀, hcall, -⟩
      · exact .inl ⟨c, hc, rfl⟩
      · exact .inr ⟨hnone, attempt, rfl⟩
      · refine .inl ⟨c₀, hc₀, ?_⟩
        exact (congrArg ProcessTaskAssignment.executionId hcall.assignment).symm
    intro i j c d hc hd heq
    rcases origin i c hc with ⟨c₀, hc₀, hci⟩ | ⟨hnone, attempt, ha⟩ <;>
      obtain ⟨d₀, hd₀, hdi⟩ | ⟨hnone', attempt', ha'⟩ := origin j d hd
    · exact traced.fresh i j c₀ d₀ hc₀ hd₀ (by rw [hci, hdi, heq])
    · exact absurd (hci.trans heq) (fresh j attempt' d.executionId ha' i c₀ hc₀)
    · exact absurd (hdi.trans heq.symm) (fresh i attempt c.executionId ha j d₀ hd₀)
    · exact (RuntimeAction.begin.inj (ha.symm.trans ha')).1
  · intro p x hx
    obtain hx | hx := h.unread_origin hx
    · exact grows.dispatched (traced.unread p x hx)
    · exact hx
  · intro p e x he hx
    obtain he | rfl | ⟨e₀, a, he₀, hstep⟩ := h.executor_origin he
    · exact grows.dispatched (traced.consumed p e x he hx)
    · simp at hx
    · refine grows.dispatched ?_
      generalize t.pipes p = pipe at hstep
      cases hstep with
      | consume b rest _ hpipe =>
        obtain hx | hx := List.mem_append.mp hx
        · exact traced.consumed p e₀ x he₀ hx
        · obtain rfl := List.mem_singleton.mp hx
          exact traced.unread p x (by rw [hpipe]; exact List.mem_cons_self)
      | _ => exact traced.consumed p e₀ x he₀ hx
  · intro p e he
    obtain he | rfl | ⟨e₀, a, he₀, hstep⟩ := h.executor_origin he
    · exact traced.ordered p e he
    · exact .start
    · exact (traced.ordered p e₀ he₀).step hstep
  · intro p x hx
    obtain hx | done := h.delivered_origin hx
    · obtain ⟨m, hm, hdone⟩ := traced.delivered p x hx
      exact ⟨m, hm, grows.completed hdone⟩
    · exact done
  · intro i c l m hc ho
    rcases h.call_origin hc with hc | ⟨attempt, executionId, -, -, rfl⟩ |
      ⟨c₀, a, b', hc₀, hcall, hrecv⟩
    · obtain ⟨htask, hexec, hdone⟩ := traced.settled i c l m hc ho
      exact ⟨htask, hexec, grows.completed hdone⟩
    · simp [Phase.outcome] at ho
    · have same := hcall.assignment
      simp only [ExecuteCall.assignment, ProcessTaskAssignment.mk.injEq] at same
      rw [same.1, same.2]
      obtain ho | ⟨x, rfl, hphase, hx⟩ | ⟨-, -, ho⟩ | ⟨-, -, ho⟩ | ⟨-, -, ho⟩ := hcall.outcome ho
      · obtain ⟨htask, hexec, hdone⟩ := traced.settled i c₀ l m hc₀ ho
        exact ⟨htask, hexec, grows.completed hdone⟩
      · obtain ⟨rfl, htask, hexec⟩ := inspectCompletion_completion hx.symm
        obtain ⟨_, ⟨⟩, hdone⟩ := traced.delivered _ _ (List.mem_of_head? (hrecv _ l rfl hphase))
        exact ⟨htask, hexec, grows.completed hdone⟩
      all_goals cases ho
  · intro p e he
    obtain he | rfl | ⟨e₀, a, he₀, hstep⟩ := h.executor_origin he
    · exact traced.stopped p e he
    · simp [Executor.Stopped]
    · exact Executor.gone_of_stopped_step (traced.stopped p e₀ he₀) hstep

theorem traced (h : (processRuntime cfg).Guarded FreshExecutionId s) : s.Traced := by
  refine h.invariant (P := Traced) ?_ ?_
  · rintro _ rfl
    exact .start cfg
  · exact fun s a t _ hs fresh hst => hs.step fresh (step_inv hst)

/-! ## What the calls return -/

/-- Call `i` returned the `k`-th result that the executor of `p` produced, and that
result is for the call's own assignment. -/
def Returns (s : ProcessRuntime) (i : Nat) (p : SlotPipe) (k : Nat) : Prop :=
  ∃ c l m e, s.dispatch.calls i = some c ∧ c.phase = .returned l (.completion m) ∧
    l.connection = p ∧ s.executors p = some e ∧ e.produced[k]? = some (c.assignment, m.result)

/-- A completion that settled a call was produced from the call's assignment. -/
theorem Traced.settled_produced (traced : s.Traced) {i : Nat} {c : ExecuteCall SlotPipe}
    {l : Lease SlotPipe} {m : ProcessTaskCompletion} (hc : s.dispatch.calls i = some c)
    (ho : c.phase.outcome = some (l, .completion m)) :
    ∃ e, s.executors l.connection = some e ∧ (c.assignment, m.result) ∈ e.produced := by
  obtain ⟨-, hexec, e, he, hm⟩ := traced.settled i c l m hc ho
  obtain ⟨⟨a, r⟩, har, rfl⟩ := List.mem_map.mp ((traced.ordered _ e he).sent.subset hm)
  have consumed : a ∈ e.consumed :=
    (traced.ordered _ e he).produced.subset (List.mem_map.mpr ⟨(a, r), har, rfl⟩)
  obtain ⟨j, d, l', hd, -, -, rfl⟩ := traced.consumed _ e a he consumed
  -- only call `i` has the execution id of this assignment
  obtain rfl := traced.fresh j i d c hd hc hexec
  obtain rfl : d = c := by simpa [hd] using hc
  exact ⟨e, he, har⟩

theorem Returns.call_unique (traced : s.Traced) {i j : Nat} {p : SlotPipe} {k : Nat}
    (hi : s.Returns i p k) (hj : s.Returns j p k) : i = j := by
  obtain ⟨c, l, m, e, hc, -, -, he, hk⟩ := hi
  obtain ⟨d, l', m', e', hd, -, -, he', hk'⟩ := hj
  obtain rfl : e = e' := by simpa [he] using he'
  have same : c.assignment = d.assignment := by
    rw [hk] at hk'
    exact (Prod.mk.inj (Option.some.inj hk')).1
  exact traced.fresh i j c d hc hd (congrArg ProcessTaskAssignment.executionId same)

/-- An executor that was stopped consumes nothing in any continuation. -/
theorem stopped_consumes_nothing (h : (processRuntime cfg).Guarded FreshExecutionId s)
    (steps : (processRuntime cfg).Steps FreshExecutionId s t) {p : SlotPipe} {e : Executor}
    (he : s.executors p = some e) (hs : e.Stopped) :
    ∃ e', t.executors p = some e' ∧ e'.consumed = e.consumed := by
  have gone : ∀ p e, s.executors p = some e → e.Gone →
      ∃ e', t.executors p = some e' ∧ e'.Gone ∧ e'.consumed = e.consumed := by
    refine steps.invariant (R := fun s t : ProcessRuntime => ∀ p e, s.executors p = some e →
      e.Gone → ∃ e', t.executors p = some e' ∧ e'.Gone ∧ e'.consumed = e.consumed) h ?_ ?_ ?_
    · exact fun s p e he hgone => ⟨e, he, hgone, rfl⟩
    · intro s t u first second p e he hgone
      obtain ⟨e₁, he₁, hgone₁, hc₁⟩ := first p e he hgone
      obtain ⟨e₂, he₂, hgone₂, hc₂⟩ := second p e₁ he₁ hgone₁
      exact ⟨e₂, he₂, hgone₂, hc₂.trans hc₁⟩
    · intro s a t hs _ hst p e he hgone
      obtain ⟨e', he', -, hnext⟩ := ((step_inv hst).grows (traced hs)).executors p e he
      exact ⟨e', he', hnext hgone⟩
  obtain ⟨e', he', -, hc⟩ := gone p e he ((traced h).stopped p e he hs)
  exact ⟨e', he', hc⟩

/-- Whatever a call returns without making it itself is what an executor produced
for that call's assignment; no product is returned twice; executors send in the
order they consume; and a stopped one consumes nothing more. -/
theorem results_attributed (h : (processRuntime cfg).Guarded FreshExecutionId s) :
    (∀ i c l o, s.dispatch.calls i = some c → c.phase = .returned l o →
      (∃ m k, o = .completion m ∧ s.Returns i l.connection k) ∨
        ∃ reason, ∀ maxLength, o.result l.workerId c.attempt c.executionId maxLength =
          failedResult reason maxLength) ∧
      (∀ i j p k, s.Returns i p k → s.Returns j p k → i = j) ∧
      (∀ p e, s.executors p = some e →
        e.sent <+: e.produced.map completionOf ∧ e.produced.map Prod.fst <+: e.consumed) ∧
      ∀ t, (processRuntime cfg).Steps FreshExecutionId s t → ∀ p e, s.executors p = some e →
        e.Stopped → ∃ e', t.executors p = some e' ∧ e'.consumed = e.consumed := by
  refine ⟨?_, fun i j p k => Returns.call_unique (traced h), ?_, ?_⟩
  · intro i c l o hc hp
    cases o with
    | completion m =>
      obtain ⟨e, he, hm⟩ := (traced h).settled_produced hc (by rw [hp]; rfl)
      obtain ⟨k, hk⟩ := List.mem_iff_getElem?.mp hm
      exact .inl ⟨m, k, rfl, c, l, m, e, hc, hp, rfl, he, hk⟩
    | invalidCompletion | otherTask | otherExecution | brokenPipe | exited | deadline =>
      exact .inr ⟨_, fun _ => rfl⟩
  · exact fun p e he => ⟨((traced h).ordered p e he).sent, ((traced h).ordered p e he).produced⟩
  · exact fun t steps p e he hs => stopped_consumes_nothing h steps he hs

/-! ## A call served by an executor -/

/-- One worker id, no completion timeout. -/
def oneWorker : ProcessRuntimeConfig where
  workerIds := ["w"]
  nodup := by simp
  completionTimeoutSeconds := none

/-- Call 0 is dispatched, executed and completed. -/
def servedSchedule : List RuntimeAction :=
  [.drained, .getSlot, .lockLease, .sendOk].map (.call 0) ++
    [.test, .poll true, .recv, .finish (completedResult []), .sendOk].map (.executor ("w", 1)) ++
    [.call 0 .drained, .call 0 .checkExited, .call 0 (.poll true), .receive 0, .call 0 .drained,
      .call 0 .lockRelease]

theorem results_attributed_served : ∃ s : ProcessRuntime,
    (processRuntime oneWorker).Guarded FreshExecutionId s ∧ ∃ k, s.Returns 0 ("w", 1) k := by
  have first : (processRuntime oneWorker).Guarded FreshExecutionId
      ((processRuntime oneWorker).follow (.start oneWorker) [.begin 0 someAttempt "e0"]) := by
    refine .step (.begin 0 someAttempt "e0") (.init rfl) ?_ rfl
    intro i attempt executionId _ j c hj
    simp [ProcessRuntime.start, Dispatch.start] at hj
  have run := first.follow servedSchedule fun a ha s i attempt executionId hi => by
    subst hi
    exact absurd ha (by simp [servedSchedule])
  refine ⟨_, run, ?_⟩
  rcases (results_attributed run).1 0 _ ⟨"w", 1, "w", 1⟩
    (.completion ⟨"task", "e0", completedResult []⟩) rfl rfl with ⟨m, k, -, hk⟩ | ⟨reason, hr⟩
  · exact ⟨k, hk⟩
  · have status : TaskResultStatus.completed = .failed :=
      congrArg RuntimeTaskResult.status (hr ⟨1, le_rfl⟩)
    cases status

end ProcessRuntime

end Perago.ConductorRuntime
