import Perago.ConductorRuntime.Attribution

/-!
# What is in flight on a pipe

The execution ids on a pipe, from the assignments not yet read, through the
executor's hands, to the completions not yet received. In a run without stale
releases, and as long as no completion deadline passes, a pipe carries nothing
but the execution of the call that waits on it.
-/

namespace Perago.ConductorRuntime

open Perago.Transition

/-! ## Execution ids on a pipe -/

def BrokerMessage.executionIds : BrokerMessage → List String
  | .completion m => [m.executionId]
  | .invalid => []

def ExecutorMessage.executionIds : ExecutorMessage → List String
  | .assignment a => [a.executionId]
  | .stopProcessExecutor | .invalid => []

def ExecutorPhase.inHand : ExecutorPhase → List String
  | .executing a | .sending a _ => [a.executionId]
  | _ => []

def Pipe.unread (p : Pipe) : List String := p.toExecutor.flatMap ExecutorMessage.executionIds

def Pipe.undelivered (p : Pipe) : List String := p.toBroker.flatMap BrokerMessage.executionIds

/-- What an executor was sent and its broker has not received, oldest first. -/
def Executor.flight (e : Executor) (p : Pipe) : List String :=
  p.undelivered ++ (e.phase.inHand ++ p.unread)

theorem ExecutorStep.flight {p p' : Pipe} {e e' : Executor} {a : ExecutorAction}
    (h : ExecutorStep p e a p' e') : e'.flight p' = e.flight p ∨
      e'.Gone ∧ (e'.flight p').Sublist (e.flight p) := by
  have dropped : ∀ hand : List String,
      (p.undelivered ++ ([] ++ p.unread)).Sublist (p.undelivered ++ (hand ++ p.unread)) := by
    intro hand
    exact List.Sublist.append_left (List.Sublist.append_right (List.nil_sublist _) _) _
  cases h with
  | sendBroken b r => exact .inr ⟨.inl rfl, dropped _⟩
  | crash => exact .inr ⟨.inr rfl, dropped _⟩
  | signal => exact .inl rfl
  | poll ready hp =>
    cases ready <;> exact .inl (by simp [Executor.flight, ExecutorPhase.inHand, hp])
  | broken hp =>
    rcases hp with hp | hp <;> exact .inl (by simp [Executor.flight, ExecutorPhase.inHand, hp])
  | consume b rest hp hpipe =>
    left
    simp [Executor.flight, Pipe.unread, Pipe.undelivered, ExecutorPhase.inHand, hp, hpipe,
      ExecutorMessage.executionIds]
  | stop rest hp hpipe | skip rest hp hpipe =>
    left
    simp [Executor.flight, Pipe.unread, Pipe.undelivered, ExecutorPhase.inHand, hp, hpipe,
      ExecutorMessage.executionIds]
  | sendOk b r hp =>
    left
    simp [Executor.flight, Pipe.unread, Pipe.undelivered, ExecutorPhase.inHand, hp,
      BrokerMessage.executionIds, completionOf]
  | shutdown hp | enter hp | finish b r hp | exit hp =>
    exact .inl (by simp [Executor.flight, ExecutorPhase.inHand, hp])

/-! ## Phases of a call that leases a pipe -/

/-- The lease of a call that waits in `_wait_for_completion`. -/
def Phase.waiting {κ : Type} : Phase κ → Option (Lease κ)
  | .waitDrain l | .waitCheck l | .waitPoll l | .waitRecv l => some l
  | _ => none

/-- The lease of a call that is settled and about to release its slot. -/
def Phase.releasing {κ : Type} : Phase κ → Option (Lease κ)
  | .releaseDrain l _ | .releaseLock l _ => some l
  | _ => none

theorem Phase.lease_of_waiting {κ : Type} {p : Phase κ} {l : Lease κ} (h : p.waiting = some l) :
    p.lease = some l := by
  cases p <;> simp_all [Phase.waiting, Phase.lease]

theorem Phase.lease_of_releasing {κ : Type} {p : Phase κ} {l : Lease κ}
    (h : p.releasing = some l) : p.lease = some l := by
  cases p <;> simp_all [Phase.releasing, Phase.lease]

theorem Phase.held_of_past {κ : Type} {p : Phase κ} {l : Lease κ} (h : p.past = some l) :
    p.held = some l := by
  cases p <;> simp_all [Phase.past, Phase.held]

theorem Phase.drained_waiting {κ : Type} {p q : Phase κ} (h : p.drained = some q) :
    q.waiting = p.waiting ∧ q.releasing = p.releasing := by
  cases p <;> simp only [Phase.drained, Option.some.injEq, reduceCtorEq] at h <;> subst h <;>
    exact ⟨rfl, rfl⟩

namespace ProcessRuntime

variable {cfg : ProcessRuntimeConfig} {s t : ProcessRuntime} {p : SlotPipe}
variable {timeout : Option Nat} {a : RuntimeAction}

def flight (s : ProcessRuntime) (p : SlotPipe) : List String :=
  match s.executors p with
  | some e => e.flight (s.pipes p)
  | none => []

/-- The executor of the pipe has left its loop. -/
def Gone (s : ProcessRuntime) (p : SlotPipe) : Prop := ∃ e, s.executors p = some e ∧ e.Gone

/-! ## Runs without stale releases -/

/-- The step begins no call with a used execution id and is no stale release. -/
def Serial (s : ProcessRuntime) (a : RuntimeAction) : Prop :=
  s.FreshExecutionId a ∧ ∀ i, a = .call i .lockRelease → ¬ s.dispatch.view.StaleRelease i

theorem refines_dispatch : (processRuntime cfg).Refines Serial (dispatchMachine cfg.dispatch)
    NoStaleRelease (·.dispatch) := by
  refine ⟨?_, ?_⟩
  · rintro _ rfl
    rfl
  · intro s a t _ hok hst
    refine (step_dispatch hst).imp_right fun ⟨b, hb, hrel⟩ => ⟨b, ?_, hb⟩
    exact fun i hi => hok.2 i (hrel i hi)

/-- Events and slots name a pipe by its worker id and generation, and every pipe
ever named has an executor. -/
structure Named (cfg : ProcessRuntimeConfig) (s : ProcessRuntime) : Prop where
  started : ∀ w g c, .started w g c ∈ s.dispatch.emitted →
    c = (w, g) ∧ (s.executors (w, g)).isSome
  initial : ∀ w ∈ cfg.workerIds, (s.executors (w, 1)).isSome
  spawned : ∀ w slot, s.slots w = some slot → (s.executors (w, slot.generation)).isSome

theorem Step.executors_isSome (h : Step timeout s a t) (hp : (s.executors p).isSome) :
    (t.executors p).isSome := by
  cases h with
  | executor q a e e' pipe =>
    by_cases hq : p = q
    · simp [hq]
    · simpa [setPipe, hq] using hp
  | respawned w g =>
    by_cases hq : p = (w, g + 1)
    · simp [setSlot, spawn, hq]
    · simpa [setSlot, spawn, hq] using hp
  | _ => exact hp

theorem Named.start (cfg : ProcessRuntimeConfig) : (ProcessRuntime.start cfg).Named cfg := by
  refine ⟨by simp [ProcessRuntime.start, Dispatch.start], ?_, ?_⟩
  · intro w hw
    simp [ProcessRuntime.start, hw]
  · intro w slot hslot
    simp only [ProcessRuntime.start] at hslot ⊢
    split at hslot <;> cases hslot
    simp_all

theorem Named.step (h : s.Named cfg) (st : Step timeout s a t) : t.Named cfg := by
  have kept : ∀ w slot phase, s.slots w = some slot → ∀ v x,
      Function.update s.slots w (some ⟨slot.generation, phase⟩) v = some x →
        (s.executors (v, x.generation)).isSome := by
    intro w slot phase hslot v x hx
    by_cases hv : v = w
    · subst hv
      simp only [Function.update_self, Option.some.injEq] at hx
      subst hx
      exact h.spawned v slot hslot
    · exact h.spawned v x (by simpa [hv] using hx)
  refine ⟨?_, fun w hw => st.executors_isSome (h.initial w hw), ?_⟩
  · intro w g c hev
    have old : .started w g c ∈ s.dispatch.emitted →
        c = (w, g) ∧ (t.executors (w, g)).isSome :=
      fun hmem => ⟨(h.started w g c hmem).1, st.executors_isSome (h.started w g c hmem).2⟩
    cases st with
    | exitReported v k code =>
      simp only [setSlot, emit, List.mem_append, List.mem_singleton, reduceCtorEq, or_false] at hev
      exact old hev
    | startReported v k hslot =>
      simp only [setSlot, emit, List.mem_append, List.mem_singleton] at hev
      obtain hev | hev := hev
      · exact old hev
      · cases hev
        exact ⟨rfl, h.spawned w ⟨g, .respawned⟩ hslot⟩
    | _ => exact old hev
  · intro w slot hslot
    cases st with
    | exitReported v k code hv => exact kept v _ _ hv w slot hslot
    | startReported v k hv => exact kept v _ _ hv w slot hslot
    | respawned v k hv =>
      by_cases hw : w = v
      · subst hw
        simp only [setSlot, Function.update_self, Option.some.injEq] at hslot
        subst hslot
        simp [setSlot, spawn]
      · have hslot : s.slots w = some slot := by simpa [setSlot, spawn, hw] using hslot
        have hp : (w, slot.generation) ≠ (v, k + 1) := fun hp => hw (Prod.mk.inj hp).1
        simpa [setSlot, spawn, hp] using h.spawned w slot hslot
    | executor q a e e' pipe he hstep =>
      exact (Step.executor q a e e' pipe he hstep : Step timeout s _ _).executors_isSome
        (h.spawned w slot hslot)
    | _ => exact h.spawned w slot hslot

theorem named (h : (processRuntime cfg).Reachable s) : s.Named cfg := by
  refine h.invariant (P := Named cfg) ?_ fun s a t _ hs _ hst => hs.step (step_inv hst)
  rintro _ rfl
  exact .start cfg

/-- A connection is the pipe of the generation it was announced for. -/
theorem Named.origin (n : s.Named cfg) {w : String} {g : Nat}
    (h : s.dispatch.Origin cfg.dispatch w g p) : p = (w, g) ∧ (s.executors p).isSome := by
  obtain hslot | hev := h
  · simp only [ProcessRuntimeConfig.dispatch, List.mem_map, Prod.mk.injEq] at hslot
    obtain ⟨w, hw, rfl, rfl, rfl⟩ := hslot
    exact ⟨rfl, n.initial w hw⟩
  · obtain ⟨rfl, hp⟩ := n.started w g p hev
    exact ⟨rfl, hp⟩

/-- What the layers below know of a run without stale releases. -/
structure Facts (cfg : ProcessRuntimeConfig) (s : ProcessRuntime) : Prop where
  traced : s.Traced
  named : s.Named cfg
  exclusive : s.dispatch.view.Exclusive
  capacity : s.dispatch.view.Capacity
  announced : s.dispatch.Announced cfg.dispatch
  known : s.dispatch.LeasesKnown cfg.dispatch

theorem facts (h : (processRuntime cfg).Guarded Serial s) : s.Facts cfg := by
  have worker := refines_dispatch.guarded h
  have known := Dispatch.leasesKnown worker.reachable
  refine ⟨traced (h.mono fun _ _ hok => hok.1), named h.reachable, Dispatch.exclusive worker, ?_,
    known.1, known.2⟩
  refine worker.reachable.invariant (P := fun s : Dispatch SlotPipe => s.view.Capacity) ?_ ?_
  · rintro _ rfl
    exact .init cfg.dispatch
  · exact fun s a t _ hs _ hst => hs.step (Dispatch.step_view hst)

namespace Facts

variable {i j : Nat} {c d : ExecuteCall SlotPipe} {l m : Lease SlotPipe} {w : String} {g : Nat}

theorem origin_named (f : s.Facts cfg) (h : s.dispatch.Origin cfg.dispatch w g p) :
    p = (w, g) ∧ (s.executors p).isSome :=
  f.named.origin h

theorem held_named (f : s.Facts cfg) (hc : s.dispatch.calls i = some c)
    (hl : c.phase.held = some l) :
    l.connection = (l.workerId, l.generation) ∧ (s.executors l.connection).isSome :=
  f.origin_named (f.known.origin i c l hc hl)

/-- An open connection is the pipe of its slot's current generation. -/
theorem connection_named (f : s.Facts cfg)
    (h : s.dispatch.broker.table.connection w = some p) :
    p = (w, p.2) ∧ s.dispatch.broker.table.generation w = some p.2 := by
  cases hg : s.dispatch.broker.table.generation w with
  | none => simp_all [SlotTable.connection, SlotTable.generation]
  | some g =>
    obtain ⟨rfl, -⟩ := f.origin_named (f.announced.connected w g p h hg)
    exact ⟨rfl, rfl⟩

/-- Only one call leases a pipe. -/
theorem lease_unique (f : s.Facts cfg) (hc : s.dispatch.calls i = some c)
    (hl : c.phase.lease = some l) (hd : s.dispatch.calls j = some d)
    (hm : d.phase.lease = some m) (same : l.connection = m.connection) : i = j := by
  by_contra hij
  have hln := (f.held_named hc (Phase.held_of_lease hl)).1
  have hmn := (f.held_named hd (Phase.held_of_lease hm)).1
  rw [hln, hmn, Prod.mk.injEq] at same
  refine f.exclusive.excl i j l m hij ?_ ?_ same.1 same.2
  · simp [Dispatch.view, hc, hl]
  · simp [Dispatch.view, hd, hm]

end Facts

/-! ## Quiescence -/

/-- A completion deadline passed for some call that leased the pipe. -/
def DeadlinePassed (s : ProcessRuntime) (p : SlotPipe) : Prop :=
  ∃ i c l, s.dispatch.calls i = some c ∧ c.phase.outcome = some (l, .deadline) ∧
    l.connection = p

/-- The pipe carries at most the execution of the call that waits on it. -/
structure Quiescent (s : ProcessRuntime) (p : SlotPipe) : Prop where
  idle : s.dispatch.broker.table.connection p.1 = some p →
    (∀ i c l, s.dispatch.calls i = some c → c.phase.lease = some l → l.connection ≠ p) →
      s.flight p = []
  unsent : ∀ i c l, s.dispatch.calls i = some c → c.phase = .send l → l.connection = p →
    s.flight p = []
  waiting : ∀ i c l, s.dispatch.calls i = some c → c.phase.waiting = some l →
    l.connection = p → s.flight p = [c.executionId] ∨ s.flight p = [] ∧ s.Gone p
  releasing : ∀ i c l, s.dispatch.calls i = some c → c.phase.releasing = some l →
    l.connection = p → s.dispatch.broker.table.connection l.workerId = some p → s.flight p = []

/-- Whatever is in flight on a pipe was dispatched by a call that leased it. -/
theorem Facts.flight_dispatched (f : s.Facts cfg) {x : String} (hx : x ∈ s.flight p) :
    ∃ i c l, s.dispatch.calls i = some c ∧ c.phase.past = some l ∧ l.connection = p ∧
      x = c.executionId := by
  have dispatched : ∀ a, s.Dispatched p a → x = a.executionId → ∃ i c l,
      s.dispatch.calls i = some c ∧ c.phase.past = some l ∧ l.connection = p ∧
        x = c.executionId := by
    rintro a ⟨i, c, l, hc, hl, hp, rfl⟩ hx
    exact ⟨i, c, l, hc, hl, hp, hx⟩
  unfold flight at hx
  split at hx
  · rename_i e he
    have ordered := f.traced.ordered p e he
    simp only [Executor.flight, List.mem_append, Pipe.undelivered, Pipe.unread,
      List.mem_flatMap] at hx
    obtain ⟨y, hy, hx⟩ | hx | ⟨y, hy, hx⟩ := hx
    · obtain ⟨m, rfl, e', he', hm⟩ := f.traced.delivered p y hy
      obtain rfl : e = e' := by simpa [he] using he'
      obtain ⟨⟨a, r⟩, har, rfl⟩ := List.mem_map.mp (ordered.sent.subset hm)
      have consumed := ordered.produced.subset (List.mem_map.mpr ⟨(a, r), har, rfl⟩)
      exact dispatched a (f.traced.consumed p e a he consumed) (List.mem_singleton.mp hx)
    · cases hp : e.phase with
      | executing a =>
        have consumed : a ∈ e.consumed := by simp [(ordered.executing a hp).1]
        exact dispatched a (f.traced.consumed p e a he consumed)
          (by simpa [hp, ExecutorPhase.inHand] using hx)
      | sending a r =>
        have produced : completionOf (a, r) ∈ e.produced.map completionOf := by
          simp [(ordered.sending a r hp).2]
        obtain ⟨⟨b, r'⟩, hbr, heq⟩ := List.mem_map.mp produced
        have same : b.executionId = a.executionId :=
          congrArg ProcessTaskCompletion.executionId heq
        have consumed := ordered.produced.subset (List.mem_map.mpr ⟨(b, r'), hbr, rfl⟩)
        refine dispatched b (f.traced.consumed p e b he consumed) ?_
        rw [same]
        simpa [hp, ExecutorPhase.inHand] using hx
      | _ => simp [hp, ExecutorPhase.inHand] at hx
    · cases y with
      | assignment a =>
        exact dispatched a (f.traced.unread p a hy) (List.mem_singleton.mp hx)
      | stopProcessExecutor | invalid => cases hx
  · cases hx

/-- Nothing is in flight on a pipe newer than its slot's generation. -/
theorem Facts.flight_new (f : s.Facts cfg) {g : Nat}
    (hg : s.dispatch.broker.table.generation p.1 = some g) (newer : g < p.2) :
    s.flight p = [] := by
  refine List.eq_nil_iff_forall_not_mem.mpr fun x hx => ?_
  obtain ⟨i, c, l, hc, hl, rfl, -⟩ := f.flight_dispatched hx
  have held := Phase.held_of_past hl
  obtain ⟨g', hg', hle⟩ := f.known.bound i c l hc held
  rw [(f.held_named hc held).1] at hg newer
  rw [hg] at hg'
  have := Option.some.inj hg'
  dsimp only at newer
  omega

/-- A pipe open after a call step was open before, or it is newer than its slot. -/
theorem Facts.connection_before (f : s.Facts cfg) {i : Nat} {c c' : ExecuteCall SlotPipe}
    {b' : Broker SlotPipe} {w : String} {a : CallAction} (hc : s.dispatch.calls i = some c)
    (hcall : CallStep timeout s.dispatch.broker c a b' c')
    (hp : b'.table.connection w = some p) :
    s.dispatch.broker.table.connection w = some p ∨
      ∃ g, s.dispatch.broker.table.generation w = some g ∧ g < p.2 := by
  obtain ⟨slot, hslot, -⟩ := Option.bind_eq_some_iff.mp hp
  have hg : b'.table.generation w = some slot.generation := by
    simp [SlotTable.generation, hslot]
  obtain ⟨before, -⟩ | ⟨hev, g, hgen, hlt⟩ := (callStep_effect hcall.callStep).origin hp hg
  · exact .inl before
  · obtain ⟨rfl, -⟩ := f.named.started w _ p (f.announced.inHand i c _ hc hev)
    exact .inr ⟨g, hgen, hlt⟩

theorem setCall_calls {i j : Nat} {b : Broker SlotPipe} {c d : ExecuteCall SlotPipe}
    (h : (s.setCall i b c).dispatch.calls j = some d) :
    j = i ∧ d = c ∨ j ≠ i ∧ s.dispatch.calls j = some d := by
  by_cases hj : j = i
  · subst hj
    simp only [setCall, Dispatch.withCall, Function.update_self, Option.some.injEq] at h
    exact .inl ⟨rfl, h.symm⟩
  · exact .inr ⟨hj, by simpa [setCall, Dispatch.withCall, hj] using h⟩

/-- A step that leaves the worker alone and only drains the pipe, by the loss of its
executor if it loses anything. -/
theorem Quiescent.of_same (q : s.Quiescent p) (hcalls : t.dispatch.calls = s.dispatch.calls)
    (htable : t.dispatch.broker.table = s.dispatch.broker.table) (hgone : s.Gone p → t.Gone p)
    (hflight : t.flight p = s.flight p ∨ t.Gone p ∧ (t.flight p).Sublist (s.flight p)) :
    t.Quiescent p := by
  have empty : s.flight p = [] → t.flight p = [] := by
    intro h
    obtain hf | ⟨-, hf⟩ := hflight
    · exact hf.trans h
    · exact List.sublist_nil.mp (h ▸ hf)
  refine ⟨?_, ?_, ?_, ?_⟩
  · rw [hcalls, htable]
    exact fun hopen none => empty (q.idle hopen none)
  · rw [hcalls]
    exact fun i c l hc hp hl => empty (q.unsent i c l hc hp hl)
  · rw [hcalls]
    intro i c l hc hp hl
    obtain hf | ⟨hf, gone⟩ := q.waiting i c l hc hp hl
    · obtain hf' | ⟨gone, hf'⟩ := hflight
      · exact .inl (hf'.trans hf)
      · rw [hf] at hf'
        obtain hf' | hf' := List.sublist_singleton.mp hf'
        · exact .inr ⟨hf', gone⟩
        · exact .inl hf'
    · exact .inr ⟨empty hf, hgone gone⟩
  · rw [hcalls, htable]
    exact fun i c l hc hp hl hopen => empty (q.releasing i c l hc hp hl hopen)

section Call

variable {i : Nat} {a : CallAction} {c c' : ExecuteCall SlotPipe} {b' : Broker SlotPipe}
variable (q : s.Quiescent p) (f : s.Facts cfg) (hc : s.dispatch.calls i = some c)
variable (hcall : CallStep timeout s.dispatch.broker c a b' c')

include f hc hcall

/-- A call that leases an open pipe is not of an older generation than the pipe. -/
theorem Facts.open_before {j : Nat} {d : ExecuteCall SlotPipe} {l : Lease SlotPipe}
    (hd : s.dispatch.calls j = some d) (hl : d.phase.held = some l) (hp : l.connection = p)
    (hopen : b'.table.connection l.workerId = some p) :
    s.dispatch.broker.table.connection l.workerId = some p := by
  refine (f.connection_before hc hcall hopen).resolve_right ?_
  rintro ⟨g, hg, hlt⟩
  obtain ⟨g', hg', hle⟩ := f.known.bound j d l hd hl
  rw [hg] at hg'
  have := Option.some.inj hg'
  rw [← hp, (f.held_named hd hl).1] at hlt
  dsimp only at hlt
  omega

include q

theorem Quiescent.call_idle (hopen : b'.table.connection p.1 = some p)
    (none : ∀ j d l, (s.setCall i b' c').dispatch.calls j = some d → d.phase.lease = some l →
      l.connection ≠ p) : s.flight p = [] := by
  obtain wasOpen | ⟨g, hg, hlt⟩ := f.connection_before hc hcall hopen
  · by_cases mine : ∃ l, c.phase.lease = some l ∧ l.connection = p
    · obtain ⟨l, hl, rfl⟩ := mine
      have dropped : c'.phase.lease ≠ some l := fun hl' =>
        none i c' l (by simp [setCall, Dispatch.withCall]) hl' rfl
      have workerId : l.connection.1 = l.workerId :=
        congrArg Prod.fst (f.held_named hc (Phase.held_of_lease hl)).1
      cases hcall with
      | released m o _ hphase =>
        obtain rfl : m = l := by simpa [hphase, Phase.lease] using hl
        exact q.releasing i c m hc (by simp [hphase, Phase.releasing]) rfl (workerId ▸ wasOpen)
      | drained r _ hr => exact absurd ((Phase.drained_lease hr).1 ▸ hl) dropped
      | poll ready m _ hphase => cases ready <;> simp_all [Phase.lease]
      | recvBroken m _ hphase => rcases hphase with hphase | hphase <;> simp_all [Phase.lease]
      | handleEvent | popEvent => exact absurd hl dropped
      | _ => simp_all [Phase.lease]
    · refine q.idle wasOpen fun j d l hd hl hp => ?_
      by_cases hj : j = i
      · subst hj
        obtain rfl : c = d := by simpa [hc] using hd
        exact mine ⟨l, hl, hp⟩
      · exact none j d l (by simpa [setCall, Dispatch.withCall, hj] using hd) hl hp
  · exact f.flight_new hg hlt

theorem Quiescent.call_unsent {l : Lease SlotPipe} (hphase : c'.phase = .send l)
    (hp : l.connection = p) : s.flight p = [] := by
  cases hcall with
  | handleEvent | popEvent => exact q.unsent i c l hc hphase hp
  | leased w m table _ hw hlease =>
    obtain rfl : m = l := by simpa using hphase
    obtain ⟨rfl, hg, hopen, ha, -⟩ := SlotTable.leaseSlotLocked_some hlease
    subst hp
    obtain ⟨hname, -⟩ := f.connection_named hopen
    have workerId : m.connection.1 = m.workerId := congrArg Prod.fst hname
    refine q.idle (by rw [workerId]; exact hopen) fun k e n he hn hsame => ?_
    -- the slot was available, so no call leases its generation
    have hnamed := (f.held_named he (Phase.held_of_lease hn)).1
    rw [hsame, hname, Prod.mk.injEq] at hnamed
    have leased : s.dispatch.view.leaseOf k = some n := by simp [Dispatch.view, he, hn]
    refine f.exclusive.idle k n leased (hnamed.1 ▸ ha) ?_
    rw [← hnamed.1, ← hnamed.2]
    exact (f.connection_named hopen).2
  | drained r _ hr =>
    have := (Phase.drained_lease hr).1
    cases hcp : c.phase <;> simp_all [Phase.drained]
  | poll ready m => cases ready <;> simp at hphase
  | _ => simp at hphase

omit f in
theorem Quiescent.call_waiting {l : Lease SlotPipe} (hsend : a ≠ .sendOk)
    (hw : c'.phase.waiting = some l) (hp : l.connection = p) :
    s.flight p = [c'.executionId] ∨ s.flight p = [] ∧ s.Gone p := by
  have same := hcall.assignment
  simp only [ExecuteCall.assignment, ProcessTaskAssignment.mk.injEq] at same
  rw [same.2]
  have waited : c.phase.waiting = some l := by
    cases hcall with
    | handleEvent | popEvent => exact hw
    | drained r _ hr => exact (Phase.drained_waiting hr).1 ▸ hw
    | poll ready m _ hphase => cases ready <;> simp_all [Phase.waiting]
    | recvBroken m => simp [Phase.waiting] at hw
    | sendOk => exact absurd rfl hsend
    | _ => simp_all [Phase.waiting]
  exact q.waiting i c l hc waited hp

theorem Quiescent.call_releasing {l : Lease SlotPipe} (hrecv : ∀ m, a ≠ .recv m)
    (left : a = .deadline → c.phase = .waitPoll l → l.connection = p → s.flight p = [])
    (hr : c'.phase.releasing = some l) (hp : l.connection = p)
    (hopen : b'.table.connection l.workerId = some p) : s.flight p = [] := by
  have wasOpen : c.phase.held = some l →
      s.dispatch.broker.table.connection l.workerId = some p :=
    fun held => f.open_before hc hcall hc held hp hopen
  have kept : c.phase.releasing = some l → s.flight p = [] := fun hr =>
    q.releasing i c l hc hr hp (wasOpen (Phase.held_of_lease (Phase.lease_of_releasing hr)))
  have named : c.phase.held = some l → p = (l.workerId, l.generation) :=
    fun held => hp ▸ (f.held_named hc held).1
  cases hcall with
  | handleEvent | popEvent => exact kept hr
  | drained r _ hdrained => exact kept ((Phase.drained_waiting hdrained).2 ▸ hr)
  | exited m _ hphase hexit =>
    -- the check failed, so the pipe is not open
    obtain rfl : m = l := by simpa [Phase.releasing] using hr
    obtain ⟨hname, hg⟩ := f.connection_named hopen
    have hnamed := named (by simp [hphase, Phase.held])
    rw [hname, Prod.mk.injEq] at hnamed
    rw [← hnamed.2] at hexit
    have closed := f.known.closed.not_open hexit hg
    exact absurd (closed.symm.trans hopen) (by simp)
  | deadline m seconds _ hphase =>
    obtain rfl : m = l := by simpa [Phase.releasing] using hr
    exact left rfl hphase hp
  | recv m => exact absurd rfl (hrecv m)
  | markExited m _ hphase =>
    obtain rfl : m = l := by simpa [Phase.releasing] using hr
    have held : c.phase.held = some m := by simp [hphase, Phase.held]
    obtain ⟨hname, hg⟩ := f.connection_named (wasOpen held)
    have hnamed := named held
    rw [hname, Prod.mk.injEq] at hnamed
    obtain ⟨hne, -⟩ | ⟨-, hconn, -⟩ :=
      s.dispatch.broker.table.markSlotExited_cases m.workerId m.generation
    · exact absurd (hnamed.2 ▸ hg) hne
    · simp [hconn] at hopen
  | poll ready m => cases ready <;> simp [Phase.releasing] at hr
  | _ => simp [Phase.releasing] at hr

/-- A step of a call, apart from sending and receiving, leaves the pipe as it is. -/
theorem Quiescent.call (hsend : a ≠ .sendOk) (hrecv : ∀ m, a ≠ .recv m)
    (left : ∀ l, a = .deadline → c.phase = .waitPoll l → l.connection = p → s.flight p = []) :
    (s.setCall i b' c').Quiescent p := by
  have flight : (s.setCall i b' c').flight p = s.flight p := rfl
  refine ⟨?_, ?_, ?_, ?_⟩ <;> rw [flight]
  · exact q.call_idle f hc hcall
  · intro j d l hd hphase hp
    obtain ⟨rfl, rfl⟩ | ⟨-, hd⟩ := setCall_calls hd
    · exact q.call_unsent f hc hcall hphase hp
    · exact q.unsent j d l hd hphase hp
  · intro j d l hd hw hp
    obtain ⟨rfl, rfl⟩ | ⟨-, hd⟩ := setCall_calls hd
    · exact q.call_waiting hc hcall hsend hw hp
    · exact q.waiting j d l hd hw hp
  · intro j d l hd hr hp hopen
    obtain ⟨rfl, rfl⟩ | ⟨-, hd⟩ := setCall_calls hd
    · exact q.call_releasing f hc hcall hrecv (left l) hr hp hopen
    · exact q.releasing j d l hd hr hp (f.open_before hc hcall hd
        (Phase.held_of_lease (Phase.lease_of_releasing hr)) hp hopen)

end Call

theorem flight_of_pipes {u : ProcessRuntime} (hpipe : u.pipes p = s.pipes p)
    (hexec : u.executors p = s.executors p) : u.flight p = s.flight p := by
  simp [flight, hpipe, hexec]

theorem setCall_self {i : Nat} {b : Broker SlotPipe} {c : ExecuteCall SlotPipe} :
    (s.setCall i b c).dispatch.calls i = some c := by
  simp [setCall, Dispatch.withCall]

/-- Dispatching on a pipe that was empty leaves one execution in flight. -/
theorem Quiescent.sent {i : Nat} {c : ExecuteCall SlotPipe} {l : Lease SlotPipe}
    (q : s.Quiescent p) (f : s.Facts cfg) (hc : s.dispatch.calls i = some c)
    (hphase : c.phase = .send l) :
    Quiescent ((s.setCall i s.dispatch.broker { c with phase := .waitDrain l }).setPipe l.connection
      { s.pipes l.connection with
        toExecutor := (s.pipes l.connection).toExecutor ++ [.assignment c.assignment] }) p := by
  have lease : c.phase.lease = some l := by simp [hphase, Phase.lease]
  set u := s.setCall i s.dispatch.broker { c with phase := .waitDrain l }
  by_cases hp : p = l.connection
  · -- the caller holds the only lease of the pipe
    have mine : ∀ {j d m}, u.dispatch.calls j = some d → d.phase.lease = some m →
        m.connection = p → j = i := by
      intro j d m hd hm hmp
      obtain ⟨rfl, -⟩ | ⟨-, hd⟩ := setCall_calls hd
      · rfl
      · exact f.lease_unique hd hm hc lease (hmp.trans hp)
    refine ⟨?_, ?_, ?_, ?_⟩
    · exact fun _ none => absurd hp.symm (none i _ l setCall_self rfl)
    · intro j d m hd hm hmp
      obtain rfl := mine hd (by simp [hm, Phase.lease]) hmp
      obtain rfl := Option.some.inj (setCall_self.symm.trans hd)
      cases hm
    · intro j d m hd hm hmp
      obtain rfl := mine hd (Phase.lease_of_waiting hm) hmp
      obtain rfl := Option.some.inj (setCall_self.symm.trans hd)
      left
      have was := q.unsent j c l hc hphase hp.symm
      obtain ⟨e, he⟩ := Option.isSome_iff_exists.mp
        (f.held_named hc (Phase.held_of_lease lease)).2
      rw [← hp] at he ⊢
      simp only [flight, he, Executor.flight, List.append_eq_nil_iff] at was
      simp only [flight, setPipe, u, setCall, he, Function.update_self, Executor.flight,
        Pipe.undelivered, Pipe.unread, List.flatMap_append] at was ⊢
      simp [was, ExecutorMessage.executionIds, ExecuteCall.assignment]
    · intro j d m hd hm hmp
      obtain rfl := mine hd (Phase.lease_of_releasing hm) hmp
      obtain rfl := Option.some.inj (setCall_self.symm.trans hd)
      cases hm
  · have flight : (u.setPipe l.connection { s.pipes l.connection with
        toExecutor := (s.pipes l.connection).toExecutor ++ [.assignment c.assignment] }).flight p =
          s.flight p :=
      flight_of_pipes (by simp [setPipe, u, setCall, hp]) rfl
    refine ⟨?_, ?_, ?_, ?_⟩ <;> rw [flight]
    · intro hopen none
      refine q.idle hopen fun j d m hd hm => ?_
      by_cases hj : j = i
      · subst hj
        obtain rfl : c = d := by simpa [hc] using hd
        obtain rfl : l = m := by simpa [lease] using hm
        exact fun hmp => hp hmp.symm
      · exact none j d m (by simpa [setPipe, u, setCall, Dispatch.withCall, hj] using hd) hm
    · intro j d m hd hm hmp
      obtain ⟨rfl, rfl⟩ | ⟨-, hd⟩ := setCall_calls hd
      · cases hm
      · exact q.unsent j d m hd hm hmp
    · intro j d m hd hm hmp
      obtain ⟨rfl, rfl⟩ | ⟨-, hd⟩ := setCall_calls hd
      · obtain rfl : l = m := by simpa [Phase.waiting] using hm
        exact absurd hmp.symm hp
      · exact q.waiting j d m hd hm hmp
    · intro j d m hd hm hmp
      obtain ⟨rfl, rfl⟩ | ⟨-, hd⟩ := setCall_calls hd
      · cases hm
      · exact q.releasing j d m hd hm hmp

/-- What a waiting call receives is its own execution, and it leaves the pipe empty. -/
theorem Quiescent.head (q : s.Quiescent p) (f : s.Facts cfg) {i : Nat} {c : ExecuteCall SlotPipe}
    {l : Lease SlotPipe} {x : BrokerMessage} {rest : List BrokerMessage}
    (hc : s.dispatch.calls i = some c) (hphase : c.phase = .waitRecv l) (hp : l.connection = p)
    (hpipe : (s.pipes p).toBroker = x :: rest) :
    ∃ m, x = .completion m ∧ m.executionId = c.executionId ∧ s.Completed p m ∧
      (s.setPipe p { s.pipes p with toBroker := rest }).flight p = [] := by
  obtain ⟨m, rfl, done⟩ := f.traced.delivered p x (by simp [hpipe])
  obtain ⟨e, he⟩ := Option.isSome_iff_exists.mp
    (f.held_named hc (l := l) (by simp [hphase, Phase.held])).2
  rw [hp] at he
  have split : s.flight p = m.executionId ::
      (s.setPipe p { s.pipes p with toBroker := rest }).flight p := by
    simp [flight, setPipe, he, Executor.flight, Pipe.undelivered, Pipe.unread, hpipe,
      BrokerMessage.executionIds]
  obtain hf | ⟨hf, -⟩ := q.waiting i c l hc (by simp [hphase, Phase.waiting]) hp
  · rw [split, List.cons.injEq] at hf
    exact ⟨m, rfl, hf.1, done, hf.2⟩
  · rw [split] at hf
    cases hf

theorem Quiescent.received {i : Nat} {c : ExecuteCall SlotPipe} {l : Lease SlotPipe}
    {m : BrokerMessage} {rest : List BrokerMessage} (q : s.Quiescent p) (f : s.Facts cfg)
    (hc : s.dispatch.calls i = some c) (hphase : c.phase = .waitRecv l)
    (hpipe : (s.pipes l.connection).toBroker = m :: rest) :
    Quiescent ((s.setCall i s.dispatch.broker
      { c with phase := .releaseDrain l (inspectCompletion c.attempt c.executionId m) }).setPipe
        l.connection { s.pipes l.connection with toBroker := rest }) p := by
  have lease : c.phase.lease = some l := by simp [hphase, Phase.lease]
  set u := s.setCall i s.dispatch.broker
    { c with phase := .releaseDrain l (inspectCompletion c.attempt c.executionId m) }
  by_cases hp : p = l.connection
  · subst hp
    obtain ⟨-, -, -, -, empty⟩ := q.head f hc hphase rfl hpipe
    have flight : (u.setPipe l.connection { s.pipes l.connection with
        toBroker := rest }).flight l.connection = [] := empty
    refine ⟨fun _ _ => flight, fun _ _ _ _ _ _ => flight, ?_, fun _ _ _ _ _ _ _ => flight⟩
    intro j d k hd hk hkp
    obtain ⟨rfl, rfl⟩ | ⟨hj, hd⟩ := setCall_calls hd
    · cases hk
    · exact absurd (f.lease_unique hd (Phase.lease_of_waiting hk) hc lease hkp) hj
  · have flight : (u.setPipe l.connection { s.pipes l.connection with
        toBroker := rest }).flight p = s.flight p :=
      flight_of_pipes (by simp [setPipe, u, setCall, hp]) rfl
    refine ⟨?_, ?_, ?_, ?_⟩ <;> rw [flight]
    · intro hopen none
      refine q.idle hopen fun j d k hd hk => ?_
      by_cases hj : j = i
      · subst hj
        obtain rfl : c = d := by simpa [hc] using hd
        obtain rfl : l = k := by simpa [lease] using hk
        exact fun hkp => hp hkp.symm
      · exact none j d k (by simpa [setPipe, u, setCall, Dispatch.withCall, hj] using hd) hk
    · intro j d k hd hk hkp
      obtain ⟨rfl, rfl⟩ | ⟨-, hd⟩ := setCall_calls hd
      · cases hk
      · exact q.unsent j d k hd hk hkp
    · intro j d k hd hk hkp
      obtain ⟨rfl, rfl⟩ | ⟨-, hd⟩ := setCall_calls hd
      · cases hk
      · exact q.waiting j d k hd hk hkp
    · intro j d k hd hk hkp
      obtain ⟨rfl, rfl⟩ | ⟨-, hd⟩ := setCall_calls hd
      · obtain rfl : l = k := by simpa [Phase.releasing] using hk
        exact absurd hkp.symm hp
      · exact q.releasing j d k hd hk hkp

theorem CallStep.outcome_kept {κ : Type} {b b' : Broker κ} {c c' : ExecuteCall κ} {a : CallAction}
    (h : CallStep timeout b c a b' c') {l : Lease κ} {o : Outcome}
    (ho : c.phase.outcome = some (l, o)) : c'.phase.outcome = some (l, o) := by
  cases h with
  | drained p _ hp => exact (Phase.drained_past hp).2 ▸ ho
  | handleEvent | popEvent => exact ho
  | recvBroken m _ hp => rcases hp with hp | hp <;> simp_all [Phase.outcome]
  | _ => simp_all [Phase.outcome]

theorem DeadlinePassed.step (h : s.DeadlinePassed p) (st : Step timeout s a t) :
    t.DeadlinePassed p := by
  obtain ⟨i, c, l, hc, ho, hp⟩ := h
  obtain hc' | ⟨a, b', c', hc', hcall⟩ := st.call_next hc
  · exact ⟨i, c, l, hc', ho, hp⟩
  · exact ⟨i, c', l, hc', CallStep.outcome_kept hcall ho, hp⟩

theorem Step.gone (h : Step timeout s a t) (traced : s.Traced) (gone : s.Gone p) : t.Gone p := by
  obtain ⟨e, he, hgone⟩ := gone
  obtain ⟨e', he', -, hnext⟩ := (h.grows traced).executors p e he
  exact ⟨e', he', (hnext hgone).1⟩

/-- A call that gives up at its deadline says so. -/
theorem Step.deadlinePassed {i : Nat} {c : ExecuteCall SlotPipe} {l : Lease SlotPipe}
    (h : Step timeout s (.call i .deadline) t) (hc : s.dispatch.calls i = some c)
    (hphase : c.phase = .waitPoll l) : t.DeadlinePassed l.connection := by
  cases h with
  | call _ _ d b' d' hd _ hcall =>
    obtain rfl : c = d := by simpa [hc] using hd
    cases hcall with
    | deadline m seconds _ hphase' =>
      obtain rfl : l = m := by simpa [hphase] using hphase'
      exact ⟨i, _, l, setCall_self, rfl, rfl⟩

/-- No call gives up at its deadline while its pipe carries something. -/
def NothingLeft (s : ProcessRuntime) (a : RuntimeAction) (p : SlotPipe) : Prop :=
  ∀ i c l, a = .call i .deadline → s.dispatch.calls i = some c → c.phase = .waitPoll l →
    l.connection = p → s.flight p = []

theorem Quiescent.step (q : s.Quiescent p) (f : s.Facts cfg) (st : Step timeout s a t)
    (left : s.NothingLeft a p) : t.Quiescent p := by
  have gone := st.gone f.traced (p := p)
  cases st with
  | begin i attempt executionId hnone =>
    have old : ∀ {j d l}, Function.update s.dispatch.calls i (some { attempt, executionId }) j =
        some d → d.phase.held = some l → s.dispatch.calls j = some d := by
      intro j d l hd hl
      by_cases hj : j = i
      · subst hj
        simp only [Function.update_self, Option.some.injEq] at hd
        subst hd
        cases hl
      · simpa [hj] using hd
    refine ⟨?_, ?_, ?_, ?_⟩
    · intro hopen none
      refine q.idle hopen fun j d l hd => none j d l ?_
      have hj : j ≠ i := by
        rintro rfl
        simp [hnone] at hd
      simpa [hj] using hd
    · exact fun j d l hd hl hp => q.unsent j d l (old hd (l := l) (by simp [hl, Phase.held])) hl hp
    · exact fun j d l hd hl hp =>
        q.waiting j d l (old hd (Phase.held_of_lease (Phase.lease_of_waiting hl))) hl hp
    · exact fun j d l hd hl hp hopen =>
        q.releasing j d l (old hd (Phase.held_of_lease (Phase.lease_of_releasing hl))) hl hp hopen
  | call i a c b' c' hc hsend hcall hrecv heof =>
    exact q.call f hc hcall hsend hrecv fun l ha hphase hp =>
      left i c l (congrArg _ ha) hc hphase hp
  | sent i c l hc idle hphase => exact q.sent f hc hphase
  | received i c l m rest hc idle hphase hpipe => exact q.received f hc hphase hpipe
  | executor r a e e' pipe he hstep =>
    refine q.of_same rfl rfl gone ?_
    by_cases hp : p = r
    · subst hp
      obtain hf | ⟨hgone, hf⟩ := hstep.flight
      · exact .inl (by simpa [flight, setPipe, he] using hf)
      · exact .inr ⟨⟨e', by simp, hgone⟩, by simpa [flight, setPipe, he] using hf⟩
    · exact .inl (flight_of_pipes (by simp [setPipe, hp]) (Function.update_of_ne hp ..))
  | exitReported w g code hslot hexit => exact q.of_same rfl rfl gone (.inl rfl)
  | startReported w g hslot => exact q.of_same rfl rfl gone (.inl rfl)
  | respawned w g hslot =>
    by_cases hp : p = (w, g + 1)
    · -- nobody has leased the pipe yet
      subst hp
      have empty : ((s.spawn (w, g + 1)).setSlot w ⟨g + 1, .respawned⟩).flight (w, g + 1) = [] := by
        simp [flight, spawn, setSlot, Executor.flight, Pipe.undelivered, Pipe.unread,
          ExecutorPhase.inHand]
      refine ⟨fun _ _ => empty, fun _ _ _ _ _ _ => empty, ?_, fun _ _ _ _ _ _ _ => empty⟩
      intro i c l hc hl hp
      have held := f.held_named hc (Phase.held_of_lease (Phase.lease_of_waiting hl))
      rw [hp] at held
      obtain ⟨e, he⟩ := Option.isSome_iff_exists.mp held.2
      obtain ⟨slot, hslot', hle⟩ := f.traced.spawned _ e he
      obtain rfl : slot = ⟨g, .exitReported⟩ := by simpa [hslot] using hslot'.symm
      simp at hle
    · refine q.of_same rfl rfl gone (.inl ?_)
      exact flight_of_pipes (by simp [setSlot, spawn, hp]) (by simp [setSlot, spawn, hp])
  | stopSent w slot hslot =>
    refine q.of_same rfl rfl gone (.inl ?_)
    by_cases hp : p = (w, slot.generation)
    · subst hp
      simp [flight, setPipe, Executor.flight, Pipe.undelivered, Pipe.unread,
        ExecutorMessage.executionIds]
    · exact flight_of_pipes (by simp [setPipe, hp]) rfl

theorem Quiescent.start (cfg : ProcessRuntimeConfig) (p : SlotPipe) :
    (ProcessRuntime.start cfg).Quiescent p := by
  have empty : (ProcessRuntime.start cfg).flight p = [] := by
    unfold flight ProcessRuntime.start
    dsimp only
    split
    · rename_i e he
      split at he <;> cases he
      rfl
    · rfl
  exact ⟨fun _ _ => empty, fun _ _ _ _ _ _ => empty,
    by simp [ProcessRuntime.start, Dispatch.start], fun _ _ _ _ _ _ _ => empty⟩

/-- In runs without stale releases, every pipe is quiescent until a deadline passes on it. -/
theorem quiescent (h : (processRuntime cfg).Guarded Serial s) (p : SlotPipe)
    (intime : ¬ s.DeadlinePassed p) : s.Quiescent p := by
  refine h.invariant (P := fun s => ¬ s.DeadlinePassed p → s.Quiescent p) ?_ ?_ intime
  · rintro _ rfl _
    exact .start cfg p
  · intro s a t hs q _ hst intime
    have st := step_inv hst
    refine (q fun passed => intime (passed.step st)).step (facts hs) st ?_
    rintro i c l rfl hc hphase rfl
    exact absurd (st.deadlinePassed hc hphase) intime

end ProcessRuntime

end Perago.ConductorRuntime
