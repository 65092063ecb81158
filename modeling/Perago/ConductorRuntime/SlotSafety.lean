import Perago.ConductorRuntime.Lease

/-!
# Safety of the slot protocol

What every run of the dispatch worker keeps: the accounting of its slots, and the
origin of every connection. Leases exclude each other as long as no call releases
a slot that was restarted and leased again behind its back.
-/

namespace Perago.ConductorRuntime

open Perago.Transition

variable {κ : Type} {cfg : DispatchConfig κ} {s t : Dispatch κ} {w : String} {g : Nat}

/-! ## Where connections come from -/

theorem callStep_events {timeout : Option Nat} {b b' : Broker κ} {c c' : ExecuteCall κ}
    {a : CallAction} (h : callStep timeout b c a = some (b', c')) :
    (∀ ev ∈ b'.executorEventQueue, ev ∈ b.executorEventQueue) ∧
      ∀ ev, c'.event = some ev → ev ∈ b.executorEventQueue := by
  cases callStep_inv h with
  | handleEvent => exact ⟨fun ev hev => hev, by simp⟩
  | popEvent p ev rest _ _ hq =>
    rw [hq]
    refine ⟨fun e he => List.mem_cons_of_mem _ he, fun e he => ?_⟩
    exact Option.some.inj he ▸ List.mem_cons_self
  | _ => exact ⟨fun ev hev => hev, by simp [*]⟩

/-- An open connection of a slot was there with the same generation, or the call
had the event in hand that announces both, in a newer generation. -/
theorem CallEffect.origin {b b' : Broker κ} {c c' : ExecuteCall κ} {conn : κ}
    (h : CallEffect b c b' c') (hc : b'.table.connection w = some conn)
    (hg : b'.table.generation w = some g) :
    (b.table.connection w = some conn ∧ b.table.generation w = some g) ∨
      c.event = some (.started w g conn) ∧ ∃ g', b.table.generation w = some g' ∧ g' < g := by
  have exited : ∀ u k, b'.table = b.table.markSlotExited u k →
      b.table.connection w = some conn ∧ b.table.generation w = some g := by
    intro u k ht
    rw [ht] at hc hg
    obtain ⟨-, same⟩ | ⟨-, hconn, hgen, -⟩ := b.table.markSlotExited_cases u k
    · exact ⟨same ▸ hc, same ▸ hg⟩
    · rw [hconn] at hc
      split at hc
      · cases hc
      · exact ⟨hc, hgen w ▸ hg⟩
  cases h with
  | quiet ht => exact .inl ⟨ht ▸ hc, ht ▸ hg⟩
  | event ev hev ht =>
    cases ev with
    | exited u k code => exact .inl (exited u k ht)
    | invalid =>
      rw [ht] at hc hg
      exact .inl ⟨hc, hg⟩
    | started u k conn' =>
      rw [ht, SlotTable.handleExecutorEvent] at hc hg
      rcases b.table.handleExecutorStarted_cases u k conn' with
        ⟨-, same⟩ | ⟨newer, hconn, hgen, -⟩
      · exact .inl ⟨same ▸ hc, same ▸ hg⟩
      · rw [hconn] at hc
        rw [hgen] at hg
        by_cases hw : w = u
        · subst hw
          simp only [if_true, Option.some.injEq] at hc hg
          subst hc hg
          exact .inr ⟨hev, newer⟩
        · rw [if_neg hw] at hc hg
          exact .inl ⟨hc, hg⟩
  | got u rest _ _ ht =>
    rw [ht] at hc hg
    exact .inl ⟨hc, hg⟩
  | refused u _ _ ht => exact .inl ⟨ht ▸ hc, ht ▸ hg⟩
  | leased u l _ hl =>
    obtain ⟨-, -, -, -, ht⟩ := SlotTable.leaseSlotLocked_some hl
    rw [ht] at hc hg
    exact .inl ⟨hc, hg⟩
  | markedExited l _ ht => exact .inl (exited l.workerId l.generation ht)
  | released l o _ ht => exact .inl ⟨by simpa [ht] using hc, by simpa [ht] using hg⟩

/-- The connection `w` was constructed with, or announced with, in generation `g`. -/
def Dispatch.Origin (cfg : DispatchConfig κ) (s : Dispatch κ) (w : String) (g : Nat) (c : κ) :
    Prop :=
  (w, c, g) ∈ cfg.slots.slots ∨ .started w g c ∈ s.emitted

structure Dispatch.Announced (cfg : DispatchConfig κ) (s : Dispatch κ) : Prop where
  queued : ∀ ev ∈ s.broker.executorEventQueue, ev ∈ s.emitted
  inHand : ∀ i c ev, s.calls i = some c → c.event = some ev → ev ∈ s.emitted
  connected : ∀ w g c, s.broker.table.connection w = some c →
    s.broker.table.generation w = some g → s.Origin cfg w g c

theorem Dispatch.Announced.init (cfg : DispatchConfig κ) : (Dispatch.start cfg).Announced cfg := by
  refine ⟨by simp [Dispatch.start], by simp [Dispatch.start], ?_⟩
  intro w g c hc hg
  simp only [Dispatch.start, SlotTable.connection, SlotTable.generation,
    cfg.slots.table_spec.2.2.2] at hc hg
  cases hs : cfg.slots.slots.lookup w with
  | none => simp [hs] at hc
  | some slot =>
    simp only [hs, Option.map_some, Option.bind_some, Option.some.injEq] at hc hg
    subst hc hg
    obtain ⟨before, after, hslots, -⟩ := List.lookup_eq_some_iff.mp hs
    exact .inl (by simp [hslots])

theorem Dispatch.Announced.step (h : s.Announced cfg) {a : DispatchAction κ}
    (hst : s.step cfg a = some t) : t.Announced cfg := by
  cases a with
  | emit ev =>
    cases hst
    have later : ∀ e ∈ s.emitted, e ∈ s.emitted ++ [ev] := fun e he => List.mem_append_left _ he
    refine ⟨?_, fun i c e hc he => later e (h.inHand i c e hc he), ?_⟩
    · intro e he
      obtain he | he := List.mem_append.mp he
      · exact later e (h.queued e he)
      · exact List.mem_append_right _ he
    · exact fun w g c hc hg => (h.connected w g c hc hg).imp_right fun he => later _ he
  | begin i attempt executionId =>
    simp only [Dispatch.step] at hst
    split at hst <;> cases hst
    refine ⟨h.queued, ?_, h.connected⟩
    intro j c e hc he
    by_cases hj : j = i
    · subst hj
      simp only [Function.update_self, Option.some.injEq] at hc
      subst hc
      cases he
    · exact h.inHand j c e (by simpa [hj] using hc) he
  | call i a =>
    simp only [Dispatch.step] at hst
    cases hci : s.calls i with
    | none => simp [hci] at hst
    | some c₀ =>
      simp only [hci] at hst
      obtain ⟨⟨b, c₁⟩, hcall, rfl⟩ := Option.map_eq_some_iff.mp hst
      obtain ⟨queue, hand⟩ := callStep_events hcall
      refine ⟨fun e he => h.queued e (queue e he), ?_, ?_⟩
      · intro j c e hc he
        by_cases hj : j = i
        · subst hj
          simp only [Dispatch.withCall, Function.update_self, Option.some.injEq] at hc
          subst hc
          exact h.queued e (hand e he)
        · exact h.inHand j c e (by simpa [Dispatch.withCall, hj] using hc) he
      · intro u k conn hc hg
        obtain ⟨hc, hg⟩ | ⟨hev, -⟩ := (callStep_effect hcall).origin hc hg
        · exact h.connected u k conn hc hg
        · exact .inr (h.inHand i c₀ _ hci hev)

/-! ## What a call knows of its lease -/

/-- The lease of a call, from the moment it is granted on. -/
def Phase.held : Phase κ → Option (Lease κ)
  | .leaseDrain | .leaseGet | .leaseLock _ => none
  | .send l | .waitDrain l | .waitCheck l | .waitPoll l | .waitRecv l | .markExited l
  | .releaseDrain l _ | .releaseLock l _ | .returned l _ => some l

theorem Phase.held_of_lease {p : Phase κ} {l : Lease κ} (h : p.lease = some l) :
    p.held = some l := by
  cases p <;> simp_all [Phase.lease, Phase.held]

theorem Phase.drained_held {p q : Phase κ} (h : p.drained = some q) : q.held = p.held := by
  cases p <;> simp only [Phase.drained, Option.some.injEq, reduceCtorEq] at h <;> subst h <;> rfl

theorem CallStep.held_origin {timeout : Option Nat} {b b' : Broker κ} {c c' : ExecuteCall κ}
    {a : CallAction} {l : Lease κ} (h : CallStep timeout b c a b' c')
    (hl : c'.phase.held = some l) : c.phase.held = some l ∨
      ∃ w table, c.phase = .leaseLock w ∧ b.table.leaseSlotLocked w = some (l, table) ∧
        b'.table = table := by
  cases h with
  | leased w m table _ hp hlease =>
    simp only [Phase.held, Option.some.injEq] at hl
    exact .inr ⟨w, table, hp, hl ▸ hlease, rfl⟩
  | drained p _ hp => exact .inl (Phase.drained_held hp ▸ hl)
  | poll ready m => cases ready <;> simp_all [Phase.held]
  | recvBroken m _ hp => rcases hp with hp | hp <;> simp_all [Phase.held]
  | handleEvent | popEvent => exact .inl hl
  | _ => simp_all [Phase.held]

/-- A lease is of a connection that its generation really had, never of a generation
newer than the slot's; and a slot whose exit is known is closed. -/
structure Dispatch.LeasesKnown (cfg : DispatchConfig κ) (s : Dispatch κ) : Prop where
  origin : ∀ i c l, s.calls i = some c → c.phase.held = some l →
    s.Origin cfg l.workerId l.generation l.connection
  bound : ∀ i c l, s.calls i = some c → c.phase.held = some l →
    ∃ g, s.broker.table.generation l.workerId = some g ∧ l.generation ≤ g
  closed : s.broker.table.ExitedClosed

theorem Dispatch.LeasesKnown.init (cfg : DispatchConfig κ) :
    (Dispatch.start cfg).LeasesKnown cfg := by
  refine ⟨by simp [Dispatch.start], by simp [Dispatch.start], ?_⟩
  intro w slot hs he
  simp only [Dispatch.start, cfg.slots.table_spec.2.2.2] at hs
  obtain ⟨x, -, rfl⟩ := Option.map_eq_some_iff.mp hs
  exact absurd rfl he

theorem CallEffect.exitedClosed {b b' : Broker κ} {c c' : ExecuteCall κ}
    (h : CallEffect b c b' c') (closed : b.table.ExitedClosed) : b'.table.ExitedClosed := by
  cases h with
  | quiet ht | refused w _ _ ht => exact ht ▸ closed
  | got w rest _ _ ht => exact closed.of_slots (by rw [ht])
  | leased w l _ hl => exact closed.of_slots (by rw [(SlotTable.leaseSlotLocked_some hl).2.2.2.2])
  | released l o _ ht => exact closed.of_slots (by rw [ht, SlotTable.slots_releaseSlotLocked])
  | markedExited l _ ht => exact ht ▸ closed.markSlotExited
  | event ev _ ht =>
    rw [ht]
    cases ev with
    | exited u g code => exact closed.markSlotExited
    | started u g conn => exact closed.handleExecutorStarted
    | invalid => exact closed

theorem Dispatch.Origin.mono {conn : κ} (h : s.Origin cfg w g conn)
    (grow : ∀ ev ∈ s.emitted, ev ∈ t.emitted) : t.Origin cfg w g conn :=
  h.imp_right (grow _)

theorem Dispatch.LeasesKnown.step (h : s.LeasesKnown cfg) (announced : s.Announced cfg)
    {a : DispatchAction κ} (hst : s.step cfg a = some t) : t.LeasesKnown cfg := by
  have grows := fun w g => LeaseView.generation_le (w := w) (g := g) (Dispatch.step_view hst)
  have kept : ∀ i c l, s.calls i = some c → c.phase.held = some l →
      ∃ g, t.broker.table.generation l.workerId = some g ∧ l.generation ≤ g := by
    intro i c l hc hl
    obtain ⟨g, hg, hle⟩ := h.bound i c l hc hl
    obtain ⟨g', hg', hle'⟩ := grows _ g hg
    exact ⟨g', hg', hle.trans hle'⟩
  cases a with
  | emit ev =>
    cases hst
    exact ⟨fun i c l hc hl => (h.origin i c l hc hl).mono fun e he => List.mem_append_left _ he,
      kept, h.closed⟩
  | begin i attempt executionId =>
    simp only [Dispatch.step] at hst
    split at hst <;> cases hst
    have old : ∀ j c l, Function.update s.calls i (some { attempt, executionId }) j = some c →
        c.phase.held = some l → s.calls j = some c := by
      intro j c l hc hl
      by_cases hj : j = i
      · subst hj
        simp only [Function.update_self, Option.some.injEq] at hc
        subst hc
        cases hl
      · simpa [hj] using hc
    exact ⟨fun j c l hc hl => h.origin j c l (old j c l hc hl) hl,
      fun j c l hc hl => h.bound j c l (old j c l hc hl) hl, h.closed⟩
  | call i a =>
    simp only [Dispatch.step] at hst
    cases hci : s.calls i with
    | none => simp [hci] at hst
    | some c₀ =>
      simp only [hci] at hst
      obtain ⟨⟨b, c₁⟩, hcall, rfl⟩ := Option.map_eq_some_iff.mp hst
      have known : ∀ j c l, (s.withCall i (b, c₁)).calls j = some c → c.phase.held = some l →
          s.Origin cfg l.workerId l.generation l.connection ∧
            ∃ g, b.table.generation l.workerId = some g ∧ l.generation ≤ g := by
        intro j c l hc hl
        by_cases hj : j = i
        · subst hj
          simp only [Dispatch.withCall, Function.update_self, Option.some.injEq] at hc
          subst hc
          obtain hl | ⟨u, table, -, hlease, ht⟩ := (callStep_inv hcall).held_origin hl
          · exact ⟨h.origin j c₀ l hci hl, kept j c₀ l hci hl⟩
          · obtain ⟨rfl, hg, hconn, -, hafter⟩ := SlotTable.leaseSlotLocked_some hlease
            refine ⟨announced.connected _ _ _ hconn hg, l.generation, ?_, le_rfl⟩
            rw [ht, hafter]
            exact hg
        · have hc : s.calls j = some c := by simpa [Dispatch.withCall, hj] using hc
          exact ⟨h.origin j c l hc hl, kept j c l hc hl⟩
      exact ⟨fun j c l hc hl => (known j c l hc hl).1, fun j c l hc hl => (known j c l hc hl).2,
        (callStep_effect hcall).exitedClosed h.closed⟩

theorem Dispatch.leasesKnown (h : (dispatchMachine cfg).Reachable s) :
    s.Announced cfg ∧ s.LeasesKnown cfg := by
  refine h.invariant (P := fun s => s.Announced cfg ∧ s.LeasesKnown cfg) ?_ ?_
  · rintro _ rfl
    exact ⟨.init cfg, .init cfg⟩
  · exact fun s a t _ hs _ hst => ⟨hs.1.step hst, hs.2.step hs.1 hst⟩

/-! ## A slot restarted while it is leased -/

/-- One slot, no completion timeout. -/
def oneSlot : DispatchConfig Nat where
  slots := ⟨[("w", 1, 1)], by simp⟩
  completionTimeoutSeconds := none

/-- Call 0 leases generation 1, which exits and is replaced; call 1 leases the replacement. -/
def restartSchedule : List (DispatchAction Nat) :=
  [.begin 0 someAttempt "e0", .begin 1 someAttempt "e1", .begin 2 someAttempt "e2"] ++
    [.drained, .getSlot, .lockLease, .sendOk].map (.call 0) ++
    [.emit (.exited "w" 1 none), .emit (.started "w" 2 2)] ++
    [.popEvent, .handleEvent, .popEvent, .handleEvent, .drained].map (.call 0) ++
    [.drained, .getSlot, .lockLease, .sendOk].map (.call 1)

/-! ## No slot is stranded -/

theorem capacity_reachable (h : (dispatchMachine cfg).Reachable s) : s.view.Capacity := by
  refine h.invariant (P := fun s : Dispatch κ => s.view.Capacity) ?_ ?_
  · rintro _ rfl
    exact LeaseView.Capacity.init cfg
  · exact fun s a t _ hs _ hst => hs.step (Dispatch.step_view hst)

/-- Every reachable state accounts for every slot, every open connection is the one
of its generation, and from there on no generation decreases. -/
theorem slots_accounted (h : (dispatchMachine cfg).Reachable s) :
    s.view.Capacity ∧
      (∀ w g c, s.broker.table.connection w = some c → s.broker.table.generation w = some g →
        s.Origin cfg w g c) ∧
      ∀ t, (dispatchMachine cfg).Steps (fun _ _ => True) s t →
        ∀ w g, s.broker.table.generation w = some g →
          ∃ g', t.broker.table.generation w = some g' ∧ g ≤ g' := by
  refine ⟨capacity_reachable h, (Dispatch.leasesKnown h).1.connected, fun t steps => ?_⟩
  refine steps.invariant (R := fun s t : Dispatch κ => ∀ w g,
    s.broker.table.generation w = some g →
      ∃ g', t.broker.table.generation w = some g' ∧ g ≤ g') h ?_ ?_ ?_
  · exact fun s w g hg => ⟨g, hg, le_rfl⟩
  · intro s t u first second w g hg
    obtain ⟨g₁, hg₁, le₁⟩ := first w g hg
    obtain ⟨g₂, hg₂, le₂⟩ := second w g₁ hg₁
    exact ⟨g₂, hg₂, le₁.trans le₂⟩
  · exact fun s a t _ _ hst w g hg => LeaseView.generation_le (Dispatch.step_view hst) hg

theorem slots_accounted_restart :
    let s := (dispatchMachine oneSlot).follow (.start oneSlot) restartSchedule
    s.view.Capacity ∧ s.Origin oneSlot "w" 2 2 := by
  intro s
  have reached : (dispatchMachine oneSlot).Reachable s := .follow rfl
  have accounted := slots_accounted reached
  exact ⟨accounted.1, accounted.2.1 "w" 2 2 (by decide) (by decide)⟩

/-! ## Leases exclude each other -/

/-- A lease ends in `_release_slot` only. -/
theorem Dispatch.lease_dropped {a : DispatchAction κ} {i : Nat} (hst : s.step cfg a = some t)
    (held : s.view.leaseOf i ≠ none) (gone : t.view.leaseOf i = none) :
    a = .call i .lockRelease := by
  cases a with
  | emit ev =>
    cases hst
    exact absurd gone held
  | begin j attempt executionId =>
    simp only [Dispatch.step] at hst
    split at hst <;> cases hst
    rename_i hnone
    have hij : i ≠ j := by
      rintro rfl
      simp [Dispatch.view, hnone] at held
    simp only [Dispatch.view, Function.update_of_ne hij] at gone
    exact absurd gone held
  | call j a =>
    simp only [Dispatch.step] at hst
    cases hc : s.calls j with
    | none => simp [hc] at hst
    | some c =>
      simp only [hc] at hst
      obtain ⟨⟨b, c'⟩, hcall, rfl⟩ := Option.map_eq_some_iff.mp hst
      rw [Dispatch.view_withCall] at gone
      by_cases hij : i = j
      · subst hij
        have leased : s.view.leaseOf i = c.phase.lease := by simp [Dispatch.view, hc]
        rw [leased] at held
        simp only [Function.update_self] at gone
        cases callStep_inv hcall with
        | released l o => rfl
        | handleEvent | popEvent => exact absurd gone held
        | drained p _ hp => exact absurd ((Phase.drained_lease hp).1 ▸ gone) held
        | poll ready l => cases ready <;> simp [Phase.lease] at gone
        | _ => simp_all [Phase.lease]
      · simp only [Function.update_of_ne hij] at gone
        exact absurd gone held

/-- The step is no release of a slot whose newer generation another call leases. -/
def NoStaleRelease (s : Dispatch κ) (a : DispatchAction κ) : Prop :=
  ∀ i, a = .call i .lockRelease → ¬ s.view.StaleRelease i

theorem Dispatch.exclusive (h : (dispatchMachine cfg).Guarded NoStaleRelease s) :
    s.view.Exclusive := by
  refine h.invariant (P := fun s : Dispatch κ => s.view.Exclusive) ?_ ?_
  · rintro _ rfl
    exact LeaseView.Exclusive.init cfg
  · intro s a t _ hs hok hst
    refine hs.step (Dispatch.step_view hst) fun i held gone => ?_
    exact hok i (Dispatch.lease_dropped hst held gone)

/-- As long as no step is a stale release, two calls lease different generations. -/
theorem leases_exclusive (h : (dispatchMachine cfg).Guarded NoStaleRelease s) {i j : Nat}
    {l m : Lease κ} (hij : i ≠ j) (hl : s.view.leaseOf i = some l)
    (hm : s.view.leaseOf j = some m) :
    (l.workerId, l.generation) ≠ (m.workerId, m.generation) := by
  intro same
  obtain ⟨hw, hg⟩ := Prod.mk.inj same
  exact (Dispatch.exclusive h).excl i j l m hij hl hm hw hg

/-- Every start of a slot's generation comes after the exit of the one before. -/
def SupervisorConsistent (emitted : List (ExecutorEvent κ)) : Prop :=
  ∀ before w g c after, emitted = before ++ .started w g c :: after →
    ∃ g' code, g = g' + 1 ∧ .exited w g' code ∈ before

theorem leases_exclusive_restart :
    ∃ s : Dispatch Nat, (dispatchMachine oneSlot).Guarded NoStaleRelease s ∧
      s.view.leaseOf 0 = some ⟨"w", 1, 1⟩ ∧ s.view.leaseOf 1 = some ⟨"w", 2, 2⟩ ∧
      ("w", 1) ≠ ("w", 2) := by
  have run : (dispatchMachine oneSlot).Guarded NoStaleRelease
      ((dispatchMachine oneSlot).follow (.start oneSlot) restartSchedule) := by
    refine Machine.Guarded.follow (.init rfl) _ fun a ha s i hi => ?_
    subst hi
    exact absurd ha (by simp [restartSchedule])
  exact ⟨_, run, by decide, by decide, leases_exclusive run (i := 0) (j := 1)
    (l := ⟨"w", 1, 1⟩) (m := ⟨"w", 2, 2⟩) (by decide) (by decide) (by decide)⟩

/-- After the restart call 0 finds its executor gone and releases the slot, and call 2
leases the generation that call 1 still holds. -/
theorem two_leases_of_one_generation :
    ∃ s : Dispatch Nat, (dispatchMachine oneSlot).Reachable s ∧ SupervisorConsistent s.emitted ∧
      s.view.leaseOf 1 = some ⟨"w", 2, 2⟩ ∧ s.view.leaseOf 2 = some ⟨"w", 2, 2⟩ := by
  refine ⟨(dispatchMachine oneSlot).follow (.start oneSlot) (restartSchedule ++
    [.checkExited, .drained, .lockRelease].map (.call 0) ++
    [.drained, .getSlot, .lockLease, .sendOk].map (.call 2)), .follow rfl, ?_, by decide, by decide⟩
  have events : ∀ s : Dispatch Nat, s.emitted = [.exited "w" 1 none, .started "w" 2 2] →
      SupervisorConsistent s.emitted := by
    intro s hs before w g c after split
    rw [hs] at split
    rcases before with _ | ⟨first, _ | ⟨second, rest⟩⟩ <;>
      simp only [List.nil_append, List.cons_append, List.cons.injEq, reduceCtorEq,
        false_and] at split
    · obtain ⟨rfl, hstart, -⟩ := split
      cases hstart
      exact ⟨1, none, rfl, List.mem_cons_self⟩
    · simp at split
  exact events _ rfl

end Perago.ConductorRuntime
