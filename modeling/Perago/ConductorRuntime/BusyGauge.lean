import Mathlib.Data.Finset.Card
import Perago.ConductorRuntime.SlotSafety

/-!
# The busy gauge of the process dispatch worker

Every region that changes the busy set under `_slot_lock` records its size before it
leaves the lock. What the recorded number says about the calls and the executors depends
on the order of the events and on stale releases.
-/

namespace Perago.ConductorRuntime

open Perago.Transition

variable {κ : Type}

/-! ## The worker with its gauge -/

/-- `_record_busy_slots` runs in `_handle_executor_exited`. -/
def SlotTable.recordsEvent (t : SlotTable κ) : ExecutorEvent κ → Bool
  | .exited w g _ => t.generation w == some g
  | .started _ _ _ | .invalid => false

/-- `_record_busy_slots` runs in this step of a call. -/
def ExecuteCall.records (b : Broker κ) (c : ExecuteCall κ) : CallAction → Bool
  | .handleEvent => c.event.any b.table.recordsEvent
  | .lockLease => match c.phase with
    | .leaseLock w => (b.table.leaseSlotLocked w).isSome
    | _ => false
  | .lockMarkExited => match c.phase with
    | .markExited l => b.table.generation l.workerId == some l.generation
    | _ => false
  | .lockRelease => true
  | _ => false

def Dispatch.records (s : Dispatch κ) : DispatchAction κ → Bool
  | .call i a => (s.calls i).any fun c => c.records s.broker a
  | _ => false

/-- `busySlots` is the value recorded last. -/
structure MeteredDispatch (κ : Type) extends Dispatch κ where
  busySlots : Nat

/-- `__init__` records the size of the empty set. -/
def MeteredDispatch.start (cfg : DispatchConfig κ) : MeteredDispatch κ where
  toDispatch := .start cfg
  busySlots := 0

def MeteredDispatch.step (cfg : DispatchConfig κ) (s : MeteredDispatch κ)
    (a : DispatchAction κ) : Option (MeteredDispatch κ) :=
  (s.toDispatch.step cfg a).map fun t => { t with
    busySlots := if s.records a then t.broker.table.busyWorkerIds.card else s.busySlots }

def meteredDispatch (cfg : DispatchConfig κ) : Machine (MeteredDispatch κ) (DispatchAction κ) where
  init s := s = .start cfg
  step := MeteredDispatch.step cfg

/-! ## The recorded value -/

variable {cfg : DispatchConfig κ} {s t : Dispatch κ} {m : MeteredDispatch κ}
variable {a : DispatchAction κ} {w : String}

theorem SlotTable.busy_of_not_recordsEvent {t : SlotTable κ} {ev : ExecutorEvent κ}
    (h : t.recordsEvent ev = false) :
    (t.handleExecutorEvent ev).busyWorkerIds = t.busyWorkerIds := by
  cases ev with
  | exited w g code =>
    obtain ⟨-, same⟩ | ⟨current, -⟩ := t.markSlotExited_cases w g
    · simp [handleExecutorEvent, same]
    · simp [recordsEvent, current] at h
  | started w g c =>
    obtain ⟨-, same⟩ | ⟨-, -, -, busy, -⟩ := t.handleExecutorStarted_cases w g c
    · simp [handleExecutorEvent, same]
    · exact busy
  | invalid => rfl

/-- The busy set changes in the recording steps only. -/
theorem Dispatch.busy_of_not_records (hst : s.step cfg a = some t) (h : s.records a = false) :
    t.broker.table.busyWorkerIds = s.broker.table.busyWorkerIds := by
  cases a with
  | emit ev =>
    cases hst
    rfl
  | begin i attempt executionId =>
    simp only [Dispatch.step] at hst
    split at hst <;> cases hst
    rfl
  | call i a =>
    simp only [Dispatch.step] at hst
    cases hc : s.calls i with
    | none => simp [hc] at hst
    | some c =>
      simp only [hc] at hst
      obtain ⟨⟨b, c'⟩, hcall, rfl⟩ := Option.map_eq_some_iff.mp hst
      simp only [Dispatch.records, hc, Option.any_some] at h
      cases callStep_inv hcall with
      | handleEvent ev hev =>
        exact SlotTable.busy_of_not_recordsEvent (by simpa [ExecuteCall.records, hev] using h)
      | leased w l table _ hp hl => simp [ExecuteCall.records, hp, hl] at h
      | markExited l _ hp =>
        simp only [ExecuteCall.records, hp, beq_eq_false_iff_ne] at h
        obtain ⟨-, same⟩ | ⟨current, -⟩ :=
          s.broker.table.markSlotExited_cases l.workerId l.generation
        · exact congrArg SlotTable.busyWorkerIds same
        · exact absurd current h
      | released l o => simp [ExecuteCall.records] at h
      | _ => rfl

theorem MeteredDispatch.busySlots_eq (h : (meteredDispatch cfg).Reachable m) :
    m.busySlots = m.broker.table.busyWorkerIds.card := by
  refine h.invariant (P := fun m => m.busySlots = m.broker.table.busyWorkerIds.card) ?_ ?_
  · rintro _ rfl
    have none : (Dispatch.start cfg).broker.table.busyWorkerIds = ∅ := cfg.slots.table_spec.1
    simp [MeteredDispatch.start, none]
  · intro m a m' _ old _ hst
    obtain ⟨t, ht, rfl⟩ := Option.map_eq_some_iff.mp hst
    cases hr : m.records a with
    | true => simp
    | false =>
      have busy := Dispatch.busy_of_not_records ht hr
      simpa [busy] using old

/-! ## Slots that are served -/

namespace LeaseView

/-- Some call leases the slot's current generation, and its pipe is open. -/
def Served (v : LeaseView κ) (w : String) : Prop :=
  ∃ i l, v.leaseOf i = some l ∧ l.workerId = w ∧ v.table.generation w = some l.generation ∧
    (v.table.connection w).isSome

variable {v v' : LeaseView κ}

/-- A served slot is busy. -/
def Counted (v : LeaseView κ) : Prop := ∀ w, v.Served w → w ∈ v.table.busyWorkerIds

/-- A busy slot is served. -/
def Truthful (v : LeaseView κ) : Prop := ∀ w ∈ v.table.busyWorkerIds, v.Served w

theorem Served.of_same {table : SlotTable κ} (h : v.Served w)
    (generation : table.generation w = v.table.generation w)
    (connection : table.connection w = v.table.connection w) :
    Served { v with table := table } w := by
  obtain ⟨i, l, hl, hw, hg, hc⟩ := h
  exact ⟨i, l, hl, hw, generation.trans hg, connection ▸ hc⟩

theorem served_markSlotExited {u : String} {g : Nat} (hu : v.table.generation u = some g) :
    Served { v with table := v.table.markSlotExited u g } w ↔ w ≠ u ∧ v.Served w := by
  obtain ⟨other, -⟩ | ⟨-, connection, generation, -⟩ := v.table.markSlotExited_cases u g
  · exact absurd hu other
  · unfold Served
    simp only [generation, connection]
    by_cases hw : w = u <;> simp [hw]

theorem Counted.exited (h : v.Counted) (u : String) (g : Nat) :
    Counted { v with table := v.table.markSlotExited u g } := by
  by_cases hu : v.table.generation u = some g
  · intro w hw
    obtain ⟨hne, hw⟩ := (served_markSlotExited hu).mp hw
    obtain ⟨other, -⟩ | ⟨-, -, -, -, busy, -⟩ := v.table.markSlotExited_cases u g
    · exact absurd hu other
    · simpa [busy, hne] using h w hw
  · obtain ⟨-, same⟩ | ⟨current, -⟩ := v.table.markSlotExited_cases u g
    · rw [same]
      exact h
    · exact absurd current hu

theorem Truthful.exited (h : v.Truthful) (u : String) (g : Nat) :
    Truthful { v with table := v.table.markSlotExited u g } := by
  by_cases hu : v.table.generation u = some g
  · intro w hw
    obtain ⟨other, -⟩ | ⟨-, -, -, -, busy, -⟩ := v.table.markSlotExited_cases u g
    · exact absurd hu other
    · simp only [busy, Finset.mem_erase] at hw
      exact (served_markSlotExited hu).mpr ⟨hw.1, h w hw.2⟩
  · obtain ⟨-, same⟩ | ⟨current, -⟩ := v.table.markSlotExited_cases u g
    · rw [same]
      exact h
    · exact absurd current hu

/-- A new generation is leased by nobody. -/
theorem Counted.started (h : v.Counted) (exclusive : v.Exclusive) (u : String) (g : Nat) (c : κ) :
    Counted { v with table := v.table.handleExecutorStarted u g c } := by
  obtain ⟨-, same⟩ | ⟨⟨g', hg', newer⟩, connection, generation, busy, -⟩ :=
    v.table.handleExecutorStarted_cases u g c
  · rw [same]
    exact h
  · rintro w ⟨i, l, hl, hw, hg, hc⟩
    simp only [generation, connection] at hg hc
    by_cases hwu : w = u
    · subst hwu
      obtain ⟨bound, hbound, hle⟩ := exclusive.bound i l hl
      rw [hw] at hbound
      simp only [if_true, Option.some.injEq] at hg
      have := Option.some.inj (hg'.symm.trans hbound)
      omega
    · rw [if_neg hwu] at hg hc
      exact busy ▸ h w ⟨i, l, hl, hw, hg, hc⟩

/-- A slot that has no connection is served by nobody, so it is not busy. -/
theorem Truthful.started (h : v.Truthful) {u : String} {g : Nat} {c : κ}
    (closed : v.table.connection u = none) :
    Truthful { v with table := v.table.handleExecutorStarted u g c } := by
  obtain ⟨-, same⟩ | ⟨-, connection, generation, busy, -⟩ :=
    v.table.handleExecutorStarted_cases u g c
  · rw [same]
    exact h
  · intro w hw
    simp only [busy] at hw
    have served := h w hw
    have hne : w ≠ u := by
      rintro rfl
      obtain ⟨i, l, -, -, -, hc⟩ := served
      simp [closed] at hc
    exact served.of_same (by simp [generation, hne]) (by simp [connection, hne])

theorem Counted.leased {i : Nat} {l : Lease κ} {table : SlotTable κ} (h : v.Counted)
    (hl : v.table.leaseSlotLocked w = some (l, table)) : Counted {
      table := table
      leaseOf := Function.update v.leaseOf i (some l)
      poppedOf := Function.update v.poppedOf i none } := by
  obtain ⟨hw, -, -, -, rfl⟩ := SlotTable.leaseSlotLocked_some hl
  rintro u ⟨j, m, hm, hu, hg, hc⟩
  by_cases hj : j = i
  · obtain rfl : l = m := by simpa [hj] using hm
    exact Finset.mem_insert.mpr (.inl (hu.symm.trans hw))
  · exact Finset.mem_insert_of_mem (h u ⟨j, m, by simpa [hj] using hm, hu, hg, hc⟩)

theorem Truthful.leased {i : Nat} {l : Lease κ} {table : SlotTable κ} (h : v.Truthful)
    (free : v.leaseOf i = none) (hl : v.table.leaseSlotLocked w = some (l, table)) : Truthful {
      table := table
      leaseOf := Function.update v.leaseOf i (some l)
      poppedOf := Function.update v.poppedOf i none } := by
  obtain ⟨rfl, generation, connection, -, rfl⟩ := SlotTable.leaseSlotLocked_some hl
  intro u hu
  obtain rfl | hu := Finset.mem_insert.mp hu
  · exact ⟨i, l, by simp, rfl, generation, Option.isSome_iff_exists.mpr ⟨_, connection⟩⟩
  · obtain ⟨j, m, hm, hw, hg, hc⟩ := h u hu
    have hj : j ≠ i := by
      rintro rfl
      simp [free] at hm
    exact ⟨j, m, by simpa [hj] using hm, hw, hg, hc⟩

theorem Counted.released {i : Nat} {l : Lease κ} (h : v.Counted) (exclusive : v.Exclusive)
    (held : v.leaseOf i = some l) (fresh : ¬ v.StaleRelease i) : Counted { v with
      table := v.table.releaseSlotLocked l.workerId
      leaseOf := Function.update v.leaseOf i none } := by
  rintro u ⟨j, m, hm, hu, hg, hc⟩
  have hj : j ≠ i := by
    rintro rfl
    simp at hm
  have hm : v.leaseOf j = some m := by simpa [hj] using hm
  simp only [SlotTable.generation_releaseSlotLocked,
    SlotTable.connection_releaseSlotLocked] at hg hc
  have busy := h u ⟨j, m, hm, hu, hg, hc⟩
  rw [SlotTable.busy_releaseSlotLocked, Finset.mem_erase]
  refine ⟨?_, busy⟩
  rintro rfl
  -- a call that leases the current generation makes the release stale
  have other := exclusive.excl i j l m hj.symm held hm hu.symm
  exact fresh ⟨l, j, m, held, hm, hj, hu, other, hg, hc⟩

theorem Truthful.released {i : Nat} {l : Lease κ} (h : v.Truthful)
    (held : v.leaseOf i = some l) : Truthful { v with
      table := v.table.releaseSlotLocked l.workerId
      leaseOf := Function.update v.leaseOf i none } := by
  intro u hu
  rw [SlotTable.busy_releaseSlotLocked, Finset.mem_erase] at hu
  obtain ⟨j, m, hm, hw, hg, hc⟩ := h u hu.2
  have hj : j ≠ i := by
    rintro rfl
    obtain rfl : l = m := by simpa [held] using hm
    exact hu.1 hw.symm
  exact ⟨j, m, by simpa [hj] using hm, hw, by simpa using hg, by simpa using hc⟩

theorem Counted.step (h : v.Counted) (exclusive : v.Exclusive) (st : LeaseStep v v')
    (fresh : ∀ i, v.leaseOf i ≠ none → v'.leaseOf i = none → ¬ v.StaleRelease i) :
    v'.Counted := by
  cases st with
  | quiet => exact h
  | event ev =>
    cases ev with
    | exited w g code => exact h.exited w g
    | started w g c => exact h.started exclusive w g c
    | invalid => exact h
  | markedExited i l held => exact h.exited l.workerId l.generation
  | got i w rest => exact h
  | refused i w => exact h
  | leased i w l table hp free hl => exact h.leased hl
  | released i l held _ => exact h.released exclusive held (fresh i (by simp [held]) (by simp))

/-- A slot that gets a new generation has no connection. -/
theorem Truthful.step (h : v.Truthful) (st : LeaseStep v v')
    (closed : ∀ w, v'.table.generation w ≠ v.table.generation w → v.table.connection w = none) :
    v'.Truthful := by
  cases st with
  | quiet => exact h
  | event ev =>
    cases ev with
    | exited w g code => exact h.exited w g
    | started w g c =>
      by_cases changed : (v.table.handleExecutorStarted w g c).generation w =
          v.table.generation w
      · obtain ⟨-, same⟩ | ⟨⟨g', hg', newer⟩, -, generation, -⟩ :=
          v.table.handleExecutorStarted_cases w g c
        · simpa [SlotTable.handleExecutorEvent, same] using h
        · rw [generation, if_pos rfl, hg'] at changed
          have := Option.some.inj changed
          omega
      · exact h.started (closed w changed)
    | invalid => exact h
  | markedExited i l held => exact h.exited l.workerId l.generation
  | got i w rest => exact h
  | refused i w => exact h
  | leased i w l table hp free hl => exact h.leased free hl
  | released i l held _ => exact h.released held

end LeaseView

/-! ## Runs -/

/-- No stale release, and no start is handled before the exit of the executor that it
replaces. -/
def InOrder (s : Dispatch κ) (a : DispatchAction κ) : Prop :=
  NoStaleRelease s a ∧ ∀ i c w g connection, a = .call i .handleEvent → s.calls i = some c →
    c.event = some (.started w g connection) → s.broker.table.connection w = none

/-- A slot gets a new generation when a start of it is handled. -/
theorem Dispatch.generation_changed (hst : s.step cfg a = some t)
    (changed : t.broker.table.generation w ≠ s.broker.table.generation w) :
    ∃ i c g connection, a = .call i .handleEvent ∧ s.calls i = some c ∧
      c.event = some (.started w g connection) := by
  cases a with
  | emit ev =>
    cases hst
    exact absurd rfl changed
  | begin i attempt executionId =>
    simp only [Dispatch.step] at hst
    split at hst <;> cases hst
    exact absurd rfl changed
  | call i a =>
    simp only [Dispatch.step] at hst
    cases hc : s.calls i with
    | none => simp [hc] at hst
    | some c =>
      simp only [hc] at hst
      obtain ⟨⟨b, c'⟩, hcall, rfl⟩ := Option.map_eq_some_iff.mp hst
      have exited : ∀ u g,
          (s.broker.table.markSlotExited u g).generation w = s.broker.table.generation w := by
        intro u g
        obtain ⟨-, same⟩ | ⟨-, -, generation, -⟩ := s.broker.table.markSlotExited_cases u g
        · rw [same]
        · exact generation w
      cases callStep_inv hcall with
      | handleEvent ev hev =>
        cases ev with
        | exited u g code => exact absurd (exited u g) changed
        | invalid => exact absurd rfl changed
        | started u g connection =>
          obtain ⟨-, same⟩ | ⟨-, -, generation, -⟩ :=
            s.broker.table.handleExecutorStarted_cases u g connection
          · simp [Dispatch.withCall, SlotTable.handleExecutorEvent, same] at changed
          · have hw : w = u := by
              by_contra other
              exact changed ((generation w).trans (if_neg other))
            subst hw
            exact ⟨i, c, g, connection, rfl, hc, hev⟩
      | markExited l => exact absurd (exited l.workerId l.generation) changed
      | leased u l table _ _ hl =>
        obtain ⟨-, -, -, -, rfl⟩ := SlotTable.leaseSlotLocked_some hl
        exact absurd rfl changed
      | released l o => exact absurd (by simp [Dispatch.withCall]) changed
      | _ => exact absurd rfl changed

theorem meteredDispatch_refines (ok : Dispatch κ → DispatchAction κ → Prop) :
    (meteredDispatch cfg).Refines (fun m a => ok m.toDispatch a) (dispatchMachine cfg) ok
      (·.toDispatch) := by
  refine ⟨?_, fun m a m' _ hok hst => ?_⟩
  · rintro _ rfl
    rfl
  · obtain ⟨t, ht, rfl⟩ := Option.map_eq_some_iff.mp hst
    exact .inr ⟨a, hok, ht⟩

theorem Dispatch.capacity (h : (dispatchMachine cfg).Reachable s) : s.view.Capacity := by
  refine h.invariant (P := fun s : Dispatch κ => s.view.Capacity) ?_ ?_
  · rintro _ rfl
    exact .init cfg
  · exact fun s a t _ hs _ hst => hs.step (step_view hst)

theorem Dispatch.counted (h : (dispatchMachine cfg).Guarded NoStaleRelease s) :
    s.view.Counted := by
  refine h.invariant (P := fun s : Dispatch κ => s.view.Counted) ?_ ?_
  · rintro _ rfl w ⟨i, l, hl, -⟩
    simp [Dispatch.start, Dispatch.view] at hl
  · intro s a t hs old ok hst
    refine old.step (exclusive hs) (step_view hst) fun i held gone => ?_
    exact ok i (lease_dropped hst held gone)

theorem Dispatch.truthful (h : (dispatchMachine cfg).Guarded InOrder s) : s.view.Truthful := by
  refine h.invariant (P := fun s : Dispatch κ => s.view.Truthful) ?_ ?_
  · rintro _ rfl w hw
    have none : (Dispatch.start cfg).broker.table.busyWorkerIds = ∅ := cfg.slots.table_spec.1
    simp [none] at hw
  · intro s a t _ old ok hst
    refine old.step (step_view hst) fun w changed => ?_
    obtain ⟨i, c, g, connection, ha, hc, hev⟩ := generation_changed hst changed
    exact ok.2 i c w g connection ha hc hev

/-- The gauge counts slots that a call in flight leases, each once, so it is zero when there
is none. Without stale releases it counts every slot whose running executor serves a call,
and when starts are also handled after exits it counts these and no others. -/
theorem busy_gauge (h : (meteredDispatch cfg).Reachable m) : ∃ busy : Finset String,
    m.busySlots = busy.card ∧ (∀ w ∈ busy, m.view.Leased w) ∧
      ((meteredDispatch cfg).Guarded (fun m => NoStaleRelease m.toDispatch) m →
        ∀ w, m.view.Served w → w ∈ busy) ∧
      ((meteredDispatch cfg).Guarded (fun m => InOrder m.toDispatch) m →
        ∀ w, w ∈ busy ↔ m.view.Served w) := by
  have capacity := Dispatch.capacity ((meteredDispatch_refines fun _ _ => True).guarded h)
  refine ⟨m.broker.table.busyWorkerIds, MeteredDispatch.busySlots_eq h, capacity.busyLeased,
    fun run w hw => ?_, fun run w => ⟨fun hw => ?_, fun hw => ?_⟩⟩
  · exact Dispatch.counted ((meteredDispatch_refines NoStaleRelease).guarded run) w hw
  · exact Dispatch.truthful ((meteredDispatch_refines InOrder).guarded run) w hw
  · have run := run.mono fun _ _ ok => ok.1
    exact Dispatch.counted ((meteredDispatch_refines NoStaleRelease).guarded run) w hw

/-- Call 0 leases the slot. -/
def leasedGauge : MeteredDispatch Nat := (meteredDispatch oneSlot).follow (.start oneSlot)
  (.begin 0 someAttempt "e0" :: [.drained, .getSlot, .lockLease].map (.call 0))

theorem busy_gauge_leased : ∃ busy : Finset String, busy.card = 1 ∧
    ∀ w, w ∈ busy ↔ leasedGauge.view.Served w := by
  have run : (meteredDispatch oneSlot).Guarded (fun m => InOrder m.toDispatch) leasedGauge :=
    .follow (.init rfl) _ (by simp [InOrder, NoStaleRelease])
  obtain ⟨busy, one, -, -, served⟩ := busy_gauge run.reachable
  exact ⟨busy, one.symm.trans (by decide), served run⟩

end Perago.ConductorRuntime
