import Perago.ConductorRuntime.Drain

/-!
# Lifecycle events handled out of order

Concurrent calls pop events in the order of the queue and handle them in any
order. An exit handled before the start of its generation is discarded; when that
does not happen, the slots end as if one call had handled all events in order.
-/

namespace Perago.ConductorRuntime

open Perago.Transition

/-! ## An event and the slot of a worker id -/

section Slots

variable {κ : Type}

/-- What `_handle_executor_event` does to the slot of `v`. -/
def ProcessExecutorSlot.handle (slot : ProcessExecutorSlot κ) (v : String) :
    ExecutorEvent κ → ProcessExecutorSlot κ
  | .exited w g _ =>
    if v = w ∧ slot.generation = g then
      { slot with connection := none, exitedGeneration := some slot.generation }
    else slot
  | .started w g connection =>
    if v = w ∧ slot.generation < g then ⟨some connection, g, none⟩ else slot
  | .invalid => slot

theorem SlotTable.slots_markSlotExited (t : SlotTable κ) (w v : String) (g : Nat)
    (code : Option Int) : (t.markSlotExited w g).slotsByWorkerId v =
      (t.slotsByWorkerId v).map (·.handle v (.exited w g code)) := by
  unfold SlotTable.markSlotExited
  cases hs : t.slotsByWorkerId w with
  | none =>
    by_cases hv : v = w
    · simp [hv, hs]
    · cases ht : t.slotsByWorkerId v <;> simp [ProcessExecutorSlot.handle, hv]
  | some slot =>
    by_cases hv : v = w
    · subst hv
      by_cases hg : slot.generation = g <;>
        simp [ProcessExecutorSlot.handle, SlotTable.closeSlot, hs, hg]
    · cases ht : t.slotsByWorkerId v <;> by_cases hg : slot.generation = g <;>
        simp [ProcessExecutorSlot.handle, SlotTable.closeSlot, hv, ht, hg]

theorem SlotTable.slots_handleExecutorStarted (t : SlotTable κ) (w v : String) (g : Nat)
    (connection : κ) : (t.handleExecutorStarted w g connection).slotsByWorkerId v =
      (t.slotsByWorkerId v).map (·.handle v (.started w g connection)) := by
  unfold SlotTable.handleExecutorStarted
  cases hs : t.slotsByWorkerId w with
  | none =>
    by_cases hv : v = w
    · simp [hv, hs]
    · cases ht : t.slotsByWorkerId v <;> simp [ProcessExecutorSlot.handle, hv]
  | some slot =>
    have opened : ∀ {u : SlotTable κ}, u.slotsByWorkerId =
        Function.update t.slotsByWorkerId w (some ⟨some connection, g, none⟩) →
        slot.generation < g → u.slotsByWorkerId v =
          (t.slotsByWorkerId v).map (·.handle v (.started w g connection)) := by
      intro u hu hlt
      by_cases hv : v = w
      · subst hv
        simp [hu, hs, ProcessExecutorSlot.handle, hlt]
      · cases ht : t.slotsByWorkerId v <;> simp [hu, ProcessExecutorSlot.handle, hv, ht]
    by_cases hg : g ≤ slot.generation
    · have hlt : ¬ slot.generation < g := Nat.not_lt.mpr hg
      by_cases hv : v = w
      · subst hv
        simp [hs, hg, ProcessExecutorSlot.handle, hlt]
      · cases ht : t.slotsByWorkerId v <;> simp [hg, ProcessExecutorSlot.handle, hv, ht]
    · simp only [hg, if_false]
      split <;> exact opened (by simp) (Nat.lt_of_not_le hg)

theorem SlotTable.slots_handleExecutorEvent (t : SlotTable κ) (v : String) (ev : ExecutorEvent κ) :
    (t.handleExecutorEvent ev).slotsByWorkerId v = (t.slotsByWorkerId v).map (·.handle v ev) := by
  cases ev with
  | exited w g code => exact t.slots_markSlotExited w v g code
  | started w g connection => exact t.slots_handleExecutorStarted w v g connection
  | invalid => simp [SlotTable.handleExecutorEvent, ProcessExecutorSlot.handle]

/-- A table that no call has leased from: the slots with a connection are available. -/
structure SlotTable.Idle (t : SlotTable κ) : Prop where
  free : t.busyWorkerIds = ∅
  available : ∀ w, w ∈ t.availableWorkerIds ↔ (t.connection w).isSome

theorem SlotTable.Idle.handleExecutorEvent {t : SlotTable κ} (h : t.Idle) (ev : ExecutorEvent κ) :
    (t.handleExecutorEvent ev).Idle := by
  cases ev with
  | exited w g code =>
    obtain ⟨-, same⟩ | ⟨-, hconn, -, havailable, hbusy, -⟩ := t.markSlotExited_cases w g
    · rwa [SlotTable.handleExecutorEvent, same]
    · refine ⟨by simp [SlotTable.handleExecutorEvent, hbusy, h.free], fun v => ?_⟩
      by_cases hv : v = w <;>
        simp [SlotTable.handleExecutorEvent, havailable, hconn, hv, h.available]
  | started w g connection =>
    rcases t.handleExecutorStarted_cases w g connection with ⟨-, same⟩ |
      ⟨-, hconn, -, hbusy, havailable, -⟩
    · rwa [SlotTable.handleExecutorEvent, same]
    · refine ⟨by simp [SlotTable.handleExecutorEvent, hbusy, h.free], fun v => ?_⟩
      by_cases hv : v = w <;>
        simp [SlotTable.handleExecutorEvent, havailable, hconn, hv, h.available, h.free]
  | invalid => exact h

/-- What a step of a call does to the slots: it handles its event, or reports a broken pipe. -/
theorem CallStep.slots {timeout : Option Nat} {b b' : Broker κ} {c c' : ExecuteCall κ}
    {a : CallAction} (h : CallStep timeout b c a b' c') :
    b'.table.slotsByWorkerId = b.table.slotsByWorkerId ∨
      (∃ ev, a = .handleEvent ∧ c.event = some ev ∧
        b'.table = b.table.handleExecutorEvent ev) ∨
      ∃ l, c.phase = .markExited l ∧ b'.table = b.table.markSlotExited l.workerId l.generation := by
  cases h with
  | handleEvent ev hev => exact .inr (.inl ⟨ev, rfl, hev, rfl⟩)
  | markExited l _ hp => exact .inr (.inr ⟨l, hp, rfl⟩)
  | leased w l table _ _ hl =>
    obtain ⟨-, -, -, -, rfl⟩ := SlotTable.leaseSlotLocked_some hl
    exact .inl rfl
  | released l o => exact .inl SlotTable.slots_releaseSlotLocked
  | _ => exact .inl rfl

end Slots

/-! ## The slots after handling every event in order -/

/-- The slot that the supervisor's record stands for: what the broker knows once it
has handled everything that was put. -/
def SupervisedSlot.reported (w : String) : SupervisedSlot → ProcessExecutorSlot SlotPipe
  | ⟨g, .running⟩ => ⟨some (w, g), g, none⟩
  | ⟨g, .exitReported⟩ => ⟨none, g, some g⟩
  | ⟨g, .respawned⟩ => ⟨none, g - 1, some (g - 1)⟩

namespace ProcessRuntime

variable {cfg : ProcessRuntimeConfig} {s t : ProcessRuntime} {timeout : Option Nat}
variable {a : RuntimeAction}

/-- One call alone handles every event put so far. -/
def inOrder (cfg : ProcessRuntimeConfig) (s : ProcessRuntime) : SlotTable SlotPipe :=
  s.dispatch.emitted.foldl SlotTable.handleExecutorEvent cfg.dispatch.slots.table

theorem slots_start (cfg : ProcessRuntimeConfig) (w : String) :
    cfg.dispatch.slots.table.slotsByWorkerId w =
      ((ProcessRuntime.start cfg).slots w).map (·.reported w) := by
  rw [SlotList.table_spec cfg.dispatch.slots |>.2.2.2]
  have lookup : ∀ names : List String, (names.map fun w => (w, (w, 1), 1)).lookup w =
      if w ∈ names then some ((w, 1), 1) else none := by
    intro names
    induction names with
    | nil => rfl
    | cons v names ih =>
      by_cases hv : w = v
      · simp [hv]
      · have hb : (w == v) = false := by simpa using hv
        simp [List.lookup_cons, hb, ih, hv]
  simp only [ProcessRuntimeConfig.dispatch, lookup, ProcessRuntime.start]
  by_cases hw : w ∈ cfg.workerIds <;> simp [hw, SupervisedSlot.reported]

theorem inOrder_emit (s : ProcessRuntime) (ev : ExecutorEvent SlotPipe) :
    (s.emit ev).inOrder cfg = (s.inOrder cfg).handleExecutorEvent ev := by
  simp [inOrder, emit]

theorem inOrder_step (h : ∀ w, (s.inOrder cfg).slotsByWorkerId w =
      (s.slots w).map (·.reported w)) (o : s.Overseen) (n : s.Named cfg)
    (st : Step timeout s a t) (w : String) :
    (t.inOrder cfg).slotsByWorkerId w = (t.slots w).map (·.reported w) := by
  -- an event of slot `v` changes the record of `v` as it changes the slot
  have told : ∀ {v ev} {x y : SupervisedSlot}, s.slots v = some x →
      (∀ u slot, u ≠ v → ProcessExecutorSlot.handle slot u ev = slot) →
      (x.reported v).handle v ev = y.reported v →
      (((s.emit ev).setSlot v y).inOrder cfg).slotsByWorkerId w =
        (((s.emit ev).setSlot v y).slots w).map (·.reported w) := by
    intro v ev x y hx other same
    change ((s.emit ev).inOrder cfg).slotsByWorkerId w = _
    rw [inOrder_emit, SlotTable.slots_handleExecutorEvent, h]
    by_cases hw : w = v
    · subst hw
      simp [hx, setSlot, same]
    · cases hs : s.slots w <;> simp [setSlot, emit, hw, hs, other w _ hw]
  cases st with
  | exitReported v g code hv =>
    exact told hv (fun u slot hu => by simp [ProcessExecutorSlot.handle, hu])
      (by simp [ProcessExecutorSlot.handle, SupervisedSlot.reported])
  | startReported v g hv =>
    have hg : 1 ≤ g := (o.spawned _ (n.spawned v _ hv)).1
    refine told hv (fun u slot hu => by simp [ProcessExecutorSlot.handle, hu]) ?_
    have hlt : g - 1 < g := by omega
    simp [ProcessExecutorSlot.handle, SupervisedSlot.reported, hlt]
  | respawned v g hv =>
    change (s.inOrder cfg).slotsByWorkerId w = _
    rw [h]
    by_cases hw : w = v
    · subst hw
      simp [hv, setSlot, SupervisedSlot.reported]
    · simp [setSlot, spawn, hw]
  | _ => exact h w

theorem inOrder_slots (h : (processRuntime cfg).Reachable s) (w : String) :
    (s.inOrder cfg).slotsByWorkerId w = (s.slots w).map (·.reported w) := by
  refine h.invariant (P := fun s => ∀ w, (s.inOrder cfg).slotsByWorkerId w =
    (s.slots w).map (·.reported w)) ?_ ?_ w
  · rintro _ rfl w
    exact slots_start cfg w
  · exact fun s a t hs slots _ hst =>
      inOrder_step slots (overseen hs) (named hs) (step_inv hst)

theorem inOrder_idle (s : ProcessRuntime) : (s.inOrder cfg).Idle := by
  unfold inOrder
  have start : cfg.dispatch.slots.table.Idle := by
    obtain ⟨hbusy, havailable, -⟩ := cfg.dispatch.slots.table_spec
    exact ⟨hbusy, fun w => (havailable w).trans (cfg.dispatch.slots.connection_table w).symm⟩
  generalize cfg.dispatch.slots.table = table at start
  induction s.dispatch.emitted generalizing table with
  | nil => exact start
  | cons ev events ih => exact ih _ (start.handleExecutorEvent ev)

/-! ## The slots after handling the events in any order -/

/-- The event waits on the queue or in the hands of a call. -/
def Pending (s : ProcessRuntime) (ev : ExecutorEvent SlotPipe) : Prop :=
  ev ∈ s.dispatch.broker.executorEventQueue ∨
    ∃ i c, s.dispatch.calls i = some c ∧ c.event = some ev

/-- The start of a newer generation was put. -/
def Replaced (s : ProcessRuntime) (w : String) (g : Nat) : Prop :=
  ∃ g' connection, g < g' ∧ .started w g' connection ∈ s.dispatch.emitted

/-- The event is not an exit that overtakes the start of its generation, unless the
generation has been replaced since. -/
def InTurn (s : ProcessRuntime) (ev : ExecutorEvent SlotPipe) : Prop :=
  ∀ w g exitCode slot, ev = .exited w g exitCode →
    s.dispatch.broker.table.slotsByWorkerId w = some slot →
    g ≤ slot.generation ∨ s.Replaced w g

/-- Every slot is open or known exited, and every event has had its effect, if another
has not overtaken that, or is still pending. -/
structure Tracked (s : ProcessRuntime) : Prop where
  shape : ∀ w slot, s.dispatch.broker.table.slotsByWorkerId w = some slot →
    slot.connection = some (w, slot.generation) ∧ slot.exitedGeneration = none ∨
      slot.connection = none ∧ slot.exitedGeneration = some slot.generation ∧
        s.ReportedExit (w, slot.generation)
  known : ∀ w slot, s.dispatch.broker.table.slotsByWorkerId w = some slot →
    slot.generation = 1 ∨ ∃ connection, .started w slot.generation connection ∈ s.dispatch.emitted
  defined : ∀ w, (s.dispatch.broker.table.slotsByWorkerId w).isSome = (s.slots w).isSome
  starts : ∀ w g connection slot, .started w g connection ∈ s.dispatch.emitted →
    s.dispatch.broker.table.slotsByWorkerId w = some slot →
    s.Pending (.started w g connection) ∨ g ≤ slot.generation
  exits : ∀ w g exitCode slot, .exited w g exitCode ∈ s.dispatch.emitted →
    s.dispatch.broker.table.slotsByWorkerId w = some slot →
    s.Pending (.exited w g exitCode) ∨ g < slot.generation ∨
      g = slot.generation ∧ slot.connection = none ∨ s.Replaced w g

theorem handle_generation_le {κ : Type} (slot : ProcessExecutorSlot κ) (v : String)
    (ev : ExecutorEvent κ) : slot.generation ≤ (slot.handle v ev).generation := by
  cases ev with
  | exited w g code => unfold ProcessExecutorSlot.handle; dsimp only; split <;> exact le_rfl
  | started w g connection =>
    unfold ProcessExecutorSlot.handle
    dsimp only
    split
    · rename_i h
      exact Nat.le_of_lt h.2
    · exact le_rfl
  | invalid => exact le_rfl

/-- Where the slot of an exited or an open record comes from. -/
theorem handle_cases {κ : Type} (slot : ProcessExecutorSlot κ) (v : String) (ev : ExecutorEvent κ) :
    slot.handle v ev = slot ∨
      (∃ g code, ev = .exited v g code ∧ slot.generation = g ∧
        slot.handle v ev = ⟨none, g, some g⟩) ∨
      ∃ g connection, ev = .started v g connection ∧ slot.generation < g ∧
        slot.handle v ev = ⟨some connection, g, none⟩ := by
  cases ev with
  | exited w g code =>
    by_cases h : v = w ∧ slot.generation = g
    · obtain ⟨rfl, rfl⟩ := h
      exact .inr (.inl ⟨_, code, rfl, rfl, by simp [ProcessExecutorSlot.handle]⟩)
    · exact .inl (by simp [ProcessExecutorSlot.handle, h])
  | started w g connection =>
    by_cases h : v = w ∧ slot.generation < g
    · obtain ⟨rfl, hlt⟩ := h
      exact .inr (.inr ⟨g, connection, rfl, hlt, by simp [ProcessExecutorSlot.handle, hlt]⟩)
    · exact .inl (by simp [ProcessExecutorSlot.handle, h])
  | invalid => exact .inl rfl

/-- A step that changes no slot, and leaves pending what it puts. -/
theorem Tracked.of_same (h : s.Tracked)
    (table : t.dispatch.broker.table.slotsByWorkerId = s.dispatch.broker.table.slotsByWorkerId)
    (slots : ∀ w, (t.slots w).isSome = (s.slots w).isSome)
    (kept : ∀ ev ∈ s.dispatch.emitted, ev ∈ t.dispatch.emitted)
    (new : ∀ ev ∈ t.dispatch.emitted, ev ∈ s.dispatch.emitted ∨ t.Pending ev)
    (pending : ∀ ev, s.Pending ev → t.Pending ev) : t.Tracked := by
  have replaced : ∀ w g, s.Replaced w g → t.Replaced w g := fun w g ⟨g', c, hlt, hev⟩ =>
    ⟨g', c, hlt, kept _ hev⟩
  refine ⟨?_, ?_, fun w => by rw [table, slots, h.defined], ?_, ?_⟩
  · intro w slot hslot
    refine (h.shape w slot (table ▸ hslot)).imp_right ?_
    exact fun ⟨hconn, hexit, code, hev⟩ => ⟨hconn, hexit, code, kept _ hev⟩
  · intro w slot hslot
    exact (h.known w slot (table ▸ hslot)).imp_right fun ⟨c, hev⟩ => ⟨c, kept _ hev⟩
  · intro w g c slot hev hslot
    obtain hev | hpending := new _ hev
    · exact (h.starts w g c slot hev (table ▸ hslot)).imp_left (pending _)
    · exact .inl hpending
  · intro w g code slot hev hslot
    obtain hev | hpending := new _ hev
    · obtain hp | hlt | hclosed | hrep := h.exits w g code slot hev (table ▸ hslot)
      · exact .inl (pending _ hp)
      · exact .inr (.inl hlt)
      · exact .inr (.inr (.inl hclosed))
      · exact .inr (.inr (.inr (replaced w g hrep)))
    · exact .inl hpending

/-- A step that handles an event, or does to a slot what an exit report does. -/
theorem Tracked.of_handled (h : s.Tracked) (n : s.Named cfg) (ev : ExecutorEvent SlotPipe)
    (table : ∀ w, t.dispatch.broker.table.slotsByWorkerId w =
      (s.dispatch.broker.table.slotsByWorkerId w).map (·.handle w ev))
    (slots : t.slots = s.slots) (emitted : t.dispatch.emitted = s.dispatch.emitted)
    (pending : ∀ e, s.Pending e → t.Pending e ∨ e = ev ∧ s.InTurn ev)
    (exited : ∀ w g code, ev = .exited w g code → s.ReportedExit (w, g))
    (started : ∀ w g c, ev = .started w g c → ev ∈ s.dispatch.emitted) : t.Tracked := by
  have before : ∀ {w slot}, t.dispatch.broker.table.slotsByWorkerId w = some slot →
      ∃ old, s.dispatch.broker.table.slotsByWorkerId w = some old ∧ slot = old.handle w ev := by
    intro w slot hslot
    rw [table] at hslot
    obtain ⟨old, hold, rfl⟩ := Option.map_eq_some_iff.mp hslot
    exact ⟨old, hold, rfl⟩
  refine ⟨?_, ?_, fun w => by rw [table, slots, ← h.defined]; simp, ?_, ?_⟩
  · intro w slot hslot
    obtain ⟨old, hold, rfl⟩ := before hslot
    obtain hsame | ⟨g, code, hev, hg, hnew⟩ | ⟨g, c, rfl, hlt, hnew⟩ := handle_cases old w ev
    · rw [hsame]
      simpa [ReportedExit, emitted] using h.shape w old hold
    · rw [hnew]
      obtain ⟨code', hmem⟩ := exited w g code hev
      exact .inr ⟨rfl, rfl, code', emitted ▸ hmem⟩
    · rw [hnew]
      obtain ⟨rfl, -⟩ := n.started w g c (started w g c rfl)
      exact .inl ⟨rfl, rfl⟩
  · intro w slot hslot
    obtain ⟨old, hold, rfl⟩ := before hslot
    rw [emitted]
    obtain hsame | ⟨g, code, hev, hg, hnew⟩ | ⟨g, c, rfl, hlt, hnew⟩ := handle_cases old w ev
    · rw [hsame]
      exact h.known w old hold
    · rw [hnew]
      exact hg ▸ h.known w old hold
    · rw [hnew]
      exact .inr ⟨c, started w g c rfl⟩
  · intro w g c slot hev hslot
    obtain ⟨old, hold, rfl⟩ := before hslot
    obtain hp | hle := h.starts w g c old (emitted ▸ hev) hold
    · obtain hp | ⟨rfl, -⟩ := pending _ hp
      · exact .inl hp
      · right
        by_cases hlt : old.generation < g
        · simp [ProcessExecutorSlot.handle, hlt]
        · exact (Nat.le_of_not_lt hlt).trans (handle_generation_le old w _)
    · exact .inr (hle.trans (handle_generation_le old w ev))
  · intro w g code slot hev hslot
    obtain ⟨old, hold, rfl⟩ := before hslot
    have later := handle_generation_le old w ev
    have replaced : s.Replaced w g → t.Replaced w g := by simp [Replaced, emitted]
    obtain hp | hlt | ⟨hg, hconn⟩ | hrep := h.exits w g code old (emitted ▸ hev) hold
    · obtain hp | ⟨rfl, turn⟩ := pending _ hp
      · exact .inl hp
      · obtain hle | hrep := turn w g code old rfl hold
        · by_cases hg : old.generation = g
          · exact .inr (.inr (.inl (by simp [ProcessExecutorSlot.handle, hg])))
          · exact .inr (.inl (by omega))
        · exact .inr (.inr (.inr (replaced hrep)))
    · exact .inr (.inl (by omega))
    · obtain hsame | ⟨g', code', rfl, hg', hnew⟩ | ⟨g', c, rfl, hlt, hnew⟩ := handle_cases old w ev
      · rw [hsame]
        exact .inr (.inr (.inl ⟨hg, hconn⟩))
      · rw [hnew]
        exact .inr (.inr (.inl ⟨hg.trans hg', rfl⟩))
      · rw [hnew]
        exact .inr (.inl (hg ▸ hlt))
    · exact .inr (.inr (.inr (replaced hrep)))

theorem CallStep.pending {timeout : Option Nat} {κ : Type} {b b' : Broker κ}
    {c c' : ExecuteCall κ} {a : CallAction} (h : CallStep timeout b c a b' c')
    {ev : ExecutorEvent κ} (hev : ev ∈ b.executorEventQueue ∨ c.event = some ev) :
    (ev ∈ b'.executorEventQueue ∨ c'.event = some ev) ∨ a = .handleEvent ∧ c.event = some ev := by
  cases h with
  | handleEvent e he => exact hev.imp .inl fun hev => ⟨rfl, hev⟩
  | popEvent q e rest hidle _ hqueue =>
    rw [hqueue, List.mem_cons] at hev
    obtain (rfl | hev) | hev := hev
    · exact .inl (.inr rfl)
    · exact .inl (.inl hev)
    · simp [hidle] at hev
  | _ => exact .inl hev

/-- A call that found its pipe broken knows no more than the supervisor has put. -/
def Broken (s : ProcessRuntime) : Prop := ∀ i c l, s.dispatch.calls i = some c →
  c.phase = .markExited l → s.ReportedExit (l.workerId, l.generation)

/-- The events that the step handles are in turn. -/
def HandlesInTurn (s : ProcessRuntime) (a : RuntimeAction) : Prop :=
  ∀ i c ev, a = .call i .handleEvent → s.dispatch.calls i = some c → c.event = some ev →
    s.InTurn ev

theorem Pending.call {i : Nat} {b' : Broker SlotPipe} {c c' : ExecuteCall SlotPipe}
    {x : CallAction} {ev : ExecutorEvent SlotPipe} (h : s.Pending ev)
    (hc : s.dispatch.calls i = some c) (hcall : CallStep timeout s.dispatch.broker c x b' c') :
    (s.setCall i b' c').Pending ev ∨ x = .handleEvent ∧ c.event = some ev := by
  have mine : ev ∈ s.dispatch.broker.executorEventQueue ∨ c.event = some ev →
      (s.setCall i b' c').Pending ev ∨ x = .handleEvent ∧ c.event = some ev := by
    intro hev
    refine (CallStep.pending hcall hev).imp_left fun hev => ?_
    exact hev.imp_right fun hev => ⟨i, c', setCall_self, hev⟩
  obtain hqueue | ⟨j, d, hd, hev⟩ := h
  · exact mine (.inl hqueue)
  · by_cases hj : j = i
    · subst hj
      obtain rfl : c = d := by simpa [hc] using hd
      exact mine (.inr hev)
    · exact .inl (.inr ⟨j, d, by simp [setCall, Dispatch.withCall, hj, hd], hev⟩)

theorem Tracked.call {i : Nat} {b' : Broker SlotPipe} {c c' : ExecuteCall SlotPipe}
    {x : CallAction} (h : s.Tracked) (n : s.Named cfg) (d : s.dispatch.Announced cfg.dispatch)
    (broken : s.Broken) (turn : s.HandlesInTurn (.call i x)) (hc : s.dispatch.calls i = some c)
    (hcall : CallStep timeout s.dispatch.broker c x b' c') : (s.setCall i b' c').Tracked := by
  by_cases handles : x = .handleEvent
  · subst handles
    have step := hcall
    cases hcall with
    | handleEvent ev hev =>
      have emitted := d.inHand i c ev hc hev
      refine h.of_handled n ev (fun w => SlotTable.slots_handleExecutorEvent _ w ev) rfl rfl
        ?_ ?_ ?_
      · intro e he
        obtain hp | ⟨-, hsame⟩ := he.call hc step
        · exact .inl hp
        · obtain rfl : ev = e := by simpa [hev] using hsame
          exact .inr ⟨rfl, turn i c ev rfl hc hev⟩
      · rintro w g code rfl
        exact ⟨code, emitted⟩
      · exact fun _ _ _ _ => emitted
  · have pending : ∀ ev, s.Pending ev → (s.setCall i b' c').Pending ev := fun ev hev =>
      (hev.call hc hcall).resolve_right fun hx => handles hx.1
    obtain same | ⟨ev, hx, -⟩ | ⟨l, hphase, table⟩ := hcall.slots
    · exact h.of_same same (fun _ => rfl) (fun _ hev => hev) (fun _ hev => .inl hev) pending
    · exact absurd hx handles
    · refine h.of_handled n (.exited l.workerId l.generation none) (fun w => ?_) rfl rfl
        (fun e he => .inl (pending e he)) ?_ (by simp)
      · change b'.table.slotsByWorkerId w = _
        rw [table]
        exact SlotTable.slots_markSlotExited _ _ w _ none
      · rintro w g code ⟨⟩
        exact broken i c l hc hphase

theorem Tracked.step (h : s.Tracked) (n : s.Named cfg) (d : s.dispatch.Announced cfg.dispatch)
    (broken : s.Broken) (turn : s.HandlesInTurn a) (st : Step timeout s a t) : t.Tracked := by
  -- the slots are as they were, and what is new is pending
  have put : ∀ {ev} {u : ProcessRuntime}, u.dispatch = (s.emit ev).dispatch →
      (∀ w, (u.slots w).isSome = (s.slots w).isSome) → u.Tracked := by
    intro ev u hu slots
    refine h.of_same (by simp [hu, emit]) slots ?_ ?_ ?_
    · exact fun e he => by simp [hu, emit, he]
    · intro e he
      rw [hu] at he
      obtain he | he := List.mem_append.mp he
      · exact .inl he
      · exact .inr (.inl (by rw [hu]; exact List.mem_append_right _ he))
    · rintro e (he | he)
      · exact .inl (by rw [hu]; exact List.mem_append_left _ he)
      · exact .inr (by rw [hu]; exact he)
  have quiet : ∀ {u : ProcessRuntime}, u.dispatch = s.dispatch →
      (∀ w, (u.slots w).isSome = (s.slots w).isSome) → u.Tracked := fun hu slots =>
    h.of_same (by rw [hu]) slots (by simp [hu]) (fun e he => .inl (hu ▸ he)) (by simp [Pending, hu])
  have record : ∀ {v x y}, s.slots v = some y → ∀ w,
      (Function.update s.slots v (some x) w).isSome = (s.slots w).isSome := by
    intro v x y hv w
    by_cases hw : w = v <;> simp [hw, hv]
  cases st with
  | begin i attempt executionId hnone =>
    refine h.of_same rfl (fun _ => rfl) (fun _ hev => hev) (fun _ hev => .inl hev) ?_
    rintro ev (hqueue | ⟨j, c, hc, hev⟩)
    · exact .inl hqueue
    · have hj : j ≠ i := by
        rintro rfl
        simp [hnone] at hc
      exact .inr ⟨j, c, by simp [hj, hc], hev⟩
  | call i x c b' c' hc hsend hcall => exact h.call n d broken turn hc hcall
  | sent i c l hc idle hphase =>
    have := h.call n d broken (by simp [HandlesInTurn]) hc
      (CallStep.sendOk l idle hphase : CallStep timeout _ _ _ _ _)
    exact ⟨this.shape, this.known, this.defined, this.starts, this.exits⟩
  | received i c l m rest hc idle hphase =>
    have := h.call n d broken (by simp [HandlesInTurn]) hc
      (CallStep.recv m l idle hphase : CallStep timeout _ _ _ _ _)
    exact ⟨this.shape, this.known, this.defined, this.starts, this.exits⟩
  | executor | stopSent => exact quiet rfl fun _ => rfl
  | respawned w g hw => exact quiet rfl (record hw)
  | exitReported w g code hw => exact put rfl (record hw)
  | startReported w g hw => exact put rfl (record hw)

theorem Tracked.start (cfg : ProcessRuntimeConfig) : (ProcessRuntime.start cfg).Tracked := by
  have slot : ∀ w slot, (ProcessRuntime.start cfg).dispatch.broker.table.slotsByWorkerId w =
      some slot → slot = ⟨some (w, 1), 1, none⟩ := by
    intro w slot hslot
    rw [show (ProcessRuntime.start cfg).dispatch.broker.table = cfg.dispatch.slots.table from rfl,
      slots_start] at hslot
    obtain ⟨record, hrecord, rfl⟩ := Option.map_eq_some_iff.mp hslot
    simp only [ProcessRuntime.start] at hrecord
    split at hrecord <;> cases hrecord
    rfl
  refine ⟨?_, ?_, ?_, by simp [ProcessRuntime.start, Dispatch.start],
    by simp [ProcessRuntime.start, Dispatch.start]⟩
  · intro w r hr
    rw [slot w r hr]
    exact .inl ⟨rfl, rfl⟩
  · intro w r hr
    rw [slot w r hr]
    exact .inl rfl
  · intro w
    rw [show (ProcessRuntime.start cfg).dispatch.broker.table = cfg.dispatch.slots.table from rfl,
      slots_start]
    simp

/-- Once every event is handled, the broker's slot is the one the supervisor's record
stands for. -/
theorem Tracked.reported (h : s.Tracked) (hs : (processRuntime cfg).Reachable s)
    (handled : ∀ ev, ¬ s.Pending ev) (w : String) :
    s.dispatch.broker.table.slotsByWorkerId w = (s.slots w).map (·.reported w) := by
  have o := overseen hs
  have n := named hs
  have told := told hs
  cases hslot : s.slots w with
  | none =>
    have := h.defined w
    rw [hslot] at this
    simpa using this
  | some slot =>
    obtain ⟨r, hr⟩ := Option.isSome_iff_exists.mp ((h.defined w).trans (by simp [hslot]))
    obtain ⟨N, phase⟩ := slot
    rw [hr, Option.map_some, Option.some.injEq]
    have started : ∀ {g connection}, .started w g connection ∈ s.dispatch.emitted →
        1 ≤ g ∧ g ≤ N ∧ g ≤ r.generation := by
      intro g connection hev
      obtain ⟨hone, slot', hslot', hle⟩ := o.spawned _ (n.started w g connection hev).2
      obtain rfl : slot' = ⟨N, phase⟩ := by simpa [hslot] using hslot'.symm
      exact ⟨hone, hle, (h.starts w g connection r hev hr).resolve_left (handled _)⟩
    have hN : 1 ≤ N := (o.spawned _ (n.spawned w _ hslot)).1
    have bound : 1 ≤ r.generation ∧ r.generation ≤ N := by
      obtain hone | ⟨c, hev⟩ := h.known w r hr
      · omega
      · exact ⟨(started hev).1, (started hev).2.1⟩
    -- a slot whose generation was reported exited is closed
    have closed :
        s.ReportedExit (w, r.generation) → r = ⟨none, r.generation, some r.generation⟩ := by
      rintro ⟨code, hev⟩
      have hnone : r.connection = none := by
        obtain hp | hlt | ⟨-, hnone⟩ | ⟨g, c, hlt, hev'⟩ := h.exits w _ code r hev hr
        · exact absurd hp (handled _)
        · omega
        · exact hnone
        · have := (started hev').2.2
          omega
      obtain ⟨hconn, -⟩ | ⟨-, hexit, -⟩ := h.shape w r hr
      · simp [hconn] at hnone
      · obtain ⟨connection, generation, exited⟩ := r
        simp_all
    have newest : phase ≠ .respawned → r.generation = N := by
      intro hphase
      obtain hone | ⟨c, hev⟩ := told.announced w N phase hslot hphase
      · omega
      · have := (started hev).2.2
        omega
    cases phase with
    | running =>
      have hg := newest (by simp)
      obtain ⟨hconn, hexit⟩ | ⟨-, -, code, hev⟩ := h.shape w r hr
      · obtain ⟨connection, generation, exited⟩ := r
        simp_all [SupervisedSlot.reported]
      · obtain ⟨slot, hslot', hor⟩ := told.exits w _ code hev
        obtain rfl : slot = ⟨N, .running⟩ := by simpa [hslot] using hslot'.symm
        simp [hg] at hor
    | exitReported =>
      have hg := newest (by simp)
      rw [closed (o.exited _ _ hslot bound.1 (.inr ⟨hg, rfl⟩)), hg]
      rfl
    | respawned =>
      obtain ⟨hne, hnot⟩ := o.unannounced w _ hslot rfl
      have older : r.generation ≠ N := by
        obtain hone | ⟨c, hev⟩ := h.known w r hr
        · rw [hone]
          exact fun h => hne h.symm
        · intro hg
          rw [hg] at hev
          exact hnot c hev
      have hg : r.generation = N - 1 := by
        obtain htwo | ⟨c, hev⟩ := told.awaited w N hslot
        · omega
        · have := (started hev).2.2
          omega
      rw [closed (o.exited (w, r.generation) _ hslot bound.1 (.inl (by simp only; omega))), hg]
      rfl

/-- No call is in flight. -/
def NoneInFlight (s : ProcessRuntime) : Prop :=
  ∀ i c, s.dispatch.calls i = some c → ∃ l o, c.phase = .returned l o

/-- Between calls, the available slots are those with a connection. -/
theorem available_iff (hs : (processRuntime cfg).Reachable s) (settled : s.NoneInFlight)
    (w : String) : w ∈ s.dispatch.broker.table.availableWorkerIds ↔
      (s.dispatch.broker.table.connection w).isSome := by
  have capacity := capacity_reachable (reachable_dispatch hs)
  refine ⟨capacity.live w, fun hw => (capacity.accounted w hw).resolve_right ?_⟩
  rintro ⟨i, l, hl, -⟩
  cases hc : s.dispatch.calls i with
  | none => simp [Dispatch.view, hc] at hl
  | some c =>
    obtain ⟨k, o, hp⟩ := settled i c hc
    simp [Dispatch.view, hc, hp, Phase.lease] at hl

end ProcessRuntime

namespace Supervised

variable {cfg : SupervisorConfig} {s t : Supervised} {a : SupervisedAction}

/-- No call handles an exit that overtakes the start of its generation. -/
def InTurn (s : Supervised) (a : SupervisedAction) : Prop :=
  ∀ i c ev, a = .call i .handleEvent → s.runtime.dispatch.calls i = some c →
    c.event = some ev → s.runtime.InTurn ev

theorem broken_step (hs : (supervised cfg).Reachable s) (h : s.runtime.Broken)
    (hst : s.step cfg a = some t) : t.runtime.Broken := by
  intro i c' l hc' hphase
  obtain hsame | ⟨b, st, -, -, hcalls, -⟩ := runtime_step hst
  · rw [hsame] at hc' ⊢
    exact h i c' l hc' hphase
  have kept : s.runtime.ReportedExit (l.workerId, l.generation) →
      t.runtime.ReportedExit (l.workerId, l.generation) := fun ⟨code, hev⟩ => ⟨code, st.emitted hev⟩
  by_cases hold : s.runtime.dispatch.calls i = some c'
  · exact kept (h i c' l hold hphase)
  have named : ∀ {c : ExecuteCall SlotPipe}, s.runtime.dispatch.calls i = some c →
      c.phase.held = some l → s.executorEndClosed l.connection = true →
      t.runtime.ReportedExit (l.workerId, l.generation) := by
    intro c hc held hclosed
    have := endOfFile_reported hs hclosed
    rw [(ProcessRuntime.lease_overseen (reachable_runtime hs) hc held).1] at this
    exact kept this
  generalize t.runtime = r at *
  cases st with
  | begin j attempt executionId hnone =>
    by_cases hj : i = j
    · subst hj
      simp only [Function.update_self, Option.some.injEq] at hc'
      subst hc'
      cases hphase
    · exact absurd (by simpa [hj] using hc') hold
  | call j x c b' c'' hc hsend hcall =>
    obtain ⟨rfl, rfl⟩ | ⟨-, hc'⟩ := ProcessRuntime.setCall_calls hc'
    · have allowed := (hcalls i x c rfl hc).2
      cases hcall with
      | handleEvent | popEvent => exact kept (h i c l hc hphase)
      | drained q _ hq =>
        subst hphase
        cases hcp : c.phase <;> simp [hcp, Phase.drained] at hq
      | sendBroken m _ hp =>
        obtain rfl : m = l := by simpa using hphase
        exact named hc (by simp [hp, Phase.held]) (by simpa [pipeAllows, hp] using allowed)
      | recvBroken m _ hp =>
        obtain rfl : m = l := by simpa using hphase
        rcases hp with hp | hp <;>
          exact named hc (by simp [hp, Phase.held]) (by simpa [pipeAllows, hp] using allowed)
      | poll ready m => cases ready <;> simp at hphase
      | _ => simp at hphase
    · exact absurd hc' hold
  | sent j c m hc idle hp =>
    obtain ⟨rfl, rfl⟩ | ⟨-, hc'⟩ := ProcessRuntime.setCall_calls hc'
    · cases hphase
    · exact absurd hc' hold
  | received j c m x rest hc idle hp =>
    obtain ⟨rfl, rfl⟩ | ⟨-, hc'⟩ := ProcessRuntime.setCall_calls hc'
    · cases hphase
    · exact absurd hc' hold
  | _ => exact absurd hc' hold

theorem broken (h : (supervised cfg).Reachable s) : s.runtime.Broken := by
  refine h.invariant (P := fun s => s.runtime.Broken) ?_ fun s a t hs hb _ hst =>
    broken_step hs hb hst
  rintro _ rfl i c l hc
  simp [start, ProcessRuntime.start, Dispatch.start] at hc

theorem tracked (h : (supervised cfg).Guarded InTurn s) : s.runtime.Tracked := by
  refine h.invariant (P := fun s => s.runtime.Tracked) ?_ ?_
  · rintro _ rfl
    exact .start cfg.toProcessRuntimeConfig
  · intro s a t hs tracked turn hst
    have hr := reachable_runtime hs.reachable
    obtain hsame | ⟨b, st, -, -, hcalls, -⟩ := runtime_step hst
    · exact hsame ▸ tracked
    · refine tracked.step (ProcessRuntime.named hr)
        (Dispatch.leasesKnown (ProcessRuntime.reachable_dispatch hr)).1 (broken hs.reachable) ?_ st
      rintro i c ev rfl hc hev
      exact turn i c ev (hcalls i _ c rfl hc).1 hc hev

/-- However the calls have handled the lifecycle events, when all are handled and no
call is in flight, every slot is as if they had been handled in the order of the queue. -/
theorem events_in_any_order (h : (supervised cfg).Guarded InTurn s)
    (handled : ∀ ev, ¬ s.runtime.Pending ev) (settled : s.runtime.NoneInFlight) (w : String) :
    s.runtime.dispatch.broker.table.slotsByWorkerId w =
        (s.runtime.inOrder cfg.toProcessRuntimeConfig).slotsByWorkerId w ∧
      (w ∈ s.runtime.dispatch.broker.table.availableWorkerIds ↔
        w ∈ (s.runtime.inOrder cfg.toProcessRuntimeConfig).availableWorkerIds) := by
  have hr := reachable_runtime h.reachable
  have same := ((tracked h).reported hr handled w).trans (ProcessRuntime.inOrder_slots hr w).symm
  refine ⟨same, ?_⟩
  rw [ProcessRuntime.available_iff hr settled, ProcessRuntime.inOrder_idle s.runtime |>.available]
  simp [SlotTable.connection, same]

/-! ## An exit handled in turn, and one that overtakes -/

theorem inTurn_quiet (h : ∀ i, a ≠ .call i .handleEvent) : s.InTurn a :=
  fun i _ _ ha => absurd ha (h i)

/-- The executor of call 0 crashes, and its exit is put and popped. -/
def exitSchedule : List SupervisedAction :=
  leasingSchedule ++ [.call 0 .sendOk, .executor ("w", 1) .crash] ++
    List.replicate 3 (.supervisor (some 1)) ++ [.call 0 .popEvent]

theorem events_in_any_order_exit : ∃ s : Supervised,
    (supervised oneSupervisor).Guarded InTurn s ∧ s.runtime.ReportedExit ("w", 1) ∧
      s.runtime.dispatch.broker.table.slotsByWorkerId "w" =
        (s.runtime.inOrder oneSupervisor.toProcessRuntimeConfig).slotsByWorkerId "w" := by
  have popped : (supervised oneSupervisor).Guarded InTurn
      ((supervised oneSupervisor).follow (.start oneSupervisor) exitSchedule) := by
    refine .follow (.init rfl) _ fun a ha s => inTurn_quiet ?_
    rintro i rfl
    simp [exitSchedule, leasingSchedule] at ha
  have handled : (supervised oneSupervisor).Guarded InTurn
      ((supervised oneSupervisor).follow (.start oneSupervisor)
        (exitSchedule ++ [.call 0 .handleEvent])) := by
    refine .step (.call 0 .handleEvent) popped ?_ rfl
    rintro _ c ev ⟨⟩ hc hev w g code slot rfl hslot
    cases hc
    cases hev
    cases hslot
    exact .inl le_rfl
  have run := handled.follow ([.drained, .checkExited, .drained, .lockRelease].map (.call 0))
    fun a ha s => inTurn_quiet (by rintro i rfl; simp at ha)
  refine ⟨_, run, ⟨some 1, List.mem_singleton_self _⟩, (events_in_any_order run ?_ ?_ "w").1⟩
  · rintro ev (hqueue | ⟨_ | i, c, hc, hev⟩)
    · cases hqueue
    · cases hc
      cases hev
    · cases hc
  · rintro (_ | i) c hc
    · cases hc
      exact ⟨_, _, rfl⟩
    · cases hc

def twoSupervisor : SupervisorConfig where
  workerIds := ["v", "w"]
  nodup := by simp
  completionTimeoutSeconds := none
  beginsAfterStop := false

/-- Call 0 is served by `v`. Call 1 loses the executor of `w` and takes the start of the
next one from the queue; call 0 takes and handles the exit of that one first. -/
def overtakingSchedule : List SupervisedAction :=
  [.begin 0 someAttempt "e0" :: [.drained, .getSlot, .lockLease, .sendOk].map (.call 0),
    .begin 1 someAttempt "e1" :: [.drained, .getSlot, .lockLease, .sendOk].map (.call 1),
    [.test, .poll true, .recv, .finish (completedResult []), .sendOk].map (.executor ("v", 1)),
    [.call 0 .drained, .call 0 .checkExited, .call 0 (.poll true), .receive 0],
    .executor ("w", 1) .crash :: List.replicate 4 (.supervisor (some 1)),
    [.popEvent, .handleEvent, .drained, .checkExited].map (.call 1),
    List.replicate 7 (.supervisor none),
    .call 1 .popEvent :: .executor ("w", 2) .crash :: List.replicate 2 (.supervisor (some 1)),
    [.popEvent, .handleEvent, .drained, .lockRelease].map (.call 0),
    [.handleEvent, .drained, .lockRelease].map (.call 1)].flatten

def overtaken : Supervised :=
  (supervised twoSupervisor).follow (.start twoSupervisor) overtakingSchedule

set_option maxRecDepth 4000 in
/-- An exit that is handled before the start of its generation is lost: the slot of a
dead executor is left available, with its connection. -/
theorem exit_overtakes_start : ∃ s : Supervised, (supervised twoSupervisor).Reachable s ∧
    (∀ ev, ¬ s.runtime.Pending ev) ∧ s.runtime.NoneInFlight ∧
    s.runtime.exited ("w", 2) = true ∧ s.runtime.ReportedExit ("w", 2) ∧
    s.runtime.dispatch.broker.table.slotsByWorkerId "w" = some ⟨some ("w", 2), 2, none⟩ ∧
    "w" ∈ s.runtime.dispatch.broker.table.availableWorkerIds ∧
    (s.runtime.inOrder twoSupervisor.toProcessRuntimeConfig).slotsByWorkerId "w" =
      some ⟨none, 2, some 2⟩ := by
  refine ⟨overtaken, Machine.Reachable.follow rfl, ?_, ?_, rfl, ⟨some 1, ?_⟩, rfl, ?_, rfl⟩
  · rintro ev (hqueue | ⟨_ | _ | i, c, hc, hev⟩)
    · cases hqueue
    · cases hc
      cases hev
    · cases hc
      cases hev
    · cases hc
  · rintro (_ | _ | i) c hc
    · cases hc
      exact ⟨_, _, rfl⟩
    · cases hc
      exact ⟨_, _, rfl⟩
    · cases hc
  · exact List.mem_of_getElem? (i := 2) rfl
  · decide

end Supervised

end Perago.ConductorRuntime
