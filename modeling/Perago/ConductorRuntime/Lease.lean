import Perago.ConductorRuntime.Workers

/-!
# The lease protocol

What the slot protocol of the dispatch worker is about: which call holds which
lease, which call has popped which slot, and the table. Seven kinds of step
change this view; the invariants below are proved once for them and hold in
every machine whose steps are steps of the worker.
-/

namespace Perago.ConductorRuntime

open Perago.Transition

variable {κ : Type}

/-! ## The view and its steps -/

structure LeaseView (κ : Type) where
  table : SlotTable κ
  leaseOf : Nat → Option (Lease κ)
  poppedOf : Nat → Option String

def Dispatch.view (s : Dispatch κ) : LeaseView κ where
  table := s.broker.table
  leaseOf i := (s.calls i).bind (·.phase.lease)
  poppedOf i := (s.calls i).bind (·.phase.popped)

@[simp] theorem Dispatch.view_table (s : Dispatch κ) : s.view.table = s.broker.table := rfl

inductive LeaseStep (v : LeaseView κ) : LeaseView κ → Prop where
  | quiet : LeaseStep v v
  | event (ev : ExecutorEvent κ) :
      LeaseStep v { v with table := v.table.handleExecutorEvent ev }
  | got (i : Nat) (w : String) (rest : List String) : v.table.availableSlots = w :: rest →
      v.leaseOf i = none → v.poppedOf i = none →
      LeaseStep v { v with
        table := { v.table with availableSlots := rest }
        poppedOf := Function.update v.poppedOf i (some w) }
  | refused (i : Nat) (w : String) : v.poppedOf i = some w → v.table.leaseSlotLocked w = none →
      LeaseStep v { v with poppedOf := Function.update v.poppedOf i none }
  | leased (i : Nat) (w : String) (l : Lease κ) (table : SlotTable κ) :
      v.poppedOf i = some w → v.leaseOf i = none →
      v.table.leaseSlotLocked w = some (l, table) →
      LeaseStep v {
        table := table
        leaseOf := Function.update v.leaseOf i (some l)
        poppedOf := Function.update v.poppedOf i none }
  | markedExited (i : Nat) (l : Lease κ) : v.leaseOf i = some l →
      LeaseStep v { v with table := v.table.markSlotExited l.workerId l.generation }
  | released (i : Nat) (l : Lease κ) : v.leaseOf i = some l → v.poppedOf i = none →
      LeaseStep v { v with
        table := v.table.releaseSlotLocked l.workerId
        leaseOf := Function.update v.leaseOf i none }

theorem Dispatch.view_withCall (s : Dispatch κ) (i : Nat) (r : Broker κ × ExecuteCall κ) :
    (s.withCall i r).view = {
      table := r.1.table
      leaseOf := Function.update s.view.leaseOf i r.2.phase.lease
      poppedOf := Function.update s.view.poppedOf i r.2.phase.popped } := by
  unfold Dispatch.view Dispatch.withCall
  congr 1 <;> funext j <;> by_cases h : j = i <;> simp [h]

/-- Every step of the worker is a step of the lease protocol. -/
theorem Dispatch.step_view {cfg : DispatchConfig κ} {s t : Dispatch κ} {a : DispatchAction κ}
    (h : s.step cfg a = some t) : LeaseStep s.view t.view := by
  cases a with
  | emit ev => cases h; exact .quiet
  | begin i attempt executionId =>
    simp only [Dispatch.step] at h
    split at h <;> cases h
    rename_i hnone
    have same : ({ s with calls := Function.update s.calls i (some { attempt, executionId }) } :
        Dispatch κ).view = s.view := by
      unfold Dispatch.view
      congr 1 <;> funext j <;> by_cases hj : j = i <;>
        simp [hj, hnone, Phase.lease, Phase.popped]
    exact same ▸ .quiet
  | call i a =>
    simp only [Dispatch.step] at h
    cases hc : s.calls i with
    | none => simp [hc] at h
    | some c =>
      simp only [hc] at h
      obtain ⟨⟨b, c'⟩, hstep, rfl⟩ := Option.map_eq_some_iff.mp h
      have lease : s.view.leaseOf i = c.phase.lease := by simp [Dispatch.view, hc]
      have popped : s.view.poppedOf i = c.phase.popped := by simp [Dispatch.view, hc]
      have keepLease : Function.update s.view.leaseOf i c.phase.lease = s.view.leaseOf :=
        lease ▸ Function.update_eq_self i _
      have keepPopped : Function.update s.view.poppedOf i c.phase.popped = s.view.poppedOf :=
        popped ▸ Function.update_eq_self i _
      rw [Dispatch.view_withCall]
      cases callStep_effect hstep with
      | quiet ht hl hp =>
        dsimp only
        rw [ht, hl, hp, keepLease, keepPopped]
        exact .quiet
      | event ev _ ht hp =>
        dsimp only
        rw [ht, hp, keepLease, keepPopped]
        exact .event ev
      | got w rest hp hq ht hp' =>
        have step := LeaseStep.got (v := s.view) i w rest hq (by simp [lease, hp, Phase.lease])
          (by simp [popped, hp, Phase.popped])
        simp only [hp, Phase.lease] at keepLease
        simpa [ht, hp', Phase.lease, Phase.popped, keepLease] using step
      | refused w hp hl ht hp' =>
        have step := LeaseStep.refused (v := s.view) i w (by simp [popped, hp, Phase.popped]) hl
        simp only [hp, Phase.lease] at keepLease
        simpa [ht, hp', Phase.lease, Phase.popped, keepLease] using step
      | leased w l hp hl hp' =>
        have step := LeaseStep.leased (v := s.view) i w l b.table
          (by simp [popped, hp, Phase.popped]) (by simp [lease, hp, Phase.lease]) hl
        simpa [hp', Phase.lease, Phase.popped] using step
      | markedExited l hp ht hp' =>
        have step := LeaseStep.markedExited (v := s.view) i l (by simp [lease, hp, Phase.lease])
        simp only [hp, Phase.lease, Phase.popped] at keepLease keepPopped
        simpa [ht, hp', Phase.lease, Phase.popped, keepLease, keepPopped] using step
      | released l o hp ht hp' =>
        have step := LeaseStep.released (v := s.view) i l (by simp [lease, hp, Phase.lease])
          (by simp [popped, hp, Phase.popped])
        simp only [hp, Phase.popped] at keepPopped
        simpa [ht, hp', Phase.lease, Phase.popped, keepPopped] using step

/-! ## The initial view -/

variable {cfg : DispatchConfig κ}

theorem SlotList.table_spec (slots : SlotList κ) :
    slots.table.busyWorkerIds = ∅ ∧
      (∀ w, w ∈ slots.table.availableWorkerIds ↔ w ∈ slots.slots.map Prod.fst) ∧
      (∀ w ∈ slots.table.availableWorkerIds, w ∈ slots.table.availableSlots) ∧
      (∀ w, slots.table.slotsByWorkerId w =
        (slots.slots.lookup w).map fun s => { connection := some s.1, generation := s.2 }) := by
  obtain ⟨hslots, hbusy, havailable, hqueue⟩ := SlotTable.foldl_markSlotAvailableLocked
    (slots.slots.map Prod.fst)
    { slotsByWorkerId := fun w => (slots.slots.map fun s =>
        (s.1, ({ connection := some s.2.1, generation := s.2.2 } : ProcessExecutorSlot κ))).lookup w
      availableSlots := []
      availableWorkerIds := ∅
      busyWorkerIds := ∅ } (by simp)
  have names : slots.table = (slots.slots.map Prod.fst).foldl SlotTable.markSlotAvailableLocked
      { slotsByWorkerId := fun w => (slots.slots.map fun s =>
          (s.1, ({ connection := some s.2.1, generation := s.2.2 } :
            ProcessExecutorSlot κ))).lookup w
        availableSlots := []
        availableWorkerIds := ∅
        busyWorkerIds := ∅ } := by
    simp [SlotList.table, SlotTable.ofSlots, List.map_map, Function.comp_def]
  refine ⟨names ▸ hbusy, fun w => by simpa [names] using havailable w, names ▸ hqueue, ?_⟩
  intro w
  rw [names, hslots]
  dsimp only
  generalize slots.slots = l
  induction l with
  | nil => rfl
  | cons s l ih =>
    obtain ⟨v, connection, generation⟩ := s
    by_cases h : w == v <;> simp [List.lookup_cons, h, ih]

theorem SlotList.connection_table (slots : SlotList κ) (w : String) :
    (slots.table.connection w).isSome ↔ w ∈ slots.slots.map Prod.fst := by
  have same : (slots.table.connection w).isSome = (slots.slots.lookup w).isSome := by
    rw [SlotTable.connection, slots.table_spec.2.2.2]
    cases slots.slots.lookup w <;> rfl
  rw [same]
  simp [List.lookup_isSome_iff]

/-! ## Capacity -/

namespace LeaseView

/-- Some in-flight call holds a lease of the slot. -/
def Leased (v : LeaseView κ) (w : String) : Prop := ∃ i l, v.leaseOf i = some l ∧ l.workerId = w

/-- Availability and leases account for every slot with a connection. -/
structure Capacity (v : LeaseView κ) : Prop where
  disjoint : ∀ w ∈ v.table.availableWorkerIds, w ∉ v.table.busyWorkerIds
  live : ∀ w ∈ v.table.availableWorkerIds, (v.table.connection w).isSome
  queued : ∀ w ∈ v.table.availableWorkerIds,
    w ∈ v.table.availableSlots ∨ ∃ i, v.poppedOf i = some w
  busyLeased : ∀ w ∈ v.table.busyWorkerIds, v.Leased w
  accounted : ∀ w, (v.table.connection w).isSome → w ∈ v.table.availableWorkerIds ∨ v.Leased w

variable {v v' : LeaseView κ} {w : String} {i : Nat}

theorem Capacity.init (cfg : DispatchConfig κ) : (Dispatch.start cfg).view.Capacity := by
  obtain ⟨hbusy, havailable, hqueue, -⟩ := cfg.slots.table_spec
  exact {
    disjoint := by simp [Dispatch.start, hbusy]
    live := fun w hw => (cfg.slots.connection_table w).mpr ((havailable w).mp hw)
    queued := fun w hw => .inl (hqueue w hw)
    busyLeased := by simp [Dispatch.start, hbusy]
    accounted := fun w hw => .inl ((havailable w).mpr ((cfg.slots.connection_table w).mp hw)) }

/-- A new lease of one call keeps every slot leased that was. -/
theorem Leased.update {l : Lease κ} {t : SlotTable κ} {p : Nat → Option String}
    (free : v.leaseOf i = none) (h : v.Leased w) :
    Leased ⟨t, Function.update v.leaseOf i (some l), p⟩ w := by
  obtain ⟨j, m, hj, hm⟩ := h
  have hne : j ≠ i := by rintro rfl; simp [free] at hj
  exact ⟨j, m, by simpa [hne] using hj, hm⟩

/-- Dropping the lease of one slot leaves the others leased. -/
theorem Leased.release {l : Lease κ} {t : SlotTable κ} {p : Nat → Option String}
    (held : v.leaseOf i = some l) (h : v.Leased w) (hw : w ≠ l.workerId) :
    Leased ⟨t, Function.update v.leaseOf i none, p⟩ w := by
  obtain ⟨j, m, hj, hm⟩ := h
  have hne : j ≠ i := by rintro rfl; simp_all
  exact ⟨j, m, by simpa [hne] using hj, hm⟩

theorem Capacity.exited (h : v.Capacity) (g : Nat) :
    Capacity { v with table := v.table.markSlotExited w g } := by
  rcases v.table.markSlotExited_cases w g with ⟨-, same⟩ |
    ⟨-, hconn, -, havailable, hbusy, hqueue⟩
  · rw [same]; exact h
  · refine ⟨?_, ?_, ?_, ?_, ?_⟩ <;> dsimp only
    · intro u hu
      rw [havailable, Finset.mem_erase] at hu
      rw [hbusy, Finset.mem_erase]
      exact fun hb => h.disjoint u hu.2 hb.2
    · intro u hu
      rw [havailable, Finset.mem_erase] at hu
      rw [hconn, if_neg hu.1]
      exact h.live u hu.2
    · intro u hu
      rw [havailable, Finset.mem_erase] at hu
      rw [hqueue]
      exact h.queued u hu.2
    · intro u hu
      rw [hbusy, Finset.mem_erase] at hu
      exact h.busyLeased u hu.2
    · intro u hu
      rw [hconn] at hu
      by_cases heq : u = w
      · simp [heq] at hu
      · rw [if_neg heq] at hu
        rw [havailable, Finset.mem_erase]
        exact (h.accounted u hu).imp_left fun ha => ⟨heq, ha⟩

theorem Capacity.started (h : v.Capacity) (g : Nat) (c : κ) :
    Capacity { v with table := v.table.handleExecutorStarted w g c } := by
  rcases v.table.handleExecutorStarted_cases w g c with ⟨-, same⟩ |
    ⟨-, hconn, -, hbusy, havailable, hqueue⟩
  · rw [same]; exact h
  · refine ⟨?_, ?_, ?_, ?_, ?_⟩ <;> dsimp only
    · intro u hu
      rw [hbusy]
      obtain hu | ⟨rfl, hb⟩ := (havailable u).mp hu
      · exact h.disjoint u hu
      · exact hb
    · intro u hu
      rw [hconn]
      split
      · rfl
      · rename_i hne
        exact h.live u (((havailable u).mp hu).resolve_right fun hu => hne hu.1)
    · intro u hu
      by_cases ha : u ∈ v.table.availableWorkerIds
      · exact (h.queued u ha).imp_left fun hq => hqueue u (.inl hq)
      · obtain ⟨rfl, hb⟩ := ((havailable u).mp hu).resolve_left ha
        exact .inl (hqueue u (.inr ⟨rfl, hb, ha⟩))
    · intro u hu
      exact h.busyLeased u (hbusy ▸ hu)
    · intro u hu
      rw [havailable]
      by_cases heq : u = w
      · subst heq
        by_cases hb : u ∈ v.table.busyWorkerIds
        · exact .inr (h.busyLeased u hb)
        · exact .inl (.inr ⟨rfl, hb⟩)
      · rw [hconn, if_neg heq] at hu
        exact (h.accounted u hu).imp_left .inl

theorem Capacity.got {rest : List String} (h : v.Capacity)
    (hq : v.table.availableSlots = w :: rest) (hp : v.poppedOf i = none) : Capacity { v with
      table := { v.table with availableSlots := rest }
      poppedOf := Function.update v.poppedOf i (some w) } where
  disjoint := h.disjoint
  live := h.live
  queued u hu := by
    obtain hmem | ⟨j, hj⟩ := h.queued u hu
    · rw [hq, List.mem_cons] at hmem
      obtain rfl | hmem := hmem
      · exact .inr ⟨i, by simp⟩
      · exact .inl hmem
    · have hne : j ≠ i := by rintro rfl; simp [hp] at hj
      exact .inr ⟨j, by simpa [hne] using hj⟩
  busyLeased := h.busyLeased
  accounted := h.accounted

/-- The entry that is thrown away was for a slot that is not available. -/
theorem Capacity.refused (h : v.Capacity) (hp : v.poppedOf i = some w)
    (hl : v.table.leaseSlotLocked w = none) :
    Capacity { v with poppedOf := Function.update v.poppedOf i none } where
  disjoint := h.disjoint
  live := h.live
  queued u hu := by
    refine (h.queued u hu).imp_right fun ⟨j, hj⟩ => ⟨j, ?_⟩
    have hne : j ≠ i := by
      rintro rfl
      obtain rfl : w = u := by simpa [hp] using hj
      obtain hc | ha := SlotTable.leaseSlotLocked_none hl
      · simpa [hc] using h.live w hu
      · exact ha hu
    simpa [hne] using hj
  busyLeased := h.busyLeased
  accounted := h.accounted

theorem Capacity.leased {l : Lease κ} {table : SlotTable κ} (h : v.Capacity)
    (hp : v.poppedOf i = some w) (free : v.leaseOf i = none)
    (hl : v.table.leaseSlotLocked w = some (l, table)) : Capacity {
      table := table
      leaseOf := Function.update v.leaseOf i (some l)
      poppedOf := Function.update v.poppedOf i none } := by
  obtain ⟨hw, -, -, ha, rfl⟩ := SlotTable.leaseSlotLocked_some hl
  constructor <;> dsimp only
  case disjoint =>
    intro u hu
    rw [Finset.mem_erase] at hu
    rw [Finset.mem_insert, not_or]
    exact ⟨hu.1, h.disjoint u hu.2⟩
  case live =>
    intro u hu
    exact h.live u (Finset.mem_of_mem_erase hu)
  case queued =>
    intro u hu
    rw [Finset.mem_erase] at hu
    refine (h.queued u hu.2).imp_right fun ⟨j, hj⟩ => ⟨j, ?_⟩
    have hne : j ≠ i := by
      rintro rfl
      rw [hp] at hj
      exact hu.1 (Option.some.inj hj).symm
    simpa [hne] using hj
  case busyLeased =>
    intro u hu
    rw [Finset.mem_insert] at hu
    obtain rfl | hu := hu
    · exact ⟨i, l, by simp, hw⟩
    · exact (h.busyLeased u hu).update free
  case accounted =>
    intro u hu
    by_cases heq : u = w
    · exact .inr ⟨i, l, by simp, hw.trans heq.symm⟩
    · rw [Finset.mem_erase]
      exact (h.accounted u hu).imp (fun ha => ⟨heq, ha⟩) (·.update free)

theorem Capacity.released {l : Lease κ} (h : v.Capacity) (held : v.leaseOf i = some l) :
    Capacity { v with
      table := v.table.releaseSlotLocked l.workerId
      leaseOf := Function.update v.leaseOf i none } where
  disjoint u hu := by
    rw [SlotTable.busy_releaseSlotLocked, Finset.mem_erase]
    obtain hu | ⟨rfl, -⟩ := SlotTable.mem_available_releaseSlotLocked.mp hu
    · exact fun hb => h.disjoint u hu hb.2
    · exact fun hb => hb.1 rfl
  live u hu := by
    rw [SlotTable.connection_releaseSlotLocked]
    obtain hu | ⟨rfl, hc⟩ := SlotTable.mem_available_releaseSlotLocked.mp hu
    · exact h.live u hu
    · exact hc
  queued u hu := by
    by_cases ha : u ∈ v.table.availableWorkerIds
    · exact (h.queued u ha).imp_left fun hq => SlotTable.mem_queue_releaseSlotLocked (.inl hq)
    · obtain ⟨rfl, hc⟩ := (SlotTable.mem_available_releaseSlotLocked.mp hu).resolve_left ha
      exact .inl (SlotTable.mem_queue_releaseSlotLocked (.inr ⟨rfl, ha, hc⟩))
  busyLeased u hu := by
    rw [SlotTable.busy_releaseSlotLocked, Finset.mem_erase] at hu
    exact (h.busyLeased u hu.2).release held hu.1
  accounted u hu := by
    rw [SlotTable.connection_releaseSlotLocked] at hu
    rw [SlotTable.mem_available_releaseSlotLocked]
    by_cases heq : u = l.workerId
    · exact .inl (.inr ⟨heq, heq ▸ hu⟩)
    · exact (h.accounted u hu).imp .inl (·.release held heq)

theorem Capacity.step (h : v.Capacity) (st : LeaseStep v v') : v'.Capacity := by
  cases st with
  | quiet => exact h
  | event ev =>
    cases ev with
    | exited w g code => exact h.exited g
    | started w g c => exact h.started g c
    | invalid => exact h
  | markedExited i l held => exact h.exited l.generation
  | got i w rest hq _ hp => exact h.got hq hp
  | refused i w hp hl => exact h.refused hp hl
  | leased i w l table hp free hl => exact h.leased hp free hl
  | released i l held _ => exact h.released held

/-! ## Generations -/

/-- No slot's generation decreases. -/
theorem generation_le (st : LeaseStep v v') {g : Nat} (h : v.table.generation w = some g) :
    ∃ g', v'.table.generation w = some g' ∧ g ≤ g' := by
  have exited : ∀ u k, ∃ g', (v.table.markSlotExited u k).generation w = some g' ∧ g ≤ g' := by
    intro u k
    obtain ⟨-, same⟩ | ⟨-, -, hgen, -⟩ := v.table.markSlotExited_cases u k
    · exact ⟨g, by rw [same]; exact h, le_rfl⟩
    · exact ⟨g, by rw [hgen]; exact h, le_rfl⟩
  cases st with
  | quiet => exact ⟨g, h, le_rfl⟩
  | event ev =>
    cases ev with
    | exited u k code => exact exited u k
    | started u k c =>
      obtain ⟨-, same⟩ | ⟨⟨g₀, hg₀, hlt⟩, -, hgen, -⟩ := v.table.handleExecutorStarted_cases u k c
      · exact ⟨g, by simpa [SlotTable.handleExecutorEvent, same] using h, le_rfl⟩
      · simp only [SlotTable.handleExecutorEvent, hgen]
        split
        · rename_i heq
          subst heq
          obtain rfl : g₀ = g := by simpa [hg₀] using h
          exact ⟨k, rfl, hlt.le⟩
        · exact ⟨g, h, le_rfl⟩
    | invalid => exact ⟨g, h, le_rfl⟩
  | got => exact ⟨g, h, le_rfl⟩
  | refused => exact ⟨g, h, le_rfl⟩
  | leased i u l table _ _ hl =>
    obtain ⟨-, -, -, -, rfl⟩ := SlotTable.leaseSlotLocked_some hl
    exact ⟨g, h, le_rfl⟩
  | markedExited i l _ => exact exited l.workerId l.generation
  | released i l _ _ => exact ⟨g, by simpa using h, le_rfl⟩

/-! ## Exclusion -/

/-- A call whose lease is of an older generation, while another call leases the
slot's current generation and its pipe is open. -/
def StaleRelease (v : LeaseView κ) (i : Nat) : Prop :=
  ∃ l j m, v.leaseOf i = some l ∧ v.leaseOf j = some m ∧ j ≠ i ∧ m.workerId = l.workerId ∧
    l.generation ≠ m.generation ∧ v.table.generation l.workerId = some m.generation ∧
    (v.table.connection l.workerId).isSome

/-- No two calls lease one generation of a slot, and an available slot's
generation is leased by none. -/
structure Exclusive (v : LeaseView κ) : Prop where
  bound : ∀ i l, v.leaseOf i = some l →
    ∃ g, v.table.generation l.workerId = some g ∧ l.generation ≤ g
  excl : ∀ i j l m, i ≠ j → v.leaseOf i = some l → v.leaseOf j = some m →
    l.workerId = m.workerId → l.generation ≠ m.generation
  idle : ∀ i l, v.leaseOf i = some l → l.workerId ∈ v.table.availableWorkerIds →
    v.table.generation l.workerId ≠ some l.generation

theorem Exclusive.init (cfg : DispatchConfig κ) : (Dispatch.start cfg).view.Exclusive := by
  refine ⟨?_, ?_, ?_⟩ <;> simp [Dispatch.view, Dispatch.start]

theorem Exclusive.exited (h : v.Exclusive) (g : Nat) :
    Exclusive { v with table := v.table.markSlotExited w g } := by
  obtain ⟨-, same⟩ | ⟨-, -, hgen, havailable, -⟩ := v.table.markSlotExited_cases w g
  · rw [same]; exact h
  · refine ⟨?_, h.excl, ?_⟩ <;> dsimp only
    · intro i l hl
      rw [hgen]
      exact h.bound i l hl
    · intro i l hl ha
      rw [hgen]
      exact h.idle i l hl (Finset.mem_of_mem_erase (havailable ▸ ha))

theorem Exclusive.started (h : v.Exclusive) (g : Nat) (c : κ) :
    Exclusive { v with table := v.table.handleExecutorStarted w g c } := by
  rcases v.table.handleExecutorStarted_cases w g c with ⟨-, same⟩ |
    ⟨⟨g₀, hg₀, hlt⟩, -, hgen, -, havailable, -⟩
  · rw [same]; exact h
  · refine ⟨?_, h.excl, ?_⟩ <;> dsimp only
    · intro i l hl
      obtain ⟨g₁, hg₁, hle⟩ := h.bound i l hl
      rw [hgen]
      split
      · rename_i heq
        rw [heq, hg₀] at hg₁
        exact ⟨g, rfl, hle.trans (Option.some.inj hg₁ ▸ hlt.le)⟩
      · exact ⟨g₁, hg₁, hle⟩
    · intro i l hl ha
      rw [hgen]
      by_cases heq : l.workerId = w
      · -- every lease is older than the generation just started
        obtain ⟨g₁, hg₁, hle⟩ := h.bound i l hl
        rw [heq, hg₀] at hg₁
        rw [if_pos heq]
        have := Option.some.inj hg₁
        intro hg
        have := Option.some.inj hg
        omega
      · rw [if_neg heq]
        exact h.idle i l hl (((havailable _).mp ha).resolve_right fun hw => heq hw.1)

/-- The leased slot was available, so nobody holds the generation just leased. -/
theorem Exclusive.leased {l : Lease κ} {table : SlotTable κ} (h : v.Exclusive)
    (hl : v.table.leaseSlotLocked w = some (l, table)) : Exclusive {
      table := table
      leaseOf := Function.update v.leaseOf i (some l)
      poppedOf := Function.update v.poppedOf i none } := by
  obtain ⟨rfl, hg, -, ha, rfl⟩ := SlotTable.leaseSlotLocked_some hl
  have new : ∀ j m, v.leaseOf j = some m → m.workerId = l.workerId →
      m.generation ≠ l.generation := by
    intro j m hm hw heq
    exact h.idle j m hm (hw ▸ ha) (hw ▸ heq ▸ hg)
  constructor <;> dsimp only
  case bound =>
    intro j m hm
    by_cases hj : j = i
    · obtain rfl : l = m := by simpa [hj] using hm
      exact ⟨_, hg, le_rfl⟩
    · exact h.bound j m (by simpa [hj] using hm)
  case excl =>
    intro j k m n hjk hm hn hw
    by_cases hj : j = i
    · obtain rfl : l = m := by simpa [hj] using hm
      have hk : k ≠ i := fun hk => hjk (hj.trans hk.symm)
      exact (new k n (by simpa [hk] using hn) hw.symm).symm
    · by_cases hk : k = i
      · obtain rfl : l = n := by simpa [hk] using hn
        exact new j m (by simpa [hj] using hm) hw
      · exact h.excl j k m n hjk (by simpa [hj] using hm) (by simpa [hk] using hn) hw
  case idle =>
    intro j m hm hmem
    rw [Finset.mem_erase] at hmem
    by_cases hj : j = i
    · obtain rfl : l = m := by simpa [hj] using hm
      exact absurd rfl hmem.1
    · exact h.idle j m (by simpa [hj] using hm) hmem.2

/-- The slot is offered again; the guard rules a current lease out. -/
theorem Exclusive.released {l : Lease κ} (h : v.Exclusive) (held : v.leaseOf i = some l)
    (fresh : ¬ v.StaleRelease i) : Exclusive { v with
      table := v.table.releaseSlotLocked l.workerId
      leaseOf := Function.update v.leaseOf i none } := by
  have others : ∀ j m, Function.update v.leaseOf i none j = some m →
      j ≠ i ∧ v.leaseOf j = some m := by
    intro j m hm
    have hj : j ≠ i := by rintro rfl; simp at hm
    exact ⟨hj, by simpa [hj] using hm⟩
  constructor <;> dsimp only
  case bound =>
    intro j m hm
    simpa using h.bound j m (others j m hm).2
  case excl =>
    intro j k m n hjk hm hn
    exact h.excl j k m n hjk (others j m hm).2 (others k n hn).2
  case idle =>
    intro j m hm ha
    obtain ⟨hj, hm⟩ := others j m hm
    rw [SlotTable.generation_releaseSlotLocked]
    obtain ha | ⟨hw, hc⟩ := SlotTable.mem_available_releaseSlotLocked.mp ha
    · exact h.idle j m hm ha
    · intro hg
      refine fresh ⟨l, j, m, held, hm, hj, hw, ?_, hw ▸ hg, hc⟩
      exact h.excl i j l m (Ne.symm hj) held hm hw.symm

theorem Exclusive.step (h : v.Exclusive) (st : LeaseStep v v')
    (fresh : ∀ i, v.leaseOf i ≠ none → v'.leaseOf i = none → ¬ v.StaleRelease i) :
    v'.Exclusive := by
  cases st with
  | quiet => exact h
  | event ev =>
    cases ev with
    | exited w g code => exact h.exited g
    | started w g c => exact h.started g c
    | invalid => exact h
  | markedExited i l held => exact h.exited l.generation
  | got i w rest => exact ⟨h.bound, h.excl, h.idle⟩
  | refused i w => exact ⟨h.bound, h.excl, h.idle⟩
  | leased i w l table hp free hl => exact h.leased hl
  | released i l held _ => exact h.released held (fresh i (by simp [held]) (by simp))

end LeaseView

end Perago.ConductorRuntime
