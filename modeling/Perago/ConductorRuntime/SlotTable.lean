import Perago.ConductorRuntime.ProcessIpc

/-!
# The slot table of the process dispatch worker

The fields of `PeragoProcessDispatchWorker` that `_slot_lock` protects, and one
function for each of its lock regions. A queue entry and a set member are the
worker id of a slot, which no two slots of a worker share.
-/

namespace Perago.ConductorRuntime

variable {κ : Type}

structure SlotTable (κ : Type) where
  slotsByWorkerId : String → Option (ProcessExecutorSlot κ)
  availableSlots : List String
  availableWorkerIds : Finset String
  busyWorkerIds : Finset String

/-- What `_lease_slot` returns. -/
structure Lease (κ : Type) where
  workerId : String
  generation : Nat
  connection : κ
  deriving DecidableEq

namespace SlotTable

/-- `_mark_slot_available_locked`. -/
def markSlotAvailableLocked (t : SlotTable κ) (w : String) : SlotTable κ :=
  if w ∈ t.availableWorkerIds then t
  else { t with
    availableWorkerIds := insert w t.availableWorkerIds
    availableSlots := t.availableSlots ++ [w] }

/-- The state built by `__init__` from the slot list. -/
def ofSlots (slots : List (String × ProcessExecutorSlot κ)) : SlotTable κ :=
  (slots.map Prod.fst).foldl markSlotAvailableLocked
    { slotsByWorkerId := fun w => slots.lookup w
      availableSlots := []
      availableWorkerIds := ∅
      busyWorkerIds := ∅ }

/-- The lock region of `_lease_slot`, after `w` was popped: no lease means `continue`. -/
def leaseSlotLocked (t : SlotTable κ) (w : String) : Option (Lease κ × SlotTable κ) :=
  match t.slotsByWorkerId w with
  | none => none
  | some slot => match slot.connection with
    | none => none
    | some connection =>
      if w ∈ t.availableWorkerIds then
        some (⟨w, slot.generation, connection⟩, { t with
          availableWorkerIds := t.availableWorkerIds.erase w
          busyWorkerIds := insert w t.busyWorkerIds })
      else none

/-- The lock region of `_release_slot`: it never looks at the generation. -/
def releaseSlotLocked (t : SlotTable κ) (w : String) : SlotTable κ :=
  let t := { t with busyWorkerIds := t.busyWorkerIds.erase w }
  match t.slotsByWorkerId w with
  | some slot => if slot.connection.isSome then t.markSlotAvailableLocked w else t
  | none => t

/-- The update shared by the two exit paths. -/
def closeSlot (t : SlotTable κ) (w : String) (slot : ProcessExecutorSlot κ) : SlotTable κ where
  slotsByWorkerId := Function.update t.slotsByWorkerId w (some { slot with
    connection := none
    exitedGeneration := some slot.generation })
  availableSlots := t.availableSlots
  availableWorkerIds := t.availableWorkerIds.erase w
  busyWorkerIds := t.busyWorkerIds.erase w

/-- `_mark_slot_exited`, and `_handle_executor_exited` with the slot looked up. -/
def markSlotExited (t : SlotTable κ) (w : String) (generation : Nat) : SlotTable κ :=
  match t.slotsByWorkerId w with
  | some slot => if slot.generation = generation then t.closeSlot w slot else t
  | none => t

/-- `_handle_executor_started`. -/
def handleExecutorStarted (t : SlotTable κ) (w : String) (generation : Nat) (connection : κ) :
    SlotTable κ :=
  match t.slotsByWorkerId w with
  | none => t
  | some slot =>
    if generation ≤ slot.generation then t
    else
      let slots := Function.update t.slotsByWorkerId w (some ⟨some connection, generation, none⟩)
      let t := { t with slotsByWorkerId := slots }
      if w ∈ t.busyWorkerIds then t else t.markSlotAvailableLocked w

/-- `_handle_executor_event`. -/
def handleExecutorEvent (t : SlotTable κ) : ExecutorEvent κ → SlotTable κ
  | .exited w generation _ => t.markSlotExited w generation
  | .started w generation connection => t.handleExecutorStarted w generation connection
  | .invalid => t

/-- `_slot_generation_exited`. -/
def slotGenerationExited (t : SlotTable κ) (w : String) (generation : Nat) : Bool :=
  match t.slotsByWorkerId w with
  | some slot => slot.exitedGeneration == some generation || slot.generation != generation
  | none => true

/-! ## What each region changes

Invariants speak of a slot through its connection and its generation. -/

def connection (t : SlotTable κ) (w : String) : Option κ :=
  (t.slotsByWorkerId w).bind (·.connection)

def generation (t : SlotTable κ) (w : String) : Option Nat :=
  (t.slotsByWorkerId w).map (·.generation)

variable {t t' : SlotTable κ} {w v : String} {g : Nat} {c : κ} {l : Lease κ}

@[simp] theorem connection_markSlotAvailableLocked :
    (t.markSlotAvailableLocked w).connection v = t.connection v := by
  unfold markSlotAvailableLocked; split <;> rfl

@[simp] theorem generation_markSlotAvailableLocked :
    (t.markSlotAvailableLocked w).generation v = t.generation v := by
  unfold markSlotAvailableLocked; split <;> rfl

@[simp] theorem slots_markSlotAvailableLocked :
    (t.markSlotAvailableLocked w).slotsByWorkerId = t.slotsByWorkerId := by
  unfold markSlotAvailableLocked; split <;> rfl

@[simp] theorem busy_markSlotAvailableLocked :
    (t.markSlotAvailableLocked w).busyWorkerIds = t.busyWorkerIds := by
  unfold markSlotAvailableLocked; split <;> rfl

@[simp] theorem mem_available_markSlotAvailableLocked :
    v ∈ (t.markSlotAvailableLocked w).availableWorkerIds ↔ v = w ∨ v ∈ t.availableWorkerIds := by
  unfold markSlotAvailableLocked
  split <;> simp_all

theorem mem_queue_markSlotAvailableLocked (h : v ∈ t.availableSlots ∨ v = w ∧
    w ∉ t.availableWorkerIds) : v ∈ (t.markSlotAvailableLocked w).availableSlots := by
  unfold markSlotAvailableLocked
  split <;> simp_all

/-- What `__init__` leaves, from any table whose available slots are queued. -/
theorem foldl_markSlotAvailableLocked (names : List String) (t : SlotTable κ)
    (queued : ∀ w ∈ t.availableWorkerIds, w ∈ t.availableSlots) :
    let t' := names.foldl markSlotAvailableLocked t
    t'.slotsByWorkerId = t.slotsByWorkerId ∧ t'.busyWorkerIds = t.busyWorkerIds ∧
      (∀ w, w ∈ t'.availableWorkerIds ↔ w ∈ names ∨ w ∈ t.availableWorkerIds) ∧
      ∀ w ∈ t'.availableWorkerIds, w ∈ t'.availableSlots := by
  induction names generalizing t with
  | nil => exact ⟨rfl, rfl, by simp, queued⟩
  | cons name names ih =>
    obtain ⟨slots, busy, available, queue⟩ := ih (t.markSlotAvailableLocked name) (by
      intro w hw
      rw [mem_available_markSlotAvailableLocked] at hw
      by_cases ha : w ∈ t.availableWorkerIds
      · exact mem_queue_markSlotAvailableLocked (.inl (queued w ha))
      · have hname := hw.resolve_right ha
        exact mem_queue_markSlotAvailableLocked (.inr ⟨hname, hname ▸ ha⟩))
    refine ⟨by simp [slots], by simp [busy], ?_, queue⟩
    intro w
    simp only [List.foldl_cons, available, mem_available_markSlotAvailableLocked, List.mem_cons]
    tauto

theorem leaseSlotLocked_some (h : t.leaseSlotLocked w = some (l, t')) :
    l.workerId = w ∧ t.generation w = some l.generation ∧ t.connection w = some l.connection ∧
      w ∈ t.availableWorkerIds ∧ t' = { t with
        availableWorkerIds := t.availableWorkerIds.erase w
        busyWorkerIds := insert w t.busyWorkerIds } := by
  unfold leaseSlotLocked at h
  split at h
  · cases h
  split at h
  · cases h
  split at h
  · rename_i hs _ _ hc ha
    simp only [Option.some.injEq, Prod.mk.injEq] at h
    obtain ⟨rfl, rfl⟩ := h
    exact ⟨rfl, by simp [generation, hs], by simp [connection, hs, hc], ha, rfl⟩
  · cases h

theorem leaseSlotLocked_none (h : t.leaseSlotLocked w = none) :
    t.connection w = none ∨ w ∉ t.availableWorkerIds := by
  unfold leaseSlotLocked at h
  cases hs : t.slotsByWorkerId w with
  | none => simp [connection, hs]
  | some slot =>
    cases hc : slot.connection with
    | none => simp [connection, hs, hc]
    | some c => right; intro ha; simp [hs, hc, ha] at h

@[simp] theorem connection_releaseSlotLocked :
    (t.releaseSlotLocked w).connection v = t.connection v := by
  unfold releaseSlotLocked
  dsimp only
  split
  · split <;> simp [connection]
  · rfl

@[simp] theorem generation_releaseSlotLocked :
    (t.releaseSlotLocked w).generation v = t.generation v := by
  unfold releaseSlotLocked
  dsimp only
  split
  · split <;> simp [generation]
  · rfl

@[simp] theorem busy_releaseSlotLocked :
    (t.releaseSlotLocked w).busyWorkerIds = t.busyWorkerIds.erase w := by
  unfold releaseSlotLocked
  dsimp only
  split
  · split <;> simp
  · rfl

theorem mem_available_releaseSlotLocked :
    v ∈ (t.releaseSlotLocked w).availableWorkerIds ↔
      v ∈ t.availableWorkerIds ∨ v = w ∧ (t.connection w).isSome := by
  unfold releaseSlotLocked connection
  dsimp only
  cases hs : t.slotsByWorkerId w with
  | none => simp
  | some slot => cases hc : slot.connection <;> simp [hc, or_comm]

theorem mem_queue_releaseSlotLocked (h : v ∈ t.availableSlots ∨
    v = w ∧ w ∉ t.availableWorkerIds ∧ (t.connection w).isSome) :
    v ∈ (t.releaseSlotLocked w).availableSlots := by
  unfold releaseSlotLocked
  dsimp only
  cases hs : t.slotsByWorkerId w with
  | none => simpa [connection, hs] using h
  | some slot =>
    cases hc : slot.connection with
    | none => simpa [connection, hs, hc] using h
    | some c =>
      simp only [hc, Option.isSome_some, if_true]
      exact mem_queue_markSlotAvailableLocked (h.imp_right fun ⟨hv, ha, _⟩ => ⟨hv, ha⟩)

/-- An exit report for another generation changes nothing; one for the current
generation closes the slot. -/
theorem markSlotExited_cases (t : SlotTable κ) (w : String) (g : Nat) :
    t.generation w ≠ some g ∧ t.markSlotExited w g = t ∨
      t.generation w = some g ∧
        (∀ v, (t.markSlotExited w g).connection v = if v = w then none else t.connection v) ∧
        (∀ v, (t.markSlotExited w g).generation v = t.generation v) ∧
        (t.markSlotExited w g).availableWorkerIds = t.availableWorkerIds.erase w ∧
        (t.markSlotExited w g).busyWorkerIds = t.busyWorkerIds.erase w ∧
        (t.markSlotExited w g).availableSlots = t.availableSlots := by
  unfold markSlotExited
  cases hs : t.slotsByWorkerId w with
  | none => left; simp [generation, hs]
  | some slot =>
    by_cases hg : slot.generation = g
    · right
      refine ⟨by simp [generation, hs, hg], ?_, ?_, by simp [hg, closeSlot],
        by simp [hg, closeSlot], by simp [hg, closeSlot]⟩ <;> intro v
      · by_cases hv : v = w <;> simp [hg, closeSlot, connection, hv]
      · by_cases hv : v = w <;> simp [hg, closeSlot, generation, hv, hs]
    · left; simp [generation, hs, hg]

/-- A start report not newer than the slot changes nothing; a newer one installs
its connection, and offers the slot unless a lease still marks it busy. -/
theorem handleExecutorStarted_cases (t : SlotTable κ) (w : String) (g : Nat) (c : κ) :
    (∀ g', t.generation w = some g' → g ≤ g') ∧ t.handleExecutorStarted w g c = t ∨
      (∃ g', t.generation w = some g' ∧ g' < g) ∧
        (∀ v, (t.handleExecutorStarted w g c).connection v =
          if v = w then some c else t.connection v) ∧
        (∀ v, (t.handleExecutorStarted w g c).generation v =
          if v = w then some g else t.generation v) ∧
        (t.handleExecutorStarted w g c).busyWorkerIds = t.busyWorkerIds ∧
        (∀ v, v ∈ (t.handleExecutorStarted w g c).availableWorkerIds ↔
          v ∈ t.availableWorkerIds ∨ v = w ∧ w ∉ t.busyWorkerIds) ∧
        (∀ v, v ∈ t.availableSlots ∨ v = w ∧ w ∉ t.busyWorkerIds ∧ w ∉ t.availableWorkerIds →
          v ∈ (t.handleExecutorStarted w g c).availableSlots) := by
  unfold handleExecutorStarted
  cases hs : t.slotsByWorkerId w with
  | none => left; simp [generation, hs]
  | some slot =>
    by_cases hg : g ≤ slot.generation
    · left; simp [generation, hs, hg]
    · right
      refine ⟨⟨slot.generation, by simp [generation, hs], by omega⟩, ?_, ?_, ?_, ?_, ?_⟩
      · intro v
        by_cases hb : w ∈ t.busyWorkerIds <;> by_cases hv : v = w <;>
          simp [hg, hb, connection, hv]
      · intro v
        by_cases hb : w ∈ t.busyWorkerIds <;> by_cases hv : v = w <;>
          simp [hg, hb, generation, hv]
      · by_cases hb : w ∈ t.busyWorkerIds <;> simp [hg, hb]
      · intro v
        by_cases hb : w ∈ t.busyWorkerIds <;> simp [hg, hb, or_comm]
      · rintro v h
        by_cases hb : w ∈ t.busyWorkerIds
        · simpa [hg, hb] using h
        · simp only [hg, if_false, hb]
          exact mem_queue_markSlotAvailableLocked
            (h.imp_right fun ⟨hv, _, ha⟩ => ⟨hv, ha⟩)

theorem slotGenerationExited_iff :
    t.slotGenerationExited w g = true ↔
      ∀ slot, t.slotsByWorkerId w = some slot →
        slot.exitedGeneration = some g ∨ slot.generation ≠ g := by
  unfold slotGenerationExited
  cases t.slotsByWorkerId w <;> simp

/-- A slot whose exit was reported has no connection. -/
def ExitedClosed (t : SlotTable κ) : Prop :=
  ∀ w slot, t.slotsByWorkerId w = some slot → slot.exitedGeneration ≠ none →
    slot.connection = none

theorem ExitedClosed.of_slots (h : t.ExitedClosed) (same : t'.slotsByWorkerId = t.slotsByWorkerId) :
    t'.ExitedClosed :=
  fun w slot hs he => h w slot (same ▸ hs) he

theorem slots_releaseSlotLocked :
    (t.releaseSlotLocked w).slotsByWorkerId = t.slotsByWorkerId := by
  unfold releaseSlotLocked
  dsimp only
  split
  · split <;> simp
  · rfl

theorem ExitedClosed.markSlotExited (h : t.ExitedClosed) : (t.markSlotExited w g).ExitedClosed := by
  unfold SlotTable.markSlotExited
  split
  · split
    · intro v slot hs he
      by_cases hv : v = w
      · subst hv
        simp only [closeSlot, Function.update_self, Option.some.injEq] at hs
        subst hs
        rfl
      · exact h v slot (by simpa [closeSlot, hv] using hs) he
    · exact h
  · exact h

theorem ExitedClosed.handleExecutorStarted (h : t.ExitedClosed) :
    (t.handleExecutorStarted w g c).ExitedClosed := by
  have opened : ∀ {u : SlotTable κ}, u.slotsByWorkerId =
      Function.update t.slotsByWorkerId w (some ⟨some c, g, none⟩) → u.ExitedClosed := by
    intro u hu v slot hs he
    rw [hu] at hs
    by_cases hv : v = w
    · subst hv
      simp only [Function.update_self, Option.some.injEq] at hs
      subst hs
      exact absurd rfl he
    · exact h v slot (by simpa [hv] using hs) he
  unfold SlotTable.handleExecutorStarted
  split
  · exact h
  · split
    · exact h
    · dsimp only
      split <;> exact opened (by simp)

/-- The exit check fails a call only when its generation has no open connection. -/
theorem ExitedClosed.not_open (h : t.ExitedClosed) (hx : t.slotGenerationExited w g = true)
    (hg : t.generation w = some g) : t.connection w = none := by
  obtain ⟨slot, hs, rfl⟩ := Option.map_eq_some_iff.mp hg
  obtain he | hne := slotGenerationExited_iff.mp hx slot hs
  · simp [connection, hs, h w slot hs (by simp [he])]
  · exact absurd rfl hne

end SlotTable

end Perago.ConductorRuntime
