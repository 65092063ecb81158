import Mathlib.Algebra.BigOperators.Group.Finset.Basic
import Mathlib.Algebra.Order.BigOperators.Group.Finset
import Perago.ConductorRuntime.Spared

/-!
# Restarts are counted and delayed

The record of an executor says which process its slot has and how often the slot has been
restarted. The main thread waits before each restart, and in that time restarts no other
slot either, so the delays of all slots add up.
-/

namespace Perago.ConductorRuntime

open Perago.Transition

/-! ## Delays -/

/-- The delay before a slot that has been restarted `n` times is restarted again. -/
def restartDelay (n : Nat) : Nat :=
  ((restartBackoffSeconds n).toOption).getD 0

theorem restartBackoffSeconds_natCast (n : Nat) :
    restartBackoffSeconds n = .ok (restartDelay n) := by
  have nonneg : ¬ (n : Int) < 0 := by omega
  unfold restartDelay restartBackoffSeconds
  rw [if_neg nonneg]
  split <;> rfl

/-- What a slot in this generation has waited for its restarts. -/
def waited (generation : Nat) : Int :=
  ∑ i ∈ Finset.range (generation - 1), microseconds (restartDelay i)

theorem waited_succ {g : Nat} (h : 1 ≤ g) :
    waited (g + 1) = waited g + microseconds (restartDelay (g - 1)) := by
  obtain ⟨n, rfl⟩ := Nat.exists_eq_add_of_le' h
  simp [waited, Finset.sum_range_succ]

/-! ## Generations -/

namespace ProcessRuntime

/-- The generation of a slot. -/
def generation (r : ProcessRuntime) (w : String) : Nat :=
  ((r.slots w).map (·.generation)).getD 1

variable {cfg : ProcessRuntimeConfig} {s t : ProcessRuntime}

theorem generation_eq {w : String} {slot : SupervisedSlot} (h : s.slots w = some slot) :
    s.generation w = slot.generation := by
  simp [generation, h]

/-- A restart takes a slot to its next generation, and nothing else does. -/
theorem Step.generation {timeout : Option Nat} {a : RuntimeAction} (h : Step timeout s a t) :
    t.generation = s.generation ∨ ∃ w slot, a = .respawn w ∧ s.slots w = some slot ∧
      t.generation = Function.update s.generation w (slot.generation + 1) := by
  have moved : ∀ {r : ProcessRuntime} {w x}, r.slots = Function.update s.slots w (some x) →
      r.generation = Function.update s.generation w x.generation := by
    intro r w x hr
    funext v
    by_cases hv : v = w
    · subst hv
      simp [ProcessRuntime.generation, hr]
    · simp [ProcessRuntime.generation, hr, hv]
  have stays : ∀ {r : ProcessRuntime} {w x slot}, r.slots = Function.update s.slots w (some x) →
      s.slots w = some slot → x.generation = slot.generation →
      r.generation = s.generation := by
    intro r w x slot hr hslot same
    rw [moved hr, same, ← generation_eq hslot]
    exact Function.update_eq_self w _
  cases h with
  | exitReported w g _ hslot => exact .inl (stays rfl hslot rfl)
  | startReported w g hslot => exact .inl (stays rfl hslot rfl)
  | respawned w g hslot => exact .inr ⟨w, _, rfl, hslot, moved (x := ⟨g + 1, .respawned⟩) rfl⟩
  | _ => exact .inl rfl

end ProcessRuntime

/-- The loop restarts the slot that it waits for. -/
theorem Supervised.generation_step {cfg : SupervisorConfig} {s t : Supervised}
    {a : SupervisedAction} (hst : s.step cfg a = some t) :
    t.runtime.generation = s.runtime.generation ∨ ∃ w rest slot, s.point = .backoff w rest ∧
      t.point = .starting w rest ∧ s.runtime.slots w = some slot ∧
      t.runtime.generation = Function.update s.runtime.generation w (slot.generation + 1) := by
  cases step_inv hst with
  | signalSupervisor | signalInEvent | signalBroker | brokerExit => exact .inl rfl
  | acts _ b r ha hr =>
    obtain same | ⟨w, slot, rfl, -⟩ := (ProcessRuntime.step_inv hr).generation
    · exact .inl same
    · cases ha
  | supervisor exitCode _ hsup =>
    cases hsup with
    | respawned w rest slot r hp _ hslot hr =>
      obtain same | ⟨v, slot', hv, hslot', moved⟩ := (ProcessRuntime.step_inv hr).generation
      · exact .inl same
      · cases hv
        exact .inr ⟨w, rest, slot', hp, rfl, hslot', moved⟩
    | exitReported w rest slot r _ _ _ hr | startReported w rest r _ hr
    | stopSent w rest r _ hr =>
      obtain same | ⟨v, slot', hv, -⟩ := (ProcessRuntime.step_inv hr).generation
      · exact .inl same
      · cases hv
    | _ => exact .inl rfl

/-! ## The record counts the restarts -/

theorem entryOf_enter (x : ExecutorEntry) (l : List ExecutorEntry) (w : String) :
    entryOf (enter x l) w = if x.process.1 = w then some x else entryOf l w := by
  induction l with
  | nil => simp only [entryOf, enter, List.find?_cons]; split <;> simp_all
  | cons e l ih =>
    unfold enter
    by_cases key : e.process.1 = x.process.1
    · rw [if_pos key]
      by_cases hw : x.process.1 = w
      · simp [entryOf, hw]
      · have : e.process.1 ≠ w := fun same => hw (key.symm.trans same)
        simp [entryOf, hw, this]
    · rw [if_neg key]
      by_cases hw : e.process.1 = w
      · have : x.process.1 ≠ w := fun same => key (hw.trans same.symm)
        simp [entryOf, hw, this]
      · have skip : ∀ r, entryOf (e :: r) w = entryOf r w := by simp [entryOf, hw]
        rw [skip, skip, ih]

namespace SupervisedRoot

variable {cfg : RootConfig} {s t : SupervisedRoot} {action : RootAction}

def generation (s : SupervisedRoot) (w : String) : Nat := s.core.runtime.generation w

/-- The entry of a slot when the record is up to date. -/
def entry (s : SupervisedRoot) (w : String) : ExecutorEntry where
  process := (w, s.generation w)
  restartCount := s.generation w - 1

/-- The main thread is about to enter a process of this slot. -/
def Starting (s : SupervisedRoot) (w : String) : Prop :=
  match s.main with
  | .launching rest => w ∈ rest
  | .entering p _ rest => w = p.1 ∨ w ∈ rest
  | .looping => ∃ rest, s.core.point = .starting w rest
  | _ => False

/-- The number of restarts that the main thread is about to enter. -/
def CountFits (s : SupervisedRoot) : Prop :=
  match s.main with
  | .entering p restartCount _ => p.2 = restartCount + 1
  | .looping => ∀ w rest e, s.core.point = .starting w rest → entryOf s.executors w = some e →
      s.generation w = e.restartCount + 2
  | _ => True

structure Counted (cfg : RootConfig) (s : SupervisedRoot) : Prop where
  positive : ∀ w, 1 ≤ s.generation w
  entries : ∀ w ∈ cfg.workerIds, s.Starting w ∨ entryOf s.executors w = some (s.entry w)
  count : s.CountFits

theorem Counted.of_same (h : s.Counted cfg) (generation : t.generation = s.generation)
    (point : t.core.point = s.core.point) (main : t.main = s.main)
    (executors : t.executors = s.executors) : t.Counted cfg := by
  refine ⟨fun w => generation ▸ h.positive w, fun w hw => ?_, ?_⟩
  · unfold Starting entry
    rw [main, point, executors, generation]
    exact h.entries w hw
  · unfold CountFits
    rw [main, point, executors, generation]
    exact h.count

/-- The record is up to date, and stays so. -/
theorem Counted.of_entries (h : s.Counted cfg) (idle : ∀ w, ¬ s.Starting w)
    (generation : t.generation = s.generation) (executors : t.executors = s.executors)
    (count : t.CountFits) : t.Counted cfg := by
  refine ⟨fun w => generation ▸ h.positive w, fun w hw => .inr ?_, count⟩
  unfold entry
  rw [executors, generation]
  exact (h.entries w hw).resolve_left (idle w)

/-- The loop does not come to a start. -/
theorem running_of_looped {a : SupervisedAction} {core : Supervised}
    (hst : s.core.step cfg.toSupervisorConfig a = some core)
    (hbackoff : ∀ w rest, s.core.point ≠ .backoff w rest)
    (hstarting : ∀ w rest, s.core.point ≠ .starting w rest) (w : String) (rest : List String) :
    core.point ≠ .starting w rest := by
  intro hp
  obtain hp | ⟨-, hp⟩ := point_of_step hst hp
  · exact hstarting w rest hp
  · exact hbackoff w rest hp

/-- The loop breaks off its wait. -/
theorem running_of_brokenOff {a : SupervisedAction} {core : Supervised} {w : String}
    {rest : List String} (hp : s.core.point = .backoff w rest) (hstop : s.core.stop = true)
    (hst : s.core.step cfg.toSupervisorConfig a = some core) (v : String) (later : List String) :
    core.point ≠ .starting v later := by
  intro hv
  obtain hv | ⟨running, -⟩ := point_of_step hst hv
  · simp [hp] at hv
  · simp [hstop] at running

theorem generation_of_step {a : SupervisedAction} {core : Supervised}
    (hst : s.core.step cfg.toSupervisorConfig a = some core)
    (running : ∀ w rest, core.point ≠ .starting w rest) :
    core.runtime.generation = s.generation := by
  obtain same | ⟨w, rest, _, _, hp, -⟩ := Supervised.generation_step hst
  · exact same
  · exact absurd hp (running w rest)

/-- The step of the loop that starts a process takes its slot to the next generation. -/
theorem generation_of_backoff {exitCode : Option Int} {core : Supervised} {w : String}
    {rest : List String} {slot : SupervisedSlot} (hp : s.core.point = .backoff w rest)
    (hslot : s.core.runtime.slots w = some slot) (hstop : s.core.stop = false)
    (hst : s.core.step cfg.toSupervisorConfig (.supervisor exitCode) = some core) :
    core.runtime.generation = Function.update s.generation w (s.generation w + 1) := by
  have own : s.generation w = slot.generation := ProcessRuntime.generation_eq hslot
  obtain same | ⟨v, _, slot', hv, -, hslot', moved⟩ := Supervised.generation_step hst
  · obtain ⟨-, -, new⟩ := executors_of_backoff hp hslot hstop hst
    have next : s.generation w = slot.generation + 1 :=
      (congrFun same w).symm.trans (ProcessRuntime.generation_eq new)
    omega
  · obtain ⟨rfl, -⟩ : w = v ∧ rest = _ := by simpa [hp] using hv
    obtain rfl : slot = slot' := by simpa [hslot] using hslot'
    rw [moved, own]
    rfl

theorem MainStep.counted (h : s.Counted cfg) (staffed : s.Staffed cfg) (st : MainStep cfg s t) :
    t.Counted cfg := by
  have fits := staffed.main
  have count := h.count
  cases st with
  | launched w rest pid hm =>
    refine ⟨h.positive, fun v hv => ?_, rfl⟩
    refine (h.entries v hv).imp_left fun starting => ?_
    simpa [Starting, hm] using starting
  | allLaunched hm =>
    simp only [MainFits, hm] at fits
    exact h.of_entries (by simp [Starting, hm]) rfl rfl
      fun w rest _ hp => absurd hp (fits.2 w rest)
  | entered p n rest hm =>
    simp only [MainFits, hm] at fits
    obtain ⟨-, -, -, slot, hslot, newest⟩ := fits
    have generation : s.generation p.1 = p.2 :=
      (ProcessRuntime.generation_eq hslot).trans newest
    simp only [CountFits, hm] at count
    refine ⟨h.positive, fun v hv => ?_, trivial⟩
    rw [entryOf_enter]
    by_cases hp : p.1 = v
    · subst hp
      refine .inr ?_
      have same : (⟨p, n⟩ : ExecutorEntry) = s.entry p.1 := by
        unfold entry
        rw [generation, count]
        exact congrArg (ExecutorEntry.mk · n) (Prod.ext rfl count)
      rw [if_pos rfl, same]
      rfl
    · refine (h.entries v hv).imp (fun starting => ?_) fun old => ?_
      · simpa [Starting, hm, Ne.symm hp] using starting
      · rw [if_neg hp, old]
        rfl
  | looped exitCode core hm hbackoff hstarting _ hst =>
    have running := running_of_looped hst hbackoff hstarting
    refine h.of_entries (by simp [Starting, hm, hstarting])
      (generation_of_step hst running) rfl ?_
    simp only [CountFits, hm]
    exact fun w rest _ hp => absurd hp (running w rest)
  | started exitCode core w rest e slot hm hp he hslot hst =>
    have running : ∀ v later, core.point ≠ .starting v later := by
      obtain ⟨passed, -⟩ := slots_of_starting hp hslot hst
      simp [passed]
    have generation := generation_of_step hst running
    simp only [CountFits, hm] at count
    refine ⟨fun v => (h.positive v).trans_eq (congrFun generation v).symm, fun v hv => ?_, ?_⟩
    · obtain starting | old := h.entries v hv
      · simp only [Starting, hm] at starting
        obtain ⟨later, hv⟩ := starting
        obtain ⟨rfl, -⟩ : w = v ∧ rest = later := by simpa [hp] using hv
        exact .inl (.inl rfl)
      · refine .inr ?_
        unfold entry at old ⊢
        rw [← generation] at old
        exact old
    · have same : s.generation w = slot.generation := ProcessRuntime.generation_eq hslot
      change slot.generation = e.restartCount + 1 + 1
      have := count w rest e hp he
      omega
  | collecting w rest e pid delay hm hp | unidentified w rest e delay hm hp =>
    exact h.of_entries (by simp [Starting, hm, hp]) rfl rfl trivial
  | collected k delay p hm =>
    exact h.of_entries (by simp [Starting, hm]) rfl rfl trivial
  | failed w rest e exc hm hp _ raised =>
    simp [restartBackoffSeconds_natCast] at raised
  | collectingFailed k delay p hm =>
    refine h.of_entries (by simp [Starting, hm]) rfl rfl ?_
    rintro v rest e ⟨⟩
  | brokenOff exitCode core w rest deadline hm hp hstop hst =>
    have running := running_of_brokenOff hp hstop hst
    exact h.of_entries (by simp [Starting, hm]) (generation_of_step hst running) rfl
      fun v rest _ hv => absurd hv (running v rest)
  | respawned exitCode core w rest slot deadline pid hm hp hslot hstop _ hst =>
    obtain ⟨point, -⟩ := executors_of_backoff hp hslot hstop hst
    have old : ∀ v ∈ cfg.workerIds, entryOf s.executors v = some (s.entry v) := fun v hv =>
      (h.entries v hv).resolve_left (by simp [Starting, hm])
    have moved := generation_of_backoff hp hslot hstop hst
    have others : ∀ u, u ≠ w → core.runtime.generation u = s.generation u := by
      intro u hu
      simp [moved, hu]
    have own : core.runtime.generation w = s.generation w + 1 := by simp [moved]
    refine ⟨fun u => ?_, fun u hu => ?_, fun u later e hu he => ?_⟩
    · by_cases hw : u = w
      · subst hw
        change 1 ≤ core.runtime.generation u
        omega
      · exact (h.positive u).trans_eq (others u hw).symm
    · by_cases hw : u = w
      · subst hw
        exact .inl ⟨rest, point⟩
      · refine .inr ((old u hu).trans ?_)
        simp [entry, generation, others u hw]
    · obtain ⟨rfl, -⟩ : w = u ∧ rest = later := by simpa [point] using hu
      have hw := ProcessRuntime.slots_configured staffed.runtime hslot
      have he : entryOf s.executors w = some e := he
      obtain rfl : s.entry w = e := by simpa [old w hw] using he
      have := h.positive w
      change core.runtime.generation w = s.generation w - 1 + 2
      omega
  | sweeping hm hp =>
    exact h.of_entries (by simp [Starting, hm, hp]) rfl rfl trivial
  | swept k p hm =>
    exact h.of_entries (by simp [Starting, hm]) rfl rfl trivial

theorem RootStep.counted (h : s.Counted cfg) (staffed : s.Staffed cfg)
    (st : RootStep cfg s action t) : t.Counted cfg := by
  cases st with
  | main exitCode pid t hmain => exact hmain.counted h staffed
  | other a core concurrent hst =>
    obtain ⟨point, slots⟩ := of_concurrent concurrent hst
    have same : ({ s with core := core } : SupervisedRoot).generation = s.generation := by
      funext w
      simp [generation, ProcessRuntime.generation, slots]
    obtain point | ⟨inside, point, ⟨deadline, hm⟩ | hm⟩ := point
    · exact h.of_same same point rfl rfl
    · exact h.of_entries (by simp [Starting, hm]) same rfl (by simp [CountFits, hm])
    · refine h.of_entries (fun w => ?_) same rfl (by simp [CountFits, hm, point])
      simp only [Starting, hm]
      rintro ⟨rest, hp⟩
      simp [Supervised.inEvent, hp] at inside
  | tick | register | attempt | startPass | pass => exact h.of_same rfl rfl rfl rfl

theorem Counted.init (h : s.Initial cfg) : s.Counted cfg := by
  have first : ∀ w, s.generation w = 1 := by
    intro w
    simp only [generation, h.core, Supervised.start, ProcessRuntime.generation,
      ProcessRuntime.start]
    split <;> rfl
  refine ⟨fun w => (first w).ge, fun w hw => .inl ?_, ?_⟩
  · rw [Starting, h.main]
    exact hw
  · rw [CountFits, h.main]
    trivial

theorem counted (h : (supervisedRoot cfg).Reachable s) : s.Counted cfg :=
  h.invariant (fun _ => .init) fun _ _ _ hs inv _ hst =>
    (step_inv hst).counted inv (rootInv hs.reachable).staffed

/-! ## The delays are kept -/

/-- What all slots together have waited. -/
def waitedInAll (cfg : RootConfig) (s : SupervisedRoot) : Int :=
  ∑ w ∈ cfg.workerIds.toFinset, waited (s.generation w)

/-- Successive processes of a slot are started at least a delay apart. -/
def Apart (s : SupervisedRoot) : Prop :=
  ∀ w g, (s.pids (w, g)).isSome → (s.pids (w, g + 1)).isSome →
    s.bornAt (w, g) + microseconds (restartDelay (g - 1)) ≤ s.bornAt (w, g + 1)

/-- The slot may be restarted at this time. -/
structure Rested (cfg : RootConfig) (s : SupervisedRoot) (w : String) (time : Int) : Prop where
  spent : s.began + s.waitedInAll cfg + microseconds (restartDelay (s.generation w - 1)) ≤ time
  born : (s.pids (w, s.generation w)).isSome →
    s.bornAt (w, s.generation w) + microseconds (restartDelay (s.generation w - 1)) ≤ time

def WaitFits (cfg : RootConfig) (s : SupervisedRoot) : Prop :=
  match s.main with
  | .collecting _ delay => ∀ w rest, s.core.point = .backoff w rest →
      delay = restartDelay (s.generation w - 1)
  | .waiting deadline => ∀ w rest, s.core.point = .backoff w rest → s.Rested cfg w deadline
  | _ => True

structure Paced (cfg : RootConfig) (s : SupervisedRoot) : Prop where
  spent : s.began + s.waitedInAll cfg ≤ s.clock
  apart : s.Apart
  wait : s.WaitFits cfg

theorem Paced.of_same (h : s.Paced cfg) (generation : t.generation = s.generation)
    (began : t.began = s.began) (clock : s.clock ≤ t.clock) (pids : t.pids = s.pids)
    (born : t.bornAt = s.bornAt) (wait : t.WaitFits cfg) : t.Paced cfg := by
  refine ⟨?_, ?_, wait⟩
  · rw [waitedInAll, generation, began]
    exact h.spent.trans clock
  · rw [Apart, pids, born]
    exact h.apart

/-- A wait for a delay from now on is long enough. -/
theorem Paced.rested (h : s.Paced cfg) (staffed : s.Staffed cfg) (w : String) :
    s.Rested cfg w (s.clock + microseconds (restartDelay (s.generation w - 1))) := by
  refine ⟨?_, fun started => ?_⟩
  · have := h.spent
    omega
  · have := (staffed.started _ started).2
    omega

/-- A process that has been started is of a generation that the slot has reached. -/
theorem Staffed.generation_le (h : s.Staffed cfg) {q : SlotPipe} (started : (s.pids q).isSome) :
    1 ≤ q.2 ∧ q.2 ≤ s.generation q.1 := by
  obtain ⟨first, slot, hslot, hle⟩ :=
    (ProcessRuntime.overseen h.runtime).spawned q (h.started q started).1
  exact ⟨first, hle.trans_eq (ProcessRuntime.generation_eq hslot).symm⟩

/-- The next process of a slot is started. -/
theorem Apart.launch (h : s.Apart) {w : String} {g pid : Nat}
    (last : ∀ g', (s.pids (w, g')).isSome → g' < g)
    (rested : ∀ g', g = g' + 1 → (s.pids (w, g')).isSome →
      s.bornAt (w, g') + microseconds (restartDelay (g' - 1)) ≤ s.clock) :
    (s.launch (w, g) pid).Apart := by
  intro v g' first second
  have old : ∀ {q : SlotPipe}, q ≠ (w, g) → (s.launch (w, g) pid).pids q = s.pids q ∧
      (s.launch (w, g) pid).bornAt q = s.bornAt q := by
    intro q hq
    simp [SupervisedRoot.launch, hq]
  by_cases hsecond : ((v, g' + 1) : SlotPipe) = (w, g)
  · obtain ⟨rfl, rfl⟩ : v = w ∧ g' + 1 = g := by simpa using hsecond
    have hfirst : ((v, g') : SlotPipe) ≠ (v, g' + 1) := by simp
    rw [(old hfirst).1] at first
    rw [(old hfirst).2]
    simpa [SupervisedRoot.launch] using rested g' rfl first
  · rw [(old hsecond).1] at second
    by_cases hfirst : ((v, g') : SlotPipe) = (w, g)
    · obtain ⟨rfl, rfl⟩ : v = w ∧ g' = g := by simpa using hfirst
      have := last _ second
      omega
    · rw [(old hfirst).1] at first
      rw [(old hfirst).2, (old hsecond).2]
      exact h v g' first second

/-- The main thread restarts a slot. -/
theorem Paced.respawned (h : s.Paced cfg) (staffed : s.Staffed cfg) (counted : s.Counted cfg)
    {exitCode : Option Int} {core : Supervised} {w : String} {rest : List String}
    {slot : SupervisedSlot} {deadline : Int} {pid : Nat} (hm : s.main = .waiting deadline)
    (hp : s.core.point = .backoff w rest) (hslot : s.core.runtime.slots w = some slot)
    (hstop : s.core.stop = false) (due : deadline ≤ s.clock)
    (hst : s.core.step cfg.toSupervisorConfig (.supervisor exitCode) = some core) :
    ({ s.launch (w, slot.generation + 1) pid with
      core := core, main := .looping } : SupervisedRoot).Paced cfg := by
  have own : s.generation w = slot.generation := ProcessRuntime.generation_eq hslot
  have wait := h.wait
  simp only [WaitFits, hm] at wait
  obtain ⟨spent, born⟩ := wait w rest hp
  have moved := generation_of_backoff hp hslot hstop hst
  have hw : w ∈ cfg.workerIds.toFinset :=
    List.mem_toFinset.mpr (ProcessRuntime.slots_configured staffed.runtime hslot)
  have total : ∑ v ∈ cfg.workerIds.toFinset, waited (core.runtime.generation v) =
      s.waitedInAll cfg + microseconds (restartDelay (s.generation w - 1)) := by
    rw [waitedInAll, ← Finset.add_sum_erase _ _ hw, ← Finset.add_sum_erase _ _ hw]
    have others : ∀ v ∈ cfg.workerIds.toFinset.erase w,
        waited (core.runtime.generation v) = waited (s.generation v) := by
      intro v hv
      simp [moved, (Finset.mem_erase.mp hv).1]
    have one : waited (core.runtime.generation w) =
        waited (s.generation w) + microseconds (restartDelay (s.generation w - 1)) := by
      rw [← waited_succ (counted.positive w), moved, Function.update_self]
    rw [Finset.sum_congr rfl others, one]
    omega
  refine ⟨?_, ?_, trivial⟩
  · change s.began + ∑ v ∈ cfg.workerIds.toFinset, waited (core.runtime.generation v) ≤ s.clock
    rw [total]
    exact le_trans (by omega) due
  · refine h.apart.launch (g := slot.generation + 1) (fun g' started => ?_)
      fun g' same started => ?_
    · have := (staffed.generation_le started).2
      simp only at this
      omega
    · obtain rfl : slot.generation = g' := by omega
      rw [own] at born
      exact (born started).trans due

theorem MainStep.paced (h : s.Paced cfg) (staffed : s.Staffed cfg) (counted : s.Counted cfg)
    (st : MainStep cfg s t) : t.Paced cfg := by
  have fits := staffed.main
  have wait := h.wait
  -- the record is up to date where the main thread looks the count up
  have restarts : ∀ {w rest e delay}, s.main = .looping → s.core.point = .backoff w rest →
      entryOf s.executors w = some e → restartBackoffSeconds e.restartCount = .ok delay →
      delay = restartDelay (s.generation w - 1) := by
    intro w rest e delay hm hp he hdelay
    have point := staffed.point
    simp only [Supervised.PointFits, hp] at point
    obtain ⟨g, hg⟩ := point
    have hw := ProcessRuntime.slots_configured staffed.runtime hg
    have entered := (counted.entries w hw).resolve_left (by simp [Starting, hm, hp])
    obtain rfl : e = s.entry w := by simpa [he] using entered
    rw [restartBackoffSeconds_natCast] at hdelay
    exact (Except.ok.inj hdelay).symm
  cases st with
  | launched w rest pid hm =>
    simp only [MainFits, hm] at fits
    obtain ⟨-, -, slot, hslot, first⟩ := fits.1.idle w List.mem_cons_self
    have own : s.generation w = 1 := (ProcessRuntime.generation_eq hslot).trans first
    have fresh := (fits.1.idle w List.mem_cons_self).1
    have never : ∀ g, (s.pids (w, g)).isSome → False := by
      intro g started
      have bounds := staffed.generation_le started
      simp only [own] at bounds
      obtain rfl : g = 1 := by omega
      simp [fresh] at started
    exact ⟨h.spent, h.apart.launch (fun g started => (never g started).elim)
      fun g _ started => (never g started).elim, trivial⟩
  | allLaunched | entered | sweeping | swept =>
    exact h.of_same rfl rfl le_rfl rfl rfl trivial
  | looped exitCode core hm hbackoff hstarting _ hst =>
    have running := running_of_looped hst hbackoff hstarting
    refine h.of_same (generation_of_step hst running) rfl le_rfl rfl rfl ?_
    simp [WaitFits, hm]
  | started exitCode core w rest e slot hm hp he hslot hst =>
    have running : ∀ v later, core.point ≠ .starting v later := by
      obtain ⟨passed, -⟩ := slots_of_starting hp hslot hst
      simp [passed]
    exact h.of_same (generation_of_step hst running) rfl le_rfl rfl rfl trivial
  | collecting w rest e pid delay hm hp he _ hdelay =>
    refine h.of_same rfl rfl le_rfl rfl rfl fun v later hv => ?_
    obtain ⟨rfl, -⟩ : w = v ∧ rest = later := by simpa [hp] using hp.symm.trans hv
    exact restarts hm hp he hdelay
  | unidentified w rest e delay hm hp he _ hdelay =>
    refine h.of_same rfl rfl le_rfl rfl rfl fun v later hv => ?_
    obtain ⟨rfl, -⟩ : w = v ∧ rest = later := by simpa [hp] using hv
    obtain rfl := restarts hm hp he hdelay
    exact ⟨(h.rested staffed w).spent, (h.rested staffed w).born⟩
  | collected k delay p hm =>
    simp only [WaitFits, hm] at wait
    refine h.of_same rfl rfl le_rfl rfl rfl fun v later hv => ?_
    obtain rfl := wait v later hv
    exact ⟨(h.rested staffed v).spent, (h.rested staffed v).born⟩
  | failed | collectingFailed => exact h.of_same rfl rfl le_rfl rfl rfl trivial
  | brokenOff exitCode core w rest deadline hm hp hstop hst =>
    have running := running_of_brokenOff hp hstop hst
    exact h.of_same (generation_of_step hst running) rfl le_rfl rfl rfl trivial
  | respawned exitCode core w rest slot deadline pid hm hp hslot hstop due hst =>
    exact h.respawned staffed counted hm hp hslot hstop due hst

theorem RootStep.paced (h : s.Paced cfg) (staffed : s.Staffed cfg) (counted : s.Counted cfg)
    (st : RootStep cfg s action t) : t.Paced cfg := by
  have wait : ∀ {u : SupervisedRoot}, u.main = s.main → u.core.point = s.core.point →
      u.generation = s.generation → u.began = s.began → u.pids = s.pids →
      u.bornAt = s.bornAt → u.WaitFits cfg := by
    intro u main point generation began pids born
    have rested : ∀ {w time}, s.Rested cfg w time → u.Rested cfg w time := by
      intro w time old
      refine ⟨?_, ?_⟩
      · rw [waitedInAll, generation, began]
        exact old.spent
      · rw [generation, pids, born]
        exact old.born
    have old := h.wait
    unfold WaitFits at old ⊢
    rw [main, point, generation]
    split <;> rename_i hm <;> simp only [hm] at old
    · exact old
    · exact fun w rest hp => rested (old w rest hp)
    · trivial
  cases st with
  | main exitCode pid t hmain => exact hmain.paced h staffed counted
  | tick clock hle => exact h.of_same rfl rfl hle rfl rfl (wait rfl rfl rfl rfl rfl rfl)
  | register | attempt | startPass | pass =>
    exact h.of_same rfl rfl le_rfl rfl rfl (wait rfl rfl rfl rfl rfl rfl)
  | other a core concurrent hst =>
    obtain ⟨point, slots⟩ := of_concurrent concurrent hst
    have same : ({ s with core := core } : SupervisedRoot).generation = s.generation := by
      funext w
      simp [generation, ProcessRuntime.generation, slots]
    refine h.of_same same rfl le_rfl rfl rfl ?_
    obtain point | ⟨-, point, ⟨deadline, hm⟩ | hm⟩ := point
    · exact wait rfl point same rfl rfl rfl
    · simp [WaitFits, hm, point]
    · simp [WaitFits, hm]

theorem Paced.init (h : s.Initial cfg) : s.Paced cfg := by
  have first : ∀ w, s.generation w = 1 := by
    intro w
    simp only [generation, h.core, Supervised.start, ProcessRuntime.generation,
      ProcessRuntime.start]
    split <;> rfl
  refine ⟨?_, fun w g started => by simp [h.pids] at started, ?_⟩
  · simp [waitedInAll, first, waited, h.began]
  · rw [WaitFits, h.main]
    trivial

/-- Of a record up to date, a process is the one its slot has started last, and the slot was
restarted once for each process before it. Successive processes of a slot are started at
least the delay apart that the restarts before demand, and since the main thread waits for
one slot at a time, the delays of all slots together fit into the time that has passed. -/
theorem restarts_delayed (h : (supervisedRoot cfg).Reachable s) :
    (∀ w ∈ cfg.workerIds, s.Starting w ∨ entryOf s.executors w = some (s.entry w)) ∧
      (∀ w g delay, (s.pids (w, g)).isSome → (s.pids (w, g + 1)).isSome →
        restartBackoffSeconds (g - 1 : Nat) = .ok delay →
        s.bornAt (w, g) + microseconds delay ≤ s.bornAt (w, g + 1)) ∧
      ∑ w ∈ cfg.workerIds.toFinset, waited (s.generation w) ≤ s.clock - s.began := by
  have paced : s.Paced cfg := h.invariant (fun _ => .init) fun _ _ _ hs inv _ hst =>
    (step_inv hst).paced inv (rootInv hs.reachable).staffed (counted hs.reachable)
  refine ⟨(counted h).entries, fun w g delay first second hdelay => ?_, ?_⟩
  · obtain rfl : restartDelay (g - 1) = delay := by
      simpa [restartBackoffSeconds_natCast] using hdelay
    exact paced.apart w g first second
  · have := paced.spent
    simp only [waitedInAll] at this
    omega

/-- The executor crashes; the main thread has nothing to collect, waits, and restarts it. -/
def restartedRoot : SupervisedRoot := (supervisedRoot oneExecutor).follow leftRoot
  [.main none 7, .main none 7, .main none 7, .other (.executor ("w", 1) .crash), .main none 7,
    .main none 7, .main none 7, .main none 7, .main none 7, .pass 0 (.list leftDir),
    .pass 0 .sort, .pass 0 (.visit false), .pass 0 (.visit false), .main none 7, .tick 2000000,
    .main none 8]

theorem restarts_delayed_crash :
    restartedRoot.pids ("w", 2) = some 8 ∧
      restartedRoot.bornAt ("w", 1) + microseconds 1 ≤ restartedRoot.bornAt ("w", 2) ∧
      restartedRoot.waitedInAll oneExecutor ≤ restartedRoot.clock - restartedRoot.began := by
  obtain ⟨-, apart, fits⟩ := restarts_delayed (s := restartedRoot) (.follow leftRoot_initial)
  exact ⟨by decide +kernel, apart "w" 1 1 (by decide +kernel) (by decide +kernel) rfl, fits⟩

end SupervisedRoot

end Perago.ConductorRuntime
