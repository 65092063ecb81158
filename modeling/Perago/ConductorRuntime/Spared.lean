import Perago.ConductorRuntime.Drain
import Perago.ConductorRuntime.ProcessGc
import Perago.Workspace.GcDue

/-!
# A live executor keeps its workspaces

Only the newest executor of a slot can be alive, and none is while the main thread makes
a pass of its own. The collector thread may overlook an executor that was not recorded
when it began to ask; then only the age of the workspace protects it.
-/

namespace Perago.ConductorRuntime

open Perago.Transition

/-! ## The record of the executors -/

/-- A key that is entered again keeps its place, and every other entry stays. -/
theorem getElem?_enter (x : ExecutorEntry) {l : List ExecutorEntry} {j : Nat} {e : ExecutorEntry}
    (h : l[j]? = some e) : (enter x l)[j]? = some e ∨
      (enter x l)[j]? = some x ∧ e.process.1 = x.process.1 := by
  induction l generalizing j with
  | nil => simp at h
  | cons y l ih =>
    unfold enter
    cases j with
    | zero =>
      obtain rfl : y = e := by simpa using h
      split <;> simp_all
    | succ j =>
      have h : l[j]? = some e := by simpa using h
      split
      · exact .inl (by simpa using h)
      · simpa using ih h

theorem mem_enter {x e : ExecutorEntry} {l : List ExecutorEntry} (h : e ∈ enter x l) :
    e = x ∨ e ∈ l := by
  induction l with
  | nil => simpa [enter] using h
  | cons y l ih =>
    unfold enter at h
    split at h
    · obtain rfl | h := List.mem_cons.mp h
      · exact .inl rfl
      · exact .inr (List.mem_cons_of_mem _ h)
    · obtain rfl | h := List.mem_cons.mp h
      · exact .inr List.mem_cons_self
      · exact (ih h).imp_right (List.mem_cons_of_mem _)

theorem mem_of_entryOf {l : List ExecutorEntry} {w : String} {e : ExecutorEntry}
    (h : entryOf l w = some e) : e ∈ l ∧ e.process.1 = w :=
  ⟨List.mem_of_find?_eq_some h, by simpa using List.find?_some h⟩

namespace SupervisedRoot

variable {cfg : RootConfig} {s t : SupervisedRoot} {action : RootAction} {p p' : RootPass}
variable {call : RootCall} {workspaces : Text → WorkspaceState}

/-! ## The main thread and its record -/

/-- The processes of these slots have not been started. -/
structure Unlaunched (s : SupervisedRoot) (rest : List String) : Prop where
  nodup : rest.Nodup
  idle : ∀ w ∈ rest, s.pids (w, 1) = none ∧ (s.core.runtime.executors (w, 1)).isSome ∧
    ∃ slot, s.core.runtime.slots w = some slot ∧ slot.generation = 1

def MainFits (s : SupervisedRoot) : Prop :=
  match s.main with
  | .launching rest => s.Unlaunched rest ∧ ∀ w later, s.core.point ≠ .starting w later
  | .entering p _ rest => s.Unlaunched rest ∧ (∀ w later, s.core.point ≠ .starting w later) ∧
      (s.pids p).isSome ∧ ∃ slot, s.core.runtime.slots p.1 = some slot ∧ slot.generation = p.2
  | .looping => ∀ w rest slot, s.core.point = .starting w rest →
      s.core.runtime.slots w = some slot → (s.pids (w, slot.generation)).isSome
  | .collecting _ _ => ∃ w rest, s.core.point = .backoff w rest
  | .waiting _ => (∃ w rest, s.core.point = .backoff w rest) ∨ s.core.point = .deadlocked
  | .sweeping _ | .ended => s.core.point = .finished

/-- The part of the invariant that is about the processes. -/
structure Staffed (cfg : RootConfig) (s : SupervisedRoot) : Prop where
  runtime : (processRuntime cfg.toProcessRuntimeConfig).Reachable s.core.runtime
  point : s.core.PointFits
  main : s.MainFits
  started : ∀ q, (s.pids q).isSome →
    (s.core.runtime.executors q).isSome ∧ s.bornAt q ≤ s.clock
  recorded : ∀ e ∈ s.executors, (s.pids e.process).isSome

/-- What a step keeps of the processes. -/
structure Onward (s t : SupervisedRoot) : Prop where
  clock : s.clock ≤ t.clock
  pids : ∀ q pid, s.pids q = some pid → t.pids q = some pid
  born : ∀ q, (s.pids q).isSome → t.bornAt q = s.bornAt q
  alive : ∀ q, (s.pids q).isSome → t.alive q = true → s.alive q = true
  entries : ∀ (j : Nat) e, s.executors[j]? = some e → t.alive e.process = true →
    ∃ e', t.executors[j]? = some e' ∧ e'.process = e.process

theorem alive_iff {q : SlotPipe} : s.alive q = true ↔
    (s.pids q).isSome ∧ s.core.runtime.exited q = false := by
  simp [alive]

/-- A live process is the newest of its slot. -/
theorem Staffed.newest (h : s.Staffed cfg) {q : SlotPipe} (alive : s.alive q = true) :
    ∃ slot, s.core.runtime.slots q.1 = some slot ∧ q.2 = slot.generation ∧
      slot.phase ≠ .exitReported := by
  obtain ⟨started, running⟩ := alive_iff.mp alive
  exact ProcessRuntime.newest h.runtime q (h.started q started).1 running

/-- Where the main thread makes a pass of its own, the slot has no live process. -/
theorem Staffed.backoff (h : s.Staffed cfg) {w : String} {rest : List String}
    (hp : s.core.point = .backoff w rest) {q : SlotPipe} (hq : q.1 = w) : s.alive q = false := by
  rw [← Bool.not_eq_true]
  intro alive
  obtain ⟨slot, hslot, -, unreported⟩ := h.newest alive
  have point := h.point
  simp only [Supervised.PointFits, hp] at point
  obtain ⟨g, hg⟩ := point
  obtain rfl : slot = ⟨g, .exitReported⟩ := by simpa [hq, hg] using hslot.symm
  exact absurd rfl unreported

theorem Staffed.finished (h : s.Staffed cfg) (hp : s.core.point = .finished) (q : SlotPipe) :
    s.alive q = false := by
  rw [← Bool.not_eq_true]
  intro alive
  obtain ⟨slot, hslot, newest, -⟩ := h.newest alive
  have point := h.point
  simp only [Supervised.PointFits, hp] at point
  have gone := point q.1 slot hslot
  rw [← newest] at gone
  simp [(alive_iff.mp alive).2] at gone

/-- What goes on beside the main thread leaves its loop alone; only a signal inside the event
stops it for good, where the main thread may be in the event. -/
theorem of_concurrent {a : SupervisedAction} {core : Supervised}
    (concurrent : s.concurrent a = true)
    (hst : s.core.step cfg.toSupervisorConfig a = some core) :
    (core.point = s.core.point ∨ s.core.inEvent = true ∧ core.point = .deadlocked ∧
        ((∃ deadline, s.main = .waiting deadline) ∨ s.main = .looping)) ∧
      core.runtime.slots = s.core.runtime.slots := by
  obtain ⟨point, slots⟩ := Supervised.step_other hst fun exitCode same => by
    simp [same, SupervisedRoot.concurrent] at concurrent
  refine ⟨point.imp_right ?_, slots⟩
  rintro ⟨rfl, inside, deadlocked⟩
  refine ⟨inside, deadlocked, ?_⟩
  unfold SupervisedRoot.concurrent at concurrent
  cases hm : s.main with
  | waiting deadline => exact .inl ⟨deadline, rfl⟩
  | looping => exact .inr rfl
  | launching | entering | collecting | sweeping | ended => simp [hm] at concurrent

/-! ### The steps of the main thread -/

theorem Onward.refl (s : SupervisedRoot) : s.Onward s :=
  ⟨le_rfl, fun _ _ => id, fun _ _ => rfl, fun _ _ => id, fun _ e he _ => ⟨e, he, rfl⟩⟩

/-- Nothing is started, and no process comes back to life. -/
theorem Onward.of_exited (clock : s.clock ≤ t.clock) (pids : t.pids = s.pids)
    (born : t.bornAt = s.bornAt) (executors : t.executors = s.executors)
    (exited : ∀ q, s.core.runtime.exited q = true → t.core.runtime.exited q = true) :
    s.Onward t := by
  refine ⟨clock, fun q pid => by simp [pids], fun q _ => by simp [born], fun q _ alive => ?_,
    fun j e he _ => ⟨e, by simpa [executors] using he, rfl⟩⟩
  rw [alive_iff, pids] at alive
  refine alive_iff.mpr ⟨alive.1, ?_⟩
  rw [← Bool.not_eq_true]
  exact fun gone => by simp [exited q gone] at alive

theorem Onward.of_core (h : s.Staffed cfg) {a : SupervisedAction} {core : Supervised}
    (hst : s.core.step cfg.toSupervisorConfig a = some core) (main : MainPhase) :
    s.Onward { s with core := core, main := main } :=
  .of_exited le_rfl rfl rfl rfl fun _ => Supervised.exited_step h.runtime hst

/-- A process that had not been started is. -/
theorem Onward.launch (fresh : s.pids q = none) {core : Supervised}
    (exited : ∀ q, s.core.runtime.exited q = true → core.runtime.exited q = true)
    (pid : Nat) (main : MainPhase) :
    s.Onward { s.launch q pid with core := core, main := main } := by
  have other : ∀ {r}, (s.pids r).isSome → r ≠ q := by
    rintro r hr rfl
    simp [fresh] at hr
  refine ⟨le_rfl, fun r pid' hr => ?_, fun r hr => ?_, fun r hr alive => ?_,
    fun j e he _ => ⟨e, he, rfl⟩⟩
  · have hq := other (by simp [hr] : (s.pids r).isSome)
    simpa [SupervisedRoot.launch, hq] using hr
  · simp [SupervisedRoot.launch, other hr]
  · have running : core.runtime.exited r = false := (alive_iff.mp alive).2
    refine alive_iff.mpr ⟨hr, ?_⟩
    rw [← Bool.not_eq_true]
    exact fun gone => by simp [exited r gone] at running

theorem Unlaunched.mono {rest : List String} (h : s.Unlaunched rest)
    (pids : t.pids = s.pids) (slots : t.core.runtime.slots = s.core.runtime.slots)
    (executors : ∀ q, (s.core.runtime.executors q).isSome → (t.core.runtime.executors q).isSome) :
    t.Unlaunched rest := by
  refine ⟨h.nodup, fun w hw => ?_⟩
  obtain ⟨idle, there, slot⟩ := h.idle w hw
  exact ⟨by simpa [pids] using idle, executors _ there, by simpa [slots] using slot⟩

theorem Unlaunched.nil (s : SupervisedRoot) : s.Unlaunched [] := ⟨List.nodup_nil, by simp⟩

theorem Staffed.of_core (h : s.Staffed cfg) {a : SupervisedAction} {core : Supervised}
    (hst : s.core.step cfg.toSupervisorConfig a = some core) {main : MainPhase}
    (fits : ({ s with core := core, main := main } : SupervisedRoot).MainFits) :
    ({ s with core := core, main := main } : SupervisedRoot).Staffed cfg where
  runtime := Supervised.runtime_reachable h.runtime hst
  point := h.point.step h.runtime hst
  main := fits
  started q hq := ⟨Supervised.executors_step hst (h.started q hq).1, (h.started q hq).2⟩
  recorded := h.recorded

theorem Staffed.of_launch (h : s.Staffed cfg) {q : SlotPipe} (fresh : s.pids q = none) {pid : Nat}
    {core : Supervised} {main : MainPhase}
    (runtime : (processRuntime cfg.toProcessRuntimeConfig).Reachable core.runtime)
    (point : core.PointFits)
    (executors : ∀ r, (s.core.runtime.executors r).isSome → (core.runtime.executors r).isSome)
    (there : (core.runtime.executors q).isSome)
    (fits : ({ s.launch q pid with core := core, main := main } : SupervisedRoot).MainFits) :
    ({ s.launch q pid with core := core, main := main } : SupervisedRoot).Staffed cfg where
  runtime := runtime
  point := point
  main := fits
  started r hr := by
    by_cases hq : r = q
    · subst hq
      exact ⟨there, by simp [SupervisedRoot.launch]⟩
    · have hr : (s.pids r).isSome := by simpa [SupervisedRoot.launch, hq] using hr
      exact ⟨executors r (h.started r hr).1, by simpa [SupervisedRoot.launch, hq] using
        (h.started r hr).2⟩
  recorded e he := by
    have old := h.recorded e he
    have hq : e.process ≠ q := by
      rintro rfl
      simp [fresh] at old
    simpa [SupervisedRoot.launch, hq] using old

/-- The process of the next generation has not been started. -/
theorem Staffed.unspawned (h : s.Staffed cfg) {w : String} {slot : SupervisedSlot}
    (hslot : s.core.runtime.slots w = some slot) : s.pids (w, slot.generation + 1) = none := by
  by_contra started
  obtain ⟨there, -⟩ := h.started (w, slot.generation + 1) (by
    rwa [Option.isSome_iff_ne_none])
  obtain ⟨-, slot', hslot', hle⟩ := (ProcessRuntime.overseen h.runtime).spawned _ there
  obtain rfl : slot = slot' := by simpa [hslot] using hslot'
  simp at hle

/-- The step of the loop that announces a start. -/
theorem slots_of_starting {exitCode : Option Int} {core : Supervised} {w : String}
    {rest : List String} {slot : SupervisedSlot} (hp : s.core.point = .starting w rest)
    (hslot : s.core.runtime.slots w = some slot)
    (hst : s.core.step cfg.toSupervisorConfig (.supervisor exitCode) = some core) :
    core.point = .pass rest ∧
      ∃ slot', core.runtime.slots w = some slot' ∧ slot'.generation = slot.generation := by
  cases Supervised.step_inv hst with
  | acts _ b r ha => cases ha
  | supervisor _ _ hsup =>
    cases hsup with
    | startReported v rest' r hv hr =>
      obtain ⟨rfl, rfl⟩ : w = v ∧ rest = rest' := by simpa [hp] using hv
      cases ProcessRuntime.step_inv hr with
      | startReported _ g hold =>
        obtain rfl : slot = ⟨g, .respawned⟩ := by simpa [hslot] using hold
        exact ⟨rfl, ⟨g, .running⟩, by simp [ProcessRuntime.setSlot], rfl⟩
    | _ => simp_all

/-- The step of the loop that starts a process. -/
theorem executors_of_backoff {exitCode : Option Int} {core : Supervised} {w : String}
    {rest : List String} {slot : SupervisedSlot} (hp : s.core.point = .backoff w rest)
    (hslot : s.core.runtime.slots w = some slot) (hstop : s.core.stop = false)
    (hst : s.core.step cfg.toSupervisorConfig (.supervisor exitCode) = some core) :
    core.point = .starting w rest ∧ (core.runtime.executors (w, slot.generation + 1)).isSome ∧
      core.runtime.slots w = some ⟨slot.generation + 1, .respawned⟩ := by
  cases Supervised.step_inv hst with
  | acts _ b r ha => cases ha
  | supervisor _ _ hsup =>
    cases hsup with
    | respawned v rest' slot' r hv _ hslot' hr =>
      obtain ⟨rfl, rfl⟩ : w = v ∧ rest = rest' := by simpa [hp] using hv
      cases ProcessRuntime.step_inv hr with
      | respawned _ g hold =>
        obtain rfl : slot = ⟨g, .exitReported⟩ := by simpa [hslot] using hold
        exact ⟨rfl, by simp [ProcessRuntime.setSlot, ProcessRuntime.spawn],
          by simp [ProcessRuntime.setSlot]⟩
    | _ => simp_all

/-- The loop comes to a start from its wait only. -/
theorem point_of_step {a : SupervisedAction} {core : Supervised}
    (hst : s.core.step cfg.toSupervisorConfig a = some core) {w : String} {rest : List String}
    (hp : core.point = .starting w rest) :
    s.core.point = .starting w rest ∨ s.core.stop = false ∧ s.core.point = .backoff w rest := by
  cases Supervised.step_inv hst with
  | signalSupervisor | signalBroker | brokerExit => exact .inl hp
  | signalInEvent => cases hp
  | acts => exact .inl hp
  | supervisor _ _ hsup =>
    cases hsup with
    | respawned v rest' slot r hv hstop =>
      cases hp
      exact .inr ⟨hstop, hv⟩
    | _ => cases hp

theorem MainStep.staffed (h : s.Staffed cfg) (st : MainStep cfg s t) :
    t.Staffed cfg ∧ s.Onward t := by
  have fits := h.main
  cases st with
  | launched w rest pid hm =>
    simp only [MainFits, hm] at fits
    obtain ⟨unlaunched, point⟩ := fits
    obtain ⟨fresh, there, slot⟩ := unlaunched.idle w List.mem_cons_self
    refine ⟨h.of_launch fresh h.runtime h.point (fun _ => id) there ?_,
      .launch fresh (fun _ => id) pid _⟩
    refine ⟨⟨(List.nodup_cons.mp unlaunched.nodup).2, fun v hv => ?_⟩, point,
      by simp [launch], slot⟩
    have hvw : v ≠ w := by
      rintro rfl
      exact (List.nodup_cons.mp unlaunched.nodup).1 hv
    simpa [launch, hvw] using unlaunched.idle v (List.mem_cons_of_mem w hv)
  | allLaunched hm =>
    simp only [MainFits, hm] at fits
    exact ⟨⟨h.runtime, h.point, fun w rest slot hp => absurd hp (fits.2 w rest), h.started,
      h.recorded⟩, .of_exited le_rfl rfl rfl rfl fun _ => id⟩
  | entered q n rest hm =>
    simp only [MainFits, hm] at fits
    obtain ⟨unlaunched, point, started, slot, hslot, generation⟩ := fits
    refine ⟨⟨h.runtime, h.point, ⟨unlaunched.mono rfl rfl fun _ => id, point⟩, h.started,
      fun e he => ?_⟩,
      le_rfl, fun _ _ => id, fun _ _ => rfl, fun _ _ => id, fun j e he alive => ?_⟩
    · obtain rfl | he := mem_enter he
      · exact started
      · exact h.recorded e he
    · obtain same | ⟨new, key⟩ := getElem?_enter ⟨q, n⟩ he
      · exact ⟨e, same, rfl⟩
      · -- a process of the slot that is alive is the one that is entered
        obtain ⟨slot', hslot', newest, -⟩ := h.newest alive
        obtain rfl : slot = slot' := by
          rw [key] at hslot'
          simpa [hslot] using hslot'
        exact ⟨_, new, Prod.ext key.symm (generation.symm.trans newest.symm)⟩
  | looped exitCode core hm hbackoff hstarting _ hst =>
    refine ⟨h.of_core hst ?_, .of_core h hst s.main⟩
    simp only [MainFits, hm]
    intro w rest slot hp
    obtain hp | ⟨-, hp⟩ := point_of_step hst hp
    · exact absurd hp (hstarting w rest)
    · exact absurd hp (hbackoff w rest)
  | started exitCode core w rest e slot hm hp he hslot hst =>
    simp only [MainFits, hm] at fits
    obtain ⟨point, slots⟩ := slots_of_starting hp hslot hst
    exact ⟨h.of_core hst ⟨.nil _, by simp [point], fits w rest slot hp hslot, slots⟩,
      .of_core h hst _⟩
  | collecting w rest e pid delay hm hp =>
    exact ⟨⟨h.runtime, h.point, ⟨w, rest, hp⟩, h.started, h.recorded⟩,
      .of_exited le_rfl rfl rfl rfl fun _ => id⟩
  | unidentified w rest e delay hm hp =>
    exact ⟨⟨h.runtime, h.point, .inl ⟨w, rest, hp⟩, h.started, h.recorded⟩,
      .of_exited le_rfl rfl rfl rfl fun _ => id⟩
  | collected k delay p hm =>
    simp only [MainFits, hm] at fits
    exact ⟨⟨h.runtime, h.point, .inl fits, h.started, h.recorded⟩,
      .of_exited le_rfl rfl rfl rfl fun _ => id⟩
  | failed | collectingFailed =>
    exact ⟨⟨h.runtime, trivial, by simp [MainFits, fail], h.started, h.recorded⟩,
      .of_exited le_rfl rfl rfl rfl fun _ => id⟩
  | brokenOff exitCode core w rest deadline hm hp hstop hst =>
    refine ⟨h.of_core hst fun v later slot hv => ?_, .of_core h hst _⟩
    obtain hv | ⟨running, -⟩ := point_of_step hst hv
    · simp [hp] at hv
    · simp [hstop] at running
  | respawned exitCode core w rest slot deadline pid hm hp hslot hstop _ hst =>
    have fresh := h.unspawned hslot
    obtain ⟨point, there, new⟩ := executors_of_backoff hp hslot hstop hst
    refine ⟨h.of_launch fresh (Supervised.runtime_reachable h.runtime hst)
      (h.point.step h.runtime hst) (fun _ => Supervised.executors_step hst) there ?_,
      .launch fresh (fun _ => Supervised.exited_step h.runtime hst) pid _⟩
    intro v later slot' hv hslot'
    obtain ⟨rfl, -⟩ : w = v ∧ rest = later := by simpa [point] using hv
    obtain rfl : ⟨slot.generation + 1, .respawned⟩ = slot' := by simpa [new] using hslot'
    simp [launch]
  | sweeping hm hp =>
    exact ⟨⟨h.runtime, h.point, hp, h.started, h.recorded⟩,
      .of_exited le_rfl rfl rfl rfl fun _ => id⟩
  | swept k p hm =>
    simp only [MainFits, hm] at fits
    exact ⟨⟨h.runtime, h.point, fits, h.started, h.recorded⟩,
      .of_exited le_rfl rfl rfl rfl fun _ => id⟩

/-- The steps of the others. -/
theorem RootStep.staffed (h : s.Staffed cfg) (st : RootStep cfg s action t) :
    t.Staffed cfg ∧ s.Onward t := by
  have fits := h.main
  have same : ∀ {u : SupervisedRoot}, u.core = s.core → u.main = s.main → u.pids = s.pids →
      u.bornAt = s.bornAt → u.executors = s.executors → s.clock ≤ u.clock →
      u.Staffed cfg ∧ s.Onward u := by
    intro u hcore hmain hpids hborn hexecutors hclock
    refine ⟨⟨hcore ▸ h.runtime, hcore ▸ h.point, ?_, fun q hq => ?_, fun e he => ?_⟩,
      .of_exited hclock hpids hborn hexecutors fun q => by simp [hcore]⟩
    · have unlaunched : ∀ {rest}, s.Unlaunched rest → u.Unlaunched rest := fun old =>
        old.mono hpids (by rw [hcore]) fun q => by simp [hcore]
      unfold MainFits at fits ⊢
      rw [hmain, hcore, hpids]
      split <;> rename_i hm <;> simp only [hm] at fits
      · exact ⟨unlaunched fits.1, fits.2⟩
      · exact ⟨unlaunched fits.1, fits.2⟩
      all_goals exact fits
    · rw [hpids] at hq
      rw [hcore, hborn]
      exact ⟨(h.started q hq).1, (h.started q hq).2.trans hclock⟩
    · rw [hexecutors] at he
      rw [hpids]
      exact h.recorded e he
  cases st with
  | main exitCode pid t hmain => exact hmain.staffed h
  | tick clock hle => exact same rfl rfl rfl rfl rfl hle
  | register | attempt | startPass | pass => exact same rfl rfl rfl rfl rfl le_rfl
  | other a core concurrent hst =>
    refine ⟨h.of_core hst ?_, .of_core h hst s.main⟩
    obtain ⟨point | ⟨-, point, main⟩, slots⟩ := of_concurrent concurrent hst
    · have unlaunched : ∀ {rest}, s.Unlaunched rest →
          ({ s with core := core } : SupervisedRoot).Unlaunched rest := fun old =>
        old.mono rfl slots fun _ => Supervised.executors_step hst
      unfold MainFits at fits ⊢
      dsimp only
      rw [point, slots]
      split <;> rename_i hm <;> simp only [hm] at fits
      · exact ⟨unlaunched fits.1, fits.2⟩
      · exact ⟨unlaunched fits.1, fits.2⟩
      all_goals exact fits
    · obtain ⟨deadline, main⟩ | main := main
      · simp [MainFits, main, point]
      · simp [MainFits, main, point]

/-! ## Attempts -/

/-- The attempt has the pid of its process, a marker in its directory is its own, and its
time stamps are not older than its process. -/
structure AttemptFits (s : SupervisedRoot) (a : ProcessAttempt) : Prop where
  dir : a.dir ∈ s.usedDirs
  owner : a.owner.workerId = a.process.1 ∧ s.pids a.process = some a.owner.pid
  fits : a.Fits (s.workspaces a.dir)
  within : a.Within (s.workspaces a.dir) (s.bornAt a.process) s.clock

theorem AttemptFits.started {a : ProcessAttempt} (h : s.AttemptFits a) :
    (s.pids a.process).isSome := by
  simp [h.owner.2]

theorem AttemptFits.onward {a : ProcessAttempt} (h : s.AttemptFits a) (o : s.Onward t)
    (dirs : s.usedDirs ⊆ t.usedDirs)
    (marked : ∀ m, t.workspaces a.dir = .marked m → s.workspaces a.dir = .marked m) :
    t.AttemptFits a where
  dir := dirs h.dir
  owner := ⟨h.owner.1, o.pids _ _ h.owner.2⟩
  fits m hm := h.fits m (marked m hm)
  within := by
    rw [o.born _ h.started]
    refine ⟨fun u hu => ?_, fun m hm => ?_⟩
    · exact ⟨(h.within.stamp u hu).1, (h.within.stamp u hu).2.trans o.clock⟩
    · have old := h.within.marker m (marked m hm)
      exact ⟨old.1, old.2.trans o.clock⟩

/-- The part of the invariant that is about the workspaces. -/
structure Housed (s : SupervisedRoot) : Prop where
  attempts : ∀ (i : Nat) a, s.attempts[i]? = some a → s.AttemptFits a
  apart : ∀ (i j : Nat) a b, s.attempts[i]? = some a → s.attempts[j]? = some b → i ≠ j →
    a.dir ≠ b.dir
  used : ∀ d, s.workspaces d ≠ .absent → d ∈ s.usedDirs

/-- The attempts stay, and nobody writes a marker. -/
theorem Housed.of_same (h : s.Housed) (o : s.Onward t) (attempts : t.attempts = s.attempts)
    (dirs : s.usedDirs = t.usedDirs)
    (marked : ∀ d m, t.workspaces d = .marked m → s.workspaces d = .marked m)
    (used : ∀ d, t.workspaces d ≠ .absent → d ∈ s.usedDirs) : t.Housed := by
  refine ⟨fun i a ha => ?_, fun i j a b => ?_, fun d hd => dirs ▸ used d hd⟩
  · rw [attempts] at ha
    exact (h.attempts i a ha).onward o (fun d hd => dirs ▸ hd) (marked a.dir)
  · rw [attempts]
    exact h.apart i j a b

theorem MainStep.frame (st : MainStep cfg s t) : t.attempts = s.attempts ∧
    t.usedDirs = s.usedDirs ∧ t.workspaces = s.workspaces := by
  cases st <;> exact ⟨rfl, rfl, rfl⟩

/-- A pass changes the directory that it removes, and writes no marker. -/
theorem PassStep.changed (h : PassStep cfg s p call p' workspaces) {d : Text}
    (changed : workspaces d ≠ s.workspaces d) :
    (∃ args todo, p.phase = .removing args d todo) ∧ ∀ m, workspaces d ≠ .marked m := by
  cases h with
  | grown | asked | clocked | found | unlisted | sorted | ended | spared | chosen =>
    exact absurd rfl changed
  | removed args e todo hp =>
    obtain rfl : d = e := by
      by_contra hne
      simp [hne] at changed
    exact ⟨⟨args, todo, hp⟩, by simp⟩
  | failed args e todo left hp =>
    obtain rfl : d = e := by
      by_contra hne
      simp [hne] at changed
    refine ⟨⟨args, todo, hp⟩, fun m hm => changed ?_⟩
    rw [hm]
    exact (Removal.apply_marked (by simpa using hm)).symm

theorem PassStep.marked (h : PassStep cfg s p call p' workspaces) {d : Text} {m : GcMarker}
    (hm : workspaces d = .marked m) : s.workspaces d = .marked m := by
  by_contra hne
  exact (h.changed fun same => hne (same ▸ hm)).2 m hm

theorem PassStep.used (h : PassStep cfg s p call p' workspaces) {d : Text}
    (hd : workspaces d ≠ .absent) : s.workspaces d ≠ .absent := by
  intro absent
  by_cases same : workspaces d = s.workspaces d
  · exact hd (same.trans absent)
  · cases h with
    | grown | asked | clocked | found | unlisted | sorted | ended | spared | chosen =>
      exact same rfl
    | removed args e todo =>
      by_cases hde : d = e
      · simp [hde] at hd
      · exact same (by simp [hde])
    | failed args e todo left =>
      by_cases hde : d = e
      · subst hde
        cases left <;> simp [absent, Removal.apply] at hd
      · exact same (by simp [hde])

theorem Housed.register (h : s.Housed) {q : SlotPipe} {pid : Nat} {token executionId : String}
    {dir : Text} (hpid : s.pids q = some pid) (fresh : dir ∉ s.usedDirs) : Housed { s with
      usedDirs := dir :: s.usedDirs
      attempts := s.attempts ++ [⟨⟨⟨q.1, pid, token⟩, executionId, dir, .registered⟩, q⟩] } := by
  have absent : s.workspaces dir = .absent := by
    by_contra hne
    exact fresh (h.used dir hne)
  refine ⟨fun i a ha => ?_, fun i j a b ha hb hne => ?_,
    fun d hd => List.mem_cons_of_mem _ (h.used d hd)⟩
  · obtain ⟨-, rfl⟩ | ⟨-, ha⟩ := (getElem?_concat_iff _ _ i a).mp ha
    · refine ⟨List.mem_cons_self, ⟨rfl, hpid⟩, fun m hm => ?_, fun u hu => ?_, fun m hm => ?_⟩
      · cases absent.symm.trans hm
      · cases hu
      · cases absent.symm.trans hm
    · exact (h.attempts i a ha).onward (.of_exited le_rfl rfl rfl rfl fun _ => id)
        (List.subset_cons_self _ _) fun m hm => hm
  · obtain ⟨rfl, rfl⟩ | ⟨-, ha⟩ := (getElem?_concat_iff _ _ i a).mp ha
    · obtain ⟨rfl, rfl⟩ | ⟨-, hb⟩ := (getElem?_concat_iff _ _ j b).mp hb
      · exact absurd rfl hne
      · have other := h.attempts j b hb
        intro same
        exact fresh (by rw [show dir = b.dir from same]; exact other.dir)
    · obtain ⟨rfl, rfl⟩ | ⟨-, hb⟩ := (getElem?_concat_iff _ _ j b).mp hb
      · have other := h.attempts i a ha
        intro same
        exact fresh (by rw [← show a.dir = dir from same]; exact other.dir)
      · exact h.apart i j a b ha hb hne

theorem Housed.attempt (h : s.Housed) (staffed : s.Staffed cfg) {i : Nat} {a : ProcessAttempt}
    {c : AttemptCall} {phase : AttemptPhase} {ws : WorkspaceState} (ha : s.attempts[i]? = some a)
    (effect : AttemptEffect s.clock a.toGcAttempt (s.workspaces a.dir) c phase ws) :
    Housed { s with
      workspaces := Function.update s.workspaces a.dir ws
      attempts := s.attempts.set i { a with phase := phase } } := by
  have self := h.attempts i a ha
  refine ⟨fun j b hb => ?_, fun j k b e hb he hne => ?_, fun d hd => ?_⟩
  · obtain ⟨-, rfl⟩ | ⟨hj, hb⟩ := (getElem?_set_iff ha _ j b).mp hb
    · refine ⟨self.dir, self.owner, ?_, ?_⟩
      · simpa using effect.fits self.fits
      · simpa using effect.within (staffed.started _ self.started).2 le_rfl self.within
    · have other := h.apart j i b a hb ha hj
      refine (h.attempts j b hb).onward (.of_exited le_rfl rfl rfl rfl fun _ => id)
        (List.Subset.refl _) fun m hm => ?_
      simpa [other] using hm
  · obtain ⟨rfl, rfl⟩ | ⟨hj, hb⟩ := (getElem?_set_iff ha _ j b).mp hb
    · obtain ⟨rfl, rfl⟩ | ⟨hk, he⟩ := (getElem?_set_iff ha _ k e).mp he
      · exact absurd rfl hne
      · exact h.apart j k a e ha he hne
    · obtain ⟨rfl, rfl⟩ | ⟨hk, he⟩ := (getElem?_set_iff ha _ k e).mp he
      · exact h.apart j k b a (by assumption) ha hne
      · exact h.apart j k b e hb he hne
  · by_cases hdir : d = a.dir
    · exact hdir ▸ self.dir
    · exact h.used d (by simpa [hdir] using hd)

theorem RootStep.housed (h : s.Housed) (staffed : s.Staffed cfg)
    (st : RootStep cfg s action t) : t.Housed := by
  obtain ⟨-, onward⟩ := st.staffed staffed
  cases st with
  | tick | other => exact h.of_same onward rfl rfl (fun _ _ => id) h.used
  | main exitCode pid t hmain =>
    obtain ⟨attempts, dirs, workspaces⟩ := hmain.frame
    exact h.of_same onward attempts dirs.symm (fun d m => by rw [workspaces]; exact id)
      fun d hd => h.used d (workspaces ▸ hd)
  | register q pid token executionId dir hpid _ fresh => exact h.register hpid fresh
  | attempt i c a phase ws ha _ effect => exact h.attempt staffed ha effect
  | startPass => exact h.of_same onward rfl rfl (fun _ _ => id) h.used
  | pass k call p p' workspaces hp step =>
    exact h.of_same onward rfl rfl (fun d m => step.marked) fun d hd => h.used d (step.used hd)

/-! ## Passes -/

/-- The owner that the process writes is among these. -/
def OwnerKnown (s : SupervisedRoot) (owners : List (String × Int)) (q : SlotPipe) : Prop :=
  ∀ pid, s.pids q = some pid → (q.1, (pid : Int)) ∈ owners

/-- The pass is one of the collector thread, which began to ask before the process was
recorded, and read the clock when the process was at least `ttl` old. -/
structure Overlooked (cfg : RootConfig) (s : SupervisedRoot) (known : List SlotPipe)
    (args : GcArguments) (q : SlotPipe) : Prop where
  unknown : q ∉ known
  periodic : args.targetProcessOwner = none
  age : cfg.ttl ≤ args.currentTime - s.bornAt q

/-- What the arguments of a pass say about the executors. -/
inductive ArgsFit (cfg : RootConfig) (s : SupervisedRoot) (k : Nat) (known : List SlotPipe)
    (args : GcArguments) : Prop where
  | periodic : args.targetProcessOwner = none → args.ttl = cfg.ttl →
      (∀ q ∈ known, s.alive q = true → s.OwnerKnown args.processOwners q) →
      ArgsFit cfg s k known args
  | targeted (w : String) (pid : Int) (delay : Nat) (rest : List String) :
      args.targetProcessOwner = some (w, pid) → s.main = .collecting k delay →
      s.core.point = .backoff w rest → ArgsFit cfg s k known args
  | sweep : s.main = .sweeping k → ArgsFit cfg s k known args

def PassFits (cfg : RootConfig) (s : SupervisedRoot) (k : Nat) (p : RootPass) : Prop :=
  match p.phase with
  | .asking _ next owners => ∀ q ∈ p.known, s.alive q = true → s.OwnerKnown owners q ∨
      ∃ (j : Nat) (e : ExecutorEntry), next ≤ j ∧ s.executors[j]? = some e ∧ e.process = q
  | .listing args _ | .visiting args _ => s.ArgsFit cfg k p.known args
  | .removing args d _ => s.ArgsFit cfg k p.known args ∧ d ∈ s.usedDirs ∧
      ∀ (i : Nat) a, s.attempts[i]? = some a → a.dir = d → s.alive a.process = true →
        s.Overlooked cfg p.known args a.process
  | .done | .raised => True

/-- The main thread waits for its own pass. -/
def Held (s t : SupervisedRoot) : Prop :=
  ∀ (k : Nat) p, s.passes[k]? = some p → p.phase.Active →
    (∀ delay, s.main = .collecting k delay → t.main = s.main ∧ t.core.point = s.core.point) ∧
      (s.main = .sweeping k → t.main = s.main)

theorem OwnerKnown.onward {owners : List (String × Int)} {q : SlotPipe}
    (h : s.OwnerKnown owners q) (o : s.Onward t) (started : (s.pids q).isSome) :
    t.OwnerKnown owners q := by
  obtain ⟨pid, hpid⟩ := Option.isSome_iff_exists.mp started
  intro pid' hpid'
  obtain rfl : pid = pid' := by simpa [o.pids q pid hpid] using hpid'
  exact h pid hpid

theorem Overlooked.onward {known : List SlotPipe} {args : GcArguments} {q : SlotPipe}
    (h : s.Overlooked cfg known args q) (o : s.Onward t) (started : (s.pids q).isSome) :
    t.Overlooked cfg known args q :=
  ⟨h.unknown, h.periodic, by rw [o.born q started]; exact h.age⟩

theorem ArgsFit.onward {k : Nat} {names : List SlotPipe} {args : GcArguments}
    (h : s.ArgsFit cfg k names args) (o : s.Onward t) (known : ∀ q ∈ names, (s.pids q).isSome)
    (held : (∀ delay, s.main = .collecting k delay → t.main = s.main ∧
      t.core.point = s.core.point) ∧ (s.main = .sweeping k → t.main = s.main)) :
    t.ArgsFit cfg k names args := by
  cases h with
  | periodic target ttl owners =>
    refine .periodic target ttl fun q hq alive => ?_
    exact (owners q hq (o.alive q (known q hq) alive)).onward o (known q hq)
  | targeted w pid delay rest target hm hp =>
    obtain ⟨main, point⟩ := held.1 delay hm
    exact .targeted w pid delay rest target (main.trans hm) (point.trans hp)
  | sweep hm => exact .sweep ((held.2 hm).trans hm)

/-- A pass that chooses the workspace of a live process has overlooked it. -/
theorem ArgsFit.overlooked {k : Nat} {known : List SlotPipe} {args : GcArguments}
    {a : ProcessAttempt} (h : s.ArgsFit cfg k known args) (staffed : s.Staffed cfg)
    (fits : s.AttemptFits a)
    (alive : s.alive a.process = true)
    (collected : args.collected (s.workspaces a.dir) = true) :
    s.Overlooked cfg known args a.process := by
  obtain ⟨m, hm, target, owner, -, age⟩ := GcArguments.collected_iff.mp collected
  obtain ⟨u, rfl⟩ := fits.fits m hm
  cases h with
  | periodic none ttl owners =>
    refine ⟨fun member => owner ?_, none, ?_⟩
    · have listed := owners _ member alive _ fits.owner.2
      rwa [← fits.owner.1] at listed
    · have young := (fits.within.marker _ hm).1
      rw [ttl] at age
      omega
  | targeted w pid delay rest htarget hmain hp =>
    -- the slot has no live process
    have same := congrArg Prod.fst (target _ htarget)
    have dead := staffed.backoff hp (q := a.process) (fits.owner.1.symm.trans same.symm)
    simp [alive] at dead
  | sweep hmain =>
    have main := staffed.main
    simp only [MainFits, hmain] at main
    have dead := staffed.finished main a.process
    simp [alive] at dead

/-- A pass that takes no step keeps what it knows. -/
theorem PassFits.onward {k : Nat} (h : s.PassFits cfg k p) (o : s.Onward t)
    (known : ∀ q ∈ p.known, (s.pids q).isSome)
    (held : p.phase.Active → (∀ delay, s.main = .collecting k delay → t.main = s.main ∧
      t.core.point = s.core.point) ∧ (s.main = .sweeping k → t.main = s.main))
    (dirs : ∀ d ∈ s.usedDirs, d ∈ t.usedDirs)
    (attempts : ∀ (i : Nat) a, t.attempts[i]? = some a → a.dir ∈ s.usedDirs →
      ∃ b, s.attempts[i]? = some b ∧ b.dir = a.dir ∧ b.process = a.process ∧
        (s.pids a.process).isSome) : t.PassFits cfg k p := by
  unfold PassFits at h ⊢
  split <;> rename_i hp <;> simp only [hp] at h
  · rename_i size next owners
    intro q hq alive
    have before := o.alive q (known q hq) alive
    obtain asked | ⟨j, e, hj, he, rfl⟩ := h q hq before
    · exact .inl (asked.onward o (known q hq))
    · obtain ⟨e', he', same⟩ := o.entries j e he alive
      exact .inr ⟨j, e', hj, he', same⟩
  · exact h.onward o known (held (by rw [hp]; trivial))
  · exact h.onward o known (held (by rw [hp]; trivial))
  · obtain ⟨fits, used, spared⟩ := h
    refine ⟨fits.onward o known (held (by rw [hp]; trivial)), dirs _ used,
      fun i a ha hdir alive => ?_⟩
    obtain ⟨b, hb, hbdir, hprocess, started⟩ := attempts i a ha (hdir ▸ used)
    rw [← hprocess] at started alive ⊢
    exact (spared i b hb (hbdir.trans hdir) (o.alive _ started alive)).onward o started
  · trivial
  · trivial

/-- What a pass knows after its own step. -/
theorem PassStep.fits {k : Nat} (step : PassStep cfg s p call p' workspaces)
    (h : s.PassFits cfg k p) (staffed : s.Staffed cfg) (housed : s.Housed) :
    s.PassFits cfg k p' ∧ p'.known = p.known := by
  cases step with
  | grown | unlisted | ended | failed => exact ⟨trivial, rfl⟩
  | asked size next owners e hp _ he =>
    refine ⟨fun q hq alive => ?_, rfl⟩
    simp only [PassFits, hp] at h
    obtain asked | ⟨j, e', hj, he', same⟩ := h q hq alive
    · exact .inl fun pid hpid => List.mem_append_left _ (asked pid hpid)
    · by_cases hnext : j = next
      · subst hnext
        obtain rfl : e = e' := by simpa [he] using he'
        subst same
        refine .inl fun pid hpid => List.mem_append_right _ ?_
        simp [ownersOf, hpid, alive]
      · exact .inr ⟨j, e', by omega, he', same⟩
  | clocked size next owners hp _ last =>
    refine ⟨.periodic rfl rfl fun q hq alive => ?_, rfl⟩
    simp only [PassFits, hp] at h
    obtain asked | ⟨j, e, hj, he, -⟩ := h q hq alive
    · exact asked
    · have : s.executors[j]? = none := by
        rw [List.getElem?_eq_none_iff] at last ⊢
        omega
      simp [this] at he
  | found args found d hp | sorted args found hp | spared args d todo osError hp =>
    simp only [PassFits, hp] at h
    exact ⟨h, rfl⟩
  | chosen args d todo hp collected =>
    simp only [PassFits, hp] at h
    refine ⟨⟨h, ?_, fun i a ha hdir alive => ?_⟩, rfl⟩
    · obtain ⟨m, hm, -⟩ := GcArguments.collected_iff.mp collected
      exact housed.used d (by simp [hm])
    · exact h.overlooked staffed (housed.attempts i a ha) alive (hdir ▸ collected)
  | removed args d todo hp =>
    simp only [PassFits, hp] at h
    exact ⟨h.1, rfl⟩

theorem MainStep.held (st : MainStep cfg s t) : s.Held t := by
  have free : ∀ {u : SupervisedRoot}, (∀ k delay, s.main ≠ .collecting k delay) →
      (∀ k, s.main ≠ .sweeping k) → s.Held u := fun collecting sweeping k p _ _ =>
    ⟨fun delay hm => absurd hm (collecting k delay), fun hm => absurd hm (sweeping k)⟩
  have passed : ∀ {u : SupervisedRoot} {j : Nat} {r : RootPass}, s.passes[j]? = some r →
      ¬ r.phase.Active → (∀ k delay, s.main = .collecting k delay → k = j) →
      (∀ k, s.main = .sweeping k → k = j) → s.Held u := by
    intro u j r hr idle collecting sweeping k p hp active
    have hk : k ≠ j := by
      rintro rfl
      obtain rfl : r = p := by simpa [hr] using hp
      exact idle active
    exact ⟨fun delay hm => absurd (collecting k delay hm) hk,
      fun hm => absurd (sweeping k hm) hk⟩
  cases st with
  | launched w rest pid hm | allLaunched hm | entered q n rest hm
  | looped _ _ hm | started _ _ w rest e slot hm | collecting w rest e pid delay hm
  | unidentified w rest e delay hm | failed w rest e exc hm | brokenOff _ _ w rest deadline hm
  | respawned _ _ w rest slot deadline pid hm | sweeping hm =>
    exact free (by simp [hm]) (by simp [hm])
  | collected k delay r hm hr done =>
    exact passed hr (by simp [done, RootPhase.Active]) (by simp [hm]) (by simp [hm])
  | collectingFailed k delay r hm hr raised =>
    exact passed hr (by simp [raised, RootPhase.Active]) (by simp [hm]) (by simp [hm])
  | swept k r hm hr settled =>
    refine passed hr ?_ (by simp [hm]) (by simp [hm])
    rcases settled with done | raised
    · simp [done, RootPhase.Active]
    · simp [raised, RootPhase.Active]

/-! ## The invariant -/

structure RootInv (cfg : RootConfig) (s : SupervisedRoot) : Prop where
  staffed : s.Staffed cfg
  housed : s.Housed
  known : ∀ (k : Nat) p, s.passes[k]? = some p → ∀ q ∈ p.known, (s.pids q).isSome
  passes : ∀ (k : Nat) p, s.passes[k]? = some p → s.PassFits cfg k p

/-- A pass after a step of the main thread was there, or is its own. -/
theorem MainStep.passes (st : MainStep cfg s t) {k : Nat} (hp : t.passes[k]? = some p) :
    s.passes[k]? = some p ∨ p.known = [] ∧ t.PassFits cfg k p := by
  cases st with
  | collecting w rest e pid delay hm hpoint =>
    obtain ⟨rfl, rfl⟩ | ⟨-, hp⟩ := (getElem?_concat_iff _ _ k p).mp hp
    · exact .inr ⟨rfl, .targeted w pid delay rest rfl rfl hpoint⟩
    · exact .inl hp
  | sweeping hm hpoint =>
    obtain ⟨rfl, rfl⟩ | ⟨-, hp⟩ := (getElem?_concat_iff _ _ k p).mp hp
    · exact .inr ⟨rfl, .sweep rfl⟩
    · exact .inl hp
  | _ => exact .inl hp

/-- Attempts with directories of before were there before. -/
theorem RootStep.attempts (housed : s.Housed) (st : RootStep cfg s action t) (i : Nat)
    (a : ProcessAttempt) (ha : t.attempts[i]? = some a) (old : a.dir ∈ s.usedDirs) :
    ∃ b, s.attempts[i]? = some b ∧ b.dir = a.dir ∧ b.process = a.process ∧
      (s.pids a.process).isSome := by
  have same : s.attempts[i]? = some a → ∃ b, s.attempts[i]? = some b ∧ b.dir = a.dir ∧
      b.process = a.process ∧ (s.pids a.process).isSome := fun hb =>
    ⟨a, hb, rfl, rfl, (housed.attempts i a hb).started⟩
  cases st with
  | main exitCode pid t hmain =>
    rw [hmain.frame.1] at ha
    exact same ha
  | register q pid token executionId dir _ _ fresh =>
    obtain ⟨-, rfl⟩ | ⟨-, hb⟩ := (getElem?_concat_iff _ _ i a).mp ha
    · exact absurd old fresh
    · exact same hb
  | attempt j c b phase ws hb =>
    obtain ⟨rfl, rfl⟩ | ⟨-, ha⟩ := (getElem?_set_iff hb _ i a).mp ha
    · exact ⟨b, hb, rfl, rfl, (housed.attempts i b hb).started⟩
    · exact same ha
  | tick | other | startPass | pass => exact same ha

theorem RootStep.dirs (st : RootStep cfg s action t) : ∀ d ∈ s.usedDirs, d ∈ t.usedDirs := by
  cases st with
  | main exitCode pid t hmain =>
    rw [hmain.frame.2.1]
    exact fun d => id
  | register => exact fun d => List.mem_cons_of_mem _
  | _ => exact fun d => id

theorem RootStep.held (st : RootStep cfg s action t) : s.Held t := by
  cases st with
  | main exitCode pid t hmain => exact hmain.held
  | other a core concurrent hst =>
    intro k p _ _
    refine ⟨fun delay collecting => ⟨rfl, ?_⟩, fun _ => rfl⟩
    obtain ⟨point | ⟨-, -, ⟨deadline, main⟩ | main⟩, -⟩ := of_concurrent concurrent hst
    · exact point
    · simp [main] at collecting
    · simp [main] at collecting
  | _ => exact fun k p _ _ => ⟨fun _ _ => ⟨rfl, rfl⟩, fun _ => rfl⟩

theorem RootInv.step (inv : s.RootInv cfg) (st : RootStep cfg s action t) : t.RootInv cfg := by
  obtain ⟨staffed, onward⟩ := st.staffed inv.staffed
  have housed := st.housed inv.housed inv.staffed
  have started : ∀ q, (s.pids q).isSome → (t.pids q).isSome := by
    intro q hq
    obtain ⟨pid, hpid⟩ := Option.isSome_iff_exists.mp hq
    simp [onward.pids q pid hpid]
  have kept : ∀ {k p}, s.passes[k]? = some p →
      (∀ q ∈ p.known, (t.pids q).isSome) ∧ t.PassFits cfg k p := fun {k p} hp =>
    ⟨fun q hq => started q (inv.known k p hp q hq),
      (inv.passes k p hp).onward onward (inv.known k p hp) (st.held k p hp) st.dirs
        (st.attempts inv.housed)⟩
  have all : ∀ (k : Nat) p, t.passes[k]? = some p →
      (∀ q ∈ p.known, (t.pids q).isSome) ∧ t.PassFits cfg k p := by
    intro k p hp
    cases st with
    | main exitCode pid t hmain =>
      obtain hp | ⟨known, fits⟩ := hmain.passes hp
      · exact kept hp
      · exact ⟨by simp [known], fits⟩
    | startPass =>
      obtain ⟨-, rfl⟩ | ⟨-, hp⟩ := (getElem?_concat_iff _ _ k p).mp hp
      · refine ⟨fun q hq => ?_, fun q hq _ => ?_⟩
        · obtain ⟨e, he, rfl⟩ := List.mem_map.mp hq
          exact inv.staffed.recorded e he
        · obtain ⟨e, he, rfl⟩ := List.mem_map.mp hq
          obtain ⟨j, hj⟩ := List.mem_iff_getElem?.mp he
          exact .inr ⟨j, e, Nat.zero_le j, hj, rfl⟩
      · exact kept hp
    | pass j call r r' workspaces hr step =>
      obtain ⟨rfl, rfl⟩ | ⟨-, hp⟩ := (getElem?_set_iff hr r' k p).mp hp
      · obtain ⟨fits, known⟩ := step.fits (inv.passes k r hr) inv.staffed inv.housed
        have names := inv.known k r hr
        rw [← known] at names
        refine ⟨names, fits.onward onward names (fun _ => ⟨fun _ _ => ⟨rfl, rfl⟩, fun _ => rfl⟩)
          (fun d => id) ?_⟩
        exact fun i a ha old => ⟨a, ha, rfl, rfl, (inv.housed.attempts i a ha).started⟩
      · exact kept hp
    | tick | register | attempt | other => exact kept hp
  exact ⟨staffed, housed, fun k p hp => (all k p hp).1, fun k p hp => (all k p hp).2⟩

theorem RootInv.init (h : s.Initial cfg) : s.RootInv cfg := by
  have unlaunched : s.Unlaunched cfg.workerIds := by
    refine ⟨cfg.nodup, fun w hw => ⟨h.pids _, ?_, {}, ?_, rfl⟩⟩
    · simp [h.core, Supervised.start, ProcessRuntime.start, hw]
    · simp [h.core, Supervised.start, ProcessRuntime.start, hw]
  refine ⟨⟨?_, ?_, ?_, by simp [h.pids], by simp [h.executors]⟩,
    ⟨by simp [h.attempts], by simp [h.attempts], h.used⟩, by simp [h.passes], by simp [h.passes]⟩
  · rw [h.core]
    exact .init rfl
  · rw [h.core]
    trivial
  · rw [MainFits, h.main]
    exact ⟨unlaunched, by simp [h.core, Supervised.start]⟩

theorem rootInv (h : (supervisedRoot cfg).Reachable s) : s.RootInv cfg :=
  h.invariant (fun _ => .init) fun _ _ _ _ inv _ hst => inv.step (step_inv hst)

/-! ## Live executors keep their workspaces -/

/-- The pass is one of the collector thread that looked for the owners before this process
was recorded, and read the clock when the process had been running for at least `ttl`. -/
def Overlooks (cfg : RootConfig) (s : SupervisedRoot) (k : Nat) (q : SlotPipe) : Prop :=
  ∃ (p : RootPass) (args : GcArguments) (d : Text) (todo : List Text),
    s.passes[k]? = some p ∧ p.phase = .removing args d todo ∧
      s.Overlooked cfg p.known args q

/-- Whatever the supervisor, the broker, the executors and any number of passes do, no
pass changes the workspace of a live executor, unless it overlooks that executor. -/
theorem live_executor_keeps_workspaces (h : (supervisedRoot cfg).Reachable s) {k : Nat}
    (hst : s.step cfg (.pass k call) = some t) {a : ProcessAttempt} (ha : a ∈ s.attempts)
    (alive : s.alive a.process = true) :
    t.workspaces a.dir = s.workspaces a.dir ∨ s.Overlooks cfg k a.process := by
  have inv := rootInv h
  obtain ⟨i, hi⟩ := List.mem_iff_getElem?.mp ha
  cases step_inv hst with
  | pass _ _ p p' workspaces hp step =>
    by_cases same : workspaces a.dir = s.workspaces a.dir
    · exact .inl same
    · obtain ⟨⟨args, todo, hphase⟩, -⟩ := step.changed same
      have fits := inv.passes k p hp
      simp only [PassFits, hphase] at fits
      exact .inr ⟨p, args, a.dir, todo, hp, hphase, fits.2.2 i a hi rfl alive⟩

/-! ## A pass beside an executor -/

def oneExecutor : RootConfig where
  toSupervisorConfig := Supervised.oneSupervisor
  ttl := 60

/-- A run before left a workspace behind. -/
def leftRoot : SupervisedRoot where
  core := .start Supervised.oneSupervisor
  main := .launching ["w"]
  executors := []
  pids _ := none
  bornAt _ := 0
  began := 100
  clock := 100
  usedDirs := [leftDir]
  workspaces := Function.update (fun _ => .absent) leftDir (.marked leftMarker)
  attempts := []
  passes := []

theorem leftRoot_initial : leftRoot.Initial oneExecutor := by
  have only : ∀ {d}, leftRoot.workspaces d ≠ .absent → d = leftDir := by
    intro d hd
    by_contra other
    exact hd (by simp [leftRoot, other])
  refine ⟨rfl, rfl, rfl, fun _ => rfl, rfl, rfl, rfl, fun d hd => ?_, fun d m hm => ?_⟩
  · exact List.mem_singleton.mpr (only hd)
  · obtain rfl : d = leftDir := only (by simp [hm])
    obtain rfl : leftMarker = m := by simpa [leftRoot] using hm
    decide

/-- An attempt of the executor runs for longer than `ttl` when the pass chooses what the
other run left behind. -/
def chosenRoot : SupervisedRoot := (supervisedRoot oneExecutor).follow leftRoot
  [.main none 7, .main none 7, .register ("w", 1) "t1" "e1" runningDir, .attempt 0 .mkdir,
    .attempt 0 .stamp, .attempt 0 .openMarker, .attempt 0 .writeMarker, .tick 200, .startPass,
    .pass 0 .ask, .pass 0 .readClock, .pass 0 (.list runningDir), .pass 0 (.list leftDir),
    .pass 0 .sort, .pass 0 (.visit false)]

def removedRoot : SupervisedRoot :=
  (supervisedRoot oneExecutor).follow chosenRoot [.pass 0 .rmtree]

theorem live_executor_keeps_workspaces_leftover :
    removedRoot.workspaces leftDir = .absent ∧
      removedRoot.workspaces runningDir = .marked ⟨"w", 7, "t1", "e1", 100⟩ := by
  have marked : chosenRoot.workspaces runningDir = .marked ⟨"w", 7, "t1", "e1", 100⟩ := rfl
  have attempt : chosenRoot.attempts[0]? = some
      ⟨⟨⟨"w", 7, "t1"⟩, "e1", runningDir, .running 100⟩, ("w", 1)⟩ := rfl
  have removed : chosenRoot.step oneExecutor (.pass 0 .rmtree) = some removedRoot := rfl
  have kept := live_executor_keeps_workspaces (.follow leftRoot_initial) removed
    (List.mem_of_getElem? attempt) rfl
  refine ⟨by decide +kernel, ?_⟩
  obtain kept | ⟨p, args, d, todo, hp, -, overlooked⟩ := kept
  · exact kept.trans marked
  · obtain rfl : p = ⟨_, [("w", 1)], _⟩ := (Option.some.inj hp).symm
    exact absurd List.mem_cons_self overlooked.unknown

/-- The main thread has started an executor and not recorded it when a pass begins to ask, and
the pass reads the clock when the attempt of the executor is older than `ttl`. -/
def overlookedRoot : SupervisedRoot := (supervisedRoot oneExecutor).follow leftRoot
  [.main none 7, .register ("w", 1) "t1" "e1" runningDir, .attempt 0 .mkdir, .attempt 0 .stamp,
    .attempt 0 .openMarker, .attempt 0 .writeMarker, .startPass, .tick 200, .pass 0 .readClock,
    .pass 0 (.list runningDir), .pass 0 (.list leftDir), .pass 0 .sort, .pass 0 (.visit false),
    .pass 0 .rmtree, .pass 0 (.visit false)]

/-- A pass removes the workspace of a live executor that it overlooks. -/
theorem live_executor_overlooked : (supervisedRoot oneExecutor).Reachable overlookedRoot ∧
    ∃ t a, overlookedRoot.step oneExecutor (.pass 0 .rmtree) = some t ∧
      a ∈ overlookedRoot.attempts ∧ overlookedRoot.alive a.process = true ∧
      overlookedRoot.workspaces a.dir = .marked ⟨"w", 7, "t1", "e1", 100⟩ ∧
      t.workspaces a.dir = .absent := by
  refine ⟨.follow leftRoot_initial, _, ⟨⟨⟨"w", 7, "t1"⟩, "e1", runningDir, .running 100⟩, ("w", 1)⟩,
    rfl, List.mem_of_getElem? (i := 0) rfl, rfl, rfl, ?_⟩
  decide +kernel

end SupervisedRoot

end Perago.ConductorRuntime
