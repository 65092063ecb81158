import Perago.ConductorRuntime.Supervisor

/-!
# What the supervisor reports

The lifecycle events of a slot in the order in which the supervisor puts them:
every generation but the newest has been reported exited, the newest is reported
once its executor has exited, and a replacement is announced after it was started.
The supervisor closes its copy of a pipe end only behind the report. Only the newest
executor of a slot can be alive.
-/

namespace Perago.ConductorRuntime

open Perago.Transition

namespace ProcessRuntime

variable {cfg : ProcessRuntimeConfig} {s t : ProcessRuntime} {p : SlotPipe}
variable {timeout : Option Nat} {a : RuntimeAction}

/-- The exit of the executor of a pipe was put on the event queue. -/
def ReportedExit (s : ProcessRuntime) (p : SlotPipe) : Prop :=
  ∃ exitCode, .exited p.1 p.2 exitCode ∈ s.dispatch.emitted

theorem reachable_dispatch (h : (processRuntime cfg).Reachable s) :
    (dispatchMachine cfg.dispatch).Reachable s.dispatch := by
  have r : (processRuntime cfg).Refines (fun _ _ => True) (dispatchMachine cfg.dispatch)
      (fun _ _ => True) (·.dispatch) := by
    refine ⟨?_, fun s a t _ _ hst => ?_⟩
    · rintro _ rfl
      rfl
    · exact (step_dispatch hst).imp_right fun ⟨b, hb, _⟩ => ⟨b, trivial, hb⟩
  exact r.guarded h

/-- Executors exist in generations from 1 to their slot's; the exit of an older one,
and of one whose slot stands behind the report, was put; and a replacement is not
announced before its report. -/
structure Overseen (s : ProcessRuntime) : Prop where
  spawned : ∀ p, (s.executors p).isSome → 1 ≤ p.2 ∧
    ∃ slot, s.slots p.1 = some slot ∧ p.2 ≤ slot.generation
  exited : ∀ p slot, s.slots p.1 = some slot → 1 ≤ p.2 →
    p.2 < slot.generation ∨ p.2 = slot.generation ∧ slot.phase = .exitReported → s.ReportedExit p
  unannounced : ∀ w slot, s.slots w = some slot → slot.phase = .respawned →
    slot.generation ≠ 1 ∧ ∀ connection, .started w slot.generation connection ∉ s.dispatch.emitted

theorem Overseen.start (cfg : ProcessRuntimeConfig) : (ProcessRuntime.start cfg).Overseen := by
  have slots : ∀ w slot, (ProcessRuntime.start cfg).slots w = some slot → slot = {} := by
    intro w slot hslot
    simp only [ProcessRuntime.start] at hslot
    split at hslot <;> cases hslot
    rfl
  refine ⟨?_, ?_, ?_⟩
  · rintro ⟨w, g⟩ he
    simp only [ProcessRuntime.start] at he ⊢
    split at he
    · rename_i hp
      obtain ⟨hw, rfl⟩ := hp
      exact ⟨le_rfl, {}, by simp_all, le_rfl⟩
    · simp at he
  · intro p slot hslot hp hor
    obtain rfl := slots _ slot hslot
    obtain hlt | ⟨-, hphase⟩ := hor
    · simp only at hlt
      omega
    · cases hphase
  · intro w slot hslot hphase
    obtain rfl := slots w slot hslot
    cases hphase

theorem Step.emitted (h : Step timeout s a t) {ev : ExecutorEvent SlotPipe}
    (hev : ev ∈ s.dispatch.emitted) : ev ∈ t.dispatch.emitted := by
  cases h with
  | exitReported | startReported => exact List.mem_append_left _ hev
  | _ => exact hev

/-- Where an event comes from. -/
theorem Step.emitted_origin (h : Step timeout s a t) {ev : ExecutorEvent SlotPipe}
    (hev : ev ∈ t.dispatch.emitted) : ev ∈ s.dispatch.emitted ∨
      (∃ w g exitCode, ev = .exited w g exitCode ∧ s.slots w = some ⟨g, .running⟩ ∧
        s.exited (w, g) = true ∧ t.slots w = some ⟨g, .exitReported⟩) ∨
      ∃ w g, ev = .started w g (w, g) ∧ s.slots w = some ⟨g, .respawned⟩ ∧
        t.slots w = some ⟨g, .running⟩ := by
  cases h with
  | exitReported w g exitCode hslot hexit =>
    obtain hev | hev := List.mem_append.mp hev
    · exact .inl hev
    · exact .inr (.inl ⟨w, g, exitCode, List.mem_singleton.mp hev, hslot, hexit, by simp [setSlot]⟩)
  | startReported w g hslot =>
    obtain hev | hev := List.mem_append.mp hev
    · exact .inl hev
    · exact .inr (.inr ⟨w, g, List.mem_singleton.mp hev, hslot, by simp [setSlot]⟩)
  | _ => exact .inl hev

/-- How the supervisor's record of a slot can change. -/
theorem Step.slot_origin (h : Step timeout s a t) {w : String} {slot : SupervisedSlot}
    (hslot : t.slots w = some slot) : s.slots w = some slot ∨
      ∃ g, s.slots w = some ⟨g, .running⟩ ∧ slot = ⟨g, .exitReported⟩ ∧ t.ReportedExit (w, g) ∨
        s.slots w = some ⟨g, .exitReported⟩ ∧ slot = ⟨g + 1, .respawned⟩ ∨
        s.slots w = some ⟨g, .respawned⟩ ∧ slot = ⟨g, .running⟩ ∧
          .started w g (w, g) ∈ t.dispatch.emitted := by
  have update : ∀ {v x}, Function.update s.slots v (some x) w = some slot →
      w = v ∧ slot = x ∨ s.slots w = some slot := by
    intro v x hupd
    by_cases hw : w = v
    · subst hw
      simp only [Function.update_self, Option.some.injEq] at hupd
      exact .inl ⟨rfl, hupd.symm⟩
    · exact .inr (by simpa [hw] using hupd)
  cases h with
  | exitReported v g exitCode hv hexit =>
    obtain ⟨rfl, rfl⟩ | hslot := update hslot
    · exact .inr ⟨g, .inl ⟨hv, rfl, exitCode, by simp [setSlot, emit]⟩⟩
    · exact .inl hslot
  | respawned v g hv =>
    obtain ⟨rfl, rfl⟩ | hslot := update hslot
    · exact .inr ⟨g, .inr (.inl ⟨hv, rfl⟩)⟩
    · exact .inl hslot
  | startReported v g hv =>
    obtain ⟨rfl, rfl⟩ | hslot := update hslot
    · exact .inr ⟨g, .inr (.inr ⟨hv, rfl, by simp [setSlot, emit]⟩)⟩
    · exact .inl hslot
  | _ => exact .inl hslot

theorem Step.executor_isSome_origin (h : Step timeout s a t) (hp : (t.executors p).isSome) :
    (s.executors p).isSome ∨ ∃ w g, a = .respawn w ∧ p = (w, g + 1) ∧
      s.slots w = some ⟨g, .exitReported⟩ ∧ t.slots w = some ⟨g + 1, .respawned⟩ := by
  cases h with
  | executor q a e e' pipe he =>
    by_cases hq : p = q
    · simp [hq, he]
    · exact .inl (by simpa [hq] using hp)
  | respawned w g hslot =>
    by_cases hq : p = (w, g + 1)
    · exact .inr ⟨w, g, rfl, hq, hslot, by simp [setSlot]⟩
    · exact .inl (by simpa [setSlot, spawn, hq] using hp)
  | _ => exact .inl hp

/-- The supervisor's record of a slot stays, and its generation does not decrease. -/
theorem Step.slot_next (h : Step timeout s a t) {w : String} {slot : SupervisedSlot}
    (hslot : s.slots w = some slot) :
    ∃ slot', t.slots w = some slot' ∧ slot.generation ≤ slot'.generation := by
  have update : ∀ {v x y}, s.slots v = some y → y.generation ≤ x.generation →
      ∃ slot', Function.update s.slots v (some x) w = some slot' ∧
        slot.generation ≤ slot'.generation := by
    intro v x y hy hle
    by_cases hw : w = v
    · subst hw
      obtain rfl : slot = y := by simpa [hslot] using hy
      exact ⟨x, by simp, hle⟩
    · exact ⟨slot, by simpa [hw] using hslot, le_rfl⟩
  cases h with
  | exitReported v g code hv | startReported v g hv => exact update hv le_rfl
  | respawned v g hv => exact update hv (Nat.le_succ g)
  | _ => exact ⟨slot, hslot, le_rfl⟩

theorem Overseen.step (h : s.Overseen) (n : s.Named cfg) (st : Step timeout s a t) :
    t.Overseen := by
  have kept : ∀ q, s.ReportedExit q → t.ReportedExit q := fun q ⟨code, hev⟩ =>
    ⟨code, st.emitted hev⟩
  refine ⟨?_, ?_, ?_⟩
  · intro p hp
    obtain hp | ⟨w, g, -, rfl, -, hslot⟩ := st.executor_isSome_origin hp
    · obtain ⟨hone, slot, hslot, hle⟩ := h.spawned p hp
      obtain ⟨slot', hslot', hle'⟩ := st.slot_next hslot
      exact ⟨hone, slot', hslot', hle.trans hle'⟩
    · exact ⟨Nat.le_add_left 1 g, _, hslot, le_rfl⟩
  · intro p slot hslot hone hor
    rcases st.slot_origin hslot with hslot | ⟨g, ⟨hold, rfl, hreported⟩ | ⟨hold, rfl⟩ |
      ⟨hold, rfl, -⟩⟩
    · exact kept p (h.exited p slot hslot hone hor)
    · by_cases hp : p = (p.1, g)
      · exact hp ▸ hreported
      · refine kept p (h.exited p _ hold hone (.inl (hor.resolve_right ?_)))
        exact fun hg => hp (Prod.ext rfl hg.1)
    · refine kept p (h.exited p _ hold hone ?_)
      simp only [reduceCtorEq, and_false, or_false] at hor
      have := Nat.lt_or_eq_of_le (Nat.le_of_lt_succ hor)
      exact this.imp_right fun hp => ⟨hp, rfl⟩
    · refine kept p (h.exited p _ hold hone (.inl ?_))
      simpa using hor
  · intro w slot hslot hphase
    have announced : ∀ connection, .started w slot.generation connection ∈ t.dispatch.emitted →
        .started w slot.generation connection ∈ s.dispatch.emitted := by
      intro connection hev
      obtain hev | ⟨_, _, _, hev, -⟩ | ⟨v, g, hev, -, hnew⟩ := st.emitted_origin hev
      · exact hev
      · cases hev
      · obtain ⟨rfl, rfl, -⟩ := ExecutorEvent.started.inj hev
        rw [hslot, Option.some.injEq] at hnew
        rw [hnew] at hphase
        cases hphase
    obtain hslot | ⟨g, ⟨hold, rfl, -⟩ | ⟨hold, rfl⟩ | ⟨hold, rfl, -⟩⟩ := st.slot_origin hslot
    · obtain ⟨hne, hnot⟩ := h.unannounced w slot hslot hphase
      exact ⟨hne, fun connection hev => hnot connection (announced connection hev)⟩
    · cases hphase
    · -- the next generation has no executor before this step
      have young : 1 ≤ g := by
        obtain ⟨hone, -⟩ := h.spawned _ (n.spawned w _ hold)
        exact hone
      refine ⟨Nat.ne_of_gt (Nat.succ_lt_succ young), fun connection hev => ?_⟩
      obtain ⟨-, hspawned⟩ := n.started _ _ _ (announced connection hev)
      obtain ⟨-, slot, hslot, hle⟩ := h.spawned _ hspawned
      obtain rfl : slot = ⟨g, .exitReported⟩ := by simpa [hold] using hslot.symm
      simp at hle
    · cases hphase

theorem overseen (h : (processRuntime cfg).Reachable s) : s.Overseen := by
  refine h.invariant (P := Overseen) ?_
    fun s a t hs ho _ hst => ho.step (named hs.reachable) (step_inv hst)
  rintro _ rfl
  exact .start cfg

/-- No exit was put that the record of its slot does not show, and the newest
generation that is not about to be announced has been. -/
structure Told (s : ProcessRuntime) : Prop where
  exits : ∀ w g exitCode, .exited w g exitCode ∈ s.dispatch.emitted → ∃ slot,
    s.slots w = some slot ∧ (g < slot.generation ∨ slot = ⟨g, .exitReported⟩)
  announced : ∀ w g phase, s.slots w = some ⟨g, phase⟩ → phase ≠ .respawned →
    g = 1 ∨ ∃ connection, .started w g connection ∈ s.dispatch.emitted
  awaited : ∀ w g, s.slots w = some ⟨g, .respawned⟩ →
    g = 2 ∨ ∃ connection, .started w (g - 1) connection ∈ s.dispatch.emitted

theorem Told.start (cfg : ProcessRuntimeConfig) : (ProcessRuntime.start cfg).Told := by
  refine ⟨by simp [ProcessRuntime.start, Dispatch.start], ?_, ?_⟩
  · intro w g phase hslot hphase
    simp only [ProcessRuntime.start] at hslot
    split at hslot <;> cases hslot
    exact .inl rfl
  · intro w g hslot
    simp only [ProcessRuntime.start] at hslot
    split at hslot <;> cases hslot

theorem Told.step (h : s.Told) (st : Step timeout s a t) : t.Told := by
  refine ⟨?_, ?_, ?_⟩
  · intro w g code hev
    obtain hev | ⟨v, k, code', hev, -, -, hslot⟩ | ⟨v, k, hev, -⟩ := st.emitted_origin hev
    · obtain ⟨slot, hslot, hor⟩ := h.exits w g code hev
      obtain ⟨slot', hslot', hle⟩ := st.slot_next hslot
      refine ⟨slot', hslot', ?_⟩
      obtain hlt | rfl := hor
      · exact .inl (Nat.lt_of_lt_of_le hlt hle)
      · -- an exit that is shown stays shown, until the slot has a newer generation
        obtain hsame | ⟨k, ⟨hold, -⟩ | ⟨hold, rfl⟩ | ⟨hold, -⟩⟩ := st.slot_origin hslot'
        · exact .inr (by simpa [hslot] using hsame.symm)
        · simp [hslot] at hold
        · obtain rfl : g = k := by simpa [hslot] using hold
          exact .inl (Nat.lt_succ_self g)
        · simp [hslot] at hold
    · cases hev
      exact ⟨_, hslot, .inr rfl⟩
    · cases hev
  · intro w g phase hslot hphase
    obtain hslot | ⟨k, ⟨hold, hnew, -⟩ | ⟨hold, hnew⟩ | ⟨hold, hnew, hev⟩⟩ := st.slot_origin hslot
    · exact (h.announced w g phase hslot hphase).imp_right fun ⟨c, hev⟩ => ⟨c, st.emitted hev⟩
    · cases hnew
      exact (h.announced w g _ hold (by simp)).imp_right fun ⟨c, hev⟩ => ⟨c, st.emitted hev⟩
    · cases hnew
      exact absurd rfl hphase
    · cases hnew
      exact .inr ⟨_, hev⟩
  · intro w g hslot
    obtain hslot | ⟨k, ⟨hold, hnew, -⟩ | ⟨hold, hnew⟩ | ⟨hold, hnew, hev⟩⟩ := st.slot_origin hslot
    · exact (h.awaited w g hslot).imp_right fun ⟨c, hev⟩ => ⟨c, st.emitted hev⟩
    · cases hnew
    · cases hnew
      obtain rfl | ⟨c, hev⟩ := h.announced w k _ hold (by simp)
      · exact .inl rfl
      · exact .inr ⟨c, st.emitted hev⟩
    · cases hnew

theorem told (h : (processRuntime cfg).Reachable s) : s.Told := by
  refine h.invariant (P := Told) ?_ fun s a t _ ht _ hst => ht.step (step_inv hst)
  rintro _ rfl
  exact .start cfg

/-- The slot of a lease still runs its generation, or the exit of that was put. -/
theorem lease_overseen (h : (processRuntime cfg).Reachable s) {i : Nat} {c : ExecuteCall SlotPipe}
    {l : Lease SlotPipe} (hc : s.dispatch.calls i = some c) (hl : c.phase.held = some l) :
    l.connection = (l.workerId, l.generation) ∧ (s.executors l.connection).isSome ∧
      (s.ReportedExit l.connection ∨
        s.slots l.workerId = some ⟨l.generation, .running⟩) := by
  have origin := (Dispatch.leasesKnown (reachable_dispatch h)).2.origin i c l hc hl
  obtain ⟨hname, hexec⟩ := (named h).origin origin
  refine ⟨hname, hexec, ?_⟩
  have ho := overseen h
  obtain ⟨hone, slot, hslot, hle⟩ := ho.spawned _ hexec
  rw [hname] at hone hslot hle ⊢
  by_cases hlt : l.generation < slot.generation
  · exact .inl (ho.exited _ slot hslot hone (.inl hlt))
  obtain ⟨g, phase⟩ := slot
  obtain rfl : l.generation = g := Nat.le_antisymm hle (Nat.le_of_not_lt hlt)
  cases phase with
  | running => exact .inr hslot
  | exitReported => exact .inl (ho.exited _ _ hslot hone (.inr ⟨rfl, rfl⟩))
  | respawned =>
    -- nobody can lease what is not announced
    obtain ⟨hne, hnot⟩ := ho.unannounced _ _ hslot rfl
    obtain hinit | hev := origin
    · simp only [ProcessRuntimeConfig.dispatch, List.mem_map, Prod.mk.injEq] at hinit
      obtain ⟨w, -, -, -, hg⟩ := hinit
      exact absurd hg.symm hne
    · exact absurd hev (hnot _)

/-- A step of the runtime starts no executor on a pipe that has one. -/
theorem Overseen.not_spawned (o : s.Overseen) (hp : (s.executors p).isSome) {w : String} {g : Nat}
    (hslot : s.slots w = some ⟨g, .exitReported⟩) : p ≠ (w, g + 1) := by
  rintro rfl
  obtain ⟨-, slot, hslot', hle⟩ := o.spawned _ hp
  obtain rfl : slot = ⟨g, .exitReported⟩ := by simpa [hslot] using hslot'.symm
  simp at hle

/-! ## Live executors -/

theorem exited_iff : s.exited p = true ↔ ∃ e, s.executors p = some e ∧ e.phase = .dead := by
  unfold exited
  cases s.executors p with
  | none => simp
  | some e => cases h : e.phase <;> simp [h]

theorem dead_of_executorStep {pipe pipe' : Pipe} {e e' : Executor} {b : ExecutorAction}
    (dead : e.phase = .dead) (h : ExecutorStep pipe e b pipe' e') : e'.phase = .dead := by
  cases h with
  | crash => rfl
  | signal => exact dead
  | broken hp => rcases hp with hp | hp <;> simp [dead] at hp
  | _ => simp_all

/-- A process that has exited stays so. -/
theorem Step.exited (h : Step timeout s a t) (o : s.Overseen) (hp : s.exited p = true) :
    t.exited p = true := by
  obtain ⟨e, he, dead⟩ := exited_iff.mp hp
  refine exited_iff.mpr ?_
  cases h with
  | executor q b d e' pipe hd hstep =>
    by_cases hq : p = q
    · subst hq
      obtain rfl : e = d := by simpa [he] using hd
      exact ⟨e', by simp, dead_of_executorStep dead hstep⟩
    · exact ⟨e, by simpa [hq] using he, dead⟩
  | respawned w g hslot =>
    have hq := o.not_spawned (p := p) (by simp [he]) hslot
    exact ⟨e, by simpa [setSlot, spawn, hq] using he, dead⟩
  | _ => exact ⟨e, he, dead⟩

/-- A live executor is the newest of its slot, and its exit was not reported. -/
def Newest (s : ProcessRuntime) : Prop :=
  ∀ p, (s.executors p).isSome → s.exited p = false →
    ∃ slot, s.slots p.1 = some slot ∧ p.2 = slot.generation ∧ slot.phase ≠ .exitReported

theorem Newest.start (cfg : ProcessRuntimeConfig) : (ProcessRuntime.start cfg).Newest := by
  intro p hp _
  simp only [ProcessRuntime.start] at hp ⊢
  split at hp
  · rename_i first
    exact ⟨{}, by simp [first.1], first.2, by simp⟩
  · cases hp

theorem Newest.step (h : s.Newest) (o : s.Overseen) (st : Step timeout s a t) : t.Newest := by
  intro p hp live
  have before : s.exited p = false := by
    rw [← Bool.not_eq_true]
    exact fun gone => by simp [st.exited o gone] at live
  obtain old | ⟨w, g, -, rfl, -, hslot⟩ := st.executor_isSome_origin hp
  · obtain ⟨slot, hslot, newest, unreported⟩ := h p old before
    have kept : ∀ {v g ph}, p.1 ≠ v → (Function.update s.slots v (some ⟨g, ph⟩)) p.1 = some slot :=
      fun hv => by simpa [hv] using hslot
    cases st with
    | exitReported w g code hw gone =>
      by_cases hv : p.1 = w
      · subst hv
        obtain rfl : slot = ⟨g, .running⟩ := by simpa [hslot] using hw
        have same : p = (p.1, g) := Prod.ext rfl newest
        rw [← same] at gone
        simp [gone] at before
      · exact ⟨slot, kept hv, newest, unreported⟩
    | respawned w g hw =>
      by_cases hv : p.1 = w
      · subst hv
        obtain rfl : slot = ⟨g, .exitReported⟩ := by simpa [hslot] using hw
        exact absurd rfl unreported
      · exact ⟨slot, kept hv, newest, unreported⟩
    | startReported w g hw =>
      by_cases hv : p.1 = w
      · subst hv
        obtain rfl : slot = ⟨g, .respawned⟩ := by simpa [hslot] using hw
        exact ⟨⟨g, .running⟩, by simp [setSlot], newest, by simp⟩
      · exact ⟨slot, kept hv, newest, unreported⟩
    | _ => exact ⟨slot, hslot, newest, unreported⟩
  · exact ⟨_, hslot, rfl, by simp⟩

theorem newest (h : (processRuntime cfg).Reachable s) : s.Newest := by
  refine h.invariant (P := Newest) ?_
    fun s a t hs hn _ hst => hn.step (overseen hs.reachable) (step_inv hst)
  rintro _ rfl
  exact .start cfg

/-- The supervisor's record has the slots of the configuration. -/
theorem slots_configured (h : (processRuntime cfg).Reachable s) {w : String}
    {slot : SupervisedSlot} (hslot : s.slots w = some slot) : w ∈ cfg.workerIds := by
  refine h.invariant (P := fun s => ∀ w slot, s.slots w = some slot → w ∈ cfg.workerIds) ?_ ?_
    w slot hslot
  · rintro _ rfl w slot hslot
    simp only [ProcessRuntime.start] at hslot
    split at hslot
    · assumption
    · cases hslot
  · intro s a t _ old _ hst w slot hslot
    obtain hslot | ⟨g, ⟨hold, -⟩ | ⟨hold, -⟩ | ⟨hold, -⟩⟩ := (step_inv hst).slot_origin hslot
    · exact old w slot hslot
    · exact old w _ hold
    · exact old w _ hold
    · exact old w _ hold

end ProcessRuntime

namespace Supervised

variable {cfg : SupervisorConfig} {s t : Supervised} {a : SupervisedAction} {p : SlotPipe}

theorem reachable_runtime (h : (supervised cfg).Reachable s) :
    (processRuntime cfg.toProcessRuntimeConfig).Reachable s.runtime :=
  refines_processRuntime.guarded h

/-! ## Closed ends -/

/-- The supervisor has put the exit of an executor before it closes its end, and
between the two its record of the slot says so. -/
structure Custody (s : Supervised) : Prop where
  closed : ∀ p, (s.runtime.executors p).isSome → s.executorConnections p = false →
    s.runtime.ReportedExit p
  closing : ∀ w rest, s.point = .closing w rest →
    ∃ g, s.runtime.slots w = some ⟨g, .exitReported⟩

/-- The broker and the executors leave the supervisor's record alone. -/
theorem Acts.frame {b : RuntimeAction} {r : ProcessRuntime} (ha : Acts s a b)
    (hr : s.runtime.step cfg.toProcessRuntimeConfig b = some r) :
    r.slots = s.runtime.slots ∧ r.dispatch.emitted = s.runtime.dispatch.emitted := by
  cases ProcessRuntime.step_inv hr with
  | begin | call | sent | received | executor => exact ⟨rfl, rfl⟩
  | exitReported | respawned | startReported | stopSent => cases ha

theorem Custody.step (h : s.Custody) (hs : (supervised cfg).Reachable s)
    (hst : s.step cfg a = some t) : t.Custody := by
  have same : ∀ {u : Supervised}, u.runtime = s.runtime →
      u.executorConnections = s.executorConnections → (∀ w rest, u.point = .closing w rest →
        ∃ g, u.runtime.slots w = some ⟨g, .exitReported⟩) → u.Custody := by
    intro u hr hc hclosing
    exact ⟨hr ▸ hc ▸ h.closed, hclosing⟩
  -- a step of the runtime that starts no executor
  have moved : ∀ {b r}, s.runtime.step cfg.toProcessRuntimeConfig b = some r →
      (∀ w, b ≠ .respawn w) → ∀ p, (r.executors p).isSome → s.executorConnections p = false →
        r.ReportedExit p := by
    intro b r hr hb p hp hc
    have st := ProcessRuntime.step_inv hr
    obtain hp | ⟨w, g, rfl, -⟩ := st.executor_isSome_origin hp
    · obtain ⟨code, hev⟩ := h.closed p hp hc
      exact ⟨code, st.emitted hev⟩
    · exact absurd rfl (hb w)
  cases step_inv hst with
  | acts _ b r ha hr =>
    refine ⟨moved hr ?_, ?_⟩
    · rintro w rfl
      cases ha
    · intro w rest hp
      rw [(ha.frame hr).1]
      exact h.closing w rest hp
  | signalSupervisor | signalBroker | brokerExit => exact same rfl rfl h.closing
  | signalInEvent => exact same rfl rfl (by simp)
  | supervisor exitCode _ hsup =>
    cases hsup with
    | exitReported w rest slot r hp hslot hexit hr =>
      refine ⟨moved hr (by simp), ?_⟩
      rintro _ _ ⟨⟩
      cases ProcessRuntime.step_inv hr with
      | exitReported _ g => exact ⟨g, by simp [ProcessRuntime.setSlot]⟩
    | closed w rest slot hp hslot =>
      refine ⟨fun p hpe hc => ?_, by simp⟩
      by_cases heq : p = (w, slot.generation)
      · obtain ⟨g, hg⟩ := h.closing w rest hp
        obtain rfl : slot = ⟨g, .exitReported⟩ := by simpa [hslot] using hg
        subst heq
        have ho := ProcessRuntime.overseen (reachable_runtime hs)
        exact ho.exited _ _ hslot (ho.spawned _ hpe).1 (.inr ⟨rfl, rfl⟩)
      · exact h.closed p hpe (by simpa [heq] using hc)
    | respawned w rest slot r hp hstop hslot hr =>
      refine ⟨fun p hpe hc => ?_, by simp⟩
      have st := ProcessRuntime.step_inv hr
      have hne : p ≠ (w, slot.generation + 1) := by
        rintro rfl
        simp at hc
      obtain hpe | ⟨_, g, ⟨⟩, rfl, hold, -⟩ := st.executor_isSome_origin hpe
      · obtain ⟨code, hev⟩ := h.closed p hpe (by simpa [hne] using hc)
        exact ⟨code, st.emitted hev⟩
      · obtain rfl : slot = ⟨g, .exitReported⟩ := by simpa [hslot] using hold
        exact absurd rfl hne
    | startReported w rest r hp hr | stopSent w rest r hp hr =>
      exact ⟨moved hr (by simp), by simp⟩
    | _ => exact same rfl rfl (by simp)

theorem custody (h : (supervised cfg).Reachable s) : s.Custody := by
  refine h.invariant (P := Custody) ?_ fun s a t hs hc _ hst => hc.step hs hst
  rintro _ rfl
  refine ⟨fun p hp hc => ?_, by simp [start]⟩
  simp only [start, ProcessRuntime.start, decide_eq_false_iff_not] at hp hc
  simp [hc] at hp

/-- An end of file is read only on the pipe of an executor whose exit was put. -/
theorem endOfFile_reported (h : (supervised cfg).Reachable s) (hp : s.executorEndClosed p = true) :
    s.runtime.ReportedExit p := by
  simp only [executorEndClosed, Bool.and_eq_true, Bool.not_eq_true'] at hp
  refine (custody h).closed p ?_ hp.2
  have exited := hp.1
  unfold ProcessRuntime.exited at exited
  split at exited
  · simp_all
  · cases exited

/-! ## Where the loop stands -/

/-- Between the report of an exit and the next start the record of the slot says so, and
at the end every process has exited. -/
def PointFits (s : Supervised) : Prop :=
  match s.point with
  | .closing w _ | .backoff w _ => ∃ g, s.runtime.slots w = some ⟨g, .exitReported⟩
  | .starting w _ => ∃ g, s.runtime.slots w = some ⟨g, .respawned⟩
  | .finished => ∀ w slot, s.runtime.slots w = some slot →
      s.runtime.exited (w, slot.generation) = true
  | _ => True

theorem runtime_reachable
    (h : (processRuntime cfg.toProcessRuntimeConfig).Reachable s.runtime)
    (hst : s.step cfg a = some t) :
    (processRuntime cfg.toProcessRuntimeConfig).Reachable t.runtime := by
  obtain same | ⟨b, hb⟩ := step_runtime hst
  · exact same ▸ h
  · exact .step b h trivial hb

theorem joined_of_finished (hst : s.step cfg a = some t) (before : s.point ≠ .finished)
    (h : t.point = .finished) : s.joined cfg = true ∧ t.runtime = s.runtime := by
  cases step_inv hst with
  | supervisor exitCode _ hsup =>
    cases hsup with
    | joined _ all => exact ⟨all, rfl⟩
    | _ => cases h
  | signalInEvent => cases h
  | _ => exact absurd h before

theorem PointFits.acts {b : RuntimeAction} {r : ProcessRuntime} (h : s.PointFits)
    (o : s.runtime.Overseen) (ha : Acts s a b)
    (hr : s.runtime.step cfg.toProcessRuntimeConfig b = some r) :
    ({ s with runtime := r } : Supervised).PointFits := by
  have same := (ha.frame hr).1
  unfold PointFits at h ⊢
  dsimp only
  rw [same]
  split <;> rename_i hp <;> simp only [hp] at h
  · exact h
  · exact h
  · exact h
  · exact fun w slot hslot => (ProcessRuntime.step_inv hr).exited o (h w slot hslot)
  · trivial

theorem PointFits.step (h : s.PointFits)
    (hs : (processRuntime cfg.toProcessRuntimeConfig).Reachable s.runtime)
    (hst : s.step cfg a = some t) : t.PointFits := by
  cases step_inv hst with
  | signalSupervisor | signalBroker | brokerExit => exact h
  | signalInEvent => trivial
  | acts _ b r ha hr => exact h.acts (ProcessRuntime.overseen hs) ha hr
  | supervisor exitCode _ hsup =>
    cases hsup with
    | exitReported w rest slot r hp hslot hexit hr =>
      cases ProcessRuntime.step_inv hr with
      | exitReported _ g => exact ⟨g, by simp [ProcessRuntime.setSlot]⟩
    | closed w rest slot hp hslot =>
      simp only [PointFits, hp] at h
      exact h
    | respawned w rest slot r hp hstop hslot hr =>
      cases ProcessRuntime.step_inv hr with
      | respawned _ g => exact ⟨g + 1, by simp [ProcessRuntime.setSlot]⟩
    | joined hp =>
      obtain ⟨all, -⟩ := joined_of_finished hst (by simp [hp]) rfl
      intro w slot hslot
      have hslot : s.runtime.slots w = some slot := hslot
      simp only [Supervised.joined, Bool.and_eq_true, List.all_eq_true] at all
      simpa [hslot] using all.2 w (ProcessRuntime.slots_configured hs hslot)
    | _ => trivial

/-- The broker, the executors and the signals leave the record alone, and the loop as well
unless a signal comes inside the event. -/
theorem step_other (hst : s.step cfg a = some t) (other : ∀ exitCode, a ≠ .supervisor exitCode) :
    (t.point = s.point ∨ a = .signalInEvent ∧ s.inEvent = true ∧ t.point = .deadlocked) ∧
      t.runtime.slots = s.runtime.slots := by
  cases step_inv hst with
  | signalSupervisor | signalBroker | brokerExit => exact ⟨.inl rfl, rfl⟩
  | signalInEvent inside => exact ⟨.inr ⟨rfl, inside, rfl⟩, rfl⟩
  | acts _ b r ha hr => exact ⟨.inl rfl, (ha.frame hr).1⟩
  | supervisor exitCode => exact absurd rfl (other exitCode)

theorem exited_step (hs : (processRuntime cfg.toProcessRuntimeConfig).Reachable s.runtime)
    (hst : s.step cfg a = some t) (gone : s.runtime.exited p = true) :
    t.runtime.exited p = true := by
  obtain same | ⟨b, hb⟩ := step_runtime hst
  · rw [same]
    exact gone
  · exact (ProcessRuntime.step_inv hb).exited (ProcessRuntime.overseen hs) gone

theorem executors_step (hst : s.step cfg a = some t)
    (h : (s.runtime.executors p).isSome) : (t.runtime.executors p).isSome := by
  obtain same | ⟨b, hb⟩ := step_runtime hst
  · rw [same]
    exact h
  · exact (ProcessRuntime.step_inv hb).executors_isSome h

end Supervised

end Perago.ConductorRuntime
