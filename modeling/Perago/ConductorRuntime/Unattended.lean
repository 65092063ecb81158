import Perago.ConductorRuntime.Restarts

/-!
# What dead executors leave behind

The supervisor replaces an executor only after a pass for it, and ends after a last pass.
Only live executors write markers. So a workspace of a replaced executor has no marker, and
at the end no workspace has one.
-/

namespace Perago.ConductorRuntime

open Perago.Transition

/-! ## What a pass has yet to visit -/

/-- The pass will come to this workspace if there is a marker. -/
def RootPhase.Ahead (present : List Text) (d : Text) : RootPhase → Prop
  | .listing _ _ => d ∈ present
  | .visiting _ todo => d ∈ todo
  | .removing _ dir todo => d = dir ∨ d ∈ todo
  | .raised => True
  | .asking _ _ _ | .done => False

def RootPhase.args : RootPhase → Option GcArguments
  | .listing args _ | .visiting args _ | .removing args _ _ => some args
  | .asking _ _ _ | .done | .raised => none

/-- The pass has not raised, and does not ask for owners. -/
def RootPhase.Proceeds : RootPhase → Prop
  | .asking _ _ _ | .raised => False
  | _ => True

namespace SupervisedRoot

variable {cfg : RootConfig} {s t : SupervisedRoot} {action : RootAction} {p p' : RootPass}
variable {call : RootCall} {workspaces : Text → WorkspaceState}

/-- Markers can be read, and the last pass lists and removes them. -/
def Removes (s : SupervisedRoot) : RootAction → Prop
  | .pass _ (.visit osError) => osError = false
  | .pass k .listFails | .pass k (.rmtreeFails _) => s.main ≠ .sweeping k
  | _ => True

def Unmarked (s : SupervisedRoot) (d : Text) : Prop := ∀ m, s.workspaces d ≠ .marked m

/-- The workspaces that the main thread collects, or has collected. -/
def Doomed (s : SupervisedRoot) (d : Text) : Prop :=
  match s.main with
  | .collecting _ _ | .waiting _ => ∃ w rest a, s.core.point = .backoff w rest ∧
      a ∈ s.attempts ∧ a.dir = d ∧ a.process = (w, s.generation w)
  | .sweeping _ | .ended => True
  | _ => False

/-! ## Passes that serve the main thread -/

/-- The pass comes to these workspaces and collects them. -/
def Serves (workspaces : Text → WorkspaceState) (doomed : Text → Prop) (p : RootPass) : Prop :=
  ∀ d m, doomed d → workspaces d = .marked m →
    p.phase.Ahead p.present d ∧ ∀ args ∈ p.phase.args, args.collects m = true

theorem Serves.mono {workspaces' : Text → WorkspaceState} {doomed doomed' : Text → Prop}
    (h : Serves workspaces doomed p)
    (less : ∀ d m, doomed' d → workspaces' d = .marked m → doomed d ∧ workspaces d = .marked m) :
    Serves workspaces' doomed' p :=
  fun d m hd hm => h d m (less d m hd hm).1 (less d m hd hm).2

theorem mem_sortedPaths {paths : List Text} {d : Text} : d ∈ sortedPaths paths ↔ d ∈ paths :=
  List.mem_insertionSort _

theorem PassStep.serves {doomed : Text → Prop} (step : PassStep cfg s p call p' workspaces)
    (read : ∀ osError, call = .visit osError → osError = false)
    (h : Serves s.workspaces doomed p) : Serves workspaces doomed p' := by
  intro d m hd hm
  obtain ⟨ahead, collects⟩ := h d m hd (step.marked hm)
  cases step with
  | grown | unlisted | failed => exact ⟨trivial, by simp [RootPhase.args]⟩
  | asked size next owners e hp | clocked size next owners hp =>
    rw [hp] at ahead
    exact ahead.elim
  | found args found e hp =>
    rw [hp] at ahead collects
    exact ⟨ahead, collects⟩
  | sorted args found hp all =>
    rw [hp] at ahead collects
    refine ⟨mem_sortedPaths.mpr (all d ahead ?_), collects⟩
    rw [hm]
    rfl
  | ended args osError hp =>
    rw [hp] at ahead
    exact (List.not_mem_nil ahead).elim
  | spared args e todo osError hp kept =>
    rw [hp] at ahead collects
    refine ⟨?_, collects⟩
    obtain rfl | later := List.mem_cons.mp ahead
    · obtain error | kept := kept
      · simp [read osError rfl] at error
      · have due : args.collected (s.workspaces d) = true := by
          simp only [hm, GcArguments.collected, WorkspaceState.gcMarker, Option.any_some]
          exact collects args rfl
        rw [kept] at due
        cases due
    · exact later
  | chosen args e todo hp =>
    rw [hp] at ahead collects
    exact ⟨List.mem_cons.mp ahead, collects⟩
  | removed args e todo hp =>
    rw [hp] at ahead collects
    refine ⟨ahead.resolve_left ?_, collects⟩
    rintro rfl
    simp at hm

/-! ## Who writes markers -/

/-- Only live executors write markers. -/
theorem RootStep.marked_origin (st : RootStep cfg s action t) {d : Text} {m : GcMarker}
    (hm : t.workspaces d = .marked m) : s.workspaces d = .marked m ∨
      ∃ (i : Nat) (a b : ProcessAttempt), s.attempts[i]? = some a ∧ t.attempts[i]? = some b ∧
        a.dir = d ∧ b.dir = d ∧ s.alive a.process = true := by
  cases st with
  | main exitCode pid t hmain =>
    obtain ⟨-, -, same⟩ := hmain.frame
    exact .inl (same ▸ hm)
  | attempt i c a phase ws ha alive =>
    by_cases hd : d = a.dir
    · subst hd
      exact .inr ⟨i, a, _, ha, (getElem?_set_iff ha _ i _).mpr (.inl ⟨rfl, rfl⟩), rfl, rfl, alive⟩
    · exact .inl (by simpa [hd] using hm)
  | pass k call p p' workspaces hp step => exact .inl (step.marked hm)
  | tick | other | register | startPass => exact .inl hm

/-- A workspace of an executor that is not alive gets no marker. -/
theorem RootStep.marked_of_dead (st : RootStep cfg s action t) (housed : s.Housed) {d : Text}
    {m : GcMarker} {a : ProcessAttempt} (ha : a ∈ s.attempts) (hd : a.dir = d)
    (dead : s.alive a.process = false) (hm : t.workspaces d = .marked m) :
    s.workspaces d = .marked m := by
  obtain old | ⟨i, b, _, hb, -, hbd, -, alive⟩ := st.marked_origin hm
  · exact old
  · obtain ⟨j, hj⟩ := List.mem_iff_getElem?.mp ha
    by_cases same : i = j
    · subst same
      obtain rfl : b = a := by simpa [hb] using hj
      simp [dead] at alive
    · exact absurd (hbd.trans hd.symm) (housed.apart i j b a hb hj same)

/-- An attempt of a process that is not alive was there before. -/
theorem RootStep.attempt_origin (st : RootStep cfg s action t) {a : ProcessAttempt}
    (ha : a ∈ t.attempts) : (∃ b ∈ s.attempts, b.dir = a.dir ∧ b.process = a.process) ∨
      s.alive a.process = true ∧ s.workspaces = t.workspaces ∧ a.dir ∉ s.usedDirs := by
  obtain ⟨i, hi⟩ := List.mem_iff_getElem?.mp ha
  have old : s.attempts[i]? = some a → ∃ b ∈ s.attempts, b.dir = a.dir ∧ b.process = a.process :=
    fun hb => ⟨a, List.mem_of_getElem? hb, rfl, rfl⟩
  cases st with
  | main exitCode pid t hmain =>
    rw [hmain.frame.1] at hi
    exact .inl (old hi)
  | register q pid token executionId dir _ alive fresh =>
    obtain ⟨-, rfl⟩ | ⟨-, hb⟩ := (getElem?_concat_iff _ _ i a).mp hi
    · exact .inr ⟨alive, rfl, fresh⟩
    · exact .inl (old hb)
  | attempt j c b phase ws hb =>
    obtain ⟨rfl, rfl⟩ | ⟨-, hi⟩ := (getElem?_set_iff hb _ i a).mp hi
    · exact .inl ⟨b, List.mem_of_getElem? hb, rfl, rfl⟩
    · exact .inl (old hi)
  | tick | other | startPass | pass => exact .inl (old hi)

/-! ## The invariant -/

def OwnPass (s : SupervisedRoot) : Prop :=
  match s.main with
  | .collecting k _ => ∃ p, s.passes[k]? = some p ∧ Serves s.workspaces s.Doomed p
  | .sweeping k => ∃ p, s.passes[k]? = some p ∧ Serves s.workspaces s.Doomed p ∧
      p.phase.Proceeds
  | .waiting _ | .ended => ∀ d, s.Doomed d → s.Unmarked d
  | _ => True

structure Cleared (s : SupervisedRoot) : Prop where
  replaced : ∀ a ∈ s.attempts, a.process.2 < s.generation a.process.1 → s.Unmarked a.dir
  past : ∀ d m, s.workspaces d = .marked m → m.startedAt ≤ s.clock
  own : s.OwnPass

/-- A replaced executor is not alive. -/
theorem Staffed.replaced (h : s.Staffed cfg) {q : SlotPipe} (old : q.2 < s.generation q.1) :
    s.alive q = false := by
  rw [← Bool.not_eq_true]
  intro alive
  obtain ⟨slot, hslot, newest, -⟩ := h.newest alive
  have : s.generation q.1 = slot.generation := ProcessRuntime.generation_eq hslot
  omega

/-- The executors of doomed workspaces are not alive. -/
theorem Staffed.doomed (h : s.Staffed cfg) {d : Text} (hd : s.Doomed d) :
    (∀ q, s.alive q = false) ∨ ∃ w rest a, s.core.point = .backoff w rest ∧ a ∈ s.attempts ∧
      a.dir = d ∧ a.process = (w, s.generation w) ∧ s.alive a.process = false := by
  have main := h.main
  have backoff : (∃ w rest a, s.core.point = .backoff w rest ∧ a ∈ s.attempts ∧ a.dir = d ∧
      a.process = (w, s.generation w)) → ∃ w rest a, s.core.point = .backoff w rest ∧
        a ∈ s.attempts ∧ a.dir = d ∧ a.process = (w, s.generation w) ∧
        s.alive a.process = false := by
    rintro ⟨w, rest, a, hp, ha, hdir, hprocess⟩
    exact ⟨w, rest, a, hp, ha, hdir, hprocess, h.backoff hp (congrArg Prod.fst hprocess)⟩
  cases hm : s.main with
  | collecting | waiting =>
    simp only [Doomed, hm] at hd
    exact .inr (backoff hd)
  | sweeping | ended =>
    simp only [MainFits, hm] at main
    exact .inl (h.finished main)
  | launching | entering | looping =>
    simp only [Doomed, hm] at hd

/-- A step that leaves the main thread and its slots alone dooms no other workspaces, and
marks no doomed one. -/
theorem RootStep.doomed_origin (st : RootStep cfg s action t) (staffed : s.Staffed cfg)
    (housed : s.Housed) (main : t.main = s.main) (point : t.core.point = s.core.point)
    (generation : t.generation = s.generation) {d : Text} {m : GcMarker} (hd : t.Doomed d)
    (hm : t.workspaces d = .marked m) : s.Doomed d ∧ s.workspaces d = .marked m := by
  have doomed : s.Doomed d := by
    unfold Doomed at hd ⊢
    rw [main, point, generation] at hd
    split at hd
    · obtain ⟨w, rest, a, hp, ha, hdir, hprocess⟩ := hd
      obtain ⟨b, hb, hbd, hbp⟩ | ⟨alive, -⟩ := st.attempt_origin ha
      · exact ⟨w, rest, b, hp, hb, hbd.trans hdir, hbp.trans hprocess⟩
      · have dead := staffed.backoff hp (q := a.process) (congrArg Prod.fst hprocess)
        simp [alive] at dead
    · obtain ⟨w, rest, a, hp, ha, hdir, hprocess⟩ := hd
      obtain ⟨b, hb, hbd, hbp⟩ | ⟨alive, -⟩ := st.attempt_origin ha
      · exact ⟨w, rest, b, hp, hb, hbd.trans hdir, hbp.trans hprocess⟩
      · have dead := staffed.backoff hp (q := a.process) (congrArg Prod.fst hprocess)
        simp [alive] at dead
    · trivial
    · trivial
    · exact hd.elim
  refine ⟨doomed, ?_⟩
  obtain none | ⟨w, rest, a, -, ha, hdir, -, dead⟩ := staffed.doomed doomed
  · obtain old | ⟨i, a, _, -, -, -, -, alive⟩ := st.marked_origin hm
    · exact old
    · simp [none] at alive
  · exact st.marked_of_dead housed ha hdir dead hm

theorem RootStep.past (st : RootStep cfg s action t) (h : s.Cleared) (housed : t.Housed)
    (onward : s.Onward t) : ∀ d m, t.workspaces d = .marked m → m.startedAt ≤ t.clock := by
  intro d m hm
  obtain old | ⟨i, _, b, -, hb, -, rfl, -⟩ := st.marked_origin hm
  · exact (h.past d m old).trans onward.clock
  · exact ((housed.attempts i b hb).within.marker m hm).2

/-- The replaced executors are those of before, or those that the pass was for. -/
theorem RootStep.replaced (st : RootStep cfg s action t) (h : s.Cleared) (staffed : s.Staffed cfg)
    (housed : s.Housed) (generation : t.generation = s.generation ∨
      ∃ deadline w rest, s.main = .waiting deadline ∧ s.core.point = .backoff w rest ∧
        t.generation = Function.update s.generation w (s.generation w + 1)) :
    ∀ a ∈ t.attempts, a.process.2 < t.generation a.process.1 → t.Unmarked a.dir := by
  intro a ha hold m hm
  obtain ⟨b, hb, hdir, hprocess⟩ | ⟨alive, same, fresh⟩ := st.attempt_origin ha
  · have kept : s.Unmarked b.dir → s.alive b.process = false → False := fun unmarked dead =>
      unmarked m (st.marked_of_dead housed hb rfl dead (hdir ▸ hm))
    rw [← hprocess] at hold
    obtain same | ⟨deadline, w, rest, hmain, hp, moved⟩ := generation
    · rw [same] at hold
      exact kept (h.replaced b hb hold) (staffed.replaced hold)
    · by_cases hw : b.process.1 = w
      · subst hw
        have dead := staffed.backoff hp (q := b.process) rfl
        rw [moved, Function.update_self] at hold
        obtain older | newest := Nat.lt_or_eq_of_le (Nat.le_of_lt_succ hold)
        · exact kept (h.replaced b hb older) dead
        · have own := h.own
          simp only [OwnPass, hmain] at own
          refine kept (own b.dir ?_) dead
          rw [Doomed, hmain]
          exact ⟨_, rest, b, hp, hb, rfl, Prod.ext rfl newest⟩
      · rw [moved, Function.update_of_ne hw] at hold
        exact kept (h.replaced b hb hold) (staffed.replaced hold)
  · -- the directory of a new attempt is empty
    have absent : s.workspaces a.dir = .absent := by
      by_contra there
      exact fresh (housed.used a.dir there)
    rw [same, hm] at absent
    cases absent

/-- The pass for an executor is for its workspaces. -/
theorem serves_owner (h : s.Cleared) (staffed : s.Staffed cfg) (housed : s.Housed)
    (counted : s.Counted cfg) {w : String} {rest : List String} {e : ExecutorEntry} {pid : Nat}
    (hm : s.main = .looping) (hp : s.core.point = .backoff w rest)
    (he : entryOf s.executors w = some e) (hpid : s.pids e.process = some pid)
    {doomed : Text → Prop} (hdoomed : ∀ d, doomed d → ∃ a ∈ s.attempts, a.dir = d ∧
      a.process = (w, s.generation w)) :
    Serves s.workspaces doomed (s.listed [] (ownerArguments w pid s.clock)) := by
  intro d m hd hmark
  obtain ⟨a, ha, rfl, hprocess⟩ := hdoomed d hd
  obtain ⟨i, hi⟩ := List.mem_iff_getElem?.mp ha
  have fits := housed.attempts i a hi
  obtain ⟨u, rfl⟩ := fits.fits m hmark
  refine ⟨List.mem_filter.mpr ⟨fits.dir, by simp [hmark, WorkspaceState.hasMarkerFile]⟩, ?_⟩
  rintro args ⟨⟩
  have point := staffed.point
  simp only [Supervised.PointFits, hp] at point
  obtain ⟨g, hg⟩ := point
  have hw := ProcessRuntime.slots_configured staffed.runtime hg
  have entered := (counted.entries w hw).resolve_left (by simp [Starting, hm, hp])
  obtain rfl : e = s.entry w := by simpa [he] using entered
  have owner : a.owner.workerId = w ∧ a.owner.pid = pid := by
    obtain ⟨worker, process⟩ := fits.owner
    rw [hprocess] at worker process
    have same : some a.owner.pid = some pid := process.symm.trans hpid
    exact ⟨worker, by simpa using same⟩
  have age := h.past a.dir _ hmark
  simp only [GcAttempt.marker] at age
  simp [GcArguments.collects, ownerArguments, GcAttempt.marker, owner, age]

theorem serves_sweep (h : s.Cleared) (housed : s.Housed) (doomed : Text → Prop) :
    Serves s.workspaces doomed (s.listed [] (sweepArguments [] s.clock)) := by
  intro d m _ hmark
  refine ⟨List.mem_filter.mpr ⟨housed.used d (by simp [hmark]), ?_⟩, ?_⟩
  · simp [hmark, WorkspaceState.hasMarkerFile]
  · rintro args ⟨⟩
    have age := h.past d m hmark
    simp [GcArguments.collects, sweepArguments, age]

theorem MainStep.ownPass (st : MainStep cfg s t) (h : s.Cleared) (staffed : s.Staffed cfg)
    (housed : s.Housed) (counted : s.Counted cfg) : t.OwnPass := by
  have own := h.own
  cases st with
  | collecting w rest e pid delay hm hp he hpid =>
    refine ⟨_, List.getElem?_concat_length, ?_⟩
    refine serves_owner h staffed housed counted hm hp he hpid fun d hd => ?_
    obtain ⟨v, later, a, hv, ha, hdir, hprocess⟩ := hd
    obtain ⟨rfl, -⟩ : w = v ∧ rest = later := by simpa [hp] using hp.symm.trans hv
    exact ⟨a, ha, hdir, hprocess⟩
  | unidentified w rest e delay hm hp he hpid =>
    have started := staffed.recorded e (mem_of_entryOf he).1
    simp [hpid] at started
  | collected k delay p hm hk done =>
    simp only [OwnPass, hm] at own
    obtain ⟨p', hp', serves⟩ := own
    obtain rfl : p = p' := by simpa [hk] using hp'
    intro d hd m hmark
    have doomed : s.Doomed d := by
      rw [Doomed, hm]
      exact hd
    have ahead := (serves d m doomed hmark).1
    rw [done] at ahead
    exact ahead
  | sweeping hm hp =>
    exact ⟨_, List.getElem?_concat_length, serves_sweep h housed _, trivial⟩
  | swept k p hm hk settled =>
    simp only [OwnPass, hm] at own
    obtain ⟨p', hp', serves, proceeds⟩ := own
    obtain rfl : p = p' := by simpa [hk] using hp'
    intro d _ m hmark
    have doomed : s.Doomed d := by
      rw [Doomed, hm]
      trivial
    have ahead := (serves d m doomed hmark).1
    rcases settled with done | raised
    · rw [done] at ahead
      exact ahead
    · rw [raised] at proceeds
      exact proceeds
  | looped exitCode core hm =>
    simp only [OwnPass, hm]
  | launched | allLaunched | entered | started | failed | collectingFailed | brokenOff
  | respawned => trivial

/-- A step of the others keeps what the main thread waits for. -/
theorem OwnPass.of_doomed (own : s.OwnPass) (main : t.main = s.main)
    (passes : ∀ (k : Nat) p, s.passes[k]? = some p → t.passes[k]? = some p)
    (doomed : ∀ d m, t.Doomed d → t.workspaces d = .marked m →
      s.Doomed d ∧ s.workspaces d = .marked m) : t.OwnPass := by
  have settled : (∀ d, s.Doomed d → s.Unmarked d) → ∀ d, t.Doomed d → t.Unmarked d :=
    fun old d hd m hm => old d (doomed d m hd hm).1 m (doomed d m hd hm).2
  unfold OwnPass at own ⊢
  rw [main]
  split <;> rename_i hm <;> simp only [hm] at own
  · obtain ⟨p, hp, serves⟩ := own
    exact ⟨p, passes _ p hp, serves.mono doomed⟩
  · obtain ⟨p, hp, serves, proceeds⟩ := own
    exact ⟨p, passes _ p hp, serves.mono doomed, proceeds⟩
  · exact settled own
  · exact settled own
  · trivial

theorem PassStep.proceeds (step : PassStep cfg s p call p' workspaces) (h : p.phase.Proceeds)
    (lists : call ≠ .listFails) (removes : ∀ left, call ≠ .rmtreeFails left) :
    p'.phase.Proceeds := by
  cases step with
  | grown size next owners hp | asked size next owners e hp =>
    rw [hp] at h
    exact h.elim
  | unlisted => exact absurd rfl lists
  | failed args d todo left => exact absurd rfl (removes left)
  | _ => trivial

/-- A pass takes a step. -/
theorem OwnPass.pass {j : Nat} (own : s.OwnPass) (hj : s.passes[j]? = some p)
    (step : PassStep cfg s p call p' workspaces) (ok : s.Removes (.pass j call))
    (main : t.main = s.main) (doomed : t.Doomed = s.Doomed) (after : t.workspaces = workspaces)
    (passes : t.passes = s.passes.set j p') : t.OwnPass := by
  have read : ∀ osError, call = .visit osError → osError = false := by
    rintro osError rfl
    exact ok
  have less : ∀ d m, s.Doomed d → workspaces d = .marked m →
      s.Doomed d ∧ s.workspaces d = .marked m := fun d m hd hm => ⟨hd, step.marked hm⟩
  have next : ∀ {k : Nat} {q : RootPass}, s.passes[k]? = some q →
      Serves s.workspaces s.Doomed q → ∃ q', (s.passes.set j p')[k]? = some q' ∧
        Serves workspaces s.Doomed q' ∧ (q' = q ∨ k = j ∧ q = p ∧ q' = p') := by
    intro k q hq serves
    by_cases hk : k = j
    · subst hk
      obtain rfl : q = p := by simpa [hj] using hq.symm
      exact ⟨p', (getElem?_set_iff hj p' k p').mpr (.inl ⟨rfl, rfl⟩), step.serves read serves,
        .inr ⟨rfl, rfl, rfl⟩⟩
    · exact ⟨q, (getElem?_set_iff hj p' k q).mpr (.inr ⟨hk, hq⟩), serves.mono less, .inl rfl⟩
  have settled : (∀ d, s.Doomed d → s.Unmarked d) → ∀ d, s.Doomed d → t.Unmarked d := by
    intro old d hd m hm
    rw [after] at hm
    exact old d hd m (step.marked hm)
  unfold OwnPass at own ⊢
  rw [main, doomed, after, passes]
  split <;> rename_i hmain <;> simp only [hmain] at own
  · obtain ⟨q, hq, serves⟩ := own
    obtain ⟨q', hq', serves', -⟩ := next hq serves
    exact ⟨q', hq', serves'⟩
  · obtain ⟨q, hq, serves, proceeds⟩ := own
    obtain ⟨q', hq', serves', rfl | ⟨rfl, rfl, rfl⟩⟩ := next hq serves
    · exact ⟨q', hq', serves', proceeds⟩
    · refine ⟨q', hq', serves', step.proceeds proceeds ?_ ?_⟩
      · rintro rfl
        exact ok hmain
      · rintro left rfl
        exact ok hmain
  · exact settled own
  · exact settled own
  · trivial

/-- Only the main thread restarts a slot, after its wait. -/
theorem RootStep.generation (st : RootStep cfg s action t) : t.generation = s.generation ∨
    ∃ deadline w rest, s.main = .waiting deadline ∧ s.core.point = .backoff w rest ∧
      t.generation = Function.update s.generation w (s.generation w + 1) := by
  have of_core : ∀ {a core}, s.core.step cfg.toSupervisorConfig a = some core →
      (∀ w rest, s.core.point ≠ .backoff w rest) →
      core.runtime.generation = s.core.runtime.generation := by
    intro a core hst hbackoff
    obtain same | ⟨w, rest, _, hp, -⟩ := Supervised.generation_step hst
    · exact same
    · exact absurd hp (hbackoff w rest)
  cases st with
  | main exitCode pid t hmain =>
    cases hmain with
    | looped exitCode core hm hbackoff _ _ hst => exact .inl (of_core hst hbackoff)
    | started exitCode core w rest e slot hm hp _ _ hst => exact .inl (of_core hst (by simp [hp]))
    | brokenOff exitCode core w rest deadline hm hp hstop hst =>
      exact .inl (generation_of_step hst (running_of_brokenOff hp hstop hst))
    | respawned exitCode core w rest slot deadline pid hm hp hslot hstop _ hst =>
      exact .inr ⟨deadline, w, rest, hm, hp, generation_of_backoff hp hslot hstop hst⟩
    | _ => exact .inl rfl
  | other a core concurrent hst =>
    obtain ⟨-, slots⟩ := of_concurrent concurrent hst
    refine .inl (funext fun w => ?_)
    simp [SupervisedRoot.generation, ProcessRuntime.generation, slots]
  | tick | register | attempt | startPass | pass => exact .inl rfl

theorem RootStep.ownPass (st : RootStep cfg s action t) (ok : s.Removes action) (h : s.Cleared)
    (staffed : s.Staffed cfg) (housed : s.Housed) (counted : s.Counted cfg) : t.OwnPass := by
  have origin : t.main = s.main → t.core.point = s.core.point → t.generation = s.generation →
      ∀ d m, t.Doomed d → t.workspaces d = .marked m →
        s.Doomed d ∧ s.workspaces d = .marked m := fun main point generation _ _ hd hm =>
    st.doomed_origin staffed housed main point generation hd hm
  cases st with
  | main exitCode pid t hmain => exact hmain.ownPass h staffed housed counted
  | other a core concurrent hst =>
    obtain ⟨point, slots⟩ := of_concurrent concurrent hst
    have same : ({ s with core := core } : SupervisedRoot).generation = s.generation := by
      funext w
      simp [SupervisedRoot.generation, ProcessRuntime.generation, slots]
    obtain point | ⟨-, point, ⟨deadline, hm⟩ | hm⟩ := point
    · exact h.own.of_doomed rfl (fun _ _ => id) (origin rfl point same)
    · simp [OwnPass, Doomed, hm, point]
    · simp [OwnPass, hm]
  | tick | register | attempt =>
    exact h.own.of_doomed rfl (fun _ _ => id) (origin rfl rfl rfl)
  | startPass =>
    refine h.own.of_doomed rfl (fun k p hp => ?_) (origin rfl rfl rfl)
    obtain ⟨hlt, -⟩ := List.getElem?_eq_some_iff.mp hp
    exact (getElem?_concat_iff _ _ k p).mpr (.inr ⟨hlt.ne, hp⟩)
  | pass k call p p' workspaces hp step => exact h.own.pass hp step ok rfl rfl rfl rfl

theorem Cleared.init (h : s.Initial cfg) : s.Cleared := by
  refine ⟨by simp [h.attempts], h.past, ?_⟩
  rw [OwnPass, h.main]
  trivial

theorem cleared (h : (supervisedRoot cfg).Guarded Removes s) : s.Cleared := by
  refine h.invariant (fun _ => .init) fun s a t hs inv ok hst => ?_
  have before := rootInv hs.reachable
  have after := rootInv (hs.reachable.step a trivial hst)
  have st := step_inv hst
  exact ⟨st.replaced inv before.staffed before.housed st.generation,
    st.past inv after.housed (st.staffed before.staffed).2,
    st.ownPass ok inv before.staffed before.housed (counted hs.reachable)⟩

/-- In a run in which markers can be read and the last pass lists and removes them, a
replaced executor leaves no workspace with a complete marker behind, and at the end no
executor does, nor does the run before. -/
theorem dead_executors_leave_no_workspace (h : (supervisedRoot cfg).Guarded Removes s) :
    (∀ a ∈ s.attempts, a.process.2 < s.generation a.process.1 →
      ∀ m, s.workspaces a.dir ≠ .marked m) ∧
      (s.main = .ended → ∀ d m, s.workspaces d ≠ .marked m) := by
  have inv := cleared h
  refine ⟨inv.replaced, fun ended d m hm => ?_⟩
  have own := inv.own
  simp only [OwnPass, ended] at own
  refine own d ?_ m hm
  rw [Doomed, ended]
  trivial

/-! ## An executor that crashes in an attempt -/

/-- The main thread collects its workspace and starts another executor. -/
def crashSchedule : List RootAction :=
  [.main none 7, .main none 7, .main none 7, .register ("w", 1) "t1" "e1" runningDir,
    .attempt 0 .mkdir, .attempt 0 .stamp, .attempt 0 .openMarker, .attempt 0 .writeMarker,
    .other (.executor ("w", 1) .crash), .main none 7, .main none 7, .main none 7, .main none 7,
    .main none 7, .pass 0 (.list leftDir), .pass 0 (.list runningDir), .pass 0 .sort,
    .pass 0 (.visit false), .pass 0 (.visit false), .pass 0 .rmtree, .pass 0 (.visit false),
    .main none 7, .tick 2000000, .main none 8, .main none 8, .main none 8, .main none 8]

/-- Then it is told to stop, and the broker and the executor exit. -/
def shutdownSchedule : List RootAction :=
  [.main none 8, .other .signalSupervisor, .main none 8, .main none 8, .main none 8, .main none 8,
    .main none 8, .other .brokerExit, .other (.executor ("w", 2) .crash), .main none 8,
    .main none 8, .pass 1 (.list leftDir), .pass 1 .sort, .pass 1 (.visit false),
    .pass 1 .rmtree, .pass 1 (.visit false), .main none 8]

def crashedRoot : SupervisedRoot := (supervisedRoot oneExecutor).follow leftRoot crashSchedule

def endedRoot : SupervisedRoot := (supervisedRoot oneExecutor).follow crashedRoot shutdownSchedule

theorem crashedRoot_removes : (supervisedRoot oneExecutor).Guarded Removes crashedRoot :=
  .follow (.init leftRoot_initial) _ (by simp [crashSchedule, Removes])

theorem dead_executors_leave_no_workspace_crash :
    (∃ a ∈ crashedRoot.attempts, a.process.2 < crashedRoot.generation a.process.1 ∧
      ∀ m, crashedRoot.workspaces a.dir ≠ .marked m) ∧
      ∀ d m, endedRoot.workspaces d ≠ .marked m := by
  have run : (supervisedRoot oneExecutor).Guarded Removes endedRoot :=
    crashedRoot_removes.follow _ (by simp [shutdownSchedule, Removes])
  obtain ⟨replaced, -⟩ := dead_executors_leave_no_workspace crashedRoot_removes
  obtain ⟨-, ended⟩ := dead_executors_leave_no_workspace run
  obtain ⟨a, ha, old⟩ : ∃ a ∈ crashedRoot.attempts,
      a.process.2 < crashedRoot.generation a.process.1 := by
    decide +kernel
  exact ⟨⟨a, ha, old, replaced a ha old⟩, ended (by decide +kernel)⟩

end SupervisedRoot

end Perago.ConductorRuntime
