import Perago.Transition.Machine
import Mathlib.Algebra.Group.Int.Defs
import Mathlib.Algebra.Group.Nat.Defs
import Mathlib.Data.List.Basic

/-!
# The lock of a workspace root

Any number of supervisors acquire and release the lock file of one workspace root. Each
of their system calls is one step; a supervisor may end at any moment. A stale lock is
taken over in five calls, of which only the last removes the file. Two contenders inside
that window can both get the lock; when no takeover removes the file of a live
supervisor, there is one holder.
-/

namespace Perago

open Transition

/-! ## The lock file -/

/-- What `_read_supervisor_workspace_lock` makes of the bytes: an error, unless they are
a JSON object, whose `supervisor_pid` may be missing or no `int`. -/
inductive LockContent where
  | invalid
  | object (supervisorPid : Option Int)
  deriving DecidableEq

structure LockFile where
  inode : Nat
  content : LockContent
  deriving DecidableEq

/-- The file at the lock path, and all files that have ever been there. -/
structure LockDirectory where
  entry : Option Nat
  files : List LockFile

namespace LockDirectory

def current (d : LockDirectory) : Option (Nat × LockFile) :=
  d.entry.bind fun f => d.files[f]?.map (f, ·)

/-- The new file is empty; its inode number may have been in use before. -/
def create (d : LockDirectory) (inode : Nat) : LockDirectory where
  entry := some d.files.length
  files := d.files ++ [⟨inode, .invalid⟩]

/-- A file is written through its descriptor, at the lock path or not. -/
def write (d : LockDirectory) (f pid : Nat) : LockDirectory :=
  { d with files := d.files.modify f fun file => { file with content := .object (some pid) } }

def unlink (d : LockDirectory) : LockDirectory := { d with entry := none }

end LockDirectory

/-! ## Supervisors -/

/-- The next call of a supervisor. It does not know the number of the file it created or
read: the code has the inode number of the first `stat`, and no more. -/
inductive LockPhase where
  | creating
  | writing (f : Nat)
  | statting
  | reading (inode : Nat)
  | probing (inode f : Nat) (owner : Int)
  | comparing (inode f : Nat)
  | unlinking (f : Nat)
  | raised
  | holding (f : Nat)
  | releasing (f : Nat)
  | removing (f : Nat)
  | released
  deriving DecidableEq

inductive LockCall where
  | create (inode : Nat)
  | write
  | stat
  | read
  | kill
  | unlink
  | release
  | osError
  deriving DecidableEq

/-- `_pid_is_alive`; `os.kill` takes no number from `2 ^ 31` on. -/
def pidIsAlive (inUse : Int → Bool) (pid : Int) : Option Bool :=
  if pid ≤ 0 then some false
  else if pid < 2 ^ 31 then some (inUse pid)
  else none

/-- One call of `acquire_supervisor_workspace_lock` or `SupervisorWorkspaceLock.release`. -/
def LockPhase.step (d : LockDirectory) (pid : Nat) (inUse : Int → Bool) :
    LockPhase → LockCall → Option (LockDirectory × LockPhase)
  | .creating, .create inode => match d.entry with
    | none => some (d.create inode, .writing d.files.length)
    | some _ => some (d, .statting)
  | .writing f, .write => some (d.write f pid, .holding f)
  | .statting, .stat => match d.current with
    | none => some (d, .creating)
    | some (_, file) => some (d, .reading file.inode)
  | .reading inode, .read => match d.current with
    | none => some (d, .creating)
    | some (f, file) => match file.content with
      | .object (some owner) => some (d, .probing inode f owner)
      | .object none | .invalid => some (d, .raised)
  | .probing inode f owner, .kill => match pidIsAlive inUse owner with
    | some false => some (d, .comparing inode f)
    | some true | none => some (d, .raised)
  | .comparing inode f, .stat => match d.current with
    | none => some (d, .creating)
    | some (_, file) =>
      if file.inode = inode then some (d, .unlinking f) else some (d, .creating)
  -- the lock file may be gone by now; `FileNotFoundError` is passed over
  | .unlinking _, .unlink => some (d.unlink, .creating)
  | .holding f, .release => some (d, .releasing f)
  | .releasing f, .read => match d.current with
    | none => some (d, .released)
    | some (_, file) =>
      if file.content = .object (some pid) then some (d, .removing f) else some (d, .released)
  | .removing _, .unlink => some (d.unlink, .released)
  | .creating, .osError | .writing _, .osError | .statting, .osError | .reading _, .osError
  | .comparing _ _, .osError | .unlinking _, .osError => some (d, .raised)
  | .releasing _, .osError | .removing _, .osError => some (d, .released)
  | _, _ => none

/-- The lock file that the supervisor created and has not released. -/
def LockPhase.owned : LockPhase → Option Nat
  | .writing f | .holding f | .releasing f | .removing f => some f
  | _ => none

/-- The file that the supervisor read and found stale. -/
def LockPhase.stale : LockPhase → Option Nat
  | .comparing _ f | .unlinking f => some f
  | _ => none

structure Supervisor where
  pid : Nat
  alive : Bool
  phase : LockPhase
  deriving DecidableEq

/-! ## Runs -/

structure LockState where
  directory : LockDirectory
  supervisors : List Supervisor

inductive LockAction where
  | start (pid : Nat)
  | exit (i : Nat)
  | call (i : Nat) (c : LockCall) (foreign : Bool)

namespace LockState

/-- A live supervisor has the pid, or a process that is no supervisor has it. -/
def pidInUse (s : LockState) (foreign : Bool) (pid : Int) : Bool :=
  foreign || s.supervisors.any fun p => p.alive && (p.pid : Int) == pid

/-- A pid is in use once; it is free again when its process has ended. -/
def step (s : LockState) : LockAction → Option LockState
  | .start pid =>
    if 0 < pid ∧ pid < 2 ^ 31 ∧ ∀ p ∈ s.supervisors, p.alive = true → p.pid ≠ pid then
      some { s with supervisors := s.supervisors ++ [⟨pid, true, .creating⟩] }
    else none
  | .exit i => match s.supervisors[i]? with
    | some ⟨pid, true, phase⟩ =>
      some { s with supervisors := s.supervisors.set i ⟨pid, false, phase⟩ }
    | _ => none
  | .call i c foreign => match s.supervisors[i]? with
    | some ⟨pid, true, phase⟩ =>
      (phase.step s.directory pid (s.pidInUse foreign) c).map fun r =>
        ⟨r.1, s.supervisors.set i ⟨pid, true, r.2⟩⟩
    | _ => none

/-- The lock file is absent, stale, or held by a live supervisor. -/
inductive Initial : LockState → Prop where
  | absent : Initial ⟨⟨none, []⟩, []⟩
  | stale (file : LockFile) : Initial ⟨⟨some 0, [file]⟩, []⟩
  | held (inode pid : Nat) : 0 < pid → pid < 2 ^ 31 →
      Initial ⟨⟨some 0, [⟨inode, .object (some pid)⟩]⟩, [⟨pid, true, .holding 0⟩]⟩

/-- The supervisor is alive, has returned from acquire and not called release. -/
def Holds (s : LockState) (i : Nat) : Prop :=
  ∃ pid f, s.supervisors[i]? = some ⟨pid, true, .holding f⟩

/-- No two supervisors hold the lock. -/
def Exclusive (s : LockState) : Prop := ∀ i j, s.Holds i → s.Holds j → i = j

/-- A takeover removes no lock file that a live supervisor has created and not released. -/
def StaleTakeover (s : LockState) : LockAction → Prop
  | .call i .unlink _ => (s.supervisors[i]?.bind (·.phase.stale)).isSome →
    ∀ p ∈ s.supervisors, p.alive = true → ∀ f ∈ p.phase.owned, s.directory.entry ≠ some f
  | _ => True

instance (s : LockState) : DecidablePred s.StaleTakeover := fun a => by
  unfold StaleTakeover
  split <;> infer_instance

end LockState

def lockMachine : Machine LockState LockAction where
  init := LockState.Initial
  step := LockState.step

/-! ## What a step does -/

variable {s t : LockState} {d d' : LockDirectory} {phase phase' : LockPhase} {pid : Nat}
variable {inUse : Int → Bool} {c : LockCall} {a : LockAction}

/-- The pid that the supervisor read, and the file it read it from. -/
def LockPhase.probed : LockPhase → Option (Nat × Int)
  | .probing _ f owner => some (f, owner)
  | _ => none

inductive LockEffect (d : LockDirectory) (pid : Nat) (inUse : Int → Bool) :
    LockPhase → LockCall → LockDirectory → LockPhase → Prop where
  | created (inode : Nat) : d.entry = none →
      LockEffect d pid inUse .creating (.create inode) (d.create inode) (.writing d.files.length)
  | wrote (f : Nat) : LockEffect d pid inUse (.writing f) .write (d.write f pid) (.holding f)
  | read (inode f : Nat) (file : LockFile) (owner : Int) : d.current = some (f, file) →
      file.content = .object (some owner) →
      LockEffect d pid inUse (.reading inode) .read d (.probing inode f owner)
  | dead (inode f : Nat) (owner : Int) : pidIsAlive inUse owner = some false →
      LockEffect d pid inUse (.probing inode f owner) .kill d (.comparing inode f)
  | same (inode f : Nat) : LockEffect d pid inUse (.comparing inode f) .stat d (.unlinking f)
  | takenOver (f : Nat) : LockEffect d pid inUse (.unlinking f) .unlink d.unlink .creating
  | release (f : Nat) : LockEffect d pid inUse (.holding f) .release d (.releasing f)
  | checked (f : Nat) : LockEffect d pid inUse (.releasing f) .read d (.removing f)
  | removed (f : Nat) : LockEffect d pid inUse (.removing f) .unlink d.unlink .released
  | idle (phase : LockPhase) (c : LockCall) (phase' : LockPhase) : phase'.owned = none →
      phase'.probed = none → phase'.stale = none → LockEffect d pid inUse phase c d phase'

theorem lockEffect_of_step (h : phase.step d pid inUse c = some (d', phase')) :
    LockEffect d pid inUse phase c d' phase' := by
  unfold LockPhase.step at h
  split at h
  · split at h <;> cases h
    · exact .created _ (by assumption)
    · exact .idle _ _ _ rfl rfl rfl
  · cases h
    exact .wrote _
  · split at h <;> cases h <;> exact .idle _ _ _ rfl rfl rfl
  · split at h
    · cases h
      exact .idle _ _ _ rfl rfl rfl
    · split at h <;> cases h
      · exact .read _ _ _ _ (by assumption) (by assumption)
      · exact .idle _ _ _ rfl rfl rfl
      · exact .idle _ _ _ rfl rfl rfl
  · split at h <;> cases h
    · exact .dead _ _ _ (by assumption)
    · exact .idle _ _ _ rfl rfl rfl
    · exact .idle _ _ _ rfl rfl rfl
  · split at h
    · cases h
      exact .idle _ _ _ rfl rfl rfl
    · split at h <;> cases h
      · exact .same _ _
      · exact .idle _ _ _ rfl rfl rfl
  · cases h
    exact .takenOver _
  · cases h
    exact .release _
  · split at h
    · cases h
      exact .idle _ _ _ rfl rfl rfl
    · split at h <;> cases h
      · exact .checked _
      · exact .idle _ _ _ rfl rfl rfl
  · cases h
    exact .removed _
  all_goals cases h
  all_goals exact .idle _ _ _ rfl rfl rfl

/-- The action starts, ends or moves supervisor `i`, which then is `p`. -/
inductive LockStep (s : LockState) :
    LockAction → Nat → Supervisor → LockDirectory → Prop where
  | start (pid : Nat) : 0 < pid →
      LockStep s (.start pid) s.supervisors.length ⟨pid, true, .creating⟩ s.directory
  | exit (i pid : Nat) (phase : LockPhase) : s.supervisors[i]? = some ⟨pid, true, phase⟩ →
      LockStep s (.exit i) i ⟨pid, false, phase⟩ s.directory
  | call (i : Nat) (c : LockCall) (foreign : Bool) (pid : Nat) (phase phase' : LockPhase)
      (d : LockDirectory) : s.supervisors[i]? = some ⟨pid, true, phase⟩ →
      LockEffect s.directory pid (s.pidInUse foreign) phase c d phase' →
      LockStep s (.call i c foreign) i ⟨pid, true, phase'⟩ d

theorem lockStep_of_step (h : s.step a = some t) : ∃ i p d, LockStep s a i p d ∧
    t.directory = d ∧ ∀ (j : Nat) q, t.supervisors[j]? = some q ↔
      j = i ∧ q = p ∨ j ≠ i ∧ s.supervisors[j]? = some q := by
  cases a with
  | start pid =>
    simp only [LockState.step] at h
    split at h <;> cases h
    rename_i fresh
    exact ⟨_, _, _, .start pid fresh.1, rfl, getElem?_concat_iff _ _⟩
  | exit i =>
    simp only [LockState.step] at h
    split at h <;> cases h
    rename_i pid phase hi
    exact ⟨i, _, _, .exit i pid phase hi, rfl, getElem?_set_iff hi _⟩
  | call i c foreign =>
    simp only [LockState.step] at h
    split at h
    · rename_i pid phase hi
      obtain ⟨⟨d, phase'⟩, hstep, rfl⟩ := Option.map_eq_some_iff.mp h
      exact ⟨i, _, d, .call i c foreign pid phase phase' d hi (lockEffect_of_step hstep), rfl,
        getElem?_set_iff hi _⟩
    · cases h

/-! ## Invariants -/

/-- What a supervisor knows of the files it created, read, or found stale. -/
structure Supervisor.Sound (d : LockDirectory) (p : Supervisor) : Prop where
  pid : 0 < p.pid
  owned : ∀ f ∈ p.phase.owned, ∃ file, d.files[f]? = some file ∧
    (p.phase = .writing f ∧ file.content = .invalid ∨
      p.phase ≠ .writing f ∧ file.content = .object (some p.pid))
  probed : ∀ r ∈ p.phase.probed, ∃ file, d.files[r.1]? = some file ∧
    file.content = .object (some r.2)
  stale : ∀ f ∈ p.phase.stale, f < d.files.length

/-- A file has one creator, and is found stale only when that has ended. -/
structure Apart (p q : Supervisor) : Prop where
  owned : ∀ f ∈ p.phase.owned, f ∉ q.phase.owned
  stale : q.alive = true → ∀ f ∈ p.phase.stale, f ∉ q.phase.owned

structure LockState.Inv (s : LockState) : Prop where
  entry : ∀ f ∈ s.directory.entry, f < s.directory.files.length
  sound : ∀ (i : Nat) p, s.supervisors[i]? = some p → p.Sound s.directory
  apart : ∀ (i j : Nat) p q, s.supervisors[i]? = some p → s.supervisors[j]? = some q → i ≠ j →
    Apart p q

/-- The files that are not being written stay as they are. -/
theorem LockEffect.files (h : LockEffect d pid inUse phase c d' phase') {f : Nat} {file : LockFile}
    (hf : d.files[f]? = some file) (other : phase ≠ .writing f) : d'.files[f]? = some file := by
  cases h with
  | created inode =>
    obtain ⟨hlt, -⟩ := List.getElem?_eq_some_iff.mp hf
    simpa [LockDirectory.create, List.getElem?_append_left hlt] using hf
  | wrote g =>
    have hne : g ≠ f := fun h => other (h ▸ rfl)
    simpa [LockDirectory.write, List.getElem?_modify, hne] using hf
  | takenOver | removed => exact hf
  | read | dead | same | release | checked | idle => exact hf

theorem LockEffect.length (h : LockEffect d pid inUse phase c d' phase') :
    d.files.length ≤ d'.files.length := by
  cases h <;> simp [LockDirectory.create, LockDirectory.write, LockDirectory.unlink]

/-- What another supervisor knows stays true. -/
theorem Supervisor.Sound.other {p : Supervisor} (h : p.Sound d)
    (he : LockEffect d pid inUse phase c d' phase') (hp : (Supervisor.mk pid true phase).Sound d)
    (apart : Apart ⟨pid, true, phase⟩ p) : p.Sound d' := by
  refine ⟨h.pid, fun f hf => ?_, fun r hr => ?_,
    fun f hf => Nat.lt_of_lt_of_le (h.stale f hf) he.length⟩
  · obtain ⟨file, hfile, content⟩ := h.owned f hf
    refine ⟨file, he.files hfile ?_, content⟩
    rintro rfl
    exact apart.owned f rfl hf
  · obtain ⟨file, hfile, content⟩ := h.probed r hr
    refine ⟨file, he.files hfile ?_, content⟩
    rintro rfl
    obtain ⟨file', hfile', ⟨-, empty⟩ | ⟨other, -⟩⟩ := hp.owned r.1 rfl
    · obtain rfl : file = file' := Option.some.inj (hfile.symm.trans hfile')
      cases content.symm.trans empty
    · exact other rfl

/-- What the supervisor itself knows after its call. -/
theorem Supervisor.Sound.self (h : (Supervisor.mk pid true phase).Sound d)
    (he : LockEffect d pid inUse phase c d' phase') : (Supervisor.mk pid true phase').Sound d' := by
  cases he with
  | created inode hentry =>
    refine ⟨h.pid, fun f hf => ?_, nofun, nofun⟩
    obtain rfl : d.files.length = f := by simpa [LockPhase.owned] using hf
    exact ⟨⟨inode, .invalid⟩, by simp [LockDirectory.create], .inl ⟨rfl, rfl⟩⟩
  | wrote f =>
    refine ⟨h.pid, fun g hg => ?_, nofun, nofun⟩
    obtain rfl : f = g := by simpa [LockPhase.owned] using hg
    obtain ⟨file, hfile, -⟩ := h.owned f rfl
    exact ⟨{ file with content := .object (some pid) }, by simp [LockDirectory.write, hfile],
      .inr ⟨nofun, rfl⟩⟩
  | read inode f file owner hcurrent hcontent =>
    refine ⟨h.pid, nofun, fun r hr => ?_, nofun⟩
    obtain rfl : (f, owner) = r := by simpa [LockPhase.probed] using hr
    simp only [LockDirectory.current, Option.bind_eq_some_iff, Option.map_eq_some_iff] at hcurrent
    obtain ⟨g, -, file', hfile, heq⟩ := hcurrent
    obtain ⟨rfl, rfl⟩ := Prod.mk.inj heq
    exact ⟨file', hfile, hcontent⟩
  | dead inode f owner hdead =>
    refine ⟨h.pid, nofun, nofun, fun g hg => ?_⟩
    obtain rfl : f = g := by simpa [LockPhase.stale] using hg
    obtain ⟨file, hfile, -⟩ := h.probed (f, owner) rfl
    exact (List.getElem?_eq_some_iff.mp hfile).1
  | same inode f => exact ⟨h.pid, nofun, nofun, h.stale⟩
  | release f | checked f =>
    refine ⟨h.pid, fun g hg => ?_, nofun, nofun⟩
    obtain rfl : f = g := by simpa [LockPhase.owned] using hg
    obtain ⟨file, hfile, ⟨writing, -⟩ | ⟨-, content⟩⟩ := h.owned f rfl
    · cases writing
    · exact ⟨file, hfile, .inr ⟨nofun, content⟩⟩
  | takenOver | removed => exact ⟨h.pid, nofun, nofun, nofun⟩
  | idle _ _ _ owned probed stale =>
    exact ⟨h.pid, by simp [owned], by simp [probed], by simp [stale]⟩

theorem Supervisor.Sound.length {p : Supervisor} (h : p.Sound d) {f : Nat}
    (hf : f ∈ p.phase.owned) : f < d.files.length := by
  obtain ⟨file, hfile, -⟩ := h.owned f hf
  exact (List.getElem?_eq_some_iff.mp hfile).1

/-- A live process with a positive pid is seen to be alive. -/
theorem pidIsAlive_of_used {n : Int} (pos : 0 < n) (used : inUse n = true) :
    pidIsAlive inUse n ≠ some false := by
  unfold pidIsAlive
  split
  · omega
  · split <;> simp [used]

/-- A supervisor whose pid was found dead owns no file that carries it. -/
theorem Apart.dead {q : Supervisor} {inode f : Nat} {owner : Int}
    (hp : (Supervisor.mk pid true (.probing inode f owner)).Sound d) (hq : q.Sound d)
    (used : inUse q.pid = true) (dead : pidIsAlive inUse owner = some false) :
    f ∉ q.phase.owned := by
  intro hf
  obtain ⟨file, hfile, content⟩ := hp.probed (f, owner) rfl
  obtain ⟨file', hfile', ⟨-, empty⟩ | ⟨-, pid'⟩⟩ := hq.owned f hf
  · obtain rfl : file = file' := Option.some.inj (hfile.symm.trans hfile')
    cases content.symm.trans empty
  · obtain rfl : file = file' := Option.some.inj (hfile.symm.trans hfile')
    obtain rfl : owner = q.pid := by simpa using content.symm.trans pid'
    exact pidIsAlive_of_used (by exact_mod_cast hq.pid) used dead

theorem Apart.moved {q : Supervisor} (h : Apart ⟨pid, true, phase⟩ q)
    (he : LockEffect d pid inUse phase c d' phase') (hp : (Supervisor.mk pid true phase).Sound d)
    (hq : q.Sound d) (used : q.alive = true → inUse q.pid = true) :
    Apart ⟨pid, true, phase'⟩ q := by
  cases he with
  | created inode hentry =>
    refine ⟨fun f hf hf' => ?_, fun _ => nofun⟩
    obtain rfl : d.files.length = f := by simpa [LockPhase.owned] using hf
    exact Nat.lt_irrefl _ (hq.length hf')
  | wrote f | release f | checked f => exact ⟨h.owned, fun _ => nofun⟩
  | dead inode f owner hdead =>
    refine ⟨nofun, fun alive g hg => ?_⟩
    obtain rfl : f = g := by simpa [LockPhase.stale] using hg
    exact Apart.dead hp hq (used alive) hdead
  | same inode f => exact ⟨nofun, h.stale⟩
  | read | takenOver | removed => exact ⟨nofun, fun _ => nofun⟩
  | idle _ _ _ owned probed stale => exact ⟨by simp [owned], by simp [stale]⟩

theorem Apart.beside {q : Supervisor} (h : Apart q ⟨pid, true, phase⟩)
    (he : LockEffect d pid inUse phase c d' phase') (hq : q.Sound d) :
    Apart q ⟨pid, true, phase'⟩ := by
  cases he with
  | created inode hentry =>
    have fresh : ∀ f < d.files.length, f ∉ (LockPhase.writing d.files.length).owned := by
      intro f hlt hf
      obtain rfl : d.files.length = f := by simpa [LockPhase.owned] using hf
      exact Nat.lt_irrefl _ hlt
    exact ⟨fun f hf => fresh f (hq.length hf), fun _ f hf => fresh f (hq.stale f hf)⟩
  | wrote f | release f | checked f => exact ⟨h.owned, fun _ => h.stale rfl⟩
  | dead | same | read | takenOver | removed => exact ⟨fun _ _ => nofun, fun _ _ _ => nofun⟩
  | idle _ _ _ owned probed stale => exact ⟨by simp [owned], by simp [owned]⟩

/-- The entry of the directory is one of its files. -/
theorem LockEffect.entry (he : LockEffect d pid inUse phase c d' phase')
    (h : ∀ f ∈ d.entry, f < d.files.length) : ∀ f ∈ d'.entry, f < d'.files.length := by
  intro f hf
  cases he with
  | created inode => simp_all [LockDirectory.create]
  | takenOver | removed => cases hf
  | wrote | read | dead | same | release | checked | idle =>
    exact Nat.lt_of_lt_of_le (h f hf) (by simp [LockDirectory.write])

/-- One supervisor is new or has changed, and the others have not. -/
theorem LockState.Inv.change (h : s.Inv) {i : Nat} {p : Supervisor}
    (lookup : ∀ (j : Nat) q, t.supervisors[j]? = some q ↔
      j = i ∧ q = p ∨ j ≠ i ∧ s.supervisors[j]? = some q)
    (entry : ∀ f ∈ t.directory.entry, f < t.directory.files.length) (self : p.Sound t.directory)
    (others : ∀ (j : Nat) q, j ≠ i → s.supervisors[j]? = some q →
      q.Sound t.directory ∧ Apart p q ∧ Apart q p) : t.Inv := by
  refine ⟨entry, fun j q hq => ?_, fun j k q r hq hr hne => ?_⟩
  · obtain ⟨rfl, rfl⟩ | ⟨hj, hq⟩ := (lookup j q).mp hq
    · exact self
    · exact (others j q hj hq).1
  · obtain ⟨rfl, rfl⟩ | ⟨hj, hq⟩ := (lookup j q).mp hq
    · obtain ⟨rfl, rfl⟩ | ⟨hk, hr⟩ := (lookup k r).mp hr
      · exact absurd rfl hne
      · exact (others k r hk hr).2.1
    · obtain ⟨rfl, rfl⟩ | ⟨hk, hr⟩ := (lookup k r).mp hr
      · exact (others j q hj hq).2.2
      · exact h.apart j k q r hq hr hne

theorem LockState.pidInUse_of_alive {i : Nat} {p : Supervisor} (hi : s.supervisors[i]? = some p)
    (alive : p.alive = true) (foreign : Bool) : s.pidInUse foreign p.pid = true := by
  have mem : p ∈ s.supervisors := List.mem_of_getElem? hi
  simp only [LockState.pidInUse, Bool.or_eq_true, List.any_eq_true]
  exact .inr ⟨p, mem, by simp [alive]⟩

theorem LockState.Inv.step (h : s.Inv) (hst : s.step a = some t) : t.Inv := by
  obtain ⟨i, p, d, hstep, hd, lookup⟩ := lockStep_of_step hst
  cases hstep with
  | start pid pos =>
    refine h.change lookup (hd ▸ h.entry) ⟨pos, nofun, nofun, nofun⟩ fun j q _ hq => ?_
    exact ⟨hd ▸ h.sound j q hq, ⟨nofun, fun _ => nofun⟩, ⟨fun _ _ => nofun, fun _ _ _ => nofun⟩⟩
  | exit i pid phase hi =>
    have self := h.sound i _ hi
    refine h.change lookup (hd ▸ h.entry) (hd ▸ ⟨self.pid, self.owned, self.probed, self.stale⟩)
      fun j q hj hq => ?_
    have left := h.apart i j _ q hi hq hj.symm
    have right := h.apart j i q _ hq hi hj
    exact ⟨hd ▸ h.sound j q hq, ⟨left.owned, left.stale⟩, ⟨right.owned, nofun⟩⟩
  | call i c foreign pid phase phase' d hi he =>
    have self := h.sound i _ hi
    refine h.change lookup (hd ▸ he.entry h.entry) (hd ▸ self.self he) fun j q hj hq => ?_
    have left := h.apart i j _ q hi hq hj.symm
    have right := h.apart j i q _ hq hi hj
    have other := h.sound j q hq
    exact ⟨hd ▸ other.other he self left,
      left.moved he self other (fun alive => LockState.pidInUse_of_alive hq alive foreign),
      right.beside he other⟩

theorem LockState.Inv.init (h : LockState.Initial s) : s.Inv := by
  cases h with
  | absent => exact ⟨nofun, by simp, by simp⟩
  | stale file => exact ⟨by simp, by simp, by simp⟩
  | held inode pid pos =>
    refine ⟨by simp, fun i p hp => ?_, fun i j p q hp hq hne => ?_⟩
    · obtain rfl : p = ⟨pid, true, .holding 0⟩ := by
        simpa using (List.mem_of_getElem? hp)
      refine ⟨pos, fun f hf => ?_, nofun, nofun⟩
      obtain rfl : 0 = f := by simpa [LockPhase.owned] using hf
      exact ⟨_, rfl, .inr ⟨nofun, rfl⟩⟩
    · obtain ⟨hi, -⟩ := List.getElem?_eq_some_iff.mp hp
      obtain ⟨hj, -⟩ := List.getElem?_eq_some_iff.mp hq
      simp only [List.length_cons, List.length_nil] at hi hj
      omega

theorem lockMachine_inv (h : lockMachine.Reachable s) : s.Inv :=
  h.invariant (fun _ => .init) fun _ _ _ _ inv _ hst => inv.step hst

/-! ## One holder -/

/-- The file of a live supervisor is at the lock path. -/
def LockState.InPlace (s : LockState) : Prop :=
  ∀ (i : Nat) p, s.supervisors[i]? = some p → p.alive = true →
    ∀ f ∈ p.phase.owned, s.directory.entry = some f

/-- The supervisor that makes a call keeps its own file in place. -/
theorem LockEffect.self_inPlace (he : LockEffect d pid inUse phase c d' phase')
    (h : ∀ f ∈ phase.owned, d.entry = some f) : ∀ f ∈ phase'.owned, d'.entry = some f := by
  intro f hf
  cases he with
  | created inode => exact hf
  | wrote g | release g | checked g => exact h f hf
  | read | dead | same | takenOver | removed => cases hf
  | idle _ _ _ owned => simp [owned] at hf

/-- A call leaves the lock file of another live supervisor, unless it is a takeover. -/
theorem LockEffect.other_inPlace (he : LockEffect d pid inUse phase c d' phase') {f : Nat}
    (h : d.entry = some f) (self : ∀ g ∈ phase.owned, d.entry = some g)
    (apart : f ∉ phase.owned) (takeover : c = .unlink → phase.stale = none) :
    d'.entry = some f := by
  cases he with
  | created inode hentry => rw [hentry] at h; cases h
  | takenOver g => cases takeover rfl
  | removed g =>
    obtain rfl : f = g := Option.some.inj (h.symm.trans (self g rfl))
    exact absurd rfl apart
  | wrote | read | dead | same | release | checked | idle => exact h

theorem LockState.InPlace.step (h : s.InPlace) (inv : s.Inv) (ok : s.StaleTakeover a)
    (hst : s.step a = some t) : t.InPlace := by
  obtain ⟨i, p, d, hstep, hd, lookup⟩ := lockStep_of_step hst
  intro j q hq alive f hf
  rw [hd]
  cases hstep with
  | start pid =>
    obtain ⟨-, rfl⟩ | ⟨-, hq⟩ := (lookup j q).mp hq
    · cases hf
    · exact h j q hq alive f hf
  | exit i pid phase hi =>
    obtain ⟨-, rfl⟩ | ⟨-, hq⟩ := (lookup j q).mp hq
    · cases alive
    · exact h j q hq alive f hf
  | call i c foreign pid phase phase' d hi he =>
    have self := h i _ hi rfl
    obtain ⟨rfl, rfl⟩ | ⟨hj, hq⟩ := (lookup j q).mp hq
    · exact he.self_inPlace self f hf
    · have entry := h j q hq alive f hf
      refine he.other_inPlace entry self ((inv.apart j i q _ hq hi hj).owned f hf) ?_
      rintro rfl
      -- the guard rules out the takeover of a file in place
      have none := fun isSome => ok isSome q (List.mem_of_getElem? hq) alive f hf entry
      simpa [hi] using none

theorem LockState.InPlace.init (h : LockState.Initial s) : s.InPlace := by
  intro i p hp alive f hf
  cases h with
  | absent | stale => cases hp
  | held inode pid pos =>
    obtain rfl : p = ⟨pid, true, .holding 0⟩ := by simpa using (List.mem_of_getElem? hp)
    exact hf

theorem lockMachine_inPlace (h : lockMachine.Guarded LockState.StaleTakeover s) : s.InPlace :=
  h.invariant (fun _ => .init) fun _ _ _ hs ih ok hst =>
    ih.step (lockMachine_inv hs.reachable) ok hst

/-- While no takeover removes the lock file of a live supervisor, one supervisor at most
holds the lock. -/
theorem lock_exclusive (h : lockMachine.Guarded LockState.StaleTakeover s) : s.Exclusive := by
  rintro i j ⟨pid, f, hp⟩ ⟨pid', g, hq⟩
  have place := lockMachine_inPlace h
  have first : s.directory.entry = some f := place i _ hp rfl f rfl
  have second : s.directory.entry = some g := place j _ hq rfl g rfl
  obtain rfl : f = g := Option.some.inj (first.symm.trans second)
  by_contra hne
  exact ((lockMachine_inv h.reachable).apart i j _ _ hp hq hne).owned f rfl rfl

/-- A takeover that removes the very file it has read removes no file of a live supervisor. -/
theorem staleTakeover_of_read (h : lockMachine.Reachable s) {i f : Nat} {p : Supervisor}
    (hi : s.supervisors[i]? = some p) (hf : p.phase.stale = some f)
    (same : s.directory.entry = some f) (foreign : Bool) :
    s.StaleTakeover (.call i .unlink foreign) := by
  intro _ q hq alive g hg entry
  obtain rfl : f = g := Option.some.inj (same.symm.trans entry)
  obtain ⟨j, hj, hlookup⟩ := List.getElem_of_mem hq
  have hq : s.supervisors[j]? = some q := hlookup ▸ List.getElem?_eq_getElem hj
  by_cases hne : i = j
  · subst hne
    obtain rfl : p = q := Option.some.inj (hi.symm.trans hq)
    cases hphase : p.phase <;> simp_all [LockPhase.stale, LockPhase.owned]
  · exact ((lockMachine_inv h).apart i j p q hi hq hne).stale alive f hf hg

/-! ## Two contenders for a stale lock -/

/-- The lock file of a supervisor that has ended. -/
def staleLock : LockState := ⟨⟨some 0, [⟨7, .object (some 40)⟩]⟩, []⟩

/-- The calls of a takeover before the `unlink`. -/
def findStale (i : Nat) : List LockAction :=
  [.create 7, .stat, .read, .kill, .stat].map (.call i · false)

def takeOver (i inode : Nat) : List LockAction :=
  [.unlink, .create inode, .write].map (.call i · false)

/-- One supervisor takes the lock over; a second one finds it alive and gives up. -/
def takeoverRun : List LockAction :=
  .start 41 :: findStale 0 ++ takeOver 0 7 ++ .start 42 :: findStale 1

theorem lock_exclusive_takeover : (lockMachine.follow staleLock takeoverRun).Holds 0 ∧
    (lockMachine.follow staleLock takeoverRun).Exclusive := by
  have start : lockMachine.Guarded LockState.StaleTakeover staleLock := .init (.stale _)
  have meets : lockMachine.Meets LockState.StaleTakeover staleLock takeoverRun := by
    decide +kernel
  exact ⟨⟨41, 1, by decide +kernel⟩, lock_exclusive (start.follow_meets meets)⟩

/-- Two supervisors find the same lock stale; the one that is late removes what the other
has put in its place. -/
def raceRun : List LockAction :=
  .start 41 :: .start 42 :: findStale 0 ++ findStale 1 ++ takeOver 1 8 ++ takeOver 0 9

theorem lock_held_twice : ∃ s, lockMachine.Reachable s ∧ ¬ s.Exclusive := by
  refine ⟨lockMachine.follow staleLock raceRun, .follow (.stale _), fun exclusive => ?_⟩
  have late : (lockMachine.follow staleLock raceRun).Holds 0 := ⟨41, 2, by decide +kernel⟩
  have early : (lockMachine.follow staleLock raceRun).Holds 1 := ⟨42, 1, by decide +kernel⟩
  exact absurd (exclusive 0 1 late early) (by decide)

end Perago
