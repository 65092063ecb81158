import Perago.ConductorRuntime.Reports
import Perago.Workspace.GcRuns

/-!
# The supervisor and the workspaces of its executors

The supervisor of `Supervised` together with its record of the executor processes, the
clock, the workspaces of the attempts that the executors run, and the collector. The
collector thread asks for the live executors and passes over the root; the main thread
makes a pass for an executor that has exited, before it waits and starts the next one,
and a last one when every process has been joined. In this mode no owner token is
registered in the supervisor's process. What any number of threads and processes do
interleaves.
-/

namespace Perago

/-- The workspace has a marker that the pass collects. -/
def GcArguments.collected (args : GcArguments) (ws : WorkspaceState) : Bool :=
  ws.gcMarker.any args.collects

theorem GcArguments.collected_iff {args : GcArguments} {ws : WorkspaceState} :
    args.collected ws = true ↔ ∃ m, ws = .marked m ∧
      (∀ o, args.targetProcessOwner = some o → o = (m.ownerWorkerId, m.ownerPid)) ∧
      (m.ownerWorkerId, m.ownerPid) ∉ args.processOwners ∧ m.ownerToken ∉ args.ownerTokens ∧
      args.ttl ≤ args.currentTime - m.startedAt := by
  cases ws with
  | absent | made | opened => simp [collected, WorkspaceState.gcMarker]
  | marked m =>
    simp only [collected, WorkspaceState.gcMarker, Option.any_some, collects]
    cases args.targetProcessOwner <;> simp <;> grind

/-- The time stamps of the attempt lie between these times. -/
structure GcAttempt.Within (a : GcAttempt) (ws : WorkspaceState) (lo hi : Int) : Prop where
  stamp : ∀ t ∈ a.phase.startedAt, lo ≤ t ∧ t ≤ hi
  marker : ∀ m, ws = .marked m → lo ≤ m.startedAt ∧ m.startedAt ≤ hi

theorem AttemptEffect.within {clock lo hi : Int} {a : GcAttempt} {ws ws' : WorkspaceState}
    {c : AttemptCall} {phase : AttemptPhase} (h : AttemptEffect clock a ws c phase ws')
    (hlo : lo ≤ clock) (hhi : clock ≤ hi) (old : a.Within ws lo hi) :
    ({ a with phase := phase } : GcAttempt).Within ws' lo hi := by
  have kept : ∀ {u : Int}, a.phase.startedAt = some u → lo ≤ u ∧ u ≤ hi :=
    fun hu => old.stamp _ hu
  have none : ∀ {u : Int}, u ∈ (none : Option Int) → lo ≤ u ∧ u ≤ hi := by
    rintro u ⟨⟩
  have unmarked : ∀ {m : GcMarker}, WorkspaceState.absent = .marked m →
      lo ≤ m.startedAt ∧ m.startedAt ≤ hi := by
    rintro m ⟨⟩
  cases h with
  | made => exact ⟨fun _ => none, by rintro m ⟨⟩⟩
  | stamped => exact ⟨fun u hu => by cases hu; exact ⟨hlo, hhi⟩, old.marker⟩
  | opened u hp => exact ⟨fun v hv => old.stamp v (by rw [hp]; exact hv), by rintro m ⟨⟩⟩
  | lost u hp => exact ⟨fun v hv => old.stamp v (by rw [hp]; exact hv), fun m => unmarked⟩
  | wrote u hp =>
    refine ⟨fun v hv => old.stamp v (by rw [hp]; exact hv), fun m hm => ?_⟩
    cases hm
    exact kept (by rw [hp]; rfl)
  | failed complete ws' _ left =>
    refine ⟨fun _ => none, fun m hm => ?_⟩
    obtain rfl | ⟨u, hp, rfl⟩ := left
    · exact old.marker m hm
    · cases hm
      exact kept (by rw [hp]; rfl)
  | body u left hp =>
    exact ⟨fun v hv => old.stamp v (by rw [hp]; exact hv),
      fun m hm => old.marker m (Removal.apply_marked hm)⟩
  | finished | unregistered => exact ⟨fun _ => none, old.marker⟩
  | cleaned left => exact ⟨fun _ => none, fun m hm => old.marker m (Removal.apply_marked hm)⟩

namespace ConductorRuntime

open Transition

/-! ## Restart delays -/

def restartBackoffSecondsByCount : List Nat := [1, 2, 4, 8, 16]

def maxRestartBackoffSeconds : Nat := 30

def restartBackoffSeconds (restartCount : Int) : Except PyException Nat :=
  if restartCount < 0 then .error (.mk' .valueError "restart_count must be >= 0")
  else if restartCount < restartBackoffSecondsByCount.length then
    .ok (restartBackoffSecondsByCount[restartCount.toNat]!)
  else .ok maxRestartBackoffSeconds

/-- Times are in microseconds. -/
def microseconds (seconds : Nat) : Int := 1000000 * seconds

/-! ## The record of the executors -/

/-- An entry of `executors`; its key is the worker id of the process. -/
structure ExecutorEntry where
  process : SlotPipe
  restartCount : Nat

/-- `executors[slot] = entry`: a key that is there keeps its place. -/
def enter (entry : ExecutorEntry) : List ExecutorEntry → List ExecutorEntry
  | [] => [entry]
  | e :: rest =>
    if e.process.1 = entry.process.1 then entry :: rest else e :: enter entry rest

def entryOf (executors : List ExecutorEntry) (w : String) : Option ExecutorEntry :=
  executors.find? fun e => e.process.1 == w

/-! ## Passes -/

/-- `asking` is the iteration of `_active_process_workspace_owners`. -/
inductive RootPhase where
  | asking (size next : Nat) (owners : List (String × Int))
  | listing (args : GcArguments) (found : List Text)
  | visiting (args : GcArguments) (todo : List Text)
  | removing (args : GcArguments) (dir : Text) (todo : List Text)
  | done
  | raised

/-- The pass visits and removes. -/
def RootPhase.Active : RootPhase → Prop
  | .listing _ _ | .visiting _ _ | .removing _ _ _ => True
  | .asking _ _ _ | .done | .raised => False

/-- A pass; for the proofs, the processes that were recorded when it began to ask, and the
markers that were there when it began to list. -/
structure RootPass where
  phase : RootPhase
  known : List SlotPipe
  present : List Text

inductive RootCall where
  | ask
  | readClock
  | list (dir : Text)
  | listFails
  | sort
  | visit (osError : Bool)
  | rmtree
  | rmtreeFails (left : Removal)

/-- An attempt and the executor process that runs it. -/
structure ProcessAttempt extends GcAttempt where
  process : SlotPipe

/-! ## The main thread -/

/-- Where the main thread stands around the steps of its loop: it starts the first
processes, records one, makes the pass for an executor that has exited, waits, makes the
last pass. -/
inductive MainPhase where
  | launching (rest : List String)
  | entering (p : SlotPipe) (restartCount : Nat) (rest : List String)
  | looping
  | collecting (k : Nat) (delay : Nat)
  | waiting (deadline : Int)
  | sweeping (k : Nat)
  | ended
  deriving DecidableEq

structure RootConfig extends SupervisorConfig where
  ttl : Int

/-- `pids` are the processes that have been started, `bornAt` the times at which they
were, and `began` is the time of the first step. -/
structure SupervisedRoot where
  core : Supervised
  main : MainPhase
  executors : List ExecutorEntry
  pids : SlotPipe → Option Nat
  bornAt : SlotPipe → Int
  began : Int
  clock : Int
  usedDirs : List Text
  workspaces : Text → WorkspaceState
  attempts : List ProcessAttempt
  passes : List RootPass

/-- Nothing has been started; there may be workspaces that earlier runs left behind. -/
structure SupervisedRoot.Initial (cfg : RootConfig) (s : SupervisedRoot) : Prop where
  core : s.core = .start cfg.toSupervisorConfig
  main : s.main = .launching cfg.workerIds
  executors : s.executors = []
  pids : ∀ p, s.pids p = none
  began : s.began = s.clock
  attempts : s.attempts = []
  passes : s.passes = []
  used : ∀ d, s.workspaces d ≠ .absent → d ∈ s.usedDirs
  past : ∀ d m, s.workspaces d = .marked m → m.startedAt ≤ s.clock

/-- `main` is the next step of the main thread, with the exit code that it reads and the
pid that a new process gets; `other` is a step of the broker, an executor or a signal. -/
inductive RootAction where
  | tick (clock : Int)
  | main (exitCode : Option Int) (pid : Nat)
  | other (a : SupervisedAction)
  | register (p : SlotPipe) (token executionId : String) (dir : Text)
  | attempt (i : Nat) (c : AttemptCall)
  | startPass
  | pass (k : Nat) (c : RootCall)

namespace SupervisedRoot

/-- `process.is_alive()`. -/
def alive (s : SupervisedRoot) (p : SlotPipe) : Bool :=
  (s.pids p).isSome && !s.core.runtime.exited p

/-- What `_active_process_workspace_owners` adds for an entry. -/
def ownersOf (s : SupervisedRoot) (e : ExecutorEntry) : List (String × Int) :=
  match s.pids e.process with
  | some pid => if s.alive e.process then [(e.process.1, pid)] else []
  | none => []

def markerFiles (s : SupervisedRoot) : List Text :=
  s.usedDirs.filter fun d => (s.workspaces d).hasMarkerFile

/-- A pass that begins to list the markers below the root. -/
def listed (s : SupervisedRoot) (known : List SlotPipe) (args : GcArguments) : RootPass where
  phase := .listing args []
  known := known
  present := s.markerFiles

/-- One step of a pass; the listing takes its time. -/
def passStep (cfg : RootConfig) (s : SupervisedRoot) (p : RootPass) :
    RootCall → Option (RootPass × (Text → WorkspaceState))
  | .ask => match p.phase with
    | .asking size next owners =>
      -- a dictionary that has grown raises `RuntimeError`
      if s.executors.length ≠ size then some ({ p with phase := .raised }, s.workspaces)
      else match s.executors[next]? with
        | some e =>
          some ({ p with phase := .asking size (next + 1) (owners ++ s.ownersOf e) }, s.workspaces)
        | none => none
    | _ => none
  | .readClock => match p.phase with
    | .asking size next owners =>
      if s.executors.length = size ∧ s.executors[next]?.isNone then
        some (s.listed p.known (loopArguments cfg.ttl owners [] s.clock), s.workspaces)
      else none
    | _ => none
  | .list dir => match p.phase with
    | .listing args found =>
      if (s.workspaces dir).hasMarkerFile = true ∧ dir ∉ found then
        some ({ p with phase := .listing args (found ++ [dir]) }, s.workspaces)
      else none
    | _ => none
  | .listFails => match p.phase with
    | .listing _ _ => some ({ p with phase := .raised }, s.workspaces)
    | _ => none
  | .sort => match p.phase with
    | .listing args found =>
      if ∀ d ∈ p.present, (s.workspaces d).hasMarkerFile = true → d ∈ found then
        some ({ p with phase := .visiting args (sortedPaths found) }, s.workspaces)
      else none
    | _ => none
  | .visit osError => match p.phase with
    | .visiting _ [] => some ({ p with phase := .done }, s.workspaces)
    | .visiting args (d :: todo) =>
      if osError = false ∧ args.collected (s.workspaces d) = true then
        some ({ p with phase := .removing args d todo }, s.workspaces)
      else some ({ p with phase := .visiting args todo }, s.workspaces)
    | _ => none
  | .rmtree => match p.phase with
    | .removing args d todo =>
      if s.workspaces d = .absent then none
      else some ({ p with phase := .visiting args todo }, Function.update s.workspaces d .absent)
    | _ => none
  | .rmtreeFails left => match p.phase with
    | .removing _ d _ => some ({ p with phase := .raised },
        Function.update s.workspaces d (left.apply (s.workspaces d)))
    | _ => none

/-- `process.start()`. -/
def launch (s : SupervisedRoot) (p : SlotPipe) (pid : Nat) : SupervisedRoot :=
  { s with
    pids := Function.update s.pids p (some pid)
    bornAt := Function.update s.bornAt p s.clock }

def beginPass (s : SupervisedRoot) (args : GcArguments) : SupervisedRoot :=
  { s with passes := s.passes ++ [s.listed [] args] }

/-- An exception leaves the loop for its `finally` block. -/
def fail (cfg : RootConfig) (s : SupervisedRoot) : SupervisedRoot :=
  { s with
    core := { s.core with stop := true, point := .draining cfg.workerIds }
    main := .looping }

/-- A step of the loop itself. -/
def loopStep (cfg : RootConfig) (s : SupervisedRoot) (exitCode : Option Int) :
    Option SupervisedRoot :=
  match s.core.point with
  | .backoff w _ => match entryOf s.executors w with
    | none => none
    | some e => match restartBackoffSeconds e.restartCount with
      | .error _ => some (s.fail cfg)
      | .ok delay => match s.pids e.process with
        | none => some { s with main := .waiting (s.clock + microseconds delay) }
        | some pid => some { s.beginPass (ownerArguments w pid s.clock) with
            main := .collecting s.passes.length delay }
  | .starting w _ => match entryOf s.executors w, s.core.runtime.slots w with
    | some e, some slot =>
      (s.core.step cfg.toSupervisorConfig (.supervisor exitCode)).map fun core =>
        { s with core := core, main := .entering (w, slot.generation) (e.restartCount + 1) [] }
    | _, _ => none
  | .finished => some { s.beginPass (sweepArguments [] s.clock) with
      main := .sweeping s.passes.length }
  | _ => (s.core.step cfg.toSupervisorConfig (.supervisor exitCode)).map fun core =>
      { s with core := core }

def mainStep (cfg : RootConfig) (s : SupervisedRoot) (exitCode : Option Int) (pid : Nat) :
    Option SupervisedRoot :=
  match s.main with
  | .launching [] => some { s with main := .looping }
  | .launching (w :: rest) => some { s.launch (w, 1) pid with main := .entering (w, 1) 0 rest }
  | .entering p restartCount rest => some { s with
      executors := enter ⟨p, restartCount⟩ s.executors
      main := .launching rest }
  | .looping => s.loopStep cfg exitCode
  | .collecting k delay => match s.passes[k]?.map RootPass.phase with
    | some .done => some { s with main := .waiting (s.clock + microseconds delay) }
    | some .raised => some (s.fail cfg)
    | _ => none
  | .waiting deadline => match s.core.point with
    | .backoff w _ => match s.core.runtime.slots w with
      | some slot =>
        if s.core.stop then
          (s.core.step cfg.toSupervisorConfig (.supervisor exitCode)).map fun core =>
            { s with core := core, main := .looping }
        else if deadline ≤ s.clock then
          (s.core.step cfg.toSupervisorConfig (.supervisor exitCode)).map fun core =>
            { s.launch (w, slot.generation + 1) pid with core := core, main := .looping }
        else none
      | none => none
    | _ => none
  | .sweeping k => match s.passes[k]?.map RootPass.phase with
    | some .done | some .raised => some { s with main := .ended }
    | _ => none
  | .ended => none

/-- What the broker, the executors and the signals may do: a process that has not been
started does nothing. -/
def concurrent (s : SupervisedRoot) : SupervisedAction → Bool
  | .supervisor _ => false
  | .executor p _ => (s.pids p).isSome
  -- the loop is not in the event while it makes a pass or starts processes
  | .signalInEvent => match s.main, s.core.point with
    | .waiting _, _ => true
    | .looping, .backoff _ _ => false
    | .looping, _ => true
    | _, _ => false
  | _ => true

def step (cfg : RootConfig) (s : SupervisedRoot) : RootAction → Option SupervisedRoot
  | .tick clock => if s.clock ≤ clock then some { s with clock := clock } else none
  | .main exitCode pid => s.mainStep cfg exitCode pid
  | .other a =>
    if s.concurrent a then
      (s.core.step cfg.toSupervisorConfig a).map fun core => { s with core := core }
    else none
  -- the directory's name contains the execution id, which is drawn for each execution
  | .register p token executionId dir => match s.pids p with
    | some pid =>
      if s.alive p = true ∧ dir ∉ s.usedDirs then
        some { s with
          usedDirs := dir :: s.usedDirs
          attempts := s.attempts ++ [⟨⟨⟨p.1, pid, token⟩, executionId, dir, .registered⟩, p⟩] }
      else none
    | none => none
  | .attempt i c => match s.attempts[i]? with
    | some a =>
      if s.alive a.process then
        (a.step s.clock (s.workspaces a.dir) c).map fun r => { s with
          workspaces := Function.update s.workspaces a.dir r.2
          attempts := s.attempts.set i { a with phase := r.1 } }
      else none
    | none => none
  | .startPass => some { s with
      passes := s.passes ++ [⟨.asking s.executors.length 0 [], s.executors.map (·.process), []⟩] }
  | .pass k c => match s.passes[k]? with
    | some p => (s.passStep cfg p c).map fun r => { s with
        workspaces := r.2
        passes := s.passes.set k r.1 }
    | none => none

end SupervisedRoot

def supervisedRoot (cfg : RootConfig) : Machine SupervisedRoot RootAction where
  init := SupervisedRoot.Initial cfg
  step := SupervisedRoot.step cfg

/-! ## The steps, one by one -/

namespace SupervisedRoot

variable {cfg : RootConfig} {s t : SupervisedRoot} {a : RootAction} {p p' : RootPass}
variable {call : RootCall} {workspaces : Text → WorkspaceState}

inductive PassStep (cfg : RootConfig) (s : SupervisedRoot) (p : RootPass) :
    RootCall → RootPass → (Text → WorkspaceState) → Prop where
  | grown (size next : Nat) (owners : List (String × Int)) : p.phase = .asking size next owners →
      PassStep cfg s p .ask { p with phase := .raised } s.workspaces
  | asked (size next : Nat) (owners : List (String × Int)) (e : ExecutorEntry) :
      p.phase = .asking size next owners → s.executors.length = size →
      s.executors[next]? = some e → PassStep cfg s p .ask
        { p with phase := .asking size (next + 1) (owners ++ s.ownersOf e) } s.workspaces
  | clocked (size next : Nat) (owners : List (String × Int)) :
      p.phase = .asking size next owners → s.executors.length = size →
      s.executors[next]? = none → PassStep cfg s p .readClock
        (s.listed p.known (loopArguments cfg.ttl owners [] s.clock)) s.workspaces
  | found (args : GcArguments) (found : List Text) (d : Text) : p.phase = .listing args found →
      PassStep cfg s p (.list d) { p with phase := .listing args (found ++ [d]) } s.workspaces
  | unlisted (args : GcArguments) (found : List Text) : p.phase = .listing args found →
      PassStep cfg s p .listFails { p with phase := .raised } s.workspaces
  | sorted (args : GcArguments) (found : List Text) : p.phase = .listing args found →
      (∀ d ∈ p.present, (s.workspaces d).hasMarkerFile = true → d ∈ found) →
      PassStep cfg s p .sort { p with phase := .visiting args (sortedPaths found) } s.workspaces
  | ended (args : GcArguments) (osError : Bool) : p.phase = .visiting args [] →
      PassStep cfg s p (.visit osError) { p with phase := .done } s.workspaces
  | spared (args : GcArguments) (d : Text) (todo : List Text) (osError : Bool) :
      p.phase = .visiting args (d :: todo) →
      (osError = true ∨ args.collected (s.workspaces d) = false) →
      PassStep cfg s p (.visit osError) { p with phase := .visiting args todo } s.workspaces
  | chosen (args : GcArguments) (d : Text) (todo : List Text) :
      p.phase = .visiting args (d :: todo) → args.collected (s.workspaces d) = true →
      PassStep cfg s p (.visit false) { p with phase := .removing args d todo } s.workspaces
  | removed (args : GcArguments) (d : Text) (todo : List Text) :
      p.phase = .removing args d todo →
      PassStep cfg s p .rmtree { p with phase := .visiting args todo }
        (Function.update s.workspaces d .absent)
  | failed (args : GcArguments) (d : Text) (todo : List Text) (left : Removal) :
      p.phase = .removing args d todo →
      PassStep cfg s p (.rmtreeFails left) { p with phase := .raised }
        (Function.update s.workspaces d (left.apply (s.workspaces d)))

theorem passStep_inv (h : s.passStep cfg p call = some (p', workspaces)) :
    PassStep cfg s p call p' workspaces := by
  cases call <;> simp only [passStep] at h
  case ask =>
    split at h
    · rename_i hp
      split at h
      · cases h
        exact .grown _ _ _ hp
      · split at h <;> cases h
        exact .asked _ _ _ _ hp (by omega) (by assumption)
    · cases h
  case readClock =>
    split at h
    · rename_i hp
      split at h <;> cases h
      rename_i size
      exact .clocked _ _ _ hp size.1 (by simpa using size.2)
    · cases h
  case list dir =>
    split at h
    · split at h <;> cases h
      exact .found _ _ _ (by assumption)
    · cases h
  case listFails =>
    split at h <;> cases h
    exact .unlisted _ _ (by assumption)
  case sort =>
    split at h
    · split at h <;> cases h
      exact .sorted _ _ (by assumption) (by assumption)
    · cases h
  case visit osError =>
    split at h
    · cases h
      exact .ended _ _ (by assumption)
    · rename_i hp
      split at h <;> cases h
      · rename_i hc
        obtain ⟨rfl, collected⟩ := hc
        exact .chosen _ _ _ hp collected
      · exact .spared _ _ _ _ hp (by grind)
    · cases h
  case rmtree =>
    split at h
    · split at h <;> cases h
      exact .removed _ _ _ (by assumption)
    · cases h
  case rmtreeFails left =>
    split at h <;> cases h
    exact .failed _ _ _ left (by assumption)

/-- The steps of the main thread. -/
inductive MainStep (cfg : RootConfig) (s : SupervisedRoot) : SupervisedRoot → Prop where
  | launched (w : String) (rest : List String) (pid : Nat) : s.main = .launching (w :: rest) →
      MainStep cfg s { s.launch (w, 1) pid with main := .entering (w, 1) 0 rest }
  | allLaunched : s.main = .launching [] → MainStep cfg s { s with main := .looping }
  | entered (p : SlotPipe) (restartCount : Nat) (rest : List String) :
      s.main = .entering p restartCount rest → MainStep cfg s { s with
        executors := enter ⟨p, restartCount⟩ s.executors
        main := .launching rest }
  | looped (exitCode : Option Int) (core : Supervised) : s.main = .looping →
      (∀ w rest, s.core.point ≠ .backoff w rest) → (∀ w rest, s.core.point ≠ .starting w rest) →
      s.core.point ≠ .finished →
      s.core.step cfg.toSupervisorConfig (.supervisor exitCode) = some core →
      MainStep cfg s { s with core := core }
  | started (exitCode : Option Int) (core : Supervised) (w : String) (rest : List String)
      (e : ExecutorEntry) (slot : SupervisedSlot) : s.main = .looping →
      s.core.point = .starting w rest → entryOf s.executors w = some e →
      s.core.runtime.slots w = some slot →
      s.core.step cfg.toSupervisorConfig (.supervisor exitCode) = some core →
      MainStep cfg s { s with
        core := core, main := .entering (w, slot.generation) (e.restartCount + 1) [] }
  | collecting (w : String) (rest : List String) (e : ExecutorEntry) (pid delay : Nat) :
      s.main = .looping → s.core.point = .backoff w rest → entryOf s.executors w = some e →
      s.pids e.process = some pid → restartBackoffSeconds e.restartCount = .ok delay →
      MainStep cfg s { s.beginPass (ownerArguments w pid s.clock) with
        main := .collecting s.passes.length delay }
  | unidentified (w : String) (rest : List String) (e : ExecutorEntry) (delay : Nat) :
      s.main = .looping → s.core.point = .backoff w rest → entryOf s.executors w = some e →
      s.pids e.process = none → restartBackoffSeconds e.restartCount = .ok delay →
      MainStep cfg s { s with main := .waiting (s.clock + microseconds delay) }
  | collected (k delay : Nat) (p : RootPass) : s.main = .collecting k delay →
      s.passes[k]? = some p → p.phase = .done →
      MainStep cfg s { s with main := .waiting (s.clock + microseconds delay) }
  | failed (w : String) (rest : List String) (e : ExecutorEntry) (exc : PyException) :
      s.main = .looping → s.core.point = .backoff w rest → entryOf s.executors w = some e →
      restartBackoffSeconds e.restartCount = .error exc → MainStep cfg s (s.fail cfg)
  | collectingFailed (k delay : Nat) (p : RootPass) : s.main = .collecting k delay →
      s.passes[k]? = some p → p.phase = .raised → MainStep cfg s (s.fail cfg)
  | brokenOff (exitCode : Option Int) (core : Supervised) (w : String) (rest : List String)
      (deadline : Int) : s.main = .waiting deadline → s.core.point = .backoff w rest →
      s.core.stop = true → s.core.step cfg.toSupervisorConfig (.supervisor exitCode) = some core →
      MainStep cfg s { s with core := core, main := .looping }
  | respawned (exitCode : Option Int) (core : Supervised) (w : String) (rest : List String)
      (slot : SupervisedSlot) (deadline : Int) (pid : Nat) : s.main = .waiting deadline →
      s.core.point = .backoff w rest → s.core.runtime.slots w = some slot →
      s.core.stop = false → deadline ≤ s.clock →
      s.core.step cfg.toSupervisorConfig (.supervisor exitCode) = some core →
      MainStep cfg s
        { s.launch (w, slot.generation + 1) pid with core := core, main := .looping }
  | sweeping : s.main = .looping → s.core.point = .finished →
      MainStep cfg s { s.beginPass (sweepArguments [] s.clock) with
        main := .sweeping s.passes.length }
  | swept (k : Nat) (p : RootPass) : s.main = .sweeping k → s.passes[k]? = some p →
      (p.phase = .done ∨ p.phase = .raised) → MainStep cfg s { s with main := .ended }

theorem loopStep_inv {exitCode : Option Int} (main : s.main = .looping)
    (h : s.loopStep cfg exitCode = some t) : MainStep cfg s t := by
  unfold loopStep at h
  split at h
  · rename_i w rest hpoint
    split at h
    · cases h
    rename_i e he
    split at h
    · cases h
      exact .failed w rest e _ main hpoint he (by assumption)
    rename_i delay hdelay
    split at h <;> cases h
    · exact .unidentified w rest e delay main hpoint he (by assumption) hdelay
    · exact .collecting w rest e _ delay main hpoint he (by assumption) hdelay
  · rename_i w rest hpoint
    split at h
    · rename_i e slot he hslot
      obtain ⟨core, hcore, rfl⟩ := Option.map_eq_some_iff.mp h
      exact .started exitCode core w rest e slot main hpoint he hslot hcore
    · cases h
  · cases h
    exact .sweeping main (by assumption)
  · rename_i hbackoff hstarting hfinished
    obtain ⟨core, hcore, rfl⟩ := Option.map_eq_some_iff.mp h
    exact .looped exitCode core main hbackoff hstarting hfinished hcore

theorem mainStep_inv {exitCode : Option Int} {pid : Nat}
    (h : s.mainStep cfg exitCode pid = some t) : MainStep cfg s t := by
  unfold mainStep at h
  split at h
  · cases h
    exact .allLaunched (by assumption)
  · cases h
    exact .launched _ _ pid (by assumption)
  · cases h
    exact .entered _ _ _ (by assumption)
  · exact loopStep_inv (by assumption) h
  · rename_i k delay main
    split at h <;> cases h
    · rename_i hp
      obtain ⟨p, hp, done⟩ := Option.map_eq_some_iff.mp hp
      exact .collected k delay p main hp done
    · rename_i hp
      obtain ⟨p, hp, raised⟩ := Option.map_eq_some_iff.mp hp
      exact .collectingFailed k delay p main hp raised
  · rename_i deadline main
    split at h
    · rename_i w rest hpoint
      split at h
      · rename_i slot hslot
        split at h
        · rename_i stop
          obtain ⟨core, hcore, rfl⟩ := Option.map_eq_some_iff.mp h
          exact .brokenOff exitCode core w rest deadline main hpoint stop hcore
        · rename_i stop
          split at h
          · obtain ⟨core, hcore, rfl⟩ := Option.map_eq_some_iff.mp h
            exact .respawned exitCode core w rest slot deadline pid main hpoint hslot
              (Bool.eq_false_of_not_eq_true stop) (by assumption) hcore
          · cases h
      · cases h
    · cases h
  · rename_i k main
    split at h <;> cases h
    · rename_i hp
      obtain ⟨p, hp, done⟩ := Option.map_eq_some_iff.mp hp
      exact .swept k p main hp (.inl done)
    · rename_i hp
      obtain ⟨p, hp, raised⟩ := Option.map_eq_some_iff.mp hp
      exact .swept k p main hp (.inr raised)
  · cases h

/-- The steps of the whole. -/
inductive RootStep (cfg : RootConfig) (s : SupervisedRoot) :
    RootAction → SupervisedRoot → Prop where
  | tick (clock : Int) : s.clock ≤ clock → RootStep cfg s (.tick clock) { s with clock := clock }
  | main (exitCode : Option Int) (pid : Nat) (t : SupervisedRoot) : MainStep cfg s t →
      RootStep cfg s (.main exitCode pid) t
  | other (a : SupervisedAction) (core : Supervised) : s.concurrent a = true →
      s.core.step cfg.toSupervisorConfig a = some core →
      RootStep cfg s (.other a) { s with core := core }
  | register (p : SlotPipe) (pid : Nat) (token executionId : String) (dir : Text) :
      s.pids p = some pid → s.alive p = true → dir ∉ s.usedDirs →
      RootStep cfg s (.register p token executionId dir) { s with
        usedDirs := dir :: s.usedDirs
        attempts := s.attempts ++ [⟨⟨⟨p.1, pid, token⟩, executionId, dir, .registered⟩, p⟩] }
  | attempt (i : Nat) (c : AttemptCall) (a : ProcessAttempt) (phase : AttemptPhase)
      (ws : WorkspaceState) : s.attempts[i]? = some a → s.alive a.process = true →
      AttemptEffect s.clock a.toGcAttempt (s.workspaces a.dir) c phase ws →
      RootStep cfg s (.attempt i c) { s with
        workspaces := Function.update s.workspaces a.dir ws
        attempts := s.attempts.set i { a with phase := phase } }
  | startPass : RootStep cfg s .startPass { s with
      passes := s.passes ++ [⟨.asking s.executors.length 0 [], s.executors.map (·.process), []⟩] }
  | pass (k : Nat) (call : RootCall) (p p' : RootPass) (workspaces : Text → WorkspaceState) :
      s.passes[k]? = some p → PassStep cfg s p call p' workspaces →
      RootStep cfg s (.pass k call) { s with
        workspaces := workspaces
        passes := s.passes.set k p' }

theorem step_inv (h : s.step cfg a = some t) : RootStep cfg s a t := by
  cases a <;> simp only [step] at h
  case tick clock =>
    split at h <;> cases h
    exact .tick clock (by assumption)
  case main exitCode pid => exact .main exitCode pid t (mainStep_inv h)
  case other a =>
    split at h
    · obtain ⟨core, hcore, rfl⟩ := Option.map_eq_some_iff.mp h
      exact .other a core (by assumption) hcore
    · cases h
  case register p token executionId dir =>
    split at h
    · split at h <;> cases h
      rename_i pid hpid free
      exact .register p pid token executionId dir hpid free.1 free.2
    · cases h
  case attempt i c =>
    split at h
    · rename_i b hb
      split at h
      · obtain ⟨⟨phase, ws⟩, hstep, rfl⟩ := Option.map_eq_some_iff.mp h
        exact .attempt i c b phase ws hb (by assumption) (attemptEffect_of_step hstep)
      · cases h
    · cases h
  case startPass =>
    cases h
    exact .startPass
  case pass k call =>
    split at h
    · rename_i p hp
      obtain ⟨⟨p', workspaces⟩, hstep, rfl⟩ := Option.map_eq_some_iff.mp h
      exact .pass k call p p' workspaces hp (passStep_inv hstep)
    · cases h

end SupervisedRoot

end ConductorRuntime

end Perago
