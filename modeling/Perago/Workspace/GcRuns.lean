import Perago.Transition.Machine
import Perago.Workspace.Gc

/-!
# Collection beside running attempts

In thread mode attempts and passes of the collector share one process. An attempt
registers its owner token, creates its directory, writes the marker with the time at
which it built it, runs, cleans up and unregisters. A pass reads the clock, copies the
set of tokens, lists the markers, and visits them one by one. The steps of any number of
attempts and passes interleave.
-/

namespace Perago

open Transition

/-! ## Attempts -/

/-- The directory of an attempt; bodies create no files that are named like the marker. -/
inductive WorkspaceState where
  | absent
  | made
  | opened
  | marked (m : GcMarker)
  deriving DecidableEq

/-- What `rglob` sees. -/
def WorkspaceState.hasMarkerFile : WorkspaceState → Bool
  | .opened | .marked _ => true
  | .absent | .made => false

/-- What `_read_gc_marker` returns; a marker that is not completely written is no JSON. -/
def WorkspaceState.gcMarker : WorkspaceState → Option GcMarker
  | .marked m => some m
  | .absent | .made | .opened => none

/-- How far the removal of a directory or of its marker got. -/
inductive Removal where
  | complete
  | marker
  | nothing
  deriving DecidableEq

def Removal.apply : Removal → WorkspaceState → WorkspaceState
  | .complete, _ => .absent
  | .marker, .absent => .absent
  | .marker, _ => .made
  | .nothing, ws => ws

/-- The next step of `run_workspace_task_attempt`. -/
inductive AttemptPhase where
  | registered
  | made
  | stamped (startedAt : Int)
  | opened (startedAt : Int)
  | running (startedAt : Int)
  | cleaning
  | finishing
  | done
  deriving DecidableEq

structure GcAttempt where
  owner : WorkspaceOwner
  executionId : String
  dir : Text
  phase : AttemptPhase

inductive AttemptCall where
  | mkdir
  | stamp
  | openMarker
  | writeMarker
  | prepareFails (complete : Bool)
  | body (left : Removal)
  | finish
  | rmtree (left : Removal)
  | unregister
  deriving DecidableEq

/-- The marker that the attempt writes. -/
def GcAttempt.marker (a : GcAttempt) (startedAt : Int) : GcMarker where
  ownerWorkerId := a.owner.workerId
  ownerPid := a.owner.pid
  ownerToken := a.owner.token
  executionId := a.executionId
  startedAt := startedAt

/-- One step of an attempt on its directory. -/
def GcAttempt.step (clock : Int) (a : GcAttempt) (ws : WorkspaceState) :
    AttemptCall → Option (AttemptPhase × WorkspaceState)
  | .mkdir => match a.phase, ws with
    | .registered, .absent => some (.made, .made)
    | _, _ => none
  | .stamp => match a.phase with
    | .made => some (.stamped clock, ws)
    | _ => none
  | .openMarker => match a.phase, ws with
    | .stamped _, .absent => none
    | .stamped t, _ => some (.opened t, .opened)
    | _, _ => none
  | .writeMarker => match a.phase, ws with
    | .opened t, .absent => some (.running t, .absent)
    | .opened t, _ => some (.running t, .marked (a.marker t))
    | _, _ => none
  -- an exception before `workspace_dir` is bound: there is nothing to clean up
  | .prepareFails complete => match a.phase with
    | .registered | .made | .stamped _ => some (.finishing, ws)
    | .opened t => some (.finishing, if complete then .marked (a.marker t) else ws)
    | _ => none
  -- the body may delete its marker or its directory
  | .body left => match a.phase with
    | .running t => some (.running t, left.apply ws)
    | _ => none
  | .finish => match a.phase with
    | .running _ => some (.cleaning, ws)
    | _ => none
  | .rmtree left => match a.phase with
    | .cleaning => some (.finishing, left.apply ws)
    | _ => none
  | .unregister => match a.phase with
    | .finishing => some (.done, ws)
    | _ => none

/-! ## Passes -/

inductive PassPhase where
  | clocked
  | listing (tokens : List String) (found : List Text)
  | visiting (tokens : List String) (todo : List Text)
  | removing (tokens : List String) (dir : Text) (todo : List Text)
  | done
  | raised
  deriving DecidableEq

/-- A pass: the clock reading, what its call returns, and for the proofs the markers that
were there and the workspaces that were due when it copied the tokens. -/
structure GcPass where
  now : Int
  phase : PassPhase
  removed : List Text
  present : List Text
  due : List Text

inductive PassCall where
  | snapshot
  | list (dir : Text)
  | listFails
  | sort
  | visit (osError : Bool)
  | rmtree
  | rmtreeFails (left : Removal)
  deriving DecidableEq

structure GcWorld where
  clock : Int
  tokens : List String
  usedTokens : List String
  usedDirs : List Text
  workspaces : Text → WorkspaceState
  attempts : List GcAttempt
  passes : List GcPass

/-- The workspace has a marker that is collected by a pass with this clock reading and
these tokens. -/
def WorkspaceState.collected (ws : WorkspaceState) (ttl : Int) (tokens : List String)
    (now : Int) : Bool :=
  ws.gcMarker.any (loopArguments ttl [] tokens now).collects

/-- One step of `WorkspaceGCLoop.run_once`. The listing takes its time: it gives the
markers that are there from its beginning to its end, and perhaps others. -/
def GcPass.step (ttl : Int) (w : GcWorld) (p : GcPass) :
    PassCall → Option (GcPass × (Text → WorkspaceState))
  | .snapshot => match p.phase with
    | .clocked => some ({ p with
        phase := .listing w.tokens []
        present := w.usedDirs.filter fun d => (w.workspaces d).hasMarkerFile
        due := w.usedDirs.filter fun d => (w.workspaces d).collected ttl w.tokens p.now },
        w.workspaces)
    | _ => none
  | .list dir => match p.phase with
    | .listing tokens found =>
      if (w.workspaces dir).hasMarkerFile = true ∧ dir ∉ found then
        some ({ p with phase := .listing tokens (found ++ [dir]) }, w.workspaces)
      else none
    | _ => none
  | .listFails => match p.phase with
    | .listing _ _ => some ({ p with phase := .raised }, w.workspaces)
    | _ => none
  | .sort => match p.phase with
    | .listing tokens found =>
      if ∀ d ∈ p.present, (w.workspaces d).hasMarkerFile = true → d ∈ found then
        some ({ p with phase := .visiting tokens (sortedPaths found) }, w.workspaces)
      else none
    | _ => none
  | .visit osError => match p.phase with
    | .visiting _ [] => some ({ p with phase := .done }, w.workspaces)
    | .visiting tokens (d :: todo) =>
      if osError = false ∧ (w.workspaces d).collected ttl tokens p.now = true then
        some ({ p with phase := .removing tokens d todo }, w.workspaces)
      else some ({ p with phase := .visiting tokens todo }, w.workspaces)
    | _ => none
  | .rmtree => match p.phase with
    | .removing tokens d todo =>
      if w.workspaces d = .absent then none
      else some ({ p with phase := .visiting tokens todo, removed := p.removed ++ [d] },
        Function.update w.workspaces d .absent)
    | _ => none
  | .rmtreeFails left => match p.phase with
    | .removing _ d _ => some ({ p with phase := .raised },
        Function.update w.workspaces d (left.apply (w.workspaces d)))
    | _ => none

/-! ## Runs -/

inductive GcAction where
  | tick (clock : Int)
  | register (owner : WorkspaceOwner) (executionId : String) (dir : Text)
  | attempt (i : Nat) (c : AttemptCall)
  | startPass
  | pass (k : Nat) (c : PassCall)

/-- The clock does not go back. Owner tokens are fresh, and so are the directories: their
names contain the execution id, which is drawn for each execution. -/
def GcWorld.step (ttl : Int) (w : GcWorld) : GcAction → Option GcWorld
  | .tick clock => if w.clock ≤ clock then some { w with clock := clock } else none
  | .register owner executionId dir =>
    if owner.token ∉ w.usedTokens ∧ dir ∉ w.usedDirs then
      some { w with
        tokens := owner.token :: w.tokens
        usedTokens := owner.token :: w.usedTokens
        usedDirs := dir :: w.usedDirs
        attempts := w.attempts ++ [⟨owner, executionId, dir, .registered⟩] }
    else none
  | .attempt i c => match w.attempts[i]? with
    | some a => (a.step w.clock (w.workspaces a.dir) c).map fun r => { w with
        tokens := if c = .unregister then w.tokens.filter (· ≠ a.owner.token) else w.tokens
        workspaces := Function.update w.workspaces a.dir r.2
        attempts := w.attempts.set i { a with phase := r.1 } }
    | none => none
  | .startPass => some { w with passes := w.passes ++ [⟨w.clock, .clocked, [], [], []⟩] }
  | .pass k c => match w.passes[k]? with
    | some p => (p.step ttl w c).map fun r => { w with
        workspaces := r.2
        passes := w.passes.set k r.1 }
    | none => none

/-- No token is registered yet; there may be workspaces that earlier runs left behind. -/
structure GcWorld.Initial (w : GcWorld) : Prop where
  tokens : w.tokens = []
  attempts : w.attempts = []
  passes : w.passes = []
  used : ∀ d, w.workspaces d ≠ .absent → d ∈ w.usedDirs

def gcMachine (ttl : Int) : Machine GcWorld GcAction where
  init := GcWorld.Initial
  step := GcWorld.step ttl

/-! ## What an attempt does -/

variable {ttl : Int} {w v : GcWorld} {a : GcAttempt} {ws ws' : WorkspaceState}
variable {phase : AttemptPhase} {c : AttemptCall} {clock : Int}

/-- The attempt is being prepared or runs: its own cleanup has not begun. -/
def AttemptPhase.Uncleaned : AttemptPhase → Prop
  | .registered | .made | .stamped _ | .opened _ | .running _ => True
  | .cleaning | .finishing | .done => False

theorem AttemptPhase.Uncleaned.live (h : phase.Uncleaned) : phase ≠ .done := by
  rintro rfl
  exact h

def AttemptPhase.startedAt : AttemptPhase → Option Int
  | .stamped t | .opened t | .running t => some t
  | _ => none

/-- A marker in the directory is the attempt's own. -/
def GcAttempt.Fits (a : GcAttempt) (ws : WorkspaceState) : Prop :=
  ∀ m, ws = .marked m → ∃ t, m = a.marker t

/-- The attempt took its time stamp, if it has one, at `now` or later. -/
structure GcAttempt.Young (a : GcAttempt) (ws : WorkspaceState) (now : Int) : Prop where
  stamp : ∀ t ∈ a.phase.startedAt, now ≤ t
  marker : ∀ m, ws = .marked m → now ≤ m.startedAt

theorem Removal.apply_marked {left : Removal} {m : GcMarker} (h : left.apply ws = .marked m) :
    ws = .marked m := by
  cases left <;> cases ws <;> simp_all [Removal.apply]

inductive AttemptEffect (clock : Int) (a : GcAttempt) (ws : WorkspaceState) :
    AttemptCall → AttemptPhase → WorkspaceState → Prop where
  | made : a.phase = .registered → AttemptEffect clock a ws .mkdir .made .made
  | stamped : a.phase = .made → AttemptEffect clock a ws .stamp (.stamped clock) ws
  | opened (t : Int) : a.phase = .stamped t →
      AttemptEffect clock a ws .openMarker (.opened t) .opened
  | lost (t : Int) : a.phase = .opened t →
      AttemptEffect clock a ws .writeMarker (.running t) .absent
  | wrote (t : Int) : a.phase = .opened t →
      AttemptEffect clock a ws .writeMarker (.running t) (.marked (a.marker t))
  | failed (complete : Bool) (ws' : WorkspaceState) : a.phase ≠ .done →
      (ws' = ws ∨ ∃ t, a.phase = .opened t ∧ ws' = .marked (a.marker t)) →
      AttemptEffect clock a ws (.prepareFails complete) .finishing ws'
  | body (t : Int) (left : Removal) : a.phase = .running t →
      AttemptEffect clock a ws (.body left) (.running t) (left.apply ws)
  | finished (t : Int) : a.phase = .running t → AttemptEffect clock a ws .finish .cleaning ws
  | cleaned (left : Removal) : a.phase = .cleaning →
      AttemptEffect clock a ws (.rmtree left) .finishing (left.apply ws)
  | unregistered : a.phase = .finishing → AttemptEffect clock a ws .unregister .done ws

theorem attemptEffect_of_step (h : a.step clock ws c = some (phase, ws')) :
    AttemptEffect clock a ws c phase ws' := by
  cases c with
  | mkdir =>
    simp only [GcAttempt.step] at h
    split at h <;> cases h
    exact .made (by assumption)
  | stamp =>
    simp only [GcAttempt.step] at h
    split at h <;> cases h
    exact .stamped (by assumption)
  | openMarker =>
    simp only [GcAttempt.step] at h
    split at h <;> cases h
    exact .opened _ (by assumption)
  | writeMarker =>
    simp only [GcAttempt.step] at h
    split at h <;> cases h
    · exact .lost _ (by assumption)
    · exact .wrote _ (by assumption)
  | prepareFails complete =>
    simp only [GcAttempt.step] at h
    cases hp : a.phase with
    | registered | made | stamped t =>
      simp only [hp] at h
      cases h
      exact .failed complete _ (by simp [hp]) (.inl rfl)
    | opened t =>
      simp only [hp] at h
      cases h
      refine .failed complete _ (by simp [hp]) ?_
      cases complete
      · exact .inl rfl
      · exact .inr ⟨t, hp, rfl⟩
    | running | cleaning | finishing | done => simp [hp] at h
  | body left =>
    simp only [GcAttempt.step] at h
    split at h <;> cases h
    exact .body _ left (by assumption)
  | finish =>
    simp only [GcAttempt.step] at h
    split at h <;> cases h
    exact .finished _ (by assumption)
  | rmtree left =>
    simp only [GcAttempt.step] at h
    split at h <;> cases h
    exact .cleaned left (by assumption)
  | unregister =>
    simp only [GcAttempt.step] at h
    split at h <;> cases h
    exact .unregistered (by assumption)

namespace AttemptEffect

variable (h : AttemptEffect clock a ws c phase ws')

include h

theorem alive : a.phase ≠ .done := by
  cases h with
  | made hp | stamped hp | opened t hp | lost t hp | wrote t hp | body t left hp | finished t hp
  | cleaned left hp | unregistered hp => simp [hp]
  | failed complete ws' live => exact live

theorem done_iff : phase = .done ↔ c = .unregister := by
  cases h <;> simp

theorem fits (old : a.Fits ws) : ({ a with phase := phase } : GcAttempt).Fits ws' := by
  intro m hm
  cases h with
  | made | opened | lost => cases hm
  | stamped | finished | unregistered => exact old m hm
  | wrote t =>
    cases hm
    exact ⟨t, rfl⟩
  | failed complete ws' _ left =>
    obtain rfl | ⟨t, -, rfl⟩ := left
    · exact old m hm
    · cases hm
      exact ⟨t, rfl⟩
  | body _ left | cleaned left => exact old m (Removal.apply_marked hm)

theorem young {now : Int} (hnow : now ≤ clock) (old : a.Young ws now) :
    ({ a with phase := phase } : GcAttempt).Young ws' now := by
  have stamped : ∀ {u : Int}, a.phase.startedAt = some u → now ≤ u := fun hu => old.stamp _ hu
  cases h with
  | made => exact ⟨nofun, nofun⟩
  | stamped => exact ⟨fun t ht => by cases ht; exact hnow, old.marker⟩
  | opened u hp | lost u hp => exact ⟨fun t ht => old.stamp t (by rw [hp]; exact ht), nofun⟩
  | wrote u hp =>
    refine ⟨fun t ht => old.stamp t (by rw [hp]; exact ht), fun m hm => ?_⟩
    cases hm
    exact stamped (by rw [hp]; rfl)
  | failed complete ws' _ left =>
    obtain rfl | ⟨u, hp, rfl⟩ := left
    · exact ⟨nofun, old.marker⟩
    · refine ⟨nofun, fun m hm => ?_⟩
      cases hm
      exact stamped (by rw [hp]; rfl)
  | body u left hp =>
    exact ⟨fun t ht => old.stamp t (by rw [hp]; exact ht),
      fun m hm => old.marker m (Removal.apply_marked hm)⟩
  | finished | unregistered => exact ⟨nofun, old.marker⟩
  | cleaned left => exact ⟨nofun, fun m hm => old.marker m (Removal.apply_marked hm)⟩

end AttemptEffect

/-! ## What a pass does -/

variable {p p' : GcPass} {d : Text} {now : Int} {call : PassCall}
variable {workspaces : Text → WorkspaceState}

theorem collects_loopArguments {m : GcMarker} {tokens : List String} :
    (loopArguments ttl [] tokens now).collects m = true ↔
      m.ownerToken ∉ tokens ∧ ttl ≤ now - m.startedAt := by
  simp only [loopArguments, GcArguments.collects]
  grind

theorem collected_iff {tokens : List String} : ws.collected ttl tokens now = true ↔
    ∃ m, ws = .marked m ∧ m.ownerToken ∉ tokens ∧ ttl ≤ now - m.startedAt := by
  cases ws <;>
    simp [WorkspaceState.collected, WorkspaceState.gcMarker, collects_loopArguments]

inductive PassEffect (ttl : Int) (w : GcWorld) (p : GcPass) :
    PassCall → GcPass → (Text → WorkspaceState) → Prop where
  | snapshot : p.phase = .clocked → PassEffect ttl w p .snapshot { p with
      phase := .listing w.tokens []
      present := w.usedDirs.filter fun d => (w.workspaces d).hasMarkerFile
      due := w.usedDirs.filter fun d => (w.workspaces d).collected ttl w.tokens p.now } w.workspaces
  | listed (tokens : List String) (found : List Text) (d : Text) :
      p.phase = .listing tokens found →
      PassEffect ttl w p (.list d) { p with phase := .listing tokens (found ++ [d]) } w.workspaces
  | unlisted (tokens : List String) (found : List Text) : p.phase = .listing tokens found →
      PassEffect ttl w p .listFails { p with phase := .raised } w.workspaces
  | sorted (tokens : List String) (found : List Text) : p.phase = .listing tokens found →
      (∀ d ∈ p.present, (w.workspaces d).hasMarkerFile = true → d ∈ found) →
      PassEffect ttl w p .sort { p with phase := .visiting tokens (sortedPaths found) } w.workspaces
  | ended (tokens : List String) (osError : Bool) : p.phase = .visiting tokens [] →
      PassEffect ttl w p (.visit osError) { p with phase := .done } w.workspaces
  | spared (tokens : List String) (d : Text) (todo : List Text) (osError : Bool) :
      p.phase = .visiting tokens (d :: todo) →
      (osError = true ∨ (w.workspaces d).collected ttl tokens p.now = false) →
      PassEffect ttl w p (.visit osError) { p with phase := .visiting tokens todo } w.workspaces
  | chosen (tokens : List String) (d : Text) (todo : List Text) :
      p.phase = .visiting tokens (d :: todo) →
      (w.workspaces d).collected ttl tokens p.now = true →
      PassEffect ttl w p (.visit false) { p with phase := .removing tokens d todo } w.workspaces
  | removed (tokens : List String) (d : Text) (todo : List Text) :
      p.phase = .removing tokens d todo → PassEffect ttl w p .rmtree
        { p with phase := .visiting tokens todo, removed := p.removed ++ [d] }
        (Function.update w.workspaces d .absent)
  | failed (tokens : List String) (d : Text) (todo : List Text) (left : Removal) :
      p.phase = .removing tokens d todo →
      PassEffect ttl w p (.rmtreeFails left) { p with phase := .raised }
        (Function.update w.workspaces d (left.apply (w.workspaces d)))

theorem passEffect_of_step (h : p.step ttl w call = some (p', workspaces)) :
    PassEffect ttl w p call p' workspaces := by
  cases call with
  | snapshot =>
    simp only [GcPass.step] at h
    split at h <;> cases h
    exact .snapshot (by assumption)
  | list dir =>
    simp only [GcPass.step] at h
    split at h
    · split at h <;> cases h
      exact .listed _ _ _ (by assumption)
    · cases h
  | listFails =>
    simp only [GcPass.step] at h
    split at h <;> cases h
    exact .unlisted _ _ (by assumption)
  | sort =>
    simp only [GcPass.step] at h
    split at h
    · split at h <;> cases h
      exact .sorted _ _ (by assumption) (by assumption)
    · cases h
  | visit osError =>
    simp only [GcPass.step] at h
    split at h
    · cases h
      exact .ended _ _ (by assumption)
    · split at h <;> cases h
      · rename_i hp hc
        obtain ⟨rfl, collected⟩ := hc
        exact .chosen _ _ _ hp collected
      · rename_i hp hc
        exact .spared _ _ _ _ hp (by grind)
    · cases h
  | rmtree =>
    simp only [GcPass.step] at h
    split at h
    · split at h <;> cases h
      exact .removed _ _ _ (by assumption)
    · cases h
  | rmtreeFails left =>
    simp only [GcPass.step] at h
    split at h <;> cases h
    exact .failed _ _ _ left (by assumption)

/-! ## Invariants -/

def PassPhase.tokens : PassPhase → Option (List String)
  | .listing tokens _ | .visiting tokens _ | .removing tokens _ _ => some tokens
  | _ => none

def PassPhase.target : PassPhase → Option Text
  | .removing _ d _ => some d
  | _ => none

/-- A pass that has copied the tokens knows every attempt that is registered: it has its
token, or the attempt is too young. It removes the directory of none. -/
structure GcPass.Sound (w : GcWorld) (p : GcPass) : Prop where
  clock : p.now ≤ w.clock
  known : ∀ tokens ∈ p.phase.tokens, ∀ (i : Nat) a, w.attempts[i]? = some a → a.phase ≠ .done →
    a.owner.token ∈ tokens ∨ a.Young (w.workspaces a.dir) p.now
  target : ∀ d ∈ p.phase.target, d ∈ w.usedDirs ∧
    ∀ (i : Nat) a, w.attempts[i]? = some a → a.dir = d → a.phase = .done

structure GcAttempt.Sound (w : GcWorld) (a : GcAttempt) : Prop where
  dir : a.dir ∈ w.usedDirs
  token : a.owner.token ∈ w.usedTokens
  registered : a.phase ≠ .done → a.owner.token ∈ w.tokens
  fits : a.Fits (w.workspaces a.dir)

structure GcWorld.Inv (w : GcWorld) : Prop where
  attempts : ∀ (i : Nat) a, w.attempts[i]? = some a → a.Sound w
  apart : ∀ (i j : Nat) a b, w.attempts[i]? = some a → w.attempts[j]? = some b → i ≠ j →
    a.dir ≠ b.dir ∧ a.owner.token ≠ b.owner.token
  used : ∀ d, w.workspaces d ≠ .absent → d ∈ w.usedDirs
  passes : ∀ (k : Nat) p, w.passes[k]? = some p → p.Sound w

/-- Attempts that are registered were so before, or are new; none has become older. -/
structure Later (w v : GcWorld) : Prop where
  clock : w.clock ≤ v.clock
  usedDirs : w.usedDirs ⊆ v.usedDirs
  attempts : ∀ (i : Nat) a, v.attempts[i]? = some a → a.phase ≠ .done →
    (∃ b, w.attempts[i]? = some b ∧ b.owner = a.owner ∧ b.dir = a.dir ∧ b.phase ≠ .done ∧
      ∀ now ≤ w.clock, b.Young (w.workspaces b.dir) now → a.Young (v.workspaces a.dir) now) ∨
    a.dir ∉ w.usedDirs ∧ ∀ now, a.Young (v.workspaces a.dir) now

theorem GcPass.Sound.later (h : p.Sound w) (l : Later w v) : p.Sound v := by
  refine ⟨h.clock.trans l.clock, fun tokens htokens i a ha live => ?_, fun d hd => ?_⟩
  · obtain ⟨b, hb, howner, -, hb', keeps⟩ | ⟨-, young⟩ := l.attempts i a ha live
    · obtain known | young := h.known tokens htokens i b hb hb'
      · exact .inl (howner ▸ known)
      · exact .inr (keeps _ h.clock young)
    · exact .inr (young _)
  · obtain ⟨used, others⟩ := h.target d hd
    refine ⟨l.usedDirs used, fun i a ha hdir => ?_⟩
    by_contra live
    obtain ⟨b, hb, -, hdir', hb', -⟩ | ⟨fresh, -⟩ := l.attempts i a ha live
    · exact hb' (others i b hb (hdir'.trans hdir))
    · exact fresh (hdir ▸ used)

/-- A pass keeps what it knows, when the age that it asks for is positive. -/
theorem PassEffect.sound (httl : 0 < ttl) (h : PassEffect ttl w p call p' workspaces)
    (inv : w.Inv) (old : p.Sound w) : p'.Sound w := by
  cases h with
  | snapshot =>
    refine ⟨old.clock, fun tokens htokens i a ha live => .inl ?_, nofun⟩
    obtain rfl : w.tokens = tokens := by simpa [PassPhase.tokens] using htokens
    exact (inv.attempts i a ha).registered live
  | listed tokens found d hp | sorted tokens found hp | spared tokens d todo osError hp
  | removed tokens d todo hp =>
    exact ⟨old.clock, fun tokens' htokens => old.known tokens' (hp ▸ htokens), nofun⟩
  | unlisted | ended | failed => exact ⟨old.clock, nofun, nofun⟩
  | chosen tokens d todo hp collected =>
    have known : ∀ tokens' ∈ (PassPhase.removing tokens d todo).tokens, ∀ (i : Nat) a,
        w.attempts[i]? = some a → a.phase ≠ .done →
        a.owner.token ∈ tokens' ∨ a.Young (w.workspaces a.dir) p.now :=
      fun tokens' htokens => old.known tokens' (hp ▸ htokens)
    refine ⟨old.clock, known, fun e he => ?_⟩
    obtain rfl : d = e := by simpa [PassPhase.target] using he
    obtain ⟨m, hm, unknown, age⟩ := collected_iff.mp collected
    refine ⟨inv.used d (by simp [hm]), fun i a ha hdir => ?_⟩
    by_contra live
    obtain ⟨t, rfl⟩ := (inv.attempts i a ha).fits m (hdir ▸ hm)
    obtain member | young := known tokens rfl i a ha live
    · exact unknown member
    · have := young.marker _ (hdir ▸ hm)
      omega

/-- A pass changes the directory that it removes, and leaves no marker there. -/
theorem PassEffect.changed (h : PassEffect ttl w p call p' workspaces) {e : Text}
    (changed : workspaces e ≠ w.workspaces e) :
    p.phase.target = some e ∧ ∀ m, workspaces e ≠ .marked m := by
  cases h with
  | snapshot | listed | unlisted | sorted | ended | spared | chosen => exact absurd rfl changed
  | removed tokens d todo hp =>
    obtain rfl : e = d := by
      by_contra hne
      simp [hne] at changed
    exact ⟨by rw [hp]; rfl, by simp⟩
  | failed tokens d todo left hp =>
    obtain rfl : e = d := by
      by_contra hne
      simp [hne] at changed
    refine ⟨by rw [hp]; rfl, fun m hm => changed ?_⟩
    rw [hm]
    exact (Removal.apply_marked (by simpa using hm)).symm

/-- A pass writes no marker. -/
theorem PassEffect.marked (h : PassEffect ttl w p call p' workspaces) {e : Text} {m : GcMarker}
    (hm : workspaces e = .marked m) : w.workspaces e = .marked m := by
  by_contra hne
  exact (h.changed fun same => hne (same ▸ hm)).2 m hm

/-! ## Steps of the world -/

variable {action : GcAction}

inductive GcStep (ttl : Int) (w : GcWorld) : GcAction → GcWorld → Prop where
  | tick (clock : Int) : w.clock ≤ clock → GcStep ttl w (.tick clock) { w with clock := clock }
  | register (owner : WorkspaceOwner) (executionId : String) (dir : Text) :
      owner.token ∉ w.usedTokens → dir ∉ w.usedDirs →
      GcStep ttl w (.register owner executionId dir) { w with
        tokens := owner.token :: w.tokens
        usedTokens := owner.token :: w.usedTokens
        usedDirs := dir :: w.usedDirs
        attempts := w.attempts ++ [⟨owner, executionId, dir, .registered⟩] }
  | attempt (i : Nat) (c : AttemptCall) (a : GcAttempt) (phase : AttemptPhase)
      (ws' : WorkspaceState) : w.attempts[i]? = some a →
      AttemptEffect w.clock a (w.workspaces a.dir) c phase ws' →
      GcStep ttl w (.attempt i c) { w with
        tokens := if c = .unregister then w.tokens.filter (· ≠ a.owner.token) else w.tokens
        workspaces := Function.update w.workspaces a.dir ws'
        attempts := w.attempts.set i { a with phase := phase } }
  | startPass : GcStep ttl w .startPass
      { w with passes := w.passes ++ [⟨w.clock, .clocked, [], [], []⟩] }
  | pass (k : Nat) (call : PassCall) (p p' : GcPass) (workspaces : Text → WorkspaceState) :
      w.passes[k]? = some p → PassEffect ttl w p call p' workspaces →
      GcStep ttl w (.pass k call) { w with
        workspaces := workspaces
        passes := w.passes.set k p' }

theorem gcStep_of_step (h : w.step ttl action = some v) : GcStep ttl w action v := by
  cases action with
  | tick clock =>
    simp only [GcWorld.step] at h
    split at h <;> cases h
    exact .tick clock (by assumption)
  | register owner executionId dir =>
    simp only [GcWorld.step] at h
    split at h <;> cases h
    rename_i fresh
    exact .register owner executionId dir fresh.1 fresh.2
  | attempt i c =>
    simp only [GcWorld.step] at h
    split at h
    · rename_i a ha
      obtain ⟨⟨phase, ws'⟩, hstep, rfl⟩ := Option.map_eq_some_iff.mp h
      exact .attempt i c a phase ws' ha (attemptEffect_of_step hstep)
    · cases h
  | startPass =>
    cases h
    exact .startPass
  | pass k call =>
    simp only [GcWorld.step] at h
    split at h
    · rename_i p hp
      obtain ⟨⟨p', workspaces⟩, hstep, rfl⟩ := Option.map_eq_some_iff.mp h
      exact .pass k call p p' workspaces hp (passEffect_of_step hstep)
    · cases h

theorem GcAttempt.Young.mono (h : a.Young ws now) (marked : ∀ m, ws' = .marked m → ws = .marked m) :
    a.Young ws' now :=
  ⟨h.stamp, fun m hm => h.marker m (marked m hm)⟩

theorem GcStep.later (inv : w.Inv) (h : GcStep ttl w action v) : Later w v := by
  -- attempts that take no step, and whose directory gets no new marker
  have same : ∀ (i : Nat) a, w.attempts[i]? = some a → a.phase ≠ .done →
      (∀ m, v.workspaces a.dir = .marked m → w.workspaces a.dir = .marked m) →
      ∃ b, w.attempts[i]? = some b ∧ b.owner = a.owner ∧ b.dir = a.dir ∧ b.phase ≠ .done ∧
        ∀ now ≤ w.clock, b.Young (w.workspaces b.dir) now → a.Young (v.workspaces a.dir) now :=
    fun i a ha live marked => ⟨a, ha, rfl, rfl, live, fun now _ young => young.mono marked⟩
  cases h with
  | tick clock hle =>
    exact ⟨hle, List.Subset.refl _, fun i a ha live => .inl (same i a ha live fun m hm => hm)⟩
  | register owner executionId dir _ fresh =>
    refine ⟨Int.le_refl _, List.subset_cons_self _ _, fun i a ha live => ?_⟩
    obtain ⟨-, rfl⟩ | ⟨-, ha⟩ := (getElem?_concat_iff _ _ i a).mp ha
    · have absent : w.workspaces dir = .absent := by
        by_contra hne
        exact fresh (inv.used dir hne)
      refine .inr ⟨fresh, fun now => ⟨nofun, fun m hm => ?_⟩⟩
      cases absent.symm.trans hm
    · exact .inl (same i a ha live fun m hm => hm)
  | attempt i c b phase ws' hb effect =>
    refine ⟨Int.le_refl _, List.Subset.refl _, fun j a ha live => ?_⟩
    obtain ⟨rfl, rfl⟩ | ⟨hj, ha⟩ := (getElem?_set_iff hb _ j a).mp ha
    · refine .inl ⟨b, hb, rfl, rfl, effect.alive, fun now hnow young => ?_⟩
      simpa using effect.young hnow young
    · have other := (inv.apart j i a b ha hb hj).1
      exact .inl (same j a ha live fun m hm => by simpa [other] using hm)
  | startPass =>
    exact ⟨Int.le_refl _, List.Subset.refl _,
      fun i a ha live => .inl (same i a ha live fun m hm => hm)⟩
  | pass k call p p' workspaces hp effect =>
    exact ⟨Int.le_refl _, List.Subset.refl _,
      fun i a ha live => .inl (same i a ha live fun m hm => effect.marked hm)⟩

theorem GcAttempt.Sound.mono (h : a.Sound w) (dirs : w.usedDirs ⊆ v.usedDirs)
    (usedTokens : w.usedTokens ⊆ v.usedTokens)
    (registered : a.owner.token ∈ w.tokens → a.owner.token ∈ v.tokens)
    (fits : ∀ m, v.workspaces a.dir = .marked m → w.workspaces a.dir = .marked m) : a.Sound v :=
  ⟨dirs h.dir, usedTokens h.token, fun live => registered (h.registered live),
    fun m hm => h.fits m (fits m hm)⟩

theorem GcWorld.Inv.register (inv : w.Inv) {owner : WorkspaceOwner} {executionId : String}
    {dir : Text} (token : owner.token ∉ w.usedTokens) (fresh : dir ∉ w.usedDirs) :
    GcWorld.Inv { w with
      tokens := owner.token :: w.tokens
      usedTokens := owner.token :: w.usedTokens
      usedDirs := dir :: w.usedDirs
      attempts := w.attempts ++ [⟨owner, executionId, dir, .registered⟩] } := by
  have later := (@GcStep.register 0 w owner executionId dir token fresh).later inv
  have absent : w.workspaces dir = .absent := by
    by_contra hne
    exact fresh (inv.used dir hne)
  refine ⟨fun i a ha => ?_, fun i j a b ha hb hne => ?_, fun d hd => ?_,
    fun k p hp => (inv.passes k p hp).later later⟩
  · obtain ⟨-, rfl⟩ | ⟨-, ha⟩ := (getElem?_concat_iff _ _ i a).mp ha
    · refine ⟨List.mem_cons_self, List.mem_cons_self, fun _ => List.mem_cons_self, fun m hm => ?_⟩
      cases absent.symm.trans hm
    · exact (inv.attempts i a ha).mono (List.subset_cons_self _ _) (List.subset_cons_self _ _)
        (List.mem_cons_of_mem _) fun m hm => hm
  · obtain ⟨rfl, rfl⟩ | ⟨-, ha⟩ := (getElem?_concat_iff _ _ i a).mp ha
    · obtain ⟨rfl, rfl⟩ | ⟨-, hb⟩ := (getElem?_concat_iff _ _ j b).mp hb
      · exact absurd rfl hne
      · have other := inv.attempts j b hb
        exact ⟨fun same => fresh (by rw [show dir = b.dir from same]; exact other.dir),
          fun same => token (by rw [show owner.token = b.owner.token from same]; exact other.token)⟩
    · obtain ⟨rfl, rfl⟩ | ⟨-, hb⟩ := (getElem?_concat_iff _ _ j b).mp hb
      · have other := inv.attempts i a ha
        exact ⟨fun same => fresh (by rw [← show a.dir = dir from same]; exact other.dir),
          fun same => token (by
            rw [← show a.owner.token = owner.token from same]
            exact other.token)⟩
      · exact inv.apart i j a b ha hb hne
  · exact List.mem_cons_of_mem _ (inv.used d hd)

theorem GcWorld.Inv.attempt (inv : w.Inv) {i : Nat} (ha : w.attempts[i]? = some a)
    (effect : AttemptEffect w.clock a (w.workspaces a.dir) c phase ws') :
    GcWorld.Inv { w with
      tokens := if c = .unregister then w.tokens.filter (· ≠ a.owner.token) else w.tokens
      workspaces := Function.update w.workspaces a.dir ws'
      attempts := w.attempts.set i { a with phase := phase } } := by
  have later := (@GcStep.attempt 0 w i c a phase ws' ha effect).later inv
  have self := inv.attempts i a ha
  refine ⟨fun j b hb => ?_, fun j k b e hb he hne => ?_, fun d hd => ?_,
    fun k p hp => (inv.passes k p hp).later later⟩
  · obtain ⟨-, rfl⟩ | ⟨hj, hb⟩ := (getElem?_set_iff ha _ j b).mp hb
    · refine ⟨self.dir, self.token, fun live => ?_, ?_⟩
      · have kept : c ≠ .unregister := fun hc => live (effect.done_iff.mpr hc)
        simpa [kept] using self.registered effect.alive
      · simpa using effect.fits self.fits
    · obtain ⟨dirs, tokens⟩ := inv.apart j i b a hb ha hj
      refine (inv.attempts j b hb).mono (List.Subset.refl _) (List.Subset.refl _) (fun member => ?_)
        fun m hm => ?_
      · split
        · exact List.mem_filter.mpr ⟨member, by simpa using tokens⟩
        · exact member
      · simpa [dirs] using hm
  · obtain ⟨rfl, rfl⟩ | ⟨hj, hb⟩ := (getElem?_set_iff ha _ j b).mp hb
    · obtain ⟨rfl, rfl⟩ | ⟨hk, he⟩ := (getElem?_set_iff ha _ k e).mp he
      · exact absurd rfl hne
      · exact inv.apart j k a e ha he hne
    · obtain ⟨rfl, rfl⟩ | ⟨hk, he⟩ := (getElem?_set_iff ha _ k e).mp he
      · exact inv.apart j k b a (by assumption) ha hne
      · exact inv.apart j k b e hb he hne
  · by_cases hdir : d = a.dir
    · exact hdir ▸ self.dir
    · exact inv.used d (by simpa [hdir] using hd)

theorem GcWorld.Inv.step (httl : 0 < ttl) (inv : w.Inv) (h : GcStep ttl w action v) : v.Inv := by
  have later := h.later inv
  cases h with
  | tick clock hle =>
    refine ⟨fun i a ha => ?_, inv.apart, inv.used, fun k p hp => (inv.passes k p hp).later later⟩
    exact (inv.attempts i a ha).mono (List.Subset.refl _) (List.Subset.refl _) id fun m hm => hm
  | register owner executionId dir token fresh =>
    exact inv.register token fresh
  | attempt i c b phase ws' hb effect => exact inv.attempt hb effect
  | startPass =>
    refine ⟨fun i a ha => ?_, inv.apart, inv.used, fun k p hp => ?_⟩
    · exact (inv.attempts i a ha).mono (List.Subset.refl _) (List.Subset.refl _) id fun m hm => hm
    · obtain ⟨-, rfl⟩ | ⟨-, hp⟩ := (getElem?_concat_iff _ _ k p).mp hp
      · exact ⟨Int.le_refl _, nofun, nofun⟩
      · exact (inv.passes k p hp).later later
  | pass k call p p' workspaces hp effect =>
    refine ⟨fun i a ha => ?_, inv.apart, fun d hd => ?_, fun j q hq => ?_⟩
    · exact (inv.attempts i a ha).mono (List.Subset.refl _) (List.Subset.refl _) id fun m hm =>
        effect.marked hm
    · by_cases same : workspaces d = w.workspaces d
      · exact inv.used d (same ▸ hd)
      · exact ((inv.passes k p hp).target d (effect.changed same).1).1
    · obtain ⟨rfl, rfl⟩ | ⟨-, hq⟩ := (getElem?_set_iff hp _ j q).mp hq
      · exact (effect.sound httl inv (inv.passes j p hp)).later later
      · exact (inv.passes j q hq).later later

theorem GcWorld.Inv.init (h : w.Initial) : w.Inv :=
  ⟨by simp [h.attempts], by simp [h.attempts], h.used, by simp [h.passes]⟩

theorem gcMachine_inv (httl : 0 < ttl) (h : (gcMachine ttl).Reachable w) : w.Inv :=
  h.invariant (fun _ => .init) fun _ _ _ _ inv _ hst => inv.step httl (gcStep_of_step hst)

/-- A pass leaves the directories of attempts that are registered. -/
theorem GcWorld.Inv.spares (inv : w.Inv) {k : Nat} (h : w.step ttl (.pass k call) = some v)
    {i : Nat} (ha : w.attempts[i]? = some a) (live : a.phase ≠ .done) :
    v.workspaces a.dir = w.workspaces a.dir := by
  obtain ⟨p, p', workspaces, hp, effect, rfl⟩ : ∃ p p' workspaces, w.passes[k]? = some p ∧
      PassEffect ttl w p call p' workspaces ∧
      v = { w with workspaces := workspaces, passes := w.passes.set k p' } := by
    cases gcStep_of_step h with
    | pass k call p p' workspaces hp effect => exact ⟨p, p', workspaces, hp, effect, rfl⟩
  by_contra changed
  have target := (effect.changed changed).1
  exact live (((inv.passes k p hp).target a.dir target).2 i a ha rfl)

end Perago
