import Perago.AttemptInvariants
import Perago.LakefsServer

/-!
# What calls of LakeFS keep

A condition on the server that does not depend on the number of calls made is kept
by all that an attempt does between its writes to LakeFS.
-/

namespace Perago

open Effect

variable {X α : Type} {script : Script} {fresh : FreshId}

namespace LakeFS

/-- Servers that differ in the number of calls only. -/
structure Same (s t : LakeFS) : Prop where
  commits : t.commits = s.commits
  heads : t.heads = s.heads
  created : t.created = s.created
  deletions : t.deletions = s.deletions
  moves : t.moves = s.moves

theorem Same.refl (s : LakeFS) : s.Same s := ⟨rfl, rfl, rfl, rfl, rfl⟩

/-- A condition that the number of calls does not matter to. -/
def Steady (P : LakeFS → Prop) : Prop := ∀ s t, Same s t → P s → P t

variable {s : LakeFS} {P : LakeFS → Prop}

/-- A call ends in the server it was made on, or in the one its effect leaves. -/
theorem serve_ends {Q : α → LakeFS → Prop}
    {effect : Nat → LakeFS → Except PyException (α × LakeFS)} (steady : Steady P) (hs : P s)
    (hq : ∀ n t a u, Same s t → P t → effect n t = .ok (a, u) → Q a u ∧ P u) :
    Ends (fun a u => Q a u ∧ P u) (fun _ => P) P (serve script effect s) := by
  have same : Same s { s with calls := s.calls + 1 } := ⟨rfl, rfl, rfl, rfl, rfl⟩
  have served : P { s with calls := s.calls + 1 } := steady _ _ same hs
  unfold serve
  dsimp only
  cases script.fault s.calls with
  | crashBefore => exact served
  | before exc => exact served
  | none =>
    dsimp only
    split
    · rename_i a u he
      exact hq _ _ a u same served he
    · exact served
  | after exc =>
    dsimp only
    split
    · rename_i a u he
      exact (hq _ _ a u same served he).2
    · exact served
  | crashAfter =>
    dsimp only
    split
    · rename_i a u he
      exact (hq _ _ a u same served he).2
    · exact served

/-- A call that reads keeps a steady condition, and answers from the server. -/
theorem read_ends {answer : Nat → LakeFS → Except PyException α} (steady : Steady P) (hs : P s) :
    Ends (fun a u => (∃ n, answer n u = .ok a) ∧ P u) (fun _ => P) P (read script answer s) := by
  refine serve_ends steady hs fun n t a u _ ht he => ?_
  cases hanswer : answer n t with
  | error exc => simp [hanswer, Except.map] at he
  | ok b =>
    simp only [hanswer, Except.map, Except.ok.injEq, Prod.mk.injEq] at he
    obtain ⟨rfl, rfl⟩ := he
    exact ⟨⟨n, hanswer⟩, ht⟩

theorem read_keeps {answer : Nat → LakeFS → Except PyException α} (steady : Steady P) :
    Keeps P (fun _ => True) P (read script answer) :=
  fun _ hs => (read_ends steady hs).mono (fun _ _ h => h.2) (fun _ _ h => ⟨trivial, h⟩)
    fun _ h => h

/-- A condition that new commits and moved heads keep. -/
structure Moving (P : LakeFS → Prop) : Prop where
  steady : Steady P
  setHead : ∀ s k id, P s → P (s.setHead k id)
  commits : ∀ s c, P s → P { s with commits := c :: s.commits }

/-- A condition that every change of the server keeps. -/
structure Lasting (P : LakeFS → Prop) : Prop extends Moving P where
  dropHead : ∀ s k, P s → P (s.dropHead k)
  created : ∀ s l, P s → P { s with created := l }
  deletions : ∀ s l, P s → P { s with deletions := l }

theorem serve_keeps {effect : Nat → LakeFS → Except PyException (α × LakeFS)} (steady : Steady P)
    (keep : ∀ n t a u, P t → effect n t = .ok (a, u) → P u) :
    Keeps P (fun _ => True) P (serve script effect) :=
  fun _ hs => (serve_ends (Q := fun _ => P) steady hs fun n t a u _ ht he =>
    ⟨keep n t a u ht he, keep n t a u ht he⟩).mono (fun _ _ h => h.2) (fun _ _ h => ⟨trivial, h⟩)
      fun _ h => h

variable {key : BranchKey} {ref : String}

theorem commitOn_moving (moving : Moving P) (hs : P s) : P (s.commitOn fresh key ref).2 :=
  moving.setHead _ _ _ (moving.commits _ _ hs)

theorem createBranch_keeps (lasting : Lasting P) :
    Keeps P (fun _ => True) P (createBranch script key ref) := by
  refine serve_keeps lasting.steady fun n t _ u ht he => ?_
  split at he
  · cases he
  · split at he <;> cases he
    exact lasting.created _ _ (lasting.setHead _ _ _ ht)

theorem commit_keeps (moving : Moving P) :
    Keeps P (fun _ => True) P (commit script fresh key) := by
  refine serve_keeps moving.steady fun n t _ u ht he => ?_
  split at he <;> cases he
  exact commitOn_moving moving ht

theorem getCommit_keeps (steady : Steady P) :
    Keeps P (fun _ => True) P (getCommit script key) :=
  read_keeps steady

theorem mergeInto_keeps {source : BranchKey} (moving : Moving P) :
    Keeps P (fun _ => True) P (mergeInto script fresh source key) := by
  refine serve_keeps moving.steady fun n t _ u ht he => ?_
  split at he <;> cases he
  exact commitOn_moving moving ht

theorem hardResetBranch_keeps (moving : Moving P) :
    Keeps P (fun _ => True) P (hardResetBranch script key ref) := by
  refine serve_keeps moving.steady fun n t _ u ht he => ?_
  split at he
  · split at he <;> cases he
    exact moving.setHead _ _ _ ht
  · cases he

theorem deleteBranch_keeps (lasting : Lasting P) :
    Keeps P (fun _ => True) P (deleteBranch script key) := by
  refine .bind (fun s hs => lasting.deletions s _ hs) fun _ => ?_
  refine serve_keeps lasting.steady fun n t _ u ht he => ?_
  split at he <;> cases he
  exact lasting.dropHead _ _ ht

/-- Commits are never lost. -/
theorem commits_lasting (old : List Commit) : Lasting fun s => ∀ c ∈ old, c ∈ s.commits where
  steady s t same h c hc := by
    rw [same.commits]
    exact h c hc
  setHead _ _ _ h := h
  dropHead _ _ h := h
  commits _ _ h c hc := List.mem_cons_of_mem _ (h c hc)
  created _ _ h := h
  deletions _ _ h := h

end LakeFS

/-! ## In the world of a worker -/

/-- A condition on the LakeFS part of the world. -/
def OnLakefs (P : LakeFS → Prop) (W : World X) : Prop := P W.lakefs

variable {P : LakeFS → Prop}

theorem onLocal_keeps (f : Proc PyException X α) :
    Keeps (OnLakefs P) (fun _ => True) (OnLakefs P) (onLocal f) := by
  intro W hW
  refine .zoom ?_
  generalize f W.local' = call
  obtain ⟨o, x⟩ := call
  cases o
  · exact hW
  · exact ⟨trivial, hW⟩
  · exact hW

theorem onLakefs_ends {f : Proc PyException LakeFS α} {Q : α → LakeFS → Prop}
    {E : PyException → LakeFS → Prop} {C : LakeFS → Prop} {W : World X}
    (h : Ends Q E C (f W.lakefs)) :
    Ends (fun a => OnLakefs (Q a)) (fun e => OnLakefs (E e)) (OnLakefs C) (onLakefs f W) :=
  .zoom h

theorem onLakefs_keeps {f : Proc PyException LakeFS α} {V : PyException → Prop}
    (hf : Keeps P V P f) :
    Keeps (OnLakefs P) V (OnLakefs P) (onLakefs f : Proc PyException (World X) α) :=
  fun W hW => onLakefs_ends (hf W.lakefs hW)

theorem Host.onWorld_keeps (host : Host X) :
    host.onWorld.Keeps (OnLakefs P) (fun _ => True) (OnLakefs P) where
  uuid4Hex _ h := h
  registerOwner _ _ h := h
  unregisterOwner _ _ h := h
  mkdir _ := onLocal_keeps _
  writeMarker _ _ := onLocal_keeps _
  rglob _ := onLocal_keeps _
  isFile _ := onLocal_keeps _
  isDir _ := onLocal_keeps _
  globCount _ _ := onLocal_keeps _
  readlink _ := onLocal_keeps _
  readBytes _ := onLocal_keeps _
  fileSize _ := onLocal_keeps _
  writeBytes _ _ := onLocal_keeps _
  rmtree _ := onLocal_keeps _

/-- The calls of the SDK that only read the commit graph. -/
theorem objects_keeps (steady : LakeFS.Steady P) (repository ref : String) (path : Text) :
    Keeps (OnLakefs P) (fun _ => True) (OnLakefs P)
      ((lakefsClient script fresh : LakeFSClient (World X)).objects repository ref path) := by
  simp only [lakefsClient]
  exact onLakefs_keeps (LakeFS.read_keeps steady)

theorem readObject_keeps (steady : LakeFS.Steady P) (repository ref : String) (path : Text) :
    Keeps (OnLakefs P) (fun _ => True) (OnLakefs P)
      ((lakefsClient script fresh : LakeFSClient (World X)).readObject repository ref path) := by
  simp only [lakefsClient]
  exact onLakefs_keeps (LakeFS.read_keeps steady)

theorem deleteObject_keeps (steady : LakeFS.Steady P) (repository branch : String) (path : Text) :
    Keeps (OnLakefs P) (fun _ => True) (OnLakefs P)
      ((lakefsClient script fresh : LakeFSClient (World X)).deleteObject repository branch
        path) := by
  simp only [lakefsClient]
  exact onLakefs_keeps (LakeFS.read_keeps steady)

theorem uploadObject_keeps (steady : LakeFS.Steady P) (repository branch : String) (path : Text)
    (bytes : Bytes) : Keeps (OnLakefs P) (fun _ => True) (OnLakefs P)
      ((lakefsClient script fresh : LakeFSClient (World X)).uploadObject repository branch path
        bytes) := by
  simp only [lakefsClient]
  exact onLakefs_keeps (LakeFS.read_keeps steady)

variable (job : Job X)

/-- Downloads read LakeFS, and the rest of an attempt's work is local. -/
theorem Job.workspaceAttempt_keeps (script : Script) (fresh : FreshId)
    (steady : LakeFS.Steady P) :
    (job.workspaceAttempt script fresh).Keeps (OnLakefs P) (OnLakefs P) where
  fn _ _ _ := onLocal_keeps _
  downloadWorkspace i spec dir := by
    refine (objects_keeps steady _ _ _).bind fun items => ?_
    refine .bind (.ofExcept fun _ _ => trivial) fun files => .each fun file => ?_
    exact (readObject_keeps steady _ _ _).bind fun bytes => onLocal_keeps _
  loadCurrentAttempt _ := onLocal_keeps _
  runtimeTimerEnter metrics hm _ _ h := by
    obtain ⟨m, -, rfl⟩ := Option.map_eq_some_iff.mp hm
    exact h
  runtimeTimerExit metrics hm _ _ h := by
    obtain ⟨m, -, rfl⟩ := Option.map_eq_some_iff.mp hm
    exact h
  runtimeHistogram metrics hm _ _ _ h := by
    obtain ⟨m, -, rfl⟩ := Option.map_eq_some_iff.mp hm
    exact h

theorem publishWorkspace_keeps (moving : LakeFS.Moving P) (staged : StagedWorkspace)
    (i : WorkspaceInput) : Keeps (OnLakefs P) (fun _ => True) (OnLakefs P)
      ((job.runtime script fresh).publishWorkspace staged i) := by
  refine .bind (onLakefs_keeps (LakeFS.getCommit_keeps moving.steady)) fun head => ?_
  split
  · unfold LakeFSWorkspaceRuntime.mergeStagedWorkspace
    split
    · exact onLakefs_keeps (LakeFS.mergeInto_keeps moving)
    · exact onLakefs_keeps (LakeFS.mergeInto_keeps moving)
  · split
    · exact .bind (onLakefs_keeps (LakeFS.hardResetBranch_keeps moving)) fun _ => .pure
    · exact .raise trivial

theorem completeNoopWorkspace_keeps (moving : LakeFS.Moving P) (i : WorkspaceInput) :
    Keeps (OnLakefs P) (fun _ => True) (OnLakefs P)
      ((job.runtime script fresh).completeNoopWorkspace i) := by
  refine .bind (onLakefs_keeps (LakeFS.getCommit_keeps moving.steady)) fun head => ?_
  split
  · exact .pure
  · split
    · exact .bind (onLakefs_keeps (LakeFS.hardResetBranch_keeps moving)) fun _ => .pure
    · exact .raise trivial

theorem stageOnBranch_keeps (script : Script) (fresh : FreshId) (moving : LakeFS.Moving P)
    (dir : Path) (i : WorkspaceInput) (spec : WorkspaceSpec) (branch : String) :
    Keeps (OnLakefs P) (fun _ => True) (OnLakefs P)
      ((job.runtime script fresh).stageOnBranch job.host.onWorld dir i spec branch) := by
  have host := job.host.onWorld_keeps (P := P)
  refine (objects_keeps moving.steady _ _ _).bind fun items => ?_
  refine (host.rglob dir).bind fun tree => ?_
  refine .bind (.ofExcept fun _ _ => trivial) fun plan => ?_
  refine .bind (.each fun path => deleteObject_keeps moving.steady _ _ path) fun _ => ?_
  refine .bind (.each fun file => (host.readBytes _).bind fun bytes =>
    uploadObject_keeps moving.steady _ _ _ _) fun _ => ?_
  exact .bind (onLakefs_keeps (LakeFS.commit_keeps moving)) fun commit => .pure

/-- What every change of the server keeps, an attempt keeps. -/
theorem Job.workspaceAttempt_keepsAll (script : Script) (fresh : FreshId)
    (lasting : LakeFS.Lasting P) :
    (job.workspaceAttempt script fresh).KeepsAll (OnLakefs P) (OnLakefs P) where
  toKeeps := job.workspaceAttempt_keeps script fresh lasting.steady
  stageWorkspace dir i spec execution :=
    .bind (onLakefs_keeps (LakeFS.createBranch_keeps lasting)) fun _ =>
      stageOnBranch_keeps job script fresh lasting.toMoving dir i spec _
  publishWorkspace staged i _ _ := publishWorkspace_keeps job lasting.toMoving staged i
  cleanupStaging staged := onLakefs_keeps (LakeFS.deleteBranch_keeps lasting)
  completeNoopWorkspace noop hnoop i _ _ := by
    cases hnoop
    exact completeNoopWorkspace_keeps job lasting.toMoving i

/-- An attempt keeps what every change of the server keeps. -/
theorem Job.run_lasting {W : World X} (script : Script) (fresh : FreshId)
    (lasting : LakeFS.Lasting P) (hW : P W.lakefs) :
    P (job.run script fresh W).2.lakefs := by
  have keeps := runWorkspaceTaskAttempt_keeps job.host.onWorld_keeps
    (job.workspaceAttempt_keepsAll script fresh lasting)
  exact always_iff.mp (keeps.ends (s := W) hW)

end Perago
