import Perago.LakefsInvariants
import Perago.Transition.Machine

/-!
# The publication protocol

While one step of a workflow is tried again and again on a branch, the head of the
branch is the input commit of the step or a child of it. An output is accepted only
as the head, so the accepted outputs form one line of history.
-/

namespace Perago

open Effect Transition

/-! ## The target branch during one step -/

namespace LakeFS

/-- `h` is a commit whose first parent is `A`. -/
def ChildOf (s : LakeFS) (A h : String) : Prop :=
  ∃ c ∈ s.commits, c.id = h ∧ c.parents.head? = some A

/-- The heads that a step with input `A` may leave on its branch. -/
def Near (s : LakeFS) (A h : String) : Prop := h = A ∨ s.ChildOf A h

/-- The target branch of a step with input commit `A`, now and at every moment that
`moves` remembers; no commit of `known` has been lost. -/
structure OnTarget (key : BranchKey) (A : String) (known : List String) (s : LakeFS) : Prop where
  ids_nodup : s.ids.Nodup
  heads_known : ∀ k id, s.heads k = some id → id ∈ s.ids
  input : A ∈ s.ids
  kept : ∀ id ∈ known, id ∈ s.ids
  head : ∃ h, s.heads key = some h ∧ s.Near A h
  moves : ∀ m ∈ s.moves, m.1 = key → ∃ h, m.2 = some h ∧ s.Near A h

/-- A child of `A` that is none of the commits of `known`. -/
def FreshChild (s : LakeFS) (A : String) (known : List String) (h : String) : Prop :=
  s.ChildOf A h ∧ h ∉ known

/-- The head of the target is `ref`. -/
structure Output (key : BranchKey) (A : String) (known : List String) (ref : String)
    (s : LakeFS) : Prop extends
    OnTarget key A known s where
  output : s.heads key = some ref

variable {key k : BranchKey} {A h ref : String} {known : List String} {s t : LakeFS}

theorem ChildOf.mono (h' : s.ChildOf A h) (grows : ∀ c ∈ s.commits, c ∈ t.commits) :
    t.ChildOf A h := by
  obtain ⟨c, hc, rest⟩ := h'
  exact ⟨c, grows c hc, rest⟩

theorem FreshChild.mono (h' : s.FreshChild A known h) (grows : ∀ c ∈ s.commits, c ∈ t.commits) :
    t.FreshChild A known h := ⟨h'.1.mono grows, h'.2⟩

theorem Near.mono (h' : s.Near A h) (grows : ∀ c ∈ s.commits, c ∈ t.commits) : t.Near A h :=
  h'.imp id fun child => child.mono grows

theorem ChildOf.mem_ids (h' : s.ChildOf A h) : h ∈ s.ids := by
  obtain ⟨c, hc, rfl, -⟩ := h'
  exact List.mem_map_of_mem hc

theorem onTarget_steady : Steady (OnTarget key A known) := by
  intro s t same h
  have ids : t.ids = s.ids := by simp [LakeFS.ids, same.commits]
  have near : ∀ x, s.Near A x → t.Near A x := fun x hx =>
    hx.mono fun c hc => by rw [same.commits]; exact hc
  refine ⟨ids ▸ h.ids_nodup, ?_, ids ▸ h.input, ids ▸ h.kept, ?_, ?_⟩
  · intro k id hid
    rw [same.heads] at hid
    exact ids ▸ h.heads_known k id hid
  · obtain ⟨x, hx, nearx⟩ := h.head
    exact ⟨x, by rw [same.heads, hx], near x nearx⟩
  · intro m hm hk
    rw [same.moves] at hm
    obtain ⟨x, hx, nearx⟩ := h.moves m hm hk
    exact ⟨x, hx, near x nearx⟩

theorem output_steady : Steady (Output key A known ref) := fun s t same h =>
  { onTarget_steady s t same h.toOnTarget with output := by rw [same.heads, h.output] }

/-- A branch is given a known head; on the target it has to be near the input. -/
theorem OnTarget.setHead (ht : OnTarget key A known s) {id : String} (reachable : id ∈ s.ids)
    (near : k = key → s.Near A id) : OnTarget key A known (s.setHead k id) := by
  refine ⟨ht.ids_nodup, ?_, ht.input, ht.kept, ?_, ?_⟩
  · intro k' id' hid
    by_cases hk : k' = k
    · subst hk
      have : id = id' := by simpa [LakeFS.setHead] using hid
      exact this ▸ reachable
    · exact ht.heads_known k' id' (by simpa [LakeFS.setHead, hk] using hid)
  · by_cases hk : k = key
    · subst hk
      exact ⟨id, by simp [LakeFS.setHead], near rfl⟩
    · obtain ⟨x, hx, nearx⟩ := ht.head
      exact ⟨x, by simpa [LakeFS.setHead, Ne.symm hk] using hx, nearx⟩
  · intro m hm hmk
    obtain hm | hm := List.mem_append.mp hm
    · exact ht.moves m hm hmk
    · obtain rfl := List.mem_singleton.mp hm
      exact ⟨id, rfl, near hmk⟩

/-- A new commit changes nothing for the target. -/
theorem OnTarget.grow (ht : OnTarget key A known s) {c : Commit} (fresh : c.id ∉ s.ids) :
    OnTarget key A known { s with commits := c :: s.commits } := by
  have near : ∀ x, s.Near A x → LakeFS.Near { s with commits := c :: s.commits } A x :=
    fun x hx => hx.mono fun c' hc' => List.mem_cons_of_mem c hc'
  refine ⟨List.nodup_cons.mpr ⟨fresh, ht.ids_nodup⟩, ?_, List.mem_cons_of_mem _ ht.input,
    fun id hid => List.mem_cons_of_mem _ (ht.kept id hid), ?_, ?_⟩
  · exact fun k id hid => List.mem_cons_of_mem _ (ht.heads_known k id hid)
  · obtain ⟨x, hx, nearx⟩ := ht.head
    exact ⟨x, hx, near x nearx⟩
  · intro m hm hk
    obtain ⟨x, hx, nearx⟩ := ht.moves m hm hk
    exact ⟨x, hx, near x nearx⟩

/-- A commit on top of `A` is a fresh child of `A`. -/
theorem OnTarget.commitOn (ht : OnTarget key A known s) (fresh : FreshId) :
    OnTarget key A known (s.commitOn fresh k A).2 ∧
      (s.commitOn fresh k A).2.FreshChild A known (s.commitOn fresh k A).1 := by
  have child : LakeFS.ChildOf { s with commits := ⟨fresh.val s.ids, [A]⟩ :: s.commits } A
      (fresh.val s.ids) := ⟨_, List.mem_cons_self, rfl, rfl⟩
  exact ⟨(ht.grow (fresh.2 _)).setHead child.mem_ids fun _ => .inr child, child,
    fun old => fresh.2 _ (ht.kept _ old)⟩

/-- A staging branch while the workspace is synchronised to it. -/
structure Open (key k : BranchKey) (A : String) (known : List String) (s : LakeFS) : Prop where
  target : OnTarget key A known s
  head : s.heads k = some A
  other : k ≠ key

theorem open_steady : Steady (Open key k A known) := fun s t same h =>
  ⟨onTarget_steady s t same h.target, by rw [same.heads, h.head], h.other⟩

/-! ## The calls of LakeFS -/

variable {script : Script} {fresh : FreshId}

theorem createBranch_ends (ht : OnTarget key A known s) :
    Ends (fun _ => Open key k A known) (fun _ => OnTarget key A known) (OnTarget key A known)
      (createBranch script k A s) := by
  refine (serve_ends (Q := fun _ t => t.heads k = some A ∧ k ≠ key) onTarget_steady ht
    fun n t _ u _ htt he => ?_).mono (fun _ _ h => ⟨h.2, h.1.1, h.1.2⟩) (fun _ _ h => h)
    fun _ h => h
  cases hk : t.heads k with
  | some id => simp [hk] at he
  | none =>
    simp only [hk, if_pos htt.input, Except.ok.injEq, Prod.mk.injEq, true_and] at he
    subst he
    have other : k ≠ key := by
      rintro rfl
      obtain ⟨x, hx, -⟩ := htt.head
      rw [hk] at hx
      cases hx
    have moved := htt.setHead (k := k) htt.input fun hk => absurd hk other
    exact ⟨⟨by simp [LakeFS.setHead], other⟩,
      ⟨moved.ids_nodup, moved.heads_known, moved.input, moved.kept, moved.head, moved.moves⟩⟩

theorem commit_ends (ht : OnTarget key A known s) (hk : s.heads k = some A) :
    Ends (fun id t => t.FreshChild A known id ∧ OnTarget key A known t)
      (fun _ => OnTarget key A known) (OnTarget key A known) (commit script fresh k s) := by
  refine serve_ends onTarget_steady ht fun n t id u same htt he => ?_
  rw [show t.head k = .ok A by simp [LakeFS.head, same.heads, hk]] at he
  cases he
  obtain ⟨target, child⟩ := htt.commitOn fresh
  exact ⟨child, target⟩

/-- The commit at the head of the target, as the SDK presents it. -/
theorem getCommit_ends {P : LakeFS → Prop} (steady : Steady P)
    (onTarget : ∀ s, P s → OnTarget key A known s) (hs : P s) :
    Ends (fun c t => (t.heads key = some c.id ∧ (c.id = A ∨ firstParentId c = some A)) ∧ P t)
      (fun _ => OnTarget key A known) (OnTarget key A known) (getCommit script key s) := by
  refine (read_ends steady hs).mono (fun c t hc => ?_) (fun _ _ => onTarget _) fun _ => onTarget _
  obtain ⟨⟨n, answer⟩, ht⟩ := hc
  refine ⟨?_, ht⟩
  have target := onTarget t ht
  obtain ⟨x, hx, near⟩ := target.head
  rw [show t.head key = .ok x by simp [LakeFS.head, hx]] at answer
  dsimp only at answer
  split at answer
  · rename_i commit found
    cases answer
    have id : commit.id = x := by simpa using List.find?_some found
    refine ⟨by rw [id, hx], near.imp (fun hA => id.trans hA) fun child => ?_⟩
    obtain ⟨c, hc, hcid, hparents⟩ := child
    have same : commit = c := List.inj_on_of_nodup_map target.ids_nodup
      (List.mem_of_find?_eq_some found) hc (id.trans hcid.symm)
    subst same
    cases hp : commit.parents with
    | nil => simp [hp] at hparents
    | cons first rest => simpa [firstParentId, hp] using hparents
  · cases answer

theorem mergeInto_ends {source : BranchKey} (ht : OnTarget key A known s)
    (head : s.heads key = some A) :
    Ends (fun ref t => Output key A known ref t ∧ t.FreshChild A known ref)
      (fun _ => OnTarget key A known) (OnTarget key A known)
      (mergeInto script fresh source key s) := by
  refine (serve_ends (Q := fun ref t => t.heads key = some ref ∧ t.FreshChild A known ref)
    onTarget_steady ht fun n t ref u same htt he => ?_).mono
    (fun _ _ h => ⟨⟨h.2, h.1.1⟩, h.1.2⟩) (fun _ _ h => h) fun _ h => h
  rw [show t.head key = .ok A by simp [LakeFS.head, same.heads, head]] at he
  cases hs : t.head source with
  | error exc => simp [hs] at he
  | ok other =>
    simp only [hs, Except.ok.injEq] at he
    obtain ⟨target, child⟩ := htt.commitOn (k := key) fresh
    obtain rfl : (t.commitOn fresh key A).1 = ref := congrArg Prod.fst he
    obtain rfl : (t.commitOn fresh key A).2 = u := congrArg Prod.snd he
    exact ⟨⟨by simp [LakeFS.commitOn, LakeFS.setHead], child⟩, target⟩

theorem hardResetBranch_ends (ht : OnTarget key A known s) (near : s.Near A ref) :
    Ends (fun _ t => Output key A known ref t ∧ t.commits = s.commits)
      (fun _ => OnTarget key A known) (OnTarget key A known)
      (hardResetBranch script key ref s) := by
  refine (serve_ends (Q := fun _ t => t.heads key = some ref ∧ t.commits = s.commits)
    onTarget_steady ht fun n t _ u same htt he => ?_).mono
    (fun _ _ h => ⟨⟨h.2, h.1.1⟩, h.1.2⟩) (fun _ _ h => h) fun _ h => h
  obtain ⟨x, hx, -⟩ := htt.head
  rw [show t.head key = .ok x by simp [LakeFS.head, hx]] at he
  dsimp only at he
  split at he
  · rename_i reachable
    cases he
    refine ⟨⟨by simp [LakeFS.setHead], same.commits⟩,
      htt.setHead reachable fun _ => near.mono fun c hc => ?_⟩
    rw [same.commits]
    exact hc
  · cases he

/-! ## Deleting the staging branch -/

/-- A condition that a deletion of another branch does not matter to. -/
structure Tolerant (key : BranchKey) (P : LakeFS → Prop) : Prop where
  steady : Steady P
  deletions : ∀ s l, P s → P { s with deletions := l }
  dropHead : ∀ s k, k ≠ key → P s → P (s.dropHead k)

/-- Nothing but the target's head and the commits matter, on a target near the input. -/
theorem tolerant_head (φ : Option String → List Commit → Prop) :
    Tolerant key fun s => OnTarget key A known s ∧ φ (s.heads key) s.commits where
  steady s t same h :=
    ⟨onTarget_steady s t same h.1, by rw [same.heads, same.commits]; exact h.2⟩
  deletions s l h :=
    ⟨⟨h.1.ids_nodup, h.1.heads_known, h.1.input, h.1.kept, h.1.head, h.1.moves⟩, h.2⟩
  dropHead s k hk h := by
    have kept : (s.dropHead k).heads key = s.heads key := by
      simp [LakeFS.dropHead, Function.update_of_ne (Ne.symm hk)]
    refine ⟨⟨h.1.ids_nodup, fun k' id hid => ?_, h.1.input, h.1.kept, ?_, ?_⟩, kept ▸ h.2⟩
    · by_cases hk' : k' = k
      · subst hk'
        simp [LakeFS.dropHead] at hid
      · exact h.1.heads_known k' id (by simpa [LakeFS.dropHead, hk'] using hid)
    · obtain ⟨x, hx, near⟩ := h.1.head
      exact ⟨x, kept.trans hx, near⟩
    · intro m hm hmk
      obtain hm | hm := List.mem_append.mp hm
      · exact h.1.moves m hm hmk
      · obtain rfl := List.mem_singleton.mp hm
        exact absurd hmk hk

theorem deleteBranch_tolerates (script : Script) {P : LakeFS → Prop}
    (tolerant : Tolerant key P) (hk : k ≠ key) :
    Keeps P (fun _ => True) P (deleteBranch script k) := by
  intro s hs
  refine .bind (Q := fun _ => P) (tolerant.deletions s _ hs) fun _ t ht => ?_
  refine (serve_ends (Q := fun _ => P) tolerant.steady ht fun n u _ v _ hu he => ?_).mono
    (fun _ _ h => h.2) (fun _ _ h => ⟨trivial, h⟩) fun _ h => h
  cases hhead : u.head k with
  | error exc => simp [hhead] at he
  | ok x =>
    simp only [hhead, Except.ok.injEq, Prod.mk.injEq, true_and] at he
    subst he
    exact ⟨tolerant.dropHead u k hk hu, tolerant.dropHead u k hk hu⟩

end LakeFS

/-! ## The runtime -/

open LakeFS

/-- The branch that a workspace reference is on. -/
def WorkspaceRef.target (r : WorkspaceRef) : BranchKey := (r.repository, r.branch)

variable {X α : Type} {script : Script} {fresh : FreshId} {job : Job X} {i : WorkspaceInput}
variable {W : World X} {known : List String}

/-- The world, while the target of `i` is near its input commit. -/
abbrev TargetWorld (i : WorkspaceInput) (known : List String) : World X → Prop :=
  OnLakefs (OnTarget i.target i.ref known)

/-- The head of the target of `i` is `ref`. -/
abbrev OutputWorld (i : WorkspaceInput) (known : List String) (ref : String) : World X → Prop :=
  OnLakefs (Output i.target i.ref known ref)

/-- The end of a call that leaves the target near the input, however it ends. -/
abbrev TargetEnds (i : WorkspaceInput) (known : List String) (Q : α → World X → Prop)
    (call : Outcome PyException α × World X) : Prop :=
  Ends Q (fun _ => TargetWorld i known) (TargetWorld i known) call

/-- A staging branch that is not the target, with a fresh commit on top of the input. -/
structure Staged (i : WorkspaceInput) (known : List String) (staged : StagedWorkspace)
    (s : LakeFS) : Prop where
  target : OnTarget i.target i.ref known s
  child : s.FreshChild i.ref known staged.commit
  repository : staged.repository = i.repository
  other : (staged.repository, staged.branch) ≠ i.target

theorem staged_steady {staged : StagedWorkspace} : Steady (Staged i known staged) :=
  fun s t same h => ⟨onTarget_steady s t same h.target,
    h.child.mono fun c hc => by rw [same.commits]; exact hc, h.repository, h.other⟩

theorem stageOnBranch_ends {branch : String}
    (hW : OnLakefs (Open i.target (i.repository, branch) i.ref known) W) (dir : Path)
    (spec : WorkspaceSpec) :
    TargetEnds i known (fun staged => OnLakefs (Staged i known staged))
      ((job.runtime script fresh).stageOnBranch job.host.onWorld dir i spec branch W) := by
  let I : World X → Prop := OnLakefs (Open i.target (i.repository, branch) i.ref known)
  have step : ∀ {β : Type} {f : Proc PyException (World X) β} {V : World X},
      Keeps I (fun _ => True) I f → I V → TargetEnds i known (fun _ => I) (f V) :=
    fun hf hV => (hf _ hV).mono (fun _ _ h => h) (fun _ _ h => h.2.target) fun _ h => h.target
  have host := job.host.onWorld_keeps (P := Open i.target (i.repository, branch) i.ref known)
  refine .bind (step (objects_keeps open_steady _ _ _) hW) fun items V hV => ?_
  refine .bind (step (host.rglob dir) hV) fun tree V hV => ?_
  refine .bind (step (.ofExcept fun _ _ => trivial) hV) fun plan V hV => ?_
  refine .bind (step (.each fun path => deleteObject_keeps open_steady _ _ path) hV)
    fun _ V hV => ?_
  refine .bind (step (.each fun file => (host.readBytes _).bind fun bytes =>
    uploadObject_keeps open_steady _ _ _ _) hV) fun _ V hV => ?_
  refine .bind (Q := fun id => OnLakefs fun t =>
    t.FreshChild i.ref known id ∧ OnTarget i.target i.ref known t)
    ?_ fun id V hid => ?_
  · exact onLakefs_ends (commit_ends hV.target hV.head)
  · exact ⟨hid.2, hid.1, rfl, hV.other⟩

theorem stageWorkspace_ends (hW : TargetWorld i known W) (dir : Path) (spec : WorkspaceSpec)
    (task : TaskExecutionContext) :
    TargetEnds i known (fun staged => OnLakefs (Staged i known staged))
      ((job.runtime script fresh).stageWorkspace job.host.onWorld dir i spec task W) := by
  refine .bind (Q := fun _ =>
    OnLakefs (Open i.target (i.repository, stagingBranchName task) i.ref known)) ?_
    fun _ V hV => stageOnBranch_ends hV dir spec
  exact onLakefs_ends (createBranch_ends hW)

theorem hardResetTargetToRef_ends {ref : String} (hW : TargetWorld i known W)
    (near : W.lakefs.Near i.ref ref) :
    TargetEnds i known
      (fun r V => r = ref ∧ OutputWorld i known ref V ∧ V.lakefs.commits = W.lakefs.commits)
      ((job.runtime script fresh).hardResetTargetToRef i ref W) := by
  refine .bind (Q := fun _ => OnLakefs fun t =>
    Output i.target i.ref known ref t ∧ t.commits = W.lakefs.commits) ?_
    fun _ V hV => .pure ⟨rfl, hV⟩
  exact onLakefs_ends (hardResetBranch_ends hW near)

/-- The head of the target of `i` is `ref`, a fresh child of the input. -/
abbrev PublishedWorld (i : WorkspaceInput) (known : List String) (ref : String) :
    World X → Prop :=
  OnLakefs fun s => Output i.target i.ref known ref s ∧ s.FreshChild i.ref known ref

theorem mergeStagedWorkspace_ends {staged : StagedWorkspace}
    (hW : OnLakefs (Staged i known staged) W) (head : W.lakefs.heads i.target = some i.ref) :
    TargetEnds i known (PublishedWorld i known)
      ((job.runtime script fresh).mergeStagedWorkspace staged i W) := by
  unfold LakeFSWorkspaceRuntime.mergeStagedWorkspace
  cases (job.runtime script fresh).publishBudget with
  | none =>
    rw [hW.repository]
    exact onLakefs_ends (mergeInto_ends hW.target head)
  | some timeout => exact onLakefs_ends (mergeInto_ends hW.target head)

/-- The third row of the table, a head that is neither the input nor a child of it,
does not occur. -/
theorem publishWorkspace_ends {staged : StagedWorkspace} (hW : OnLakefs (Staged i known staged) W) :
    TargetEnds i known (PublishedWorld i known)
      ((job.runtime script fresh).publishWorkspace staged i W) := by
  have targets : ∀ s, Staged i known staged s → OnTarget i.target i.ref known s :=
    fun _ h => h.target
  refine .bind (onLakefs_ends (getCommit_ends staged_steady targets hW)) fun head V hV => ?_
  obtain ⟨⟨heads, near⟩, hV⟩ := hV
  split
  · rename_i same
    exact mergeStagedWorkspace_ends hV (same ▸ heads)
  · rename_i other
    rw [if_pos (near.resolve_left other)]
    refine (hardResetTargetToRef_ends hV.target (.inr hV.child.1)).mono (fun r U hU => ?_)
      (fun _ _ h => h) fun _ h => h
    obtain ⟨rfl, houtput, commits⟩ := hU
    exact ⟨houtput, hV.child.mono fun c hc => by rw [commits]; exact hc⟩

/-- A no-op leaves the head at the input, where an earlier attempt may have moved it. -/
theorem completeNoopWorkspace_ends (hW : TargetWorld i known W) :
    TargetEnds i known (fun ref V => ref = i.ref ∧ OutputWorld i known ref V)
      ((job.runtime script fresh).completeNoopWorkspace i W) := by
  refine .bind (onLakefs_ends (getCommit_ends onTarget_steady (fun _ => id) hW)) fun head V hV => ?_
  obtain ⟨⟨heads, near⟩, hV⟩ := hV
  split
  · rename_i same
    exact .pure ⟨rfl, hV, same ▸ heads⟩
  · rename_i other
    rw [if_pos (near.resolve_left other)]
    refine (hardResetTargetToRef_ends hV (.inl rfl)).mono (fun r U hU => ?_)
      (fun _ _ h => h) fun _ h => h
    obtain ⟨rfl, houtput, -⟩ := hU
    exact ⟨rfl, houtput⟩

end Perago
