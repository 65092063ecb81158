import Perago.Publication
import Mathlib.Algebra.GroupWithZero.Nat
import Mathlib.Algebra.Order.BigOperators.Group.List

/-!
# The accepted history of a workflow

A workflow runs its steps one after another on a branch, each by as many attempts as
it takes. Between two calls of LakeFS the head is the input of the current step or a
child of it, and what is accepted is the head.
-/

namespace Perago

open Effect Transition LakeFS

variable {X β : Type} {script : Script} {fresh : FreshId} {job : Job X} {i : WorkspaceInput}
variable {p : Prepared} {readOnly : Bool} {W : World X} {F : Frame (World X)}
variable {S : Option StagedWorkspace → List Bool → Prop} {known : List String} {said : List Bool}

/-! ## What an attempt leaves -/

/-- The target between two calls of an attempt of a step with input `i`. -/
def Base (i : WorkspaceInput) (known : List String) (readOnly : Bool) (s : LakeFS) : Prop :=
  OnTarget i.target i.ref known s ∧ (readOnly = true → s.heads i.target = some i.ref)

/-- The workspace in the output of a completed result, which the next step is given. -/
def RuntimeTaskResult.outputWorkspace (r : RuntimeTaskResult) : Option WorkspaceOutput :=
  match r.status, r.output with
  | .completed, some output => match output.get? "workspace" with
    | some workspace => (WorkspaceRef.validate workspace).toOption
    | none => none
  | _, _ => none

/-- The output of an attempt whose comparisons said this: a fresh child of the input when
the workspace has changed, and else the input. -/
def Outputs (i : WorkspaceInput) (known : List String) (said : List Bool) (ref : String)
    (s : LakeFS) : Prop :=
  if said = [true] then s.FreshChild i.ref known ref else ref = i.ref

/-- The target when an attempt has returned `r`: a completed result names its head. -/
def Leaves (i : WorkspaceInput) (known : List String) (readOnly : Bool) (said : List Bool)
    (r : RuntimeTaskResult) (s : LakeFS) : Prop :=
  OnTarget i.target i.ref known s ∧ (readOnly = true → s.heads i.target = some i.ref) ∧
    (r.status = .completed → ∃ output, r.outputWorkspace = some output ∧
      output.target = i.target ∧ s.heads i.target = some output.ref ∧
      Outputs i known said output.ref s)

theorem base_tolerant : Tolerant i.target (Base i known readOnly) :=
  tolerant_head fun head _ => readOnly = true → head = some i.ref

theorem base_steady (i : WorkspaceInput) (known : List String) (readOnly : Bool) :
    Steady (Base i known readOnly) :=
  base_tolerant.steady

theorem leaves_tolerant {r : RuntimeTaskResult} :
    Tolerant i.target (Leaves i known readOnly said r) :=
  tolerant_head fun head commits => (readOnly = true → head = some i.ref) ∧
    (r.status = .completed → ∃ output, r.outputWorkspace = some output ∧
      output.target = i.target ∧ head = some output.ref ∧
      if said = [true] then
        (∃ c ∈ commits, c.id = output.ref ∧ c.parents.head? = some i.ref) ∧ output.ref ∉ known
      else output.ref = i.ref)

theorem Base.know {s : LakeFS} (h : Base i known readOnly s) : Base i s.ids readOnly s :=
  ⟨⟨h.1.ids_nodup, h.1.heads_known, h.1.input, fun _ => id, h.1.head, h.1.moves⟩, h.2⟩

theorem Base.forget {s : LakeFS} (h : Base i known readOnly s) : Base i [] readOnly s :=
  ⟨⟨h.1.ids_nodup, h.1.heads_known, h.1.input, nofun, h.1.head, h.1.moves⟩, h.2⟩

theorem Outputs.mono {ref : String} {s t : LakeFS} (h : Outputs i known said ref s)
    (grows : ∀ c ∈ s.commits, c ∈ t.commits) : Outputs i known said ref t := by
  unfold Outputs at h ⊢
  split at h <;> rename_i hsaid
  · rw [if_pos hsaid]
    exact h.mono grows
  · rw [if_neg hsaid]
    exact h

theorem Base.of_target {s : LakeFS} (h : OnTarget i.target i.ref known s) :
    Base i known false s :=
  ⟨h, nofun⟩

theorem Leaves.base {r : RuntimeTaskResult} {s : LakeFS} (h : Leaves i known readOnly said r s) :
    Base i known readOnly s := ⟨h.1, h.2.1⟩

/-- A failure promises nothing about the head. -/
theorem Base.leaves {r : RuntimeTaskResult} {s : LakeFS} (h : Base i known readOnly s)
    (failed : r.status ≠ .completed) : Leaves i known readOnly said r s :=
  ⟨h.1, h.2, fun completed => absurd completed failed⟩

theorem outputWorkspace_completedResult (output : WorkspaceOutput) (rest : List (PyKey × PyValue)) :
    (completedResult ((.str "workspace", output.modelDump) :: rest)).outputWorkspace =
      some output := by
  have found : (PyValue.dict ((.str "workspace", output.modelDump) :: rest)).get? "workspace" =
      some output.modelDump := rfl
  simp only [RuntimeTaskResult.outputWorkspace, completedResult, found,
    WorkspaceRef.validate_modelDump]
  rfl

/-! ## The phases -/

/-- No staging branch of the attempt is the target. -/
def NotTarget (i : WorkspaceInput) (staged : Option StagedWorkspace) : Prop :=
  ∀ s, staged = some s → (s.repository, s.branch) ≠ i.target

theorem notTarget_none : NotTarget i none := nofun

theorem notTarget_some {staged : StagedWorkspace} {s : LakeFS} (h : Staged i known staged s) :
    NotTarget i (some staged) := by
  intro s hs
  cases hs
  exact h.other

/-- Nothing is staged, and the comparisons have said this. -/
def Unstaged (said : List Bool) (staged : Option StagedWorkspace) (said' : List Bool) : Prop :=
  staged = none ∧ said' = said

/-- What the `finally` block finds after the comparisons have said this. -/
def Finishing (i : WorkspaceInput) (said : List Bool) (staged : Option StagedWorkspace)
    (said' : List Bool) : Prop :=
  NotTarget i staged ∧ said' = said

theorem Unstaged.finishing {staged : Option StagedWorkspace} {said' : List Bool}
    (h : Unstaged said staged said') : Finishing i said staged said' :=
  ⟨h.1 ▸ notTarget_none, h.2⟩

/-- The frame of an attempt that can be finished. -/
abbrev Tidy (i : WorkspaceInput) (P : LakeFS → Prop) : Frame (World X) → Prop :=
  Frame.Inv (OnLakefs P) fun staged _ => NotTarget i staged

/-- The frame of an attempt that has returned from its `try` block. -/
abbrev Left (i : WorkspaceInput) (known : List String) (readOnly : Bool) (said : List Bool)
    (r : RuntimeTaskResult) : Frame (World X) → Prop :=
  Frame.Inv (OnLakefs (Leaves i known readOnly said r)) (Finishing i said)

/-- The end of a phase of an attempt with input `i`. -/
abbrev PhaseEnds (i : WorkspaceInput) (known : List String) (readOnly : Bool)
    (Q : β → Frame (World X) → Prop) (call : Outcome PyException β × Frame (World X)) : Prop :=
  Ends Q (fun _ => Tidy i (Base i known readOnly))
    (Frame.World (OnLakefs (Base i known readOnly))) call

/-- A phase of a writable attempt that leaves the target to be read off its invariant. -/
theorem phaseEnds_of_target {P : LakeFS → Prop} {Q : β → Frame (World X) → Prop}
    {call : Outcome PyException β × Frame (World X)}
    (h : Ends Q (fun _ => Frame.Inv (OnLakefs P) S) (Frame.Inv (OnLakefs P) S) call)
    (target : ∀ s, P s → OnTarget i.target i.ref known s)
    (finishing : ∀ staged said', S staged said' → Finishing i said staged said') :
    PhaseEnds i known false Q call :=
  h.mono (fun _ _ h => h) (fun _ _ h => ⟨Base.of_target (target _ h.1), (finishing _ _ h.2).1⟩)
    fun _ h => ⟨Base.of_target (target _ h.1), trivial⟩

/-- A call of the runtime, in the frame of a writable attempt. -/
theorem call_tidy {record : Except PyException β → Event} {f : Proc PyException (World X) β}
    {Q : β → World X → Prop} (call : ∀ x, (record x).comparison = none)
    (hf : TargetEnds i known Q (f F.world)) (hS : S F.staged F.comparisons)
    (finishing : ∀ staged said', S staged said' → Finishing i said staged said') :
    PhaseEnds i known false (fun b => Frame.Inv (Q b) S) (Frame.call record f F) :=
  phaseEnds_of_target (call_inv_ends call hf hS) (fun _ => id) finishing

/-- A timer around a phase does not touch LakeFS. -/
theorem timer_tidy {P : LakeFS → Prop} {Q : β → LakeFS → Prop}
    {T : β → Option StagedWorkspace → List Bool → Prop} {metrics : MetricRecorder (World X)}
    {operation : String} {f : Proc PyException (Frame (World X)) β}
    (hm : (job.workspaceAttempt script fresh).metrics = some metrics) (steady : Steady P)
    (steadyQ : ∀ b, Steady (Q b)) (hF : Frame.Inv (OnLakefs P) S F)
    (hf : ∀ G, Frame.Inv (OnLakefs P) S G →
      PhaseEnds i known readOnly (fun b => Frame.Inv (OnLakefs (Q b)) (T b)) (f G)) :
    PhaseEnds i known readOnly (fun b => Frame.Inv (OnLakefs (Q b)) (T b))
      (withRuntimeTimer (job.workspaceAttempt script fresh) metrics operation f F) := by
  have before := job.workspaceAttempt_keeps script fresh steady
  have after := fun b => job.workspaceAttempt_keeps script fresh (steadyQ b)
  have failed := job.workspaceAttempt_keeps script fresh (base_steady i known readOnly)
  refine withRuntimeTimer_ends hF hf (fun G metric hG => ?_) (fun b G metric hG => ?_)
    fun e G metric hG => ?_
  · exact ⟨before.runtimeTimerEnter metrics hm metric _ hG.1, hG.2⟩
  · exact ⟨(after b).runtimeTimerExit metrics hm metric _ hG.1, hG.2⟩
  · exact ⟨failed.runtimeTimerExit metrics hm metric _ hG.1, hG.2⟩

theorem completeWith_leaves {ref : String} {result : PyValue}
    (hF : Frame.Inv (OnLakefs (Base p.input known readOnly)) (Finishing p.input said) F)
    (head : F.world.lakefs.heads p.input.target = some ref)
    (outputs : Outputs p.input known said ref F.world.lakefs) :
    PhaseEnds p.input known readOnly (Left p.input known readOnly said)
      (completeWith p ref result F) := by
  refine .bind (Q := fun output G => p.input.publishedOutput ref = .ok output ∧ F = G)
    (.ofExcept (fun _ h => ⟨h, rfl⟩) fun _ _ => ⟨hF.1, hF.2.1⟩) fun output G hG => ?_
  obtain ⟨houtput, rfl⟩ := hG
  rw [WorkspaceRef.publishedOutput_eq] at houtput
  split at houtput
  · cases houtput
    refine ⟨⟨hF.1.1, hF.1.2, fun _ => ?_⟩, hF.2⟩
    exact ⟨_, outputWorkspace_completedResult _ _, rfl, head, outputs⟩
  · cases houtput

/-- The target after the call that moves it, in an attempt whose comparisons said this. -/
def Concludes (i : WorkspaceInput) (known : List String) (said : List Bool) (ref : String)
    (s : LakeFS) : Prop :=
  Output i.target i.ref known ref s ∧ Outputs i known said ref s

theorem concludes_steady {ref : String} : Steady (Concludes i known said ref) := by
  intro s t same h
  exact ⟨output_steady s t same h.1, h.2.mono fun c hc => by rw [same.commits]; exact hc⟩

/-- The last phase of a writable attempt: the output is the head. -/
theorem completeWith_output {ref : String} {result : PyValue}
    (hF : Frame.Inv (OnLakefs (Concludes p.input known said ref)) S F)
    (finishing : ∀ staged said', S staged said' → Finishing p.input said staged said') :
    PhaseEnds p.input known false (Left p.input known false said)
      (completeWith p ref result F) :=
  completeWith_leaves ⟨Base.of_target hF.1.1.toOnTarget, finishing _ _ hF.2⟩ hF.1.1.output hF.1.2

theorem checkFence_tidy {P : LakeFS → Prop} (steady : Steady P)
    (target : ∀ s, P s → OnTarget i.target i.ref known s) (hF : Frame.Inv (OnLakefs P) S F)
    (finishing : ∀ staged said', S staged said' → Finishing i said staged said') :
    PhaseEnds i known false (fun _ => Frame.Inv (OnLakefs P) S)
      (checkFence (job.workspaceAttempt script fresh) F) :=
  phaseEnds_of_target ((checkFence_keeps (job.workspaceAttempt_keeps script fresh steady)).ends hF)
    target finishing

theorem withPublishTimer_tidy (said : List Bool) {P : LakeFS → Prop}
    {f : Proc PyException (Frame (World X)) String} (steady : Steady P)
    (hF : Frame.Inv (OnLakefs P) S F)
    (hf : ∀ G, Frame.Inv (OnLakefs P) S G →
      PhaseEnds i known false
        (fun ref => Frame.Inv (OnLakefs (Concludes i known said ref)) S) (f G)) :
    PhaseEnds i known false (fun ref => Frame.Inv (OnLakefs (Concludes i known said ref)) S)
      (withPublishTimer (job.workspaceAttempt script fresh) f F) := by
  unfold withPublishTimer
  cases hm : workspaceIoMetrics (job.workspaceAttempt script fresh) with
  | none => exact hf F hF
  | some metrics =>
    exact timer_tidy (T := fun _ => S) (workspaceIoMetrics_some hm) steady
      (fun _ => concludes_steady) hF hf

theorem stageChanges_tidy (hF : Frame.Inv (TargetWorld p.input known) (Unstaged said) F) :
    PhaseEnds p.input known false
      (fun staged => Frame.Inv (OnLakefs (Staged p.input known staged))
        fun staged' said' => staged' = some staged ∧ said' = said)
      (stageChanges job.host.onWorld (job.workspaceAttempt script fresh) p F) := by
  have unstaged : ∀ staged said', Unstaged said staged said' →
      Finishing p.input said staged said' := fun _ _ h => h.finishing
  have called : ∀ G, Frame.Inv (TargetWorld p.input known) (Unstaged said) G →
      PhaseEnds p.input known false
        (fun staged => Frame.Inv (OnLakefs (Staged p.input known staged))
          fun staged' said' => staged' = some staged ∧ said' = said)
        (callStage (job.workspaceAttempt script fresh) p G) := by
    intro G hG
    refine .bind (call_tidy (fun _ => rfl) (stageWorkspace_ends hG.1 _ _ _) hG.2 unstaged)
      fun staged H hH => ?_
    exact ⟨hH.1, rfl, hH.2.2⟩
  unfold stageChanges
  cases hm : workspaceIoMetrics (job.workspaceAttempt script fresh) with
  | none => exact called F hF
  | some metrics =>
    have hm := workspaceIoMetrics_some hm
    have bytes := workspaceFileBytes_keeps (job.host.onWorld_keeps
      (P := OnTarget p.input.target p.input.ref known)) p.workspaceDir
    refine .bind (phaseEnds_of_target ((lift_keeps bytes).ends hF) (fun _ => id) unstaged)
      fun bytes G hG => ?_
    refine .bind (timer_tidy (T := fun staged staged' said' => staged' = some staged ∧ said' = said)
      hm onTarget_steady (fun _ => staged_steady) hG called) fun staged H hH => ?_
    exact ⟨(job.workspaceAttempt_keeps script fresh staged_steady).runtimeHistogram metrics hm
      _ _ _ hH.1, hH.2⟩

/-- However an attempt completes, a result that it completes with names the head. -/
theorem complete_leaves {result : PyValue} {completion : Completion}
    (hF : Frame.Inv (OnLakefs (Base p.input known readOnly)) (Unstaged completion.comparisons) F)
    (hread : completion = .readOnly ↔ readOnly = true) :
    PhaseEnds p.input known readOnly (Left p.input known readOnly completion.comparisons)
      (complete job.host.onWorld (job.workspaceAttempt script fresh) p result completion F) := by
  have unstaged : ∀ staged said', Unstaged completion.comparisons staged said' →
      Finishing p.input completion.comparisons staged said' := fun _ _ h => h.finishing
  have target : Frame.Inv (TargetWorld p.input known) (Unstaged completion.comparisons) F :=
    ⟨hF.1.1, hF.2⟩
  cases completion with
  | readOnly => exact completeWith_leaves ⟨hF.1, hF.2.finishing⟩ (hF.1.2 (hread.mp rfl)) rfl
  | unchanged =>
    obtain rfl : readOnly = false := by simpa using hread
    refine .bind (checkFence_tidy onTarget_steady (fun _ => id) target unstaged) fun _ G hG => ?_
    refine .bind (withPublishTimer_tidy Completion.unchanged.comparisons onTarget_steady hG
      fun H hH => ?_) fun ref H hH => ?_
    · refine call_tidy (fun _ => rfl) ((completeNoopWorkspace_ends hH.1).mono (fun ref V hV => ?_)
        (fun _ _ h => h) fun _ h => h) hH.2 unstaged
      exact ⟨hV.2, hV.1⟩
    · exact completeWith_output hH unstaged
  | changed =>
    obtain rfl : readOnly = false := by simpa using hread
    refine .bind (checkFence_tidy onTarget_steady (fun _ => id) target unstaged) fun _ G hG => ?_
    refine .bind (stageChanges_tidy hG) fun staged H hH => ?_
    have notTarget := notTarget_some hH.1
    have staging : ∀ other said', (other = some staged ∧ said' = Completion.changed.comparisons) →
        Finishing p.input Completion.changed.comparisons other said' := by
      rintro _ _ ⟨rfl, hsaid⟩
      exact ⟨notTarget, hsaid⟩
    refine .bind (checkFence_tidy staged_steady (fun _ h => h.target) hH staging) fun _ H hH => ?_
    refine .bind (withPublishTimer_tidy Completion.changed.comparisons staged_steady hH
      fun K hK => ?_) fun ref K hK => ?_
    · exact call_tidy (fun _ => rfl) (publishWorkspace_ends hK.1) hK.2 staging
    · exact completeWith_output hK staging

/-! ## The whole attempt -/

theorem WorkspaceAttempt.HasInput.unique {σ : Type} {a : WorkspaceAttempt σ} {j : WorkspaceInput}
    (h : a.HasInput i) (h' : a.HasInput j) : i = j := by
  obtain ⟨workspace, params, hw, hi⟩ := h
  obtain ⟨workspace', params', hw', hj⟩ := h'
  rw [hw] at hw'
  cases hw'
  exact Except.ok.inj (hi.symm.trans hj)

theorem attemptBlock_leaves {spec : WorkspaceSpec} {execution : TaskExecutionContext}
    {owner : WorkspaceOwner} (hinput : (job.workspaceAttempt script fresh).HasInput i)
    (hF : Frame.Inv (OnLakefs (Base i known spec.readOnly)) (Unstaged []) F) :
    PhaseEnds i known spec.readOnly (fun r G => ∃ said, Left i known spec.readOnly said r G)
      (attemptBlock job.host.onWorld (job.workspaceAttempt script fresh) spec execution owner
        F) := by
  have unstaged : ∀ G : Frame (World X),
      Frame.Inv (OnLakefs (Base i known spec.readOnly)) (Unstaged []) G →
      Tidy i (Base i known spec.readOnly) G := by
    intro G hG
    exact ⟨hG.1, hG.2.finishing.1⟩
  refine .bind ((beginAttempt_inv_ends job.host.onWorld_keeps hF).mono (fun _ _ h => h)
    (fun _ G h => unstaged G h) fun _ h => ⟨h.1, trivial⟩) fun p G hG => ?_
  obtain ⟨⟨rfl, hp⟩, hG⟩ := hG
  obtain rfl := hinput.unique hp
  have keeps := job.workspaceAttempt_keeps script fresh (base_steady p.input known p.spec.readOnly)
  refine .bind ((runBody_inv_ends job.host.onWorld_keeps keeps hG).mono (fun _ _ h => h)
    (fun _ G h => unstaged G h) fun _ h => ⟨h.1, trivial⟩) fun r H hH => ?_
  obtain ⟨hread, hworld, before, hbefore, said⟩ := hH
  rw [hbefore.2, List.nil_append] at said
  exact (complete_leaves ⟨hworld, hbefore.1, said⟩ hread).mono (fun _ _ h => ⟨_, h⟩)
    (fun _ _ h => h) fun _ h => h

/-- The `finally` block deletes no branch but the attempt's own. -/
theorem finishAttempt_tidy {P : LakeFS → Prop} (tolerant : Tolerant i.target P)
    (hF : Frame.Inv (OnLakefs P) (Finishing i said) F) (owner : WorkspaceOwner) :
    Always (Frame.Inv (OnLakefs P) fun _ said' => said' = said)
      (finishAttempt job.host.onWorld (job.workspaceAttempt script fresh) owner F) := by
  have host := job.host.onWorld_keeps (P := P)
  refine .bind (Q := fun _ => Frame.Inv (OnLakefs P) fun _ said' => said' = said) ?_
    fun _ G hG => ?_
  · refine .bind (Q := fun staged G => staged = F.staged ∧ F = G) ⟨rfl, rfl⟩ fun staged G hG => ?_
    obtain ⟨hs, rfl⟩ := hG
    cases staged with
    | none => exact ⟨hF.1, hF.2.2⟩
    | some s =>
      have deleted := onLakefs_ends
        (deleteBranch_tolerates script tolerant (hF.2.1 s hs.symm) _ hF.1)
      refine .tryExcept ((call_inv_ends (S := fun _ said' => said' = said) (fun _ => rfl) deleted
        hF.2.2).mono (fun _ _ h => h) (fun _ _ h => h) fun _ h => h) fun _ H hH => ?_
      exact ⟨hH.1.2, hH.2⟩
  · refine .bind ((cleanupLocal_keeps host).ends hG) fun _ H hH => ?_
    exact ⟨host.unregisterOwner _ _ hH.1, hH.2⟩

theorem guardedAttempt_leaves {spec : WorkspaceSpec} {execution : TaskExecutionContext}
    {owner : WorkspaceOwner} (hinput : (job.workspaceAttempt script fresh).HasInput i)
    (hF : Frame.Inv (OnLakefs (Base i known spec.readOnly)) (Unstaged []) F) :
    Ends (fun r G => Leaves i known spec.readOnly G.comparisons r G.world.lakefs)
      (fun _ => Frame.World (OnLakefs (Base i known spec.readOnly)))
      (Frame.World (OnLakefs (Base i known spec.readOnly)))
      (guardedAttempt job.host.onWorld (job.workspaceAttempt script fresh) spec execution owner
        F) := by
  refine .tryFinally (A := fun r G => ∃ said, Left i known spec.readOnly said r G)
    (D := fun _ => Tidy i (Base i known spec.readOnly)) ?_ (fun r G hG => ?_) fun _ G hG => ?_
  · refine .tryExcept (attemptBlock_leaves hinput hF) fun exc G hG => ?_
    refine .ofExcept (fun r hr => ?_) fun _ _ => hG
    exact ⟨G.comparisons, hG.1.leaves (resultForException_not_completed hr), hG.2, rfl⟩
  · obtain ⟨said, hG⟩ := hG
    refine (finishAttempt_tidy leaves_tolerant hG owner).mono (fun _ H h => ?_)
      (fun _ _ h => ⟨h.1.base, trivial⟩) fun _ h => ⟨h.1.base, trivial⟩
    rw [h.2]
    exact h.1
  · exact (finishAttempt_tidy base_tolerant ⟨hG.1, hG.2, rfl⟩ owner).mono
      (fun _ _ h => ⟨h.1, trivial⟩) (fun _ _ h => ⟨h.1, trivial⟩) fun _ h => ⟨h.1, trivial⟩

/-- Whether the task of a job is read-only. -/
def Job.isReadOnly (job : Job X) : Bool := job.task.workspace.any (·.readOnly)

/-- What the comparisons of an attempt say that runs in `W`. -/
def Job.comparisons (job : Job X) (script : Script) (fresh : FreshId) (W : World X) : List Bool :=
  match job.task.workspace with
  | none => []
  | some spec =>
    (runInFrame job.host.onWorld (job.workspaceAttempt script fresh) spec W).2.comparisons

/-- An attempt leaves the target near the input however it ends, crashes included. -/
theorem Job.run_leaves (script : Script) (fresh : FreshId)
    (hinput : (job.workspaceAttempt script fresh).HasInput i)
    (hW : OnLakefs (Base i known job.isReadOnly) W) :
    Ends (fun r => OnLakefs (Leaves i known job.isReadOnly (job.comparisons script fresh W) r))
      (fun _ => OnLakefs (Base i known job.isReadOnly)) (OnLakefs (Base i known job.isReadOnly))
      (job.run script fresh W) := by
  unfold Job.run
  cases hspec : job.task.workspace with
  | none =>
    have none : (job.workspaceAttempt script fresh).task.workspace = none := hspec
    simp only [runWorkspaceTaskAttempt, none]
    exact hW
  | some spec =>
    have hread : job.isReadOnly = spec.readOnly := by simp [Job.isReadOnly, hspec]
    rw [hread] at hW ⊢
    refine runWorkspaceTaskAttempt_ends hspec ?_
    have opened := openAttempt_inv (a := job.workspaceAttempt script fresh)
      (job.host.onWorld_keeps (P := Base i known spec.readOnly)) hW
    have said : job.comparisons script fresh W = (runInFrame job.host.onWorld
        (job.workspaceAttempt script fresh) spec W).2.comparisons := by
      simp only [Job.comparisons, hspec]
    rw [said]
    refine ((guardedAttempt_leaves hinput ⟨opened, rfl, rfl⟩).and .self).mono
      (fun r F h => ?_) (fun _ _ h => h.1.1) fun _ h => h.1.1
    have frame : (runInFrame job.host.onWorld (job.workspaceAttempt script fresh) spec W).2 = F :=
      congrArg Prod.snd h.2
    rw [frame]
    exact h.1

/-! ## Other branches -/

/-- What somebody else does to a branch. -/
inductive Background where
  | commit (parents : List String)
  | reset (ref : String)
  | delete

def LakeFS.background (fresh : FreshId) (s : LakeFS) (k : BranchKey) : Background → Option LakeFS
  | .commit parents =>
    let id := fresh.val s.ids
    some ({ s with commits := ⟨id, parents⟩ :: s.commits }.setHead k id)
  | .reset ref => if ref ∈ s.ids then some (s.setHead k ref) else none
  | .delete => some (s.dropHead k)

/-- The heads after some changes of heads. -/
def LakeFS.replay (heads : BranchKey → Option String) (moves : List (BranchKey × Option String)) :
    BranchKey → Option String :=
  moves.foldl (fun heads m => Function.update heads m.1 m.2) heads

section

variable {key k : BranchKey} {A : String} {s t : LakeFS} {began : BranchKey → Option String}

theorem replay_concat {moves : List (BranchKey × Option String)} (m : BranchKey × Option String) :
    replay began (moves ++ [m]) = Function.update (replay began moves) m.1 m.2 := by
  simp [replay]

/-- The server remembers every change of a head. -/
theorem replay_lasting (began : BranchKey → Option String) :
    Lasting fun s => s.heads = replay began s.moves where
  steady s t same h := same.heads.trans (h.trans (by rw [same.moves]))
  setHead s k id h := by simp [LakeFS.setHead, replay_concat, h]
  dropHead s k h := by simp [LakeFS.dropHead, replay_concat, h]
  commits _ _ h := h
  created _ _ h := h
  deletions _ _ h := h

/-- A head that is near the input at first and after every change is near it at every
moment. -/
theorem replay_near (hbegan : ∃ h, began key = some h ∧ s.Near A h)
    (l : List (BranchKey × Option String))
    (hl : ∀ m ∈ l, m.1 = key → ∃ h, m.2 = some h ∧ s.Near A h) :
    ∃ h, replay began l key = some h ∧ s.Near A h := by
  induction l using List.reverseRecOn with
  | nil => exact hbegan
  | append_singleton l m ih =>
    rw [replay_concat]
    by_cases hm : m.1 = key
    · subst hm
      simpa using hl m (by simp) rfl
    · rw [Function.update_of_ne (Ne.symm hm)]
      exact ih fun m' hm' => hl m' (List.mem_append_left _ hm')

theorem lasting_background {P : LakeFS → Prop} (lasting : Lasting P) {act : Background}
    (hs : P s) (h : s.background fresh k act = some t) : P t := by
  cases act with
  | commit parents =>
    cases h
    exact lasting.setHead _ _ _ (lasting.commits _ _ hs)
  | reset ref =>
    simp only [LakeFS.background] at h
    split at h <;> cases h
    exact lasting.setHead _ _ _ hs
  | delete =>
    cases h
    exact lasting.dropHead _ _ hs

/-- What happens to other branches does not matter to the target. -/
theorem LakeFS.OnTarget.background {act : Background} (ht : OnTarget key A known s) (hk : k ≠ key)
    (h : s.background fresh k act = some t) :
    OnTarget key A known t ∧ t.heads key = s.heads key := by
  cases act with
  | commit parents =>
    cases h
    exact ⟨(ht.grow (fresh.2 _)).setHead List.mem_cons_self fun same => absurd same hk,
      by simp [LakeFS.setHead, Function.update_of_ne (Ne.symm hk)]⟩
  | reset ref =>
    simp only [LakeFS.background] at h
    split at h <;> cases h
    rename_i known
    exact ⟨ht.setHead known fun same => absurd same hk,
      by simp [LakeFS.setHead, Function.update_of_ne (Ne.symm hk)]⟩
  | delete =>
    cases h
    have tolerant : Tolerant key fun t => OnTarget key A known t ∧ t.heads key = s.heads key :=
      tolerant_head fun head _ => head = s.heads key
    exact tolerant.dropHead s k hk ⟨ht, rfl⟩

end

/-! ## Workflows -/

/-- A workflow on one branch: the input and the kind of its current step, and of the step's
last attempt its result if it has returned one, what its comparisons said and the commits
that it found. It remembers the heads when the step began, and the accepted commits, the
latest first. -/
structure Workflow (X : Type) where
  world : World X
  input : WorkspaceInput
  readOnly : Bool
  last : Option RuntimeTaskResult
  said : List Bool
  known : List String
  began : BranchKey → Option String
  accepted : List String

/-- The input data of a step. -/
def stepInput (i : WorkspaceInput) (params : PyValue) : PyValue :=
  .dict [(.str "workspace", i.modelDump), (.str "params", params)]

/-- An attempt runs, Conductor accepts what the last attempt returned and begins the
next step, or something happens elsewhere. -/
inductive WorkflowAction (X : Type) where
  | attempt (job : Job X) (params : PyValue) (script : Script)
  | accept (nextReadOnly : Bool)
  | background (k : BranchKey) (act : Background)
  | local' (x : X)

/-- The result of a call that returned. -/
def Outcome.result? {ε α : Type} : Outcome ε α → Option α
  | .ok a => some a
  | .error _ | .crashed => none

namespace Workflow

def step (fresh : FreshId) (s : Workflow X) : WorkflowAction X → Option (Workflow X)
  | .attempt job params script =>
    if job.isReadOnly = s.readOnly then
      let job := { job with inputData := stepInput s.input params }
      let (o, W) := job.run script fresh s.world
      some { s with
        world := W
        last := Outcome.result? o
        said := job.comparisons script fresh s.world
        known := s.world.lakefs.ids }
    else none
  | .accept nextReadOnly => do
    let r ← s.last
    let output ← r.outputWorkspace
    some {
      world := { s.world with lakefs := { s.world.lakefs with moves := [] } }
      input := output
      readOnly := nextReadOnly
      last := none
      said := []
      known := []
      began := s.world.lakefs.heads
      accepted := output.ref :: s.accepted }
  | .background k act =>
    if k = s.input.target then none
    else do
      let lakefs ← s.world.lakefs.background fresh k act
      some { s with world := { s.world with lakefs := lakefs } }
  | .local' x => some { s with world := { s.world with local' := x } }

/-- The first step begins on a branch whose head is its input. -/
structure Start (s : Workflow X) : Prop where
  ids_nodup : s.world.lakefs.ids.Nodup
  heads_known : ∀ k id, s.world.lakefs.heads k = some id → id ∈ s.world.lakefs.ids
  head : s.world.lakefs.heads s.input.target = some s.input.ref
  moves : s.world.lakefs.moves = []
  began : s.began = s.world.lakefs.heads
  last : s.last = none
  accepted : s.accepted = [s.input.ref]

/-- The serial runs of a workflow. -/
def machine (X : Type) (fresh : FreshId) : Machine (Workflow X) (WorkflowAction X) where
  init := Start
  step := step fresh

/-- What holds between two actions of a workflow. -/
structure Inv (s : Workflow X) : Prop where
  base : Base s.input [] s.readOnly s.world.lakefs
  last : ∀ r, s.last = some r →
    Leaves s.input s.known s.readOnly s.said r s.world.lakefs
  began : s.began s.input.target = some s.input.ref
  heads : s.world.lakefs.heads = replay s.began s.world.lakefs.moves
  chain : s.accepted.IsChain fun new old => s.world.lakefs.Near old new
  current : s.accepted.head? = some s.input.ref

variable {s t : Workflow X}

theorem chain_mono {l : List String} {u v : LakeFS} (h : l.IsChain fun new old => u.Near old new)
    (grows : ∀ c ∈ u.commits, c ∈ v.commits) : l.IsChain fun new old => v.Near old new :=
  h.imp fun _ _ near => near.mono grows

/-- At the beginning of a step the head is its input. -/
theorem Inv.ofBegun {v : LakeFS} (ids_nodup : v.ids.Nodup)
    (heads_known : ∀ k id, v.heads k = some id → id ∈ v.ids)
    (head : v.heads s.input.target = some s.input.ref) (moves : v.moves = []) :
    Base s.input [] s.readOnly v := by
  refine ⟨⟨ids_nodup, heads_known, heads_known _ _ head, nofun, ⟨_, head, .inl rfl⟩, ?_⟩,
    fun _ => head⟩
  rw [moves]
  nofun

theorem Inv.start (h : Start s) : Inv s where
  base := Inv.ofBegun h.ids_nodup h.heads_known h.head h.moves
  last r hr := by
    rw [h.last] at hr
    cases hr
  began := by rw [h.began, h.head]
  heads := by rw [h.moves, h.began]; rfl
  chain := by
    rw [h.accepted]
    exact .singleton _
  current := by rw [h.accepted]; rfl

theorem Inv.attempt (h : Inv s) {job : Job X} {params : PyValue}
    (ht : s.step fresh (.attempt job params script) = some t) : Inv t := by
  simp only [step] at ht
  split at ht
  · rename_i hread
    generalize hjob : { job with inputData := stepInput s.input params } = started at ht
    have input : (started.workspaceAttempt script fresh).HasInput s.input := by
      subst hjob
      exact ⟨_, params, rfl, s.input.validate_modelDump⟩
    have kind : started.isReadOnly = s.readOnly := by
      subst hjob
      exact hread
    have left := started.run_leaves script fresh input (kind ▸ h.base.know)
    have grown := started.run_lasting script fresh
      (commits_lasting s.world.lakefs.commits) (fun c hc => hc)
    have replayed := started.run_lasting script fresh
      (replay_lasting s.began) h.heads
    rw [kind] at left
    generalize started.run script fresh s.world = call at ht left grown replayed
    obtain ⟨o, W⟩ := call
    cases ht
    have chain := chain_mono h.chain grown
    cases o with
    | ok r =>
      refine ⟨left.base.forget, fun r' hr' => ?_, h.began, replayed, chain, h.current⟩
      cases hr'
      subst hjob
      exact left
    | error e => exact ⟨left.forget, nofun, h.began, replayed, chain, h.current⟩
    | crashed => exact ⟨left.forget, nofun, h.began, replayed, chain, h.current⟩
  · cases ht

/-- What is accepted is the head, and so the input of the last step or a child of it. -/
theorem Inv.accept (h : Inv s) {nextReadOnly : Bool}
    (ht : s.step fresh (.accept nextReadOnly) = some t) : Inv t := by
  simp only [step, Option.bind_eq_bind, Option.bind_eq_some_iff, Option.some.injEq] at ht
  obtain ⟨r, hr, output, houtput, rfl⟩ := ht
  have left := h.last r hr
  have completed : r.status = .completed := by
    cases hstatus : r.status with
    | completed => rfl
    | failed => simp [RuntimeTaskResult.outputWorkspace, hstatus] at houtput
    | failedWithTerminalError => simp [RuntimeTaskResult.outputWorkspace, hstatus] at houtput
  obtain ⟨output', houtput', target, head, -⟩ := left.2.2 completed
  obtain rfl : output' = output := Option.some.inj (houtput'.symm.trans houtput)
  obtain ⟨x, hx, near⟩ := left.1.head
  obtain rfl : x = output'.ref := Option.some.inj (hx.symm.trans head)
  rw [← target] at head
  refine ⟨Inv.ofBegun left.1.ids_nodup left.1.heads_known head rfl, nofun, head, rfl, ?_, rfl⟩
  have chain := h.chain
  have current := h.current
  cases haccepted : s.accepted with
  | nil => simp [haccepted] at current
  | cons first rest =>
    rw [haccepted] at chain current
    obtain rfl : first = s.input.ref := by simpa using current
    exact .cons_cons near chain

theorem Inv.background (h : Inv s) {k : BranchKey} {act : Background}
    (ht : s.step fresh (.background k act) = some t) : Inv t := by
  simp only [step] at ht
  split at ht
  · cases ht
  · rename_i other
    simp only [Option.bind_eq_bind, Option.bind_eq_some_iff, Option.some.injEq] at ht
    obtain ⟨v, hv, rfl⟩ := ht
    obtain ⟨target, same⟩ := h.base.1.background other hv
    have grows := lasting_background (commits_lasting s.world.lakefs.commits) (fun c hc => hc) hv
    have replayed := lasting_background (replay_lasting s.began) h.heads hv
    refine ⟨⟨target, ?_⟩, fun r hr => ?_, h.began, replayed, chain_mono h.chain grows,
      h.current⟩
    · rw [same]
      exact h.base.2
    · have left := h.last r hr
      refine ⟨(left.1.background other hv).1, ?_, fun completed => ?_⟩
      · rw [same]
        exact left.2.1
      · obtain ⟨output, houtput, target, head, outputs⟩ := left.2.2 completed
        exact ⟨output, houtput, target, same.trans head, outputs.mono grows⟩

theorem Inv.step (h : Inv s) (a : WorkflowAction X) (ht : s.step fresh a = some t) : Inv t := by
  cases a with
  | attempt job params script => exact h.attempt ht
  | accept nextReadOnly => exact h.accept ht
  | background k act => exact h.background ht
  | local' x =>
    cases ht
    exact ⟨h.base, h.last, h.began, h.heads, h.chain, h.current⟩

theorem inv (h : (machine X fresh).Reachable s) : Inv s :=
  h.invariant (fun _ => Inv.start) fun _ a _ _ hs _ ht => hs.step a ht

/-- The accepted history of a workflow. -/
structure OneLine (s : Workflow X) : Prop where
  /-- At every moment since the step began, the head is the input or a child of it. -/
  moments : ∀ l, l <+: s.world.lakefs.moves → ∃ h, replay s.began l s.input.target = some h ∧
    s.world.lakefs.Near s.input.ref h
  now : replay s.began s.world.lakefs.moves = s.world.lakefs.heads
  read_only : s.readOnly = true → s.world.lakefs.heads s.input.target = some s.input.ref
  /-- An attempt that has returned a completed result has left its output at the head: when it
  has compared its workspace and found it changed, a child of its input that was not there
  before, and else its input. -/
  returned : ∀ r, s.last = some r → r.status = .completed → ∃ output,
    r.outputWorkspace = some output ∧ output.target = s.input.target ∧
      s.world.lakefs.heads s.input.target = some output.ref ∧
      Outputs s.input s.known s.said output.ref s.world.lakefs
  /-- Each accepted commit is the one accepted before it, or a child of it. -/
  line : s.accepted.IsChain fun new old => s.world.lakefs.Near old new
  current : s.accepted.head? = some s.input.ref

/-- In every serial run the accepted commits form one line of history. -/
theorem accepted_history_linear (h : (machine X fresh).Reachable s) : OneLine s := by
  have hs := inv h
  refine ⟨fun l hl => ?_, hs.heads.symm, hs.base.2, fun r hr => (hs.last r hr).2.2, hs.chain,
    hs.current⟩
  refine replay_near ⟨_, hs.began, .inl rfl⟩ l fun m hm hkey => ?_
  exact hs.base.1.moves m (hl.subset hm) hkey

end Workflow

/-! ## A workflow to run -/

/-- Ids that are longer than all before. -/
def longer : FreshId where
  val ids := String.ofList (List.replicate ((ids.map String.length).sum + 1) 'c')
  property ids h := by
    have bound := List.le_sum_of_mem (List.mem_map_of_mem (f := String.length) h)
    simp at bound

/-- A script of an attempt whose n-th call of LakeFS, counted from 0 over the whole run,
takes the process down after its effect. -/
def crashingAfter (n : Nat) : Script where
  fault m := if m = n then .crashAfter else .none
  listing _ := []
  content _ := []

theorem isBlank_A : isBlank "A" = false := by decide

def branchMain (ref : String) (h : isBlank ref = false) : WorkspaceInput :=
  ⟨"repository", "main", ref, by decide, by decide, h⟩

/-- A step that leaves the same tree behind whatever it finds. -/
def plainJob (executionId : String) : Job LocalTree where
  host := treeHost
  task := leavingTree fun _ => plainTree
  inputData := .none
  attempt := ConductorRuntime.someAttempt
  workspaceRoot := []
  loadCurrentAttempt attempt := pure attempt
  publishBudget := none
  ownerWorkerId := none
  executionId := some executionId
  metrics := none
  failureReasonMaxLength := defaultMaxLength
  nestingLimit := 900

/-- A branch with one commit. -/
def oneCommit : LakeFS where
  commits := [⟨"A", []⟩]
  heads key := if key = ("repository", "main") then some "A" else none
  calls := 0
  created := []
  deletions := []
  moves := []

def firstStep : Workflow LocalTree where
  world := ⟨oneCommit, emptyTree⟩
  input := branchMain "A" isBlank_A
  readOnly := false
  last := none
  said := []
  known := []
  began := oneCommit.heads
  accepted := ["A"]

theorem firstStep_start : firstStep.Start where
  ids_nodup := by simp [firstStep, oneCommit, LakeFS.ids]
  heads_known k id h := by
    have h : (if k = ("repository", "main") then some "A" else none) = some id := h
    split at h <;> cases h
    simp [firstStep, oneCommit, LakeFS.ids]
  head := rfl
  moves := rfl
  began := rfl
  last := rfl
  accepted := rfl

/-- The worker dies in its first merge; the second attempt finds nothing to do and moves
the branch back; the next step publishes. -/
def abandoned : List (WorkflowAction LocalTree) :=
  [.attempt (plainJob "1") (.dict []) (crashingAfter 6),
    .attempt (plainJob "2") (.dict []) (crashingAfter 100), .accept false, .local' emptyTree,
    .attempt (plainJob "3") (.dict []) (crashingAfter 100), .accept true]

theorem accepted_history_linear_abandoned :
    ((Workflow.machine LocalTree longer).follow firstStep abandoned).OneLine :=
  Workflow.accepted_history_linear (.follow firstStep_start)

end Perago
