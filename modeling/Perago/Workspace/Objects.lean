import Perago.Workspace.Lifecycle
import Mathlib.Data.List.AList

/-!
# Objects under a prefix

The objects of a ref as a map from paths to contents, and what the operations of a
sync plan make of it: under the prefix, the files of the local workspace and nothing
else; outside it, and for attempt markers, what was there.
-/

namespace Perago

/-! ## Maps of objects -/

/-- The objects of a ref. -/
abbrev ObjectMap := AList fun _ : Text => Bytes

/-- `objects(prefix=...)`: LakeFS compares the paths as strings. -/
def ObjectMap.listing (E : ObjectMap) (objectPrefix : Text) : List Text :=
  E.keys.filter (objectPrefix.isPrefixOf ·)

/-- A workspace directory: its listing, and what its files and symlinks hold. -/
structure LocalWorkspace where
  tree : LocalTree
  bytes : List Text → Bytes
  target : List Text → Text

/-- One call of `stage_workspace` between the creation of the branch and the commit. -/
inductive SyncOperation where
  | delete (objectPath : Text)
  | upload (objectPath : Text) (content : Bytes)

namespace SyncOperation

def path : SyncOperation → Text
  | .delete o => o
  | .upload o _ => o

/-- What the operation leaves at its path. -/
def content : SyncOperation → Option Bytes
  | .delete _ => none
  | .upload _ bytes => some bytes

def run (E : ObjectMap) : SyncOperation → ObjectMap
  | .delete o => E.erase o
  | .upload o bytes => E.insert o bytes

variable {E : ObjectMap} {ops : List SyncOperation} {o : Text}

@[simp] theorem lookup_run (op : SyncOperation) :
    (run E op).lookup o = if o = op.path then op.content else E.lookup o := by
  cases op with
  | delete path =>
    by_cases ho : o = path
    · subst ho
      simp [run, SyncOperation.path, content]
    · simp [run, SyncOperation.path, ho, AList.lookup_erase_ne ho]
  | upload path bytes =>
    by_cases ho : o = path
    · subst ho
      simp [run, SyncOperation.path, content]
    · simp [run, SyncOperation.path, ho, AList.lookup_insert_ne ho]

theorem lookup_foldl_of_notMem (h : o ∉ ops.map path) :
    (ops.foldl run E).lookup o = E.lookup o := by
  induction ops generalizing E with
  | nil => rfl
  | cons op ops ih =>
    simp only [List.map_cons, List.mem_cons, not_or] at h
    rw [List.foldl_cons, ih h.2, lookup_run, if_neg h.1]

/-- Operations on different paths each have their effect. -/
theorem lookup_foldl_of_mem (nodup : (ops.map path).Nodup) {op : SyncOperation} (h : op ∈ ops) :
    (ops.foldl run E).lookup op.path = op.content := by
  induction ops generalizing E with
  | nil => cases h
  | cons first ops ih =>
    obtain ⟨hfirst, nodup⟩ := List.nodup_cons.mp nodup
    rw [List.foldl_cons]
    cases h with
    | head => rw [lookup_foldl_of_notMem hfirst, lookup_run, if_pos rfl]
    | tail _ h => exact ih nodup h

/-- Operations on different paths may be run in any order. -/
theorem lookup_foldl_perm {ops' : List SyncOperation} (nodup : (ops.map path).Nodup)
    (perm : ops'.Perm ops) : (ops'.foldl run E).lookup o = (ops.foldl run E).lookup o := by
  have nodup' : (ops'.map path).Nodup := (perm.map path).nodup_iff.mpr nodup
  by_cases ho : o ∈ ops.map path
  · obtain ⟨op, hop, rfl⟩ := List.mem_map.mp ho
    rw [lookup_foldl_of_mem nodup hop, lookup_foldl_of_mem nodup' (perm.symm.subset hop)]
  · have ho' : o ∉ ops'.map path := fun h => ho ((perm.map path).subset h)
    rw [lookup_foldl_of_notMem ho, lookup_foldl_of_notMem ho']

end SyncOperation

/-- The operations of a plan, in the order of `stage_workspace`. -/
def WorkspaceSyncPlan.operations (plan : WorkspaceSyncPlan) (W : LocalWorkspace) :
    List SyncOperation :=
  plan.deleteObjectPaths.map .delete ++
    plan.uploadFiles.map fun f => .upload f.objectPath (W.bytes f.localPath)

/-- All deletes, then all uploads. -/
def WorkspaceSyncPlan.applyTo (plan : WorkspaceSyncPlan) (W : LocalWorkspace) (E : ObjectMap) :
    ObjectMap :=
  (plan.operations W).foldl SyncOperation.run E

/-! ## What a plan deletes -/

variable {p : WorkspacePrefix} {tree : LocalTree} {uploads : List WorkspaceUploadFile}
variable {existing deletes : List Text} {plan : WorkspaceSyncPlan}

/-- A listed object that is shown and not uploaded. -/
def Stale (p : WorkspacePrefix) (uploads : List WorkspaceUploadFile) (o : Text) : Prop :=
  o ∉ uploads.map (·.objectPath) ∧ Under p o ∧ ¬ MarkerNamed o

instance : DecidablePred (Stale p uploads) := fun o => by unfold Stale; infer_instance

theorem deleteObject_eq {o : Text} (ok : ∃ y, deleteObject p uploads o = .ok y) :
    deleteObject p uploads o = .ok (if Stale p uploads o then some o else none) := by
  rw [deleteObject_parts] at ok ⊢
  by_cases ho : o ∈ uploads.map (·.objectPath)
  · have kept : ¬ Stale p uploads o := fun stale => stale.1 ho
    rw [if_pos ho, if_neg kept]
  · rw [if_neg ho] at ok ⊢
    cases hl : workspaceLocalParts p o with
    | error e => simp [hl] at ok
    | ok local' =>
      have shown := (workspaceLocalParts_ok hl).isSome
      cases local' with
      | none =>
        have kept : ¬ Stale p uploads o := fun stale => by simp [stale.2] at shown
        simp [kept]
      | some parts =>
        have stale : Stale p uploads o := ⟨ho, shown.mp rfl⟩
        simp [stale]

theorem workspaceDeleteObjectPaths_spec
    (h : workspaceDeleteObjectPaths p existing uploads = .ok deletes) :
    deletes = (sortedPaths existing).filter (Stale p uploads) := by
  have all := collect_ok fun o ho => deleteObject_eq (ok_of_collect h o ho)
  rw [workspaceDeleteObjectPaths, all] at h
  rw [← Except.ok.inj h, ← List.filterMap_eq_filter]
  refine List.filterMap_congr fun o _ => ?_
  simp [Option.guard]

theorem buildWorkspaceSyncPlan_ok (h : buildWorkspaceSyncPlan tree p existing = .ok plan) :
    workspaceUploadFiles tree p = .ok plan.uploadFiles ∧
      plan.deleteObjectPaths = (sortedPaths existing).filter (Stale p plan.uploadFiles) := by
  unfold buildWorkspaceSyncPlan at h
  split at h
  · cases h
  · rename_i uploads huploads
    split at h
    · cases h
    · rename_i deletes hdeletes
      obtain rfl := Except.ok.inj h
      exact ⟨huploads, workspaceDeleteObjectPaths_spec hdeletes⟩

/-- Different files are uploaded to different objects. -/
theorem uploadPaths_nodup (h : workspaceUploadFiles tree p = .ok uploads) :
    (uploads.map (·.objectPath)).Nodup := by
  obtain ⟨perm, encoded⟩ := workspaceUploadFiles_spec h
  have nodup : (uploads.map (·.localPath)).Nodup := by
    refine perm.nodup_iff.mpr (tree.nodup.sublist ?_)
    exact (List.filter_sublist).map _
  have paths : uploads.map (·.objectPath) = (uploads.map (·.localPath)).map (encode p) := by
    rw [List.map_map]
    exact List.map_congr_left fun f hf => (encoded f hf).2
  rw [paths]
  refine nodup.map_on fun a ha b hb heq => ?_
  obtain ⟨hne, plain, -⟩ := LocalTree.mem_files (perm.subset ha)
  obtain ⟨hne', plain', -⟩ := LocalTree.mem_files (perm.subset hb)
  exact encode_injective hne hne' plain plain' heq

theorem mem_uploadPaths (h : workspaceUploadFiles tree p = .ok uploads) {o : Text} :
    o ∈ uploads.map (·.objectPath) ↔ ∃ parts ∈ tree.files, o = encode p parts := by
  obtain ⟨perm, encoded⟩ := workspaceUploadFiles_spec h
  constructor
  · intro ho
    obtain ⟨f, hf, rfl⟩ := List.mem_map.mp ho
    exact ⟨_, encoded f hf⟩
  · rintro ⟨parts, hparts, rfl⟩
    obtain ⟨f, hf, rfl⟩ := List.mem_map.mp (perm.symm.subset hparts)
    exact List.mem_map.mpr ⟨f, hf, (encoded f hf).2⟩

/-! ## What a plan does to the objects -/

section Effect

variable {W : LocalWorkspace} {E : ObjectMap} {listed : List Text} {o : Text}

theorem operations_paths : (plan.operations W).map SyncOperation.path =
    plan.deleteObjectPaths ++ plan.uploadFiles.map (·.objectPath) := by
  simp [WorkspaceSyncPlan.operations, Function.comp_def, SyncOperation.path]

theorem operations_nodup (listing : listed.Perm (E.listing (workspaceObjectPrefix p)))
    (h : buildWorkspaceSyncPlan W.tree p listed = .ok plan) :
    ((plan.operations W).map SyncOperation.path).Nodup := by
  obtain ⟨huploads, hdeletes⟩ := buildWorkspaceSyncPlan_ok h
  rw [operations_paths, List.nodup_append, hdeletes]
  refine ⟨?_, uploadPaths_nodup huploads, ?_⟩
  · refine .filter _ ((List.perm_insertionSort _ _).nodup_iff.mpr ?_)
    exact listing.nodup_iff.mpr (E.keys_nodup.filter _)
  · rintro o ho _ hu rfl
    have stale := (List.mem_filter.mp ho).2
    exact (of_decide_eq_true stale).1 hu

/-- The objects of the branch that the listing gives are all that can be under the prefix. -/
theorem mem_listed_of_under (listing : listed.Perm (E.listing (workspaceObjectPrefix p)))
    (under : Under p o) (ho : o ∈ E.keys) : o ∈ listed := by
  refine listing.symm.subset (List.mem_filter.mpr ⟨ho, List.isPrefixOf_iff_prefix.mpr ?_⟩)
  obtain root | under := under
  · simp [root]
  · exact (List.prefix_append _ _).trans under

theorem lookup_applyTo_file (listing : listed.Perm (E.listing (workspaceObjectPrefix p)))
    (h : buildWorkspaceSyncPlan W.tree p listed = .ok plan) {parts : List Text}
    (hparts : parts ∈ W.tree.files) :
    (plan.applyTo W E).lookup (encode p parts) = some (W.bytes parts) := by
  obtain ⟨perm, encoded⟩ := workspaceUploadFiles_spec (buildWorkspaceSyncPlan_ok h).1
  obtain ⟨f, hf, rfl⟩ := List.mem_map.mp (perm.symm.subset hparts)
  have hop : .upload f.objectPath (W.bytes f.localPath) ∈ plan.operations W :=
    List.mem_append_right _ (List.mem_map.mpr ⟨f, hf, rfl⟩)
  rw [← (encoded f hf).2]
  exact SyncOperation.lookup_foldl_of_mem (operations_nodup listing h) hop

theorem lookup_applyTo_stale (listing : listed.Perm (E.listing (workspaceObjectPrefix p)))
    (h : buildWorkspaceSyncPlan W.tree p listed = .ok plan)
    (stale : Stale p plan.uploadFiles o) : (plan.applyTo W E).lookup o = none := by
  obtain ⟨-, hdeletes⟩ := buildWorkspaceSyncPlan_ok h
  by_cases ho : o ∈ E.keys
  · have hdelete : o ∈ plan.deleteObjectPaths := by
      rw [hdeletes]
      refine List.mem_filter.mpr ⟨(List.mem_insertionSort _).mpr ?_, decide_eq_true stale⟩
      exact mem_listed_of_under listing stale.2.1 ho
    have hop : .delete o ∈ plan.operations W :=
      List.mem_append_left _ (List.mem_map_of_mem hdelete)
    exact SyncOperation.lookup_foldl_of_mem (operations_nodup listing h) hop
  · have untouched : o ∉ (plan.operations W).map SyncOperation.path := by
      rw [operations_paths, List.mem_append, hdeletes, not_or]
      refine ⟨fun hd => ho ?_, stale.1⟩
      have hmem := listing.subset ((List.mem_insertionSort _).mp (List.mem_filter.mp hd).1)
      exact (List.mem_filter.mp hmem).1
    rw [WorkspaceSyncPlan.applyTo, SyncOperation.lookup_foldl_of_notMem untouched]
    exact AList.lookup_eq_none.mpr ho

theorem lookup_applyTo_hidden (h : buildWorkspaceSyncPlan W.tree p listed = .ok plan)
    (hidden : ¬ Under p o ∨ MarkerNamed o) :
    (plan.applyTo W E).lookup o = E.lookup o := by
  obtain ⟨huploads, hdeletes⟩ := buildWorkspaceSyncPlan_ok h
  refine SyncOperation.lookup_foldl_of_notMem ?_
  rw [operations_paths, List.mem_append, mem_uploadPaths huploads, hdeletes]
  rintro (hd | ⟨parts, hparts, rfl⟩)
  · obtain ⟨-, under, unmarked⟩ := of_decide_eq_true (List.mem_filter.mp hd).2
    exact hidden.elim (· under) unmarked
  · obtain ⟨hne, plain, hm⟩ := LocalTree.mem_files hparts
    rw [markerNamed_encode hne plain] at hidden
    exact hidden.elim (· (encode_under p parts)) hm

/-- The files of a workspace are the visible objects under the prefix. -/
structure Mirrors (p : WorkspacePrefix) (E : ObjectMap) (W : LocalWorkspace) : Prop where
  stored : ∀ parts ∈ W.tree.files, E.lookup (encode p parts) = some (W.bytes parts)
  covered : ∀ o, (E.lookup o).isSome → Under p o → ¬ MarkerNamed o →
    ∃ parts ∈ W.tree.files, o = encode p parts

theorem applyTo_mirrors (listing : listed.Perm (E.listing (workspaceObjectPrefix p)))
    (h : buildWorkspaceSyncPlan W.tree p listed = .ok plan) : Mirrors p (plan.applyTo W E) W where
  stored _ hparts := lookup_applyTo_file listing h hparts
  covered o ho under unmarked := by
    by_contra hnone
    have fresh : o ∉ plan.uploadFiles.map (·.objectPath) := fun hu =>
      hnone ((mem_uploadPaths (buildWorkspaceSyncPlan_ok h).1).mp hu)
    rw [lookup_applyTo_stale listing h ⟨fresh, under, unmarked⟩] at ho
    cases ho

/-- A plan changes nothing exactly when the workspace mirrors the objects already. -/
theorem applyTo_unchanged_iff (listing : listed.Perm (E.listing (workspaceObjectPrefix p)))
    (h : buildWorkspaceSyncPlan W.tree p listed = .ok plan) :
    (∀ o, (plan.applyTo W E).lookup o = E.lookup o) ↔ Mirrors p E W := by
  constructor
  · intro same
    obtain ⟨stored, covered⟩ := applyTo_mirrors listing h
    exact ⟨fun parts hparts => same _ ▸ stored parts hparts,
      fun o ho => covered o (same o ▸ ho)⟩
  · intro mirrors o
    by_cases hidden : ¬ Under p o ∨ MarkerNamed o
    · exact lookup_applyTo_hidden h hidden
    · obtain ⟨under, unmarked⟩ : Under p o ∧ ¬ MarkerNamed o := by
        simpa [not_or] using hidden
      by_cases hfile : ∃ parts ∈ W.tree.files, o = encode p parts
      · obtain ⟨parts, hparts, rfl⟩ := hfile
        rw [lookup_applyTo_file listing h hparts, mirrors.stored parts hparts]
      · have fresh : o ∉ plan.uploadFiles.map (·.objectPath) := fun hu =>
          hfile ((mem_uploadPaths (buildWorkspaceSyncPlan_ok h).1).mp hu)
        rw [lookup_applyTo_stale listing h ⟨fresh, under, unmarked⟩]
        cases hlookup : E.lookup o with
        | none => rfl
        | some bytes => exact absurd (mirrors.covered o (by simp [hlookup]) under unmarked) hfile

/-- Two workspaces that mirror the same objects hold the same files. -/
theorem Mirrors.files_subset {V : LocalWorkspace} (h : Mirrors p E W) (h' : Mirrors p E V)
    {parts : List Text} (hparts : parts ∈ W.tree.files) :
    parts ∈ V.tree.files ∧ V.bytes parts = W.bytes parts := by
  obtain ⟨hne, plain, hm⟩ := LocalTree.mem_files hparts
  have stored := h.stored parts hparts
  obtain ⟨parts', hparts', encoded⟩ := h'.covered _ (by simp [stored]) (encode_under p parts)
    (by rwa [markerNamed_encode hne plain])
  obtain ⟨hne', plain', -⟩ := LocalTree.mem_files hparts'
  obtain rfl := encode_injective hne hne' plain plain' encoded
  exact ⟨hparts', Option.some.inj ((h'.stored _ hparts').symm.trans stored)⟩

theorem mirrors_iff_same_files {V : LocalWorkspace} (h : Mirrors p E W) :
    Mirrors p E V ↔ (∀ parts, parts ∈ V.tree.files ↔ parts ∈ W.tree.files) ∧
      ∀ parts ∈ V.tree.files, V.bytes parts = W.bytes parts := by
  constructor
  · intro h'
    exact ⟨fun parts => ⟨fun hparts => (h'.files_subset h hparts).1,
        fun hparts => (h.files_subset h' hparts).1⟩,
      fun parts hparts => (h'.files_subset h hparts).2.symm⟩
  · rintro ⟨files, bytes⟩
    refine ⟨fun parts hparts => ?_, fun o ho under unmarked => ?_⟩
    · rw [h.stored parts ((files parts).mp hparts), bytes parts hparts]
    · obtain ⟨parts, hparts, rfl⟩ := h.covered o ho under unmarked
      exact ⟨parts, (files parts).mpr hparts, rfl⟩

end Effect

/-- A sync plan makes what lies under the prefix equal to the local workspace, and
touches nothing else, in whatever order its operations run. -/
theorem syncPlan_effect {W : LocalWorkspace} {E : ObjectMap} {listed : List Text}
    (listing : listed.Perm (E.listing (workspaceObjectPrefix p)))
    (h : buildWorkspaceSyncPlan W.tree p listed = .ok plan) :
    (∀ parts ∈ W.tree.files,
      (plan.applyTo W E).lookup (encode p parts) = some (W.bytes parts)) ∧
    (∀ o, Under p o → ¬ MarkerNamed o → (∀ parts ∈ W.tree.files, o ≠ encode p parts) →
      (plan.applyTo W E).lookup o = none) ∧
    (∀ o, ¬ Under p o ∨ MarkerNamed o → (plan.applyTo W E).lookup o = E.lookup o) ∧
    (plan.uploadFiles.map (·.objectPath)).Nodup ∧ plan.deleteObjectPaths.Nodup ∧
    plan.deleteObjectPaths.Disjoint (plan.uploadFiles.map (·.objectPath)) ∧
    ∀ ops : List SyncOperation, ops.Perm (plan.operations W) →
      ∀ o, (ops.foldl SyncOperation.run E).lookup o = (plan.applyTo W E).lookup o := by
  have nodup := operations_nodup listing h
  have split := nodup
  rw [operations_paths, List.nodup_append'] at split
  refine ⟨fun parts => lookup_applyTo_file listing h, fun o under unmarked other => ?_,
    fun o => lookup_applyTo_hidden h, split.2.1, split.1, split.2.2,
    fun ops perm o => SyncOperation.lookup_foldl_perm nodup perm⟩
  refine lookup_applyTo_stale listing h ⟨fun hu => ?_, under, unmarked⟩
  obtain ⟨parts, hparts, rfl⟩ := (mem_uploadPaths (buildWorkspaceSyncPlan_ok h).1).mp hu
  exact other parts hparts rfl

/-- `d/a` is published over two older objects, one of them no path of a file. -/
theorem syncPlan_effect_plain :
    ∃ plan, buildWorkspaceSyncPlan plainTree rootPrefix [text "old", text "d/a"] = .ok plan ∧
      ∀ parts ∈ plainTree.files,
        (plan.applyTo ⟨plainTree, fun _ => [1], fun _ => []⟩
          (.insert (text "old") [2] (.singleton (text "d/a") [3]))).lookup
            (encode rootPrefix parts) = some [1] :=
  ⟨_, rfl, (syncPlan_effect (W := ⟨plainTree, fun _ => [1], fun _ => []⟩)
    (E := .insert (text "old") [2] (.singleton (text "d/a") [3])) (.of_eq rfl) rfl).1⟩

end Perago
