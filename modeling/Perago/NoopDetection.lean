import Perago.LakefsObjects

/-!
# No-op detection

An attempt compares the directory after the body with the directory after the download,
and a sync plan compares it with the objects of the input. The two agree: equal
snapshots are those for which the plan changes no object.
-/

namespace Perago

open Effect

variable {p : WorkspacePrefix} {E : ObjectMap} {W T : LocalWorkspace} {sha256 : Bytes → String}

/-! ## Snapshots of workspaces without symlinks -/

/-- Symlinks under the name of the attempt marker are passed over. -/
def LocalTree.NoSymlinks (tree : LocalTree) : Prop :=
  ∀ e ∈ tree.entries, e.kind = .symlink → pathName e.parts = attemptWorkspaceMarker

/-- The files in the order of `sorted`. -/
def LocalTree.sortedFiles (tree : LocalTree) : List (List Text) :=
  ((sortedEntries tree.entries).filter fun e =>
    e.kind = .file ∧ pathName e.parts ≠ attemptWorkspaceMarker).map (·.parts)

theorem sortedFiles_perm (tree : LocalTree) : tree.sortedFiles.Perm tree.files :=
  ((List.perm_insertionSort _ _).filter _).map _

theorem sortedFiles_pairwise (tree : LocalTree) : tree.sortedFiles.Pairwise (· ≤ ·) := by
  refine List.pairwise_map.mpr (.filter _ ?_)
  exact List.pairwise_insertionSort (fun a b : LocalEntry => a.parts ≤ b.parts) _

theorem snapshot_eq_map (h : W.tree.NoSymlinks) :
    W.snapshot sha256 =
      W.tree.sortedFiles.map fun parts => .file (joinSlash parts) (sha256 (W.bytes parts)) := by
  rw [LocalWorkspace.snapshot, LocalTree.sortedFiles, List.map_map, ← List.filterMap_eq_map,
    ← List.filterMap_eq_filter, List.filterMap_filterMap]
  refine List.filterMap_congr fun e he => ?_
  have link := h e (mem_sortedEntries.mp he)
  unfold snapshotOf
  by_cases hm : pathName e.parts = attemptWorkspaceMarker
  · simp [hm, Option.guard]
  · cases hk : e.kind with
    | symlink => exact absurd (link hk) hm
    | file | directory | special => simp [hm, hk, Option.guard]

/-- Equal snapshots are those of equal files with equal digests. -/
theorem snapshot_eq_iff (hW : W.tree.NoSymlinks) (hT : T.tree.NoSymlinks) :
    T.snapshot sha256 = W.snapshot sha256 ↔
      (∀ parts, parts ∈ T.tree.files ↔ parts ∈ W.tree.files) ∧
        ∀ parts ∈ T.tree.files, sha256 (T.bytes parts) = sha256 (W.bytes parts) := by
  rw [snapshot_eq_map hW, snapshot_eq_map hT]
  constructor
  · intro same
    have files : T.tree.sortedFiles = W.tree.sortedFiles := by
      have paths := congrArg (List.map fun
        | SnapshotEntry.file path _ => path.splitOn slash
        | SnapshotEntry.symlink path _ => path.splitOn slash) same
      simp only [List.map_map, Function.comp_def] at paths
      have back : ∀ V : LocalWorkspace,
          V.tree.sortedFiles.map (fun parts => (joinSlash parts).splitOn slash) =
            V.tree.sortedFiles := by
        intro V
        refine (List.map_congr_left fun parts hparts => ?_).trans (List.map_id _)
        obtain ⟨hne, plain, -⟩ := LocalTree.mem_files ((sortedFiles_perm _).subset hparts)
        exact splitOn_joinSlash hne plain
      rwa [back, back] at paths
    refine ⟨fun parts => ?_, fun parts hparts => ?_⟩
    · rw [← (sortedFiles_perm T.tree).mem_iff, files, (sortedFiles_perm W.tree).mem_iff]
    · rw [files] at same
      have hmem : parts ∈ W.tree.sortedFiles :=
        files ▸ (sortedFiles_perm T.tree).symm.subset hparts
      have entry := List.map_inj_left.mp same parts hmem
      exact (SnapshotEntry.file.inj entry).2
  · rintro ⟨files, digests⟩
    have nodup : ∀ V : LocalWorkspace, V.tree.files.Nodup := fun V =>
      V.tree.nodup.sublist (List.filter_sublist.map _)
    have perm : T.tree.sortedFiles.Perm W.tree.sortedFiles :=
      (sortedFiles_perm _).trans <|
        ((List.perm_ext_iff_of_nodup (nodup T) (nodup W)).mpr files).trans
          (sortedFiles_perm _).symm
    rw [perm.eq_of_pairwise' (sortedFiles_pairwise _) (sortedFiles_pairwise _)]
    refine List.map_congr_left fun parts hparts => ?_
    rw [digests parts ((files parts).mpr ((sortedFiles_perm _).subset hparts))]

/-! ## Downloaded workspaces -/

def preparedWorkspace (marker : Bytes) : LocalWorkspace where
  tree := markerTree
  bytes _ := marker
  target _ := []

theorem workspaceDownloadFiles_decodes {listed : List Text} {files : List WorkspaceDownloadFile}
    (h : workspaceDownloadFiles p listed = .ok files) {o : Text} (ho : o ∈ listed) :
    ∃ local', workspaceLocalParts p o = .ok local' := by
  rw [workspaceDownloadFiles_eq] at h
  obtain ⟨y, hy⟩ := ok_of_collect h o ((List.mem_insertionSort _).mpr ho)
  unfold downloadObject at hy
  split at hy
  · cases hy
  · exact ⟨_, by assumption⟩

theorem mem_workspaceDownloadFiles {listed : List Text} {files : List WorkspaceDownloadFile}
    (h : workspaceDownloadFiles p listed = .ok files) (f : WorkspaceDownloadFile) :
    f ∈ files ↔ f.objectPath ∈ listed ∧
      workspaceLocalParts p f.objectPath = .ok (some f.localPath) := by
  rw [workspaceDownloadFiles_eq] at h
  rw [mem_of_collect h]
  constructor
  · rintro ⟨o, ho, hf⟩
    unfold downloadObject at hf
    split at hf
    · cases hf
    · rename_i local' hl
      obtain ⟨parts, rfl, rfl⟩ := Option.map_eq_some_iff.mp (Except.ok.inj hf)
      exact ⟨(List.mem_insertionSort _).mp ho, hl⟩
  · rintro ⟨ho, hl⟩
    exact ⟨f.objectPath, (List.mem_insertionSort _).mpr ho, by simp [downloadObject, hl]⟩

/-- Different objects are downloaded to different files. -/
theorem downloadPaths_nodup {listed : List Text} {files : List WorkspaceDownloadFile}
    (nodup : listed.Nodup) (h : workspaceDownloadFiles p listed = .ok files) :
    (files.map (·.localPath)).Nodup := by
  have objects : (files.map (·.objectPath)).Nodup := by
    have same : ∀ o f, (downloadObject p o).toOption.join = some f → f.objectPath = o := by
      intro o f hf
      unfold downloadObject at hf
      split at hf
      · cases hf
      · simp only [Except.toOption, Option.join_some, Option.map_eq_some_iff] at hf
        obtain ⟨parts, -, rfl⟩ := hf
        rfl
    rw [workspaceDownloadFiles_eq] at h
    rw [filterMap_of_collect h, List.map_filterMap]
    refine .filterMap (fun o o' f hf hf' => ?_)
      ((List.perm_insertionSort _ _).nodup_iff.mpr nodup)
    obtain ⟨g, hg, rfl⟩ := Option.map_eq_some_iff.mp hf
    obtain ⟨g', hg', heq⟩ := Option.map_eq_some_iff.mp hf'
    rw [← same o g hg, ← same o' g' hg', heq]
  refine List.nodup_iff_pairwise_ne.mpr (List.pairwise_map.mpr ?_)
  refine (List.pairwise_map.mp objects).imp_of_mem fun {f g} hf hg hne heq => hne ?_
  have hf' := ((mem_workspaceDownloadFiles h f).mp hf).2
  have hg' := ((mem_workspaceDownloadFiles h g).mp hg).2
  cases workspaceLocalParts_ok hf' with
  | shown _ encoded =>
    cases workspaceLocalParts_ok hg' with
    | shown _ encoded' => rw [encoded, encoded', heq]

section Downloaded

variable {marker : Bytes} {files : List WorkspaceDownloadFile} {listed : List Text}

theorem mem_downloaded_entries
    (written : Written (ObjectStore.downloaded E files) (preparedWorkspace marker) W)
    (e : LocalEntry) : e ∈ W.tree.entries ↔ e = ⟨[attemptWorkspaceMarker], .file⟩ ∨
      ∃ f ∈ files, e = ⟨f.localPath, .file⟩ ∨ ∃ q ∈ parents f.localPath, e = ⟨q, .directory⟩ := by
  rw [written.entries]
  simp [preparedWorkspace, markerTree, ObjectStore.downloaded]

theorem mem_downloaded_files (h : workspaceDownloadFiles p listed = .ok files)
    (written : Written (ObjectStore.downloaded E files) (preparedWorkspace marker) W)
    (parts : List Text) : parts ∈ W.tree.files ↔ ∃ f ∈ files, parts = f.localPath := by
  rw [LocalTree.mem_files_iff, mem_downloaded_entries written]
  constructor
  · rintro ⟨hmarker | ⟨f, hf, hfile | ⟨q, -, hq⟩⟩, hm⟩
    · exact absurd (by cases hmarker; rfl) hm
    · exact ⟨f, hf, (LocalEntry.mk.inj hfile).1⟩
    · cases hq
  · rintro ⟨f, hf, rfl⟩
    refine ⟨.inr ⟨f, hf, .inl rfl⟩, ?_⟩
    cases workspaceLocalParts_ok ((mem_workspaceDownloadFiles h f).mp hf).2 with
    | shown _ _ _ _ unmarked => exact unmarked

/-- What a download writes into a prepared workspace mirrors the objects. -/
theorem download_mirrors (listing : listed.Perm (E.listing (workspaceObjectPrefix p)))
    (h : workspaceDownloadFiles p listed = .ok files)
    (written : Written (ObjectStore.downloaded E files) (preparedWorkspace marker) W) :
    Mirrors p E W := by
  refine ⟨fun parts hparts => ?_, fun o ho under unmarked => ?_⟩
  · obtain ⟨f, hf, rfl⟩ := (mem_downloaded_files h written parts).mp hparts
    obtain ⟨hobject, hl⟩ := (mem_workspaceDownloadFiles h f).mp hf
    have key := (List.mem_filter.mp (listing.subset hobject)).1
    obtain ⟨bytes, hbytes⟩ := Option.isSome_iff_exists.mp (AList.lookup_isSome.mpr key)
    have content := written.content _ (List.mem_map_of_mem hf)
    cases workspaceLocalParts_ok hl with
    | shown _ encoded => rw [← encoded, content, hbytes, Option.getD_some]
  · have key := mem_listed_of_under listing under (AList.lookup_isSome.mp ho)
    obtain ⟨local', hl⟩ := workspaceDownloadFiles_decodes h key
    obtain ⟨parts, rfl⟩ :=
      Option.isSome_iff_exists.mp ((workspaceLocalParts_ok hl).isSome.mpr ⟨under, unmarked⟩)
    have hmem := (mem_workspaceDownloadFiles h ⟨o, parts⟩).mpr ⟨key, hl⟩
    refine ⟨parts, (mem_downloaded_files h written parts).mpr ⟨_, hmem, rfl⟩, ?_⟩
    cases workspaceLocalParts_ok hl with
    | shown _ encoded => exact encoded

end Downloaded

/-! ## The two comparisons agree -/

/-- Of a tree without symlinks, whose objects all decode, there is a plan. -/
theorem buildWorkspaceSyncPlan_exists {tree : LocalTree} {listed : List Text}
    (links : tree.NoSymlinks)
    (decodes : ∀ o ∈ listed, ∃ local', workspaceLocalParts p o = .ok local') :
    ∃ plan, buildWorkspaceSyncPlan tree p listed = .ok plan := by
  have uploads : ∃ uploads, workspaceUploadFiles tree p = .ok uploads := by
    refine ⟨_, collect_ok fun e he => uploadEntry_eq (mem_sortedEntries.mp he) ?_⟩
    have hmem := mem_sortedEntries.mp he
    have encoded := workspaceObjectPath_posix (p := p) (tree.inside e hmem)
      fun name hn => (tree.named e hmem name hn).toPlainName
    unfold uploadEntry
    by_cases hm : pathName e.parts = attemptWorkspaceMarker
    · exact ⟨none, by simp [hm]⟩
    · cases hk : e.kind with
      | symlink => exact absurd (links e hmem hk) hm
      | file => exact ⟨some ⟨e.parts, encode p e.parts⟩, by simp [hm, encoded]⟩
      | directory | special => exact ⟨none, by simp [hm]⟩
  obtain ⟨uploads, huploads⟩ := uploads
  have deletes : ∃ deletes, workspaceDeleteObjectPaths p listed uploads = .ok deletes := by
    refine ⟨_, collect_ok fun o ho => deleteObject_eq ?_⟩
    obtain ⟨local', hl⟩ := decodes o ((List.mem_insertionSort _).mp ho)
    rw [deleteObject_parts]
    split
    · exact ⟨none, rfl⟩
    · exact ⟨local'.map fun _ => o, by simp [hl]⟩
  obtain ⟨deletes, hdeletes⟩ := deletes
  exact ⟨⟨uploads, deletes⟩, by simp [buildWorkspaceSyncPlan, huploads, hdeletes]⟩

/-- A symlink ends the planning of the uploads. -/
theorem buildWorkspaceSyncPlan_symlink {tree : LocalTree} {listed : List Text} {e : LocalEntry}
    (he : e ∈ tree.entries) (hk : e.kind = .symlink)
    (hm : pathName e.parts ≠ attemptWorkspaceMarker) :
    ∃ exc, buildWorkspaceSyncPlan tree p listed = .error exc := by
  cases huploads : workspaceUploadFiles tree p with
  | error exc => exact ⟨exc, by simp [buildWorkspaceSyncPlan, huploads]⟩
  | ok uploads =>
    obtain ⟨y, hy⟩ := ok_of_collect huploads e (mem_sortedEntries.mpr he)
    simp [uploadEntry, hm, hk] at hy

section

open ObjectStore

variable {base : LakeFSClient ObjectStore} {commitId : ObjectMap → String} {budget : Option Nat}
variable {machine : Host ObjectStore} {dir : Path} {s s₀ : ObjectStore}
variable {i : WorkspaceInput} {spec : WorkspaceSpec}

/-- A download into a prepared workspace leaves the marker, the files of the visible
objects, and the directories above them. -/
structure FreshCopy (p : WorkspacePrefix) (E : ObjectMap) (W : LocalWorkspace) : Prop where
  decodes : ∀ o ∈ E.listing (workspaceObjectPrefix p), ∃ l, workspaceLocalParts p o = .ok l
  mirrors : Mirrors p E W
  entries : ∀ e, e ∈ W.tree.entries ↔ e = ⟨[attemptWorkspaceMarker], .file⟩ ∨
    ∃ parts ∈ W.tree.files, e = ⟨parts, .file⟩ ∨ ∃ q ∈ parents parts, e = ⟨q, .directory⟩

theorem FreshCopy.noSymlinks (h : FreshCopy p E W) : W.tree.NoSymlinks := by
  intro e he hlink
  rcases (h.entries e).mp he with rfl | ⟨f, -, rfl | ⟨q, -, rfl⟩⟩ <;> cases hlink

theorem downloadWorkspace_freshCopy {marker : Bytes} (prepared : s.disk = preparedWorkspace marker)
    (hE : s.refs (i.repository, i.ref) = some E)
    (down : (runtime base commitId budget).downloadWorkspace (host machine dir) i spec dir s =
      (.ok (), s₀)) : FreshCopy spec.workspacePrefix E s₀.disk := by
  obtain ⟨E', files, hE', hfiles, -, writes⟩ := downloadWorkspace_ok down
  obtain rfl : E = E' := Option.some.inj (hE.symm.trans hE')
  rw [prepared] at writes
  have nodup := downloadPaths_nodup (E.keys_nodup.filter _) hfiles
  have written := writeFiles_ok (by simpa [downloaded, Function.comp_def] using nodup) writes
  refine ⟨fun o ho => workspaceDownloadFiles_decodes hfiles ho,
    download_mirrors (.refl _) hfiles written, fun e => ?_⟩
  rw [mem_downloaded_entries written]
  simp [mem_downloaded_files hfiles written]

/-- The snapshots before and after the body are equal exactly when staging would change
no object of the input; with a symlink they differ, and planning raises. -/
theorem noop_iff_plan_unchanged (injective : Function.Injective machine.sha256) {marker : Bytes}
    (prepared : s.disk = preparedWorkspace marker)
    (down : (runtime base commitId budget).downloadWorkspace (host machine dir) i spec dir s =
      (.ok (), s₀))
    (hE : s.refs (i.repository, i.ref) = some E)
    {listed : List Text}
    (listing : listed.Perm (E.listing (workspaceObjectPrefix spec.workspacePrefix)))
    (T : LocalWorkspace) :
    (T.tree.NoSymlinks →
      ((snapshotWorkspace (host machine dir) dir { s₀ with disk := T }).1 =
          (snapshotWorkspace (host machine dir) dir s₀).1 ↔
        ∃ plan, buildWorkspaceSyncPlan T.tree spec.workspacePrefix listed = .ok plan ∧
          ∀ o, (plan.applyTo T E).lookup o = E.lookup o)) ∧
    (¬ T.tree.NoSymlinks →
      (snapshotWorkspace (host machine dir) dir { s₀ with disk := T }).1 ≠
          (snapshotWorkspace (host machine dir) dir s₀).1 ∧
        ∃ exc, buildWorkspaceSyncPlan T.tree spec.workspacePrefix listed = .error exc) := by
  have fresh := downloadWorkspace_freshCopy prepared hE down
  simp only [snapshotWorkspace_ok]
  refine ⟨fun links => ?_, fun links => ?_⟩
  · have decodes : ∀ o ∈ listed,
        ∃ local', workspaceLocalParts spec.workspacePrefix o = .ok local' :=
      fun o ho => fresh.decodes o (listing.subset ho)
    obtain ⟨plan, hplan⟩ := buildWorkspaceSyncPlan_exists links decodes
    rw [Outcome.ok.injEq, snapshot_eq_iff fresh.noSymlinks links]
    simp only [injective.eq_iff]
    rw [← mirrors_iff_same_files fresh.mirrors, ← applyTo_unchanged_iff listing hplan]
    simp [hplan]
  · simp only [LocalTree.NoSymlinks, not_forall] at links
    obtain ⟨e, he, hk, hm⟩ := links
    refine ⟨fun same => ?_, buildWorkspaceSyncPlan_symlink he hk hm⟩
    have entry : SnapshotEntry.symlink (joinSlash e.parts) (T.target e.parts) ∈
        T.snapshot machine.sha256 :=
      List.mem_filterMap.mpr ⟨e, mem_sortedEntries.mpr he, by simp [snapshotOf, hm, hk]⟩
    rw [Outcome.ok.inj same, snapshot_eq_map fresh.noSymlinks] at entry
    obtain ⟨parts, -, hfile⟩ := List.mem_map.mp entry
    cases hfile

/-- One object is downloaded; the body writes its file again. -/
theorem noop_iff_plan_unchanged_plain :
    let E : ObjectMap := .singleton (text "d/a") [3]
    let s := preparedStore E (preparedWorkspace [])
    let R := runtime absentClient (fun _ => "c1") none
    let spec : WorkspaceSpec := ⟨rootPrefix, [], [], false⟩
    let s₀ := (R.downloadWorkspace (host idleMachine []) someInput spec [] s).2
    let T : LocalWorkspace := ⟨plainTree, fun _ => [3], fun _ => []⟩
    (snapshotWorkspace (host idleMachine []) [] { s₀ with disk := T }).1 =
        (snapshotWorkspace (host idleMachine []) [] s₀).1 ↔
      ∃ plan, buildWorkspaceSyncPlan T.tree rootPrefix [text "d/a"] = .ok plan ∧
        ∀ o, (plan.applyTo T E).lookup o = E.lookup o := by
  intro E s R spec s₀ T
  have down : R.downloadWorkspace (host idleMachine []) someInput spec [] s = (.ok (), s₀) :=
    Prod.ext rfl rfl
  refine (noop_iff_plan_unchanged bytesDigest_injective rfl down rfl (.refl _) T).1
    fun e he hk => ?_
  simp only [T, plainTree, oneFile, List.mem_cons, List.not_mem_nil, or_false] at he
  rcases he with rfl | rfl <;> cases hk

end

end Perago
