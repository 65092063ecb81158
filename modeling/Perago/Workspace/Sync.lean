import Perago.Workspace.Paths
import Mathlib.Data.List.Sort

/-!
# Workspace synchronisation plans

What is uploaded from a local workspace, what is downloaded into one, and what is
deleted remotely. Publishing and downloading again gives every file back exactly
when every published path is portable.
-/

namespace Perago

/-! ## The local workspace -/

/-- What `is_symlink` and `is_file` tell of an entry; `special` is neither. -/
inductive EntryKind where
  | file
  | directory
  | symlink
  | special
  deriving DecidableEq

/-- An entry of `rglob("*")`, by its path relative to the workspace. -/
structure LocalEntry where
  parts : List Text
  kind : EntryKind

/-- The names a POSIX directory can hold. -/
structure FileName (name : Text) : Prop extends PlainName name where
  nul : 0 ∉ name

/-- The listing of a workspace directory. -/
structure LocalTree where
  entries : List LocalEntry
  nodup : (entries.map (·.parts)).Nodup
  inside : ∀ e ∈ entries, e.parts ≠ []
  named : ∀ e ∈ entries, ∀ name ∈ e.parts, FileName name

/-- The regular files of a workspace, less attempt markers. -/
def LocalTree.files (tree : LocalTree) : List (List Text) :=
  (tree.entries.filter fun e =>
    e.kind = .file ∧ pathName e.parts ≠ attemptWorkspaceMarker).map (·.parts)

/-! ## Plans -/

structure WorkspaceUploadFile where
  localPath : List Text
  objectPath : Text

/-- A `WorkspaceDownloadFile`. -/
structure PlannedDownload where
  objectPath : Text
  localPath : PosixPath

structure WorkspaceSyncPlan where
  uploadFiles : List WorkspaceUploadFile
  deleteObjectPaths : List Text

/-- `sorted` on object paths. -/
def sortedPaths (paths : List Text) : List Text := paths.insertionSort (· ≤ ·)

/-- `sorted` on local paths: they compare by their parts. -/
def sortedEntries (entries : List LocalEntry) : List LocalEntry :=
  entries.insertionSort (·.parts ≤ ·.parts)

/-- The loop body of `workspace_upload_files`. -/
def uploadEntry (p : WorkspacePrefix) (e : LocalEntry) :
    Except PyException (Option WorkspaceUploadFile) :=
  if pathName e.parts = attemptWorkspaceMarker then .ok none
  else match e.kind with
    | .symlink => .error (.mk' .taskInputError
        ("workspace publication does not support symlinks: " ++ (joinSlash e.parts).render))
    | .file => match workspaceObjectPath p (.posix false e.parts) with
      | .error exc => .error exc
      | .ok objectPath => .ok (some { localPath := e.parts, objectPath := objectPath })
    | .directory | .special => .ok none

/-- `workspace_upload_files`. -/
def workspaceUploadFiles (tree : LocalTree) (p : WorkspacePrefix) :
    Except PyException (List WorkspaceUploadFile) :=
  collect (uploadEntry p) (sortedEntries tree.entries)

/-- The loop body of `workspace_download_files`. -/
def planDownload (workspaceDir : PosixPath) (p : WorkspacePrefix) (objectPath : Text) :
    Except PyException (Option PlannedDownload) :=
  match workspaceLocalPath p objectPath with
  | .error exc => .error exc
  | .ok localPath => .ok (localPath.map fun path => ⟨objectPath, workspaceDir.join path⟩)

/-- `workspace_download_files`. -/
def planDownloads (workspaceDir : PosixPath) (p : WorkspacePrefix) (objectPaths : List Text) :
    Except PyException (List PlannedDownload) :=
  collect (planDownload workspaceDir p) (sortedPaths objectPaths)

/-- The loop body of `workspace_delete_object_paths`. -/
def deleteObject (p : WorkspacePrefix) (uploaded : List WorkspaceUploadFile) (objectPath : Text) :
    Except PyException (Option Text) :=
  if objectPath ∈ uploaded.map (·.objectPath) then .ok none
  else match workspaceLocalPath p objectPath with
    | .error exc => .error exc
    | .ok localPath => .ok (localPath.map fun _ => objectPath)

/-- `workspace_delete_object_paths`. -/
def workspaceDeleteObjectPaths (p : WorkspacePrefix) (existing : List Text)
    (uploaded : List WorkspaceUploadFile) : Except PyException (List Text) :=
  collect (deleteObject p uploaded) (sortedPaths existing)

/-- `build_workspace_sync_plan`. -/
def buildWorkspaceSyncPlan (tree : LocalTree) (p : WorkspacePrefix) (existing : List Text) :
    Except PyException WorkspaceSyncPlan :=
  match workspaceUploadFiles tree p with
  | .error exc => .error exc
  | .ok uploads => match workspaceDeleteObjectPaths p existing uploads with
    | .error exc => .error exc
    | .ok deletes => .ok { uploadFiles := uploads, deleteObjectPaths := deletes }

/-! ## Downloads below the workspace -/

/-- A planned download, its path by the parts below the workspace. -/
structure WorkspaceDownloadFile where
  objectPath : Text
  localPath : List Text

def PlannedDownload.below (f : PlannedDownload) : WorkspaceDownloadFile :=
  ⟨f.objectPath, f.localPath.parts⟩

/-- `workspace_download_files(Path(), ...)`: the plan less the directory it is joined to. -/
def workspaceDownloadFiles (p : WorkspacePrefix) (objectPaths : List Text) :
    Except PyException (List WorkspaceDownloadFile) :=
  (planDownloads ⟨0, []⟩ p objectPaths).map (List.map PlannedDownload.below)

/-- The record of one object in such a plan. -/
def downloadObject (p : WorkspacePrefix) (objectPath : Text) :
    Except PyException (Option WorkspaceDownloadFile) :=
  match workspaceLocalParts p objectPath with
  | .error exc => .error exc
  | .ok localPath =>
    .ok (localPath.map fun parts => { objectPath := objectPath, localPath := parts })

theorem downloadObject_eq (p : WorkspacePrefix) (objectPath : Text) :
    downloadObject p objectPath =
      (planDownload ⟨0, []⟩ p objectPath).map (Option.map PlannedDownload.below) := by
  rw [downloadObject, planDownload, workspaceLocalParts]
  cases workspaceLocalPath p objectPath with
  | error e => rfl
  | ok localPath =>
    cases localPath with
    | none => rfl
    | some path =>
      have joined : (PosixPath.join ⟨0, []⟩ path).parts = path.parts := by
        rw [PosixPath.join]
        split <;> rfl
      simp [Except.map, PlannedDownload.below, joined]

theorem workspaceDownloadFiles_eq (p : WorkspacePrefix) (objectPaths : List Text) :
    workspaceDownloadFiles p objectPaths =
      collect (downloadObject p) (sortedPaths objectPaths) := by
  rw [workspaceDownloadFiles, planDownloads, collect_map]
  exact congrArg (collect · _) (funext fun o => (downloadObject_eq p o).symm)

theorem deleteObject_parts (p : WorkspacePrefix) (uploaded : List WorkspaceUploadFile)
    (objectPath : Text) :
    deleteObject p uploaded objectPath =
      if objectPath ∈ uploaded.map (·.objectPath) then .ok none
      else match workspaceLocalParts p objectPath with
        | .error exc => .error exc
        | .ok localPath => .ok (localPath.map fun _ => objectPath) := by
  rw [deleteObject, workspaceLocalParts]
  cases workspaceLocalPath p objectPath with
  | error e => rfl
  | ok localPath => cases localPath <;> rfl

/-! ## What is uploaded -/

variable {p : WorkspacePrefix} {tree : LocalTree} {plan : List WorkspaceUploadFile}

/-- The upload of one entry, when it has one. -/
def uploadOf (p : WorkspacePrefix) (e : LocalEntry) : Option WorkspaceUploadFile :=
  if e.kind = .file ∧ pathName e.parts ≠ attemptWorkspaceMarker then
    some { localPath := e.parts, objectPath := encode p e.parts }
  else none

theorem uploadEntry_eq {e : LocalEntry} (he : e ∈ tree.entries)
    (ok : ∃ y, uploadEntry p e = .ok y) : uploadEntry p e = .ok (uploadOf p e) := by
  have encoded := workspaceObjectPath_posix (p := p) (tree.inside e he)
    fun name hn => (tree.named e he name hn).toPlainName
  unfold uploadEntry at ok ⊢
  unfold uploadOf
  split
  · rename_i hm
    simp [hm]
  · rename_i hm
    cases hk : e.kind <;> simp_all

theorem mem_sortedEntries {entries : List LocalEntry} {e : LocalEntry} :
    e ∈ sortedEntries entries ↔ e ∈ entries :=
  List.mem_insertionSort _

/-- A plan uploads the regular files, each to its encoded path. -/
theorem workspaceUploadFiles_spec (h : workspaceUploadFiles tree p = .ok plan) :
    (plan.map (·.localPath)).Perm tree.files ∧
      ∀ f ∈ plan, f.localPath ∈ tree.files ∧ f.objectPath = encode p f.localPath := by
  have each := ok_of_collect h
  have all : collect (uploadEntry p) (sortedEntries tree.entries) =
      .ok ((sortedEntries tree.entries).filterMap (uploadOf p)) :=
    collect_ok fun e he => uploadEntry_eq (mem_sortedEntries.mp he) (each e he)
  obtain rfl : (sortedEntries tree.entries).filterMap (uploadOf p) = plan :=
    Except.ok.inj (all.symm.trans h)
  have paths : ∀ entries : List LocalEntry, (entries.filterMap (uploadOf p)).map (·.localPath) =
      (entries.filter fun e => e.kind = .file ∧ pathName e.parts ≠ attemptWorkspaceMarker).map
        (·.parts) := by
    intro entries
    induction entries with
    | nil => rfl
    | cons e entries ih =>
      by_cases he : e.kind = .file ∧ pathName e.parts ≠ attemptWorkspaceMarker
      · simp [uploadOf, he, ih]
      · simp [uploadOf, he, ih]
  have perm : (((sortedEntries tree.entries).filterMap (uploadOf p)).map (·.localPath)).Perm
      tree.files := by
    rw [paths]
    exact ((List.perm_insertionSort _ _).filter _).map _
  refine ⟨perm, fun f hf => ⟨perm.subset (List.mem_map_of_mem hf), ?_⟩⟩
  obtain ⟨e, -, he⟩ := List.mem_filterMap.mp hf
  unfold uploadOf at he
  split at he <;> cases he
  rfl

theorem LocalTree.mem_files {parts : List Text} (h : parts ∈ tree.files) :
    parts ≠ [] ∧ (∀ name ∈ parts, PlainName name) ∧ pathName parts ≠ attemptWorkspaceMarker := by
  obtain ⟨e, he, rfl⟩ := List.mem_map.mp h
  obtain ⟨hmem, hkind⟩ := List.mem_filter.mp he
  simp only [decide_eq_true_eq] at hkind
  exact ⟨tree.inside e hmem, fun name hn => (tree.named e hmem name hn).toPlainName, hkind.2⟩

theorem LocalTree.mem_files_iff {parts : List Text} :
    parts ∈ tree.files ↔
      ⟨parts, .file⟩ ∈ tree.entries ∧ pathName parts ≠ attemptWorkspaceMarker := by
  simp only [LocalTree.files, List.mem_map, List.mem_filter, decide_eq_true_eq]
  constructor
  · rintro ⟨⟨_, kind⟩, ⟨hmem, rfl, hm⟩, rfl⟩
    exact ⟨hmem, hm⟩
  · rintro ⟨hmem, hm⟩
    exact ⟨_, ⟨hmem, rfl, hm⟩, rfl⟩

/-! ## Publish, then download -/

/-- Downloading what was planned, listed in any order, gives one record for each
file, at the file's own path. -/
def RoundTrips (p : WorkspacePrefix) (tree : LocalTree) (plan : List WorkspaceUploadFile) : Prop :=
  ∀ objects : List Text, objects.Perm (plan.map (·.objectPath)) →
    ∃ records, workspaceDownloadFiles p objects = .ok records ∧
      (records.map fun r => (r.objectPath, r.localPath)).Perm
        (plan.map fun f => (f.objectPath, f.localPath)) ∧
      (records.map (·.localPath)).Perm tree.files

/-- A planned object that decodes to the file it was planned for. -/
theorem downloadObject_ok {f : WorkspaceUploadFile}
    (h : workspaceLocalParts p f.objectPath = .ok (some f.localPath)) :
    downloadObject p f.objectPath = .ok (some ⟨f.objectPath, f.localPath⟩) := by
  simp [downloadObject, h]

theorem RoundTrips.of_portable (h : workspaceUploadFiles tree p = .ok plan)
    (portable : ∀ parts ∈ tree.files, Portable p parts) : RoundTrips p tree plan := by
  obtain ⟨perm, encoded⟩ := workspaceUploadFiles_spec h
  have decoded : ∀ f ∈ plan,
      downloadObject p f.objectPath = .ok (some ⟨f.objectPath, f.localPath⟩) := by
    intro f hf
    obtain ⟨hfile, hobject⟩ := encoded f hf
    obtain ⟨hne, plain, hm⟩ := LocalTree.mem_files hfile
    refine downloadObject_ok ?_
    rw [hobject]
    exact workspaceLocalParts_encode hne plain hm (portable _ hfile)
  intro objects hobjects
  -- the decoder as a total function, read on the planned objects only
  let record : Text → Option WorkspaceDownloadFile := fun o => (downloadObject p o).toOption.join
  have all : workspaceDownloadFiles p objects =
      .ok ((sortedPaths objects).filterMap record) := by
    rw [workspaceDownloadFiles_eq]
    refine collect_ok fun o ho => ?_
    have hmem := hobjects.subset ((List.mem_insertionSort _).mp ho)
    obtain ⟨f, hf, rfl⟩ := List.mem_map.mp hmem
    simp [record, decoded f hf, Except.toOption]
  have records : ((sortedPaths objects).filterMap record).Perm
      (plan.map fun f => ⟨f.objectPath, f.localPath⟩) := by
    refine (((List.perm_insertionSort _ _).trans hobjects).filterMap record).trans
      (List.Perm.of_eq ?_)
    rw [List.filterMap_map, ← List.filterMap_eq_map]
    refine List.filterMap_congr fun f hf => ?_
    simp [record, decoded f hf, Except.toOption]
  refine ⟨_, all, ?_, ?_⟩
  · simpa [Function.comp_def] using records.map fun r => (r.objectPath, r.localPath)
  · have paths := records.map (·.localPath)
    rw [List.map_map] at paths
    exact paths.trans perm

/-- The decoder raises on a file that is not portable. -/
theorem Portable.of_roundTrips (h : workspaceUploadFiles tree p = .ok plan)
    (trips : RoundTrips p tree plan) : ∀ parts ∈ tree.files, Portable p parts := by
  obtain ⟨perm, encoded⟩ := workspaceUploadFiles_spec h
  intro parts hparts
  obtain ⟨f, hf, rfl⟩ := List.mem_map.mp (perm.symm.subset hparts)
  obtain ⟨records, hrecords, -⟩ := trips _ (List.Perm.refl _)
  rw [workspaceDownloadFiles_eq] at hrecords
  by_contra hp
  obtain ⟨e, he⟩ := workspaceLocalParts_error hp
  have hmem : f.objectPath ∈ sortedPaths (plan.map (·.objectPath)) :=
    (List.mem_insertionSort _).mpr (List.mem_map_of_mem hf)
  obtain ⟨y, hy⟩ := ok_of_collect hrecords _ hmem
  rw [(encoded f hf).2, downloadObject, he] at hy
  cases hy

/-- Publishing then downloading is the identity on the local files exactly when each
of their paths is portable. -/
theorem roundTrips_iff_portable (h : workspaceUploadFiles tree p = .ok plan) :
    RoundTrips p tree plan ↔ ∀ parts ∈ tree.files, Portable p parts :=
  ⟨Portable.of_roundTrips h, RoundTrips.of_portable h⟩

/-- `WorkspaceSpec(prefix="/")`. -/
def rootPrefix : WorkspacePrefix := ⟨[slash], text "/", rfl⟩

/-- A workspace that holds one file, in a directory. -/
def oneFile (directory name : Text) (hd : FileName directory) (hn : FileName name) : LocalTree where
  entries := [⟨[directory], .directory⟩, ⟨[directory, name], .file⟩]
  nodup := by simp
  inside := by simp
  named := by
    intro e he name' hname
    simp only [List.mem_cons, List.not_mem_nil, or_false] at he
    rcases he with rfl | rfl <;> simp only [List.mem_cons, List.not_mem_nil, or_false] at hname
    · exact hname ▸ hd
    · obtain rfl | rfl := hname
      · exact hd
      · exact hn

/-- The tree of `d/a`. -/
def plainTree : LocalTree :=
  oneFile (text "d") (text "a") ⟨⟨by decide, by decide⟩, by decide⟩
    ⟨⟨by decide, by decide⟩, by decide⟩

theorem roundTrips_iff_portable_plain :
    RoundTrips rootPrefix plainTree [⟨[text "d", text "a"], text "d/a"⟩] ↔
      ∀ parts ∈ plainTree.files, Portable rootPrefix parts :=
  roundTrips_iff_portable rfl

/-- The tree of `d/a\b`: one file whose name has a backslash in it. -/
def backslashTree : LocalTree :=
  oneFile (text "d") [0x61, backslash, 0x62] ⟨⟨by decide, by decide⟩, by decide⟩
    ⟨⟨by decide, by decide⟩, by decide⟩

/-- It is planned for upload, and its object cannot be downloaded. -/
theorem backslash_not_downloaded :
    ∃ plan, workspaceUploadFiles backslashTree rootPrefix = .ok plan ∧
      ¬ RoundTrips rootPrefix backslashTree plan := by
  refine ⟨[⟨[text "d", [0x61, backslash, 0x62]], joinSlash [text "d", [0x61, backslash, 0x62]]⟩],
    rfl, fun trips => ?_⟩
  obtain ⟨records, hrecords, -⟩ := trips _ (List.Perm.refl _)
  have raised : workspaceDownloadFiles rootPrefix
      [joinSlash [text "d", [0x61, backslash, 0x62]]] =
      .error (definitionError "string guardrail paths must use '/' separators") := rfl
  exact nomatch raised.symm.trans hrecords

end Perago
