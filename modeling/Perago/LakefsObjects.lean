import Perago.LakefsRuntime
import Perago.Workspace.Disk
import Perago.Workspace.Snapshot

/-!
# The LakeFS runtime on objects and files

`download_workspace` and `stage_workspace` on refs that hold objects and on a directory
that holds files: a download writes the visible objects, and staging leaves on its
branch what the sync plan makes of the input.
-/

namespace Perago

open Effect

/-! ## Refs and a directory -/

/-- The objects under each ref of each repository, and the directory of an attempt. -/
structure ObjectStore where
  refs : String × String → Option ObjectMap
  disk : LocalWorkspace

namespace ObjectStore

def notFound (path : Text) : PyException := .mk' (.other "NotFoundException") path.render

def withRef (s : ObjectStore) (key : String × String) (E : ObjectMap) : ObjectStore :=
  { s with refs := Function.update s.refs key (some E) }

/-- A call about the objects of a ref. -/
def onRef {α : Type} (key : String × String) (f : ObjectMap → Except PyException (α × ObjectMap)) :
    Proc PyException ObjectStore α := fun s =>
  match s.refs key with
  | none => (.error (.mk' (.other "NotFoundException") "ref not found"), s)
  | some E => match f E with
    | .ok (a, E') => (.ok a, s.withRef key E')
    | .error exc => (.error exc, s)

/-- A client whose calls about objects work on `refs`; a commit of a branch is a ref of
its own, named by its objects. -/
def client (base : LakeFSClient ObjectStore) (commitId : ObjectMap → String) :
    LakeFSClient ObjectStore :=
  { base with
    objects := fun repository ref objectPrefix => onRef (repository, ref) fun E =>
      .ok ((E.listing objectPrefix).map fun o => ⟨o, some "object"⟩, E)
    readObject := fun repository ref o => onRef (repository, ref) fun E =>
      match E.lookup o with
      | some bytes => .ok (bytes, E)
      | none => .error (notFound o)
    createBranch := fun repository branch source s =>
      match s.refs (repository, branch), s.refs (repository, source) with
      | none, some E => (.ok (), s.withRef (repository, branch) E)
      | some _, _ => (.error (.mk' (.other "ConflictException") "branch already exists"), s)
      | none, none => (.error (.mk' (.other "NotFoundException") "source ref not found"), s)
    deleteObject := fun repository branch o => onRef (repository, branch) fun E =>
      .ok ((), SyncOperation.run E (.delete o))
    uploadObject := fun repository branch o bytes => onRef (repository, branch) fun E =>
      .ok ((), SyncOperation.run E (.upload o bytes))
    commit := fun repository branch _ s =>
      match s.refs (repository, branch) with
      | some E => (.ok (commitId E), s.withRef (repository, commitId E) E)
      | none => (.error (.mk' (.other "NotFoundException") "branch not found"), s) }

def onDisk {α : Type} (f : Proc PyException LocalWorkspace α) : Proc PyException ObjectStore α :=
  .zoom ObjectStore.disk (fun W s => { s with disk := W }) f

/-- A machine whose calls about the files of one directory work on `disk`. -/
def host (base : Host ObjectStore) (dir : Path) : Host ObjectStore :=
  { base with
    rglob := fun _ => onDisk (.get (·.tree))
    readBytes := fun path => onDisk fun W =>
      if W.tree.kindAt (path.drop dir.length) = some .file then
        (.ok (W.bytes (path.drop dir.length)), W)
      else (.error (osError "cannot read" path), W)
    readlink := fun path => onDisk (.get fun W => W.target (path.drop dir.length))
    writeBytes := fun path bytes => onDisk (writeFile (path.drop dir.length) bytes) }

/-- The runtime over the store. -/
def runtime (base : LakeFSClient ObjectStore) (commitId : ObjectMap → String)
    (budget : Option Nat) : LakeFSWorkspaceRuntime ObjectStore where
  client := client base commitId
  publishBudget := budget

variable {base : LakeFSClient ObjectStore} {commitId : ObjectMap → String} {budget : Option Nat}
variable {machine : Host ObjectStore} {dir : Path} {s t : ObjectStore} {E : ObjectMap}
variable {key : String × String} {repository ref branch : String}
variable {i : WorkspaceInput} {spec : WorkspaceSpec}

@[simp] theorem refs_withRef : (s.withRef key E).refs key = some E := by simp [withRef]

@[simp] theorem disk_withRef : (s.withRef key E).disk = s.disk := rfl

@[simp] theorem withRef_withRef {E' : ObjectMap} :
    (s.withRef key E).withRef key E' = s.withRef key E' := by
  simp [withRef]

/-- A call that only reads a ref leaves the store as it is. -/
theorem withRef_same (hE : s.refs key = some E) : s.withRef key E = s := by
  rw [withRef, ← hE, Function.update_eq_self]

theorem objects_ok (hE : s.refs key = some E) (objectPrefix : Text) :
    (client base commitId).objects key.1 key.2 objectPrefix s =
      (.ok ((E.listing objectPrefix).map fun o => ⟨o, some "object"⟩), s) := by
  simp [client, onRef, hE, withRef_same]

theorem deleteObject_ok (hE : s.refs key = some E) (o : Text) :
    (client base commitId).deleteObject key.1 key.2 o s =
      (.ok (), s.withRef key (SyncOperation.run E (.delete o))) := by
  simp [client, onRef, hE]

theorem uploadObject_ok (hE : s.refs key = some E) (o : Text) (bytes : Bytes) :
    (client base commitId).uploadObject key.1 key.2 o bytes s =
      (.ok (), s.withRef key (SyncOperation.run E (.upload o bytes))) := by
  simp [client, onRef, hE]

theorem objects_returns {objectPrefix : Text} {items : List ObjectItem}
    (h : (client base commitId).objects repository ref objectPrefix s = (.ok items, t)) :
    ∃ E, s.refs (repository, ref) = some E ∧
      items = (E.listing objectPrefix).map (fun o => ⟨o, some "object"⟩) ∧ t = s := by
  cases hE : s.refs (repository, ref) with
  | none => simp [client, onRef, hE] at h
  | some E =>
    rw [objects_ok hE] at h
    obtain ⟨⟨⟩, rfl⟩ := Prod.mk.inj h
    exact ⟨E, rfl, rfl, rfl⟩

theorem readObject_returns {o : Text} {bytes : Bytes}
    (h : (client base commitId).readObject repository ref o s = (.ok bytes, t)) :
    ∃ E, s.refs (repository, ref) = some E ∧ E.lookup o = some bytes ∧ t = s := by
  cases hE : s.refs (repository, ref) with
  | none => simp [client, onRef, hE] at h
  | some E =>
    cases ho : E.lookup o with
    | none => simp [client, onRef, hE, ho] at h
    | some content =>
      simp only [client, onRef, hE, ho, withRef_same hE] at h
      obtain ⟨⟨⟩, rfl⟩ := Prod.mk.inj h
      exact ⟨E, rfl, ho, rfl⟩

/-! ## Staging -/

theorem objectPaths_listing (paths : List Text) :
    objectPaths (paths.map fun o => ⟨o, some "object"⟩) = paths := by
  simp [objectPaths, List.filter_map, Function.comp_def]

/-- Deletes on a branch, one after the other. -/
theorem deletes_ok (hE : s.refs (i.repository, branch) = some E) (deletes : List Text) :
    Proc.each ((client base commitId).deleteObject i.repository branch) deletes s =
      (.ok (), s.withRef (i.repository, branch)
        ((deletes.map SyncOperation.delete).foldl SyncOperation.run E)) := by
  induction deletes generalizing s E with
  | nil => exact Prod.ext rfl (withRef_same hE).symm
  | cons o deletes ih =>
    have first : (client base commitId).deleteObject i.repository branch o s =
        (.ok (), s.withRef (i.repository, branch) (SyncOperation.run E (.delete o))) :=
      deleteObject_ok hE o
    refine (Proc.bind_ok_iff.mpr ⟨(), _, first, ih refs_withRef⟩).trans ?_
    rw [withRef_withRef]
    rfl

/-- Uploads of files of the directory, one after the other. -/
theorem uploads_ok (hE : s.refs (i.repository, branch) = some E)
    (uploads : List WorkspaceUploadFile)
    (found : ∀ f ∈ uploads, s.disk.tree.kindAt f.localPath = some .file) :
    Proc.each ((runtime base commitId budget).uploadFile (host machine dir) i.repository branch dir)
        uploads s =
      (.ok (), s.withRef (i.repository, branch)
        ((uploads.map fun f => SyncOperation.upload f.objectPath
          (s.disk.bytes f.localPath)).foldl SyncOperation.run E)) := by
  induction uploads generalizing s E with
  | nil => exact Prod.ext rfl (withRef_same hE).symm
  | cons f uploads ih =>
    obtain ⟨hfile, found⟩ := List.forall_mem_cons.mp found
    have read : (host machine dir).readBytes (dir ++ f.localPath) s =
        (.ok (s.disk.bytes f.localPath), s) := by
      simp [host, onDisk, Proc.zoom, hfile]
    have first : (runtime base commitId budget).uploadFile (host machine dir) i.repository branch
        dir f s = (.ok (), s.withRef (i.repository, branch)
          (SyncOperation.run E (.upload f.objectPath (s.disk.bytes f.localPath)))) :=
      Proc.bind_ok_iff.mpr ⟨_, s, read, uploadObject_ok hE _ _⟩
    refine (Proc.bind_ok_iff.mpr ⟨(), _, first, ih refs_withRef (by simpa using found)⟩).trans ?_
    rw [withRef_withRef]
    rfl

/-- What `stage_workspace` leaves on its branch is what the plan makes of the objects
there, and so is the commit. -/
theorem stageOnBranch_ok {plan : WorkspaceSyncPlan} (hE : s.refs (i.repository, branch) = some E)
    (h : buildWorkspaceSyncPlan s.disk.tree spec.workspacePrefix
      (E.listing (workspaceObjectPrefix spec.workspacePrefix)) = .ok plan) :
    (runtime base commitId budget).stageOnBranch (host machine dir) dir i spec branch s =
      (.ok ⟨i.repository, branch, commitId (plan.applyTo s.disk E)⟩,
        (s.withRef (i.repository, branch) (plan.applyTo s.disk E)).withRef
          (i.repository, commitId (plan.applyTo s.disk E)) (plan.applyTo s.disk E)) := by
  have found : ∀ f ∈ plan.uploadFiles, s.disk.tree.kindAt f.localPath = some .file := by
    intro f hf
    obtain ⟨-, encoded⟩ := workspaceUploadFiles_spec (buildWorkspaceSyncPlan_ok h).1
    obtain ⟨e, he, hparts⟩ := List.mem_map.mp (encoded f hf).1
    obtain ⟨hmem, hkind⟩ := List.mem_filter.mp he
    simp only [decide_eq_true_eq] at hkind
    rw [LocalTree.kindAt_eq_some, ← hparts, ← hkind.1]
    exact hmem
  refine Proc.bind_ok_iff.mpr ⟨_, s, objects_ok hE _,
    Proc.bind_ok_iff.mpr ⟨s.disk.tree, s, rfl, ?_⟩⟩
  rw [objectPaths_listing, h]
  refine Proc.bind_ok_iff.mpr ⟨plan, s, rfl, Proc.bind_ok_iff.mpr
    ⟨(), _, deletes_ok hE _, Proc.bind_ok_iff.mpr
      ⟨(), _, uploads_ok refs_withRef _ (by simpa using found), ?_⟩⟩⟩
  rw [withRef_withRef, disk_withRef, ← List.foldl_append]
  simp [Bind.bind, Proc.bind, runtime, client, WorkspaceSyncPlan.applyTo,
    WorkspaceSyncPlan.operations, Pure.pure, Proc.pure]

/-- A plan that raises ends the staging before any delete. -/
theorem stageOnBranch_error {exc : PyException} (hE : s.refs (i.repository, branch) = some E)
    (h : buildWorkspaceSyncPlan s.disk.tree spec.workspacePrefix
      (E.listing (workspaceObjectPrefix spec.workspacePrefix)) = .error exc) :
    (runtime base commitId budget).stageOnBranch (host machine dir) dir i spec branch s =
      (.error exc, s) := by
  have listed : (client base commitId).objects i.repository branch
      (workspaceObjectPrefix spec.workspacePrefix) s = _ := objects_ok hE _
  have planned : Proc.ofExcept (buildWorkspaceSyncPlan s.disk.tree spec.workspacePrefix
      (objectPaths ((E.listing (workspaceObjectPrefix spec.workspacePrefix)).map
        fun o => ⟨o, some "object"⟩))) s = (.error exc, s) := by
    rw [objectPaths_listing, h]
    rfl
  simp only [LakeFSWorkspaceRuntime.stageOnBranch, Bind.bind, Proc.bind, runtime]
  rw [listed]
  simp only [host, onDisk, Proc.zoom, Proc.get]
  rw [planned]

/-! ## Downloading -/

/-- The files that a download writes, with the objects' contents. -/
def downloaded (E : ObjectMap) (files : List WorkspaceDownloadFile) : List (List Text × Bytes) :=
  files.map fun f => (f.localPath, (E.lookup f.objectPath).getD [])

theorem downloadFiles_ok {u : Unit} (hE : s.refs (i.repository, i.ref) = some E)
    {files : List WorkspaceDownloadFile}
    (h : Proc.each ((runtime base commitId budget).downloadFile (host machine dir) i dir) files s =
      (.ok u, t)) :
    t.refs = s.refs ∧
      Proc.each (fun f => writeFile f.1 f.2) (downloaded E files) s.disk = (.ok (), t.disk) := by
  induction files generalizing s with
  | nil =>
    obtain ⟨-, rfl⟩ := Prod.mk.inj h
    exact ⟨rfl, rfl⟩
  | cons f files ih =>
    obtain ⟨_, v, hfirst, hrest⟩ := Proc.bind_ok_iff.mp h
    obtain ⟨bytes, w, hread, hwrite⟩ := Proc.bind_ok_iff.mp hfirst
    obtain ⟨E', hE', hcontent, rfl⟩ := readObject_returns hread
    obtain rfl : E = E' := Option.some.inj (hE.symm.trans hE')
    have written : onDisk (writeFile ((dir ++ f.localPath).drop dir.length) bytes) w = (.ok _, v) :=
      hwrite
    obtain ⟨W, hW, rfl⟩ := Proc.zoom_ok_iff.mp written
    rw [List.drop_left] at hW
    have hE' : ({ w with disk := W } : ObjectStore).refs (i.repository, i.ref) = some E := hE
    obtain ⟨refs, written⟩ := ih hE' hrest
    refine ⟨refs, Proc.bind_ok_iff.mpr ⟨(), W, ?_, written⟩⟩
    simpa [hcontent] using hW

/-- A download that returns has written the visible objects into the directory. -/
theorem downloadWorkspace_ok {u : Unit}
    (h : (runtime base commitId budget).downloadWorkspace (host machine dir) i spec dir s =
      (.ok u, t)) :
    ∃ E files, s.refs (i.repository, i.ref) = some E ∧
      workspaceDownloadFiles spec.workspacePrefix
        (E.listing (workspaceObjectPrefix spec.workspacePrefix)) = .ok files ∧
      t.refs = s.refs ∧
      Proc.each (fun f => writeFile f.1 f.2) (downloaded E files) s.disk = (.ok (), t.disk) := by
  obtain ⟨items, v, hitems, hplan⟩ := Proc.bind_ok_iff.mp h
  obtain ⟨E, hE, rfl, rfl⟩ := objects_returns hitems
  obtain ⟨files, w, hfiles, hwrites⟩ := Proc.bind_ok_iff.mp hplan
  obtain ⟨planned, rfl⟩ := Proc.ofExcept_ok_iff.mp hfiles
  rw [objectPaths_listing] at planned
  exact ⟨E, files, hE, planned, downloadFiles_ok hE hwrites⟩

/-! ## Snapshots -/

theorem shows : (host machine dir).Shows dir s.disk s where
  rglob := rfl
  readlink e _ _ := by
    simp [host, onDisk, Proc.zoom, Proc.get]
  readBytes e he hk := by
    have found : s.disk.tree.kindAt e.parts = some .file :=
      LocalTree.kindAt_eq_some.mpr (hk ▸ he)
    simp [host, onDisk, Proc.zoom, found]

theorem snapshotWorkspace_ok :
    snapshotWorkspace (host machine dir) dir s = (.ok (s.disk.snapshot machine.sha256), s) :=
  shows.snapshotWorkspace

/-! ## A store to run on -/

/-- A digest that keeps every byte. -/
def bytesDigest (bytes : Bytes) : String := String.ofList (bytes.map fun b => Char.ofNat b.toNat)

theorem bytesDigest_injective : Function.Injective bytesDigest := by
  intro a b h
  refine List.map_injective_iff.mpr (fun x y hxy => ?_) (String.ofList_injective h)
  have valid : ∀ b : UInt8, (Char.ofNat b.toNat).toNat = b.toNat := by
    intro b
    rw [Char.ofNat, dif_pos (.inl (by have := b.toNat_lt; omega))]
    rfl
  exact UInt8.toNat_inj.mp (by rw [← valid x, ← valid y, hxy])

/-- A machine that does nothing outside the directory of the attempt. -/
def idleMachine : Host ObjectStore := restingHost (·.disk.tree) bytesDigest

/-- A client that refuses every call. -/
def absentClient : LakeFSClient ObjectStore where
  objects _ _ _ := .raise (notFound [])
  readObject _ _ o := .raise (notFound o)
  createBranch _ _ _ := .raise (notFound [])
  deleteObject _ _ o := .raise (notFound o)
  uploadObject _ _ o _ := .raise (notFound o)
  commit _ _ _ := .raise (notFound [])
  getCommit _ _ := .raise (notFound [])
  mergeInto _ _ _ _ := .raise (notFound [])
  hardResetBranch _ _ _ _ := .raise (notFound [])
  deleteBranch _ _ := .raise (notFound [])

def someInput : WorkspaceInput := ⟨"data", "main", "c0", rfl, rfl, rfl⟩

/-- A prepared workspace, and one ref with the given objects. -/
def preparedStore (E : ObjectMap) (W : LocalWorkspace) : ObjectStore where
  refs key := if key = ("data", "c0") then some E else none
  disk := W

end ObjectStore

end Perago
