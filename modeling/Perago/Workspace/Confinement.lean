import Perago.Workspace.PrefixScope

/-!
# Confinement of downloads

A download plan joins the attempt directory with a path that is parsed from the object
path. Joining with an absolute path would give up the directory; no planned path is one.
-/

namespace Perago

/-! ## Every decoded path is relative -/

variable {p : WorkspacePrefix} {o t r : Text} {workspaceDir : PosixPath}

theorem posixRoot_eq_zero (h : t.head? ≠ some slash) : posixRoot t = 0 := by
  match t with
  | [] => rfl
  | [a] | [a, b] | a :: b :: c :: rest =>
    have first : a ≠ slash := by simpa using h
    simp [posixRoot, first]

theorem visibleLocalPath_eq (h : canonicalWorkspacePath (.text t) = .ok r) :
    visibleLocalPath r = (visibleLocalParts r).map fun parts => ⟨0, parts⟩ := by
  obtain ⟨rfl, plain⟩ := canonicalWorkspacePath_text_parts h
  have relative : posixRoot r = 0 := by
    have head := joinSlash_head plain
    rw [joinSlash_splitOn] at head
    exact posixRoot_eq_zero head
  rw [visibleLocalParts_eq]
  simp only [visibleLocalPath, PosixPath.name, PosixPath.ofText, relative]
  split <;> rfl

/-- The path that is decoded is relative: its parts are all of it. -/
theorem workspaceLocalPath_eq (p : WorkspacePrefix) (o : Text) :
    workspaceLocalPath p o =
      (workspaceLocalParts p o).map (Option.map fun parts => ⟨0, parts⟩) := by
  rw [workspaceLocalParts_eq]
  unfold workspaceLocalPath
  cases hremote : canonicalWorkspacePath (.text o) with
  | error e => rfl
  | ok remote =>
    by_cases root : workspaceObjectPrefix p = []
    · simp [root, Except.map, visibleLocalPath_eq hremote]
    · by_cases found : (workspaceObjectPrefix p ++ [slash]).isPrefixOf remote = true
      · cases hvisible : canonicalWorkspacePath
            (.text (remote.drop (workspaceObjectPrefix p ++ [slash]).length)) with
        | error e => simp only [root, found, if_false, if_true, hvisible, Except.map]
        | ok visible =>
          simp only [root, found, if_false, if_true, hvisible, Except.map,
            visibleLocalPath_eq hvisible]
      · simp [root, found, Except.map]

/-- The directory is kept, whatever the object is called. -/
theorem planDownload_eq (workspaceDir : PosixPath) (p : WorkspacePrefix) (o : Text) :
    planDownload workspaceDir p o = (workspaceLocalParts p o).map (Option.map fun parts =>
      ⟨o, workspaceDir.root, workspaceDir.parts ++ parts⟩) := by
  rw [planDownload, workspaceLocalPath_eq]
  cases workspaceLocalParts p o with
  | error e => rfl
  | ok decoded => cases decoded <;> rfl

/-! ## Plans -/

variable {objects : List Text} {files : List PlannedDownload} {f : PlannedDownload}

/-- The record of an object: its path is the encoding of plain names, and those names are
what follows the directory. -/
structure PlannedDownload.Within (workspaceDir : PosixPath) (p : WorkspacePrefix)
    (f : PlannedDownload) (names : List Text) : Prop where
  nonempty : names ≠ []
  plain : ∀ name ∈ names, PlainName name
  unmarked : pathName names ≠ attemptWorkspaceMarker
  object : f.objectPath = encode p names
  joined : f.localPath = ⟨workspaceDir.root, workspaceDir.parts ++ names⟩

theorem planDownload_ok (h : planDownload workspaceDir p o = .ok (some f)) :
    f.objectPath = o ∧ ∃ names, f.Within workspaceDir p names := by
  rw [planDownload_eq] at h
  cases hdecoded : workspaceLocalParts p o with
  | error e => simp [hdecoded, Except.map] at h
  | ok decoded =>
    cases workspaceLocalParts_ok hdecoded with
    | hidden => simp [hdecoded, Except.map] at h
    | shown names encoded nonempty plain unmarked =>
      obtain rfl : _ = f := by simpa [hdecoded, Except.map] using h
      exact ⟨rfl, names, nonempty, plain, unmarked, encoded, rfl⟩

theorem PlannedDownload.Within.injective {g : PlannedDownload} {names names' : List Text}
    (hf : f.Within workspaceDir p names) (hg : g.Within workspaceDir p names')
    (same : f.localPath = g.localPath) : f = g := by
  have joined : names = names' := by
    have := hf.joined.symm.trans (same.trans hg.joined)
    simpa using this
  have object : f.objectPath = g.objectPath := by rw [hf.object, hg.object, joined]
  cases f
  cases g
  simp_all

theorem planDownload_isSome {x : Option PlannedDownload}
    (h : planDownload workspaceDir p o = .ok x) : x.isSome ↔ Under p o ∧ ¬ MarkerNamed o := by
  rw [planDownload_eq] at h
  cases hdecoded : workspaceLocalParts p o with
  | error e => simp [hdecoded, Except.map] at h
  | ok decoded =>
    obtain rfl : _ = x := by simpa [hdecoded, Except.map] using h
    simpa using (workspaceLocalParts_ok hdecoded).isSome

/-- What a plan downloads: each listed object under the prefix that is not named like the
attempt marker, into a path of its own strictly inside the directory. -/
structure ConfinedPlan (workspaceDir : PosixPath) (p : WorkspacePrefix) (objects : List Text)
    (files : List PlannedDownload) : Prop where
  inside : ∀ f ∈ files, ∃ names, f.Within workspaceDir p names
  distinct : (files.map (·.localPath)).Nodup
  unmarked : ∀ f ∈ files, f.localPath.name ≠ attemptWorkspaceMarker
  objects : (files.map (·.objectPath)).Perm
    (objects.filter fun o => Under p o ∧ ¬ MarkerNamed o)

theorem planned_objects {listed : List Text}
    (h : collect (planDownload workspaceDir p) listed = .ok files) :
    files.map (·.objectPath) = listed.filter fun o => Under p o ∧ ¬ MarkerNamed o := by
  have each := ok_of_collect h
  rw [filterMap_of_collect h, List.map_filterMap]
  clear h
  induction listed with
  | nil => rfl
  | cons o listed ih =>
    have rest := ih fun x hx => each x (List.mem_cons_of_mem o hx)
    obtain ⟨x, hx⟩ := each o List.mem_cons_self
    have shown := planDownload_isSome hx
    cases x with
    | none =>
      have hidden : ¬ (Under p o ∧ ¬ MarkerNamed o) := by simpa using shown
      rw [List.filterMap_cons_none (by rw [hx]; rfl),
        List.filter_cons_of_neg (by simpa using hidden), rest]
    | some f =>
      have visible : Under p o ∧ ¬ MarkerNamed o := by simpa using shown
      rw [List.filterMap_cons_some (by rw [hx]; rfl),
        List.filter_cons_of_pos (by simpa using visible), rest]
      exact congrArg (· :: _) (planDownload_ok hx).1

theorem planDownloads_confined (workspaceDir : PosixPath) (p : WorkspacePrefix)
    (objects : List Text) (distinct : objects.Nodup) (files : List PlannedDownload)
    (h : planDownloads workspaceDir p objects = .ok files) :
    ConfinedPlan workspaceDir p objects files := by
  have inside : ∀ f ∈ files, ∃ names, f.Within workspaceDir p names := by
    intro f hf
    obtain ⟨o, -, ho⟩ := (mem_of_collect h).mp hf
    exact (planDownload_ok ho).2
  have perm : (files.map (·.objectPath)).Perm
      (objects.filter fun o => Under p o ∧ ¬ MarkerNamed o) := by
    rw [planned_objects h]
    exact (List.perm_insertionSort _ _).filter _
  have nodup : files.Nodup := (perm.nodup_iff.mpr (distinct.filter _)).of_map _
  refine ⟨inside, ?_, ?_, perm⟩
  · refine nodup.map_on fun f hf g hg same => ?_
    obtain ⟨names, within⟩ := inside f hf
    obtain ⟨names', within'⟩ := inside g hg
    exact within.injective within' same
  · intro f hf
    obtain ⟨names, within⟩ := inside f hf
    rw [PosixPath.name, within.joined, pathName_append within.nonempty]
    exact within.unmarked

/-- Two visible objects, a marker, and an object beside the prefix. -/
theorem planDownloads_confined_audio :
    ConfinedPlan ⟨1, [text "work"]⟩ audioPrefix
      [text "audio/b", text "audio/a/x", text "audio/a/.perago-attempt.json", text "audio2/b"]
      [⟨text "audio/a/x", 1, [text "work", text "a", text "x"]⟩,
        ⟨text "audio/b", 1, [text "work", text "b"]⟩] :=
  planDownloads_confined _ _ _ (by decide) _ (by rfl)

end Perago
