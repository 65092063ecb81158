import Perago.Workspace.Objects

/-!
# What the objects outside the prefix do

Download and delete planning check every listed path before they look at the prefix.
An outside object with a safe path leaves no trace in what is planned; one whose path
is not safe is rejected like any other.
-/

namespace Perago

/-! ## Loops that pass over items -/

section Collect

variable {ε α β : Type} {f : α → Except ε (Option β)} {keep : α → Bool}

/-- Items that give nothing may be left out of the loop. -/
theorem collect_filter {xs : List α} (h : ∀ x ∈ xs, keep x = false → f x = .ok none) :
    collect f (xs.filter keep) = collect f xs := by
  induction xs with
  | nil => rfl
  | cons x xs ih =>
    obtain ⟨hx, h⟩ := List.forall_mem_cons.mp h
    cases hk : keep x with
    | true => rw [List.filter_cons_of_pos hk, collect, collect, ih h]
    | false =>
      rw [List.filter_cons_of_neg (by simp [hk]), ih h, collect, hx hk]
      cases collect f xs <;> rfl

end Collect

/-! ## Sorted listings -/

theorem sortedPaths_perm {a b : List Text} (h : a.Perm b) : sortedPaths a = sortedPaths b := by
  refine List.Perm.eq_of_pairwise' (List.pairwise_insertionSort _ _)
    (List.pairwise_insertionSort _ _) ?_
  exact (List.perm_insertionSort _ _).trans (h.trans (List.perm_insertionSort _ _).symm)

theorem sortedPaths_filter (keep : Text → Bool) (paths : List Text) :
    sortedPaths (paths.filter keep) = (sortedPaths paths).filter keep := by
  refine List.Perm.eq_of_pairwise' (List.pairwise_insertionSort _ _)
    (.filter _ (List.pairwise_insertionSort _ _)) ?_
  exact (List.perm_insertionSort _ _).trans ((List.perm_insertionSort _ _).symm.filter _)

/-! ## The objects that a plan looks at -/

variable {p : WorkspacePrefix} {tree : LocalTree} {o : Text}

/-- The path is accepted as a relative path: separators only between names, no dots,
no backslash and no drive. -/
def safePath (o : Text) : Bool := (canonicalWorkspacePath (.text o)).isOk

/-- The objects that can have a say: those under the prefix, and those with a path that
is not safe. -/
def inScope (p : WorkspacePrefix) (o : Text) : Bool := decide (Under p o) || !safePath o

theorem workspaceLocalParts_outside (h : inScope p o = false) :
    workspaceLocalParts p o = .ok none := by
  obtain ⟨outside, safe⟩ : ¬ Under p o ∧ safePath o = true := by simpa [inScope] using h
  rw [workspaceLocalParts_eq]
  cases hc : canonicalWorkspacePath (.text o) with
  | error e => simp [safePath, hc, Except.isOk, Except.toBool] at safe
  | ok remote =>
    obtain rfl := canonicalWorkspacePath_text_eq hc
    have root : workspaceObjectPrefix p ≠ [] := fun root => outside (.inl root)
    have apart : ¬ (workspaceObjectPrefix p ++ [slash]).isPrefixOf remote = true := fun found =>
      outside (.inr (List.isPrefixOf_iff_prefix.mp found))
    simp [root, apart]

theorem workspaceLocalParts_unsafe (h : safePath o = false) :
    ∃ e, workspaceLocalParts p o = .error e := by
  rw [workspaceLocalParts_eq]
  cases hc : canonicalWorkspacePath (.text o) with
  | error e => exact ⟨e, rfl⟩
  | ok remote => simp [safePath, hc, Except.isOk, Except.toBool] at h

theorem workspaceDownloadFiles_inScope (listed : List Text) :
    workspaceDownloadFiles p (listed.filter (inScope p)) = workspaceDownloadFiles p listed := by
  rw [workspaceDownloadFiles_eq, workspaceDownloadFiles_eq, sortedPaths_filter]
  refine collect_filter fun o _ hk => ?_
  simp [downloadObject, workspaceLocalParts_outside hk]

theorem workspaceDeleteObjectPaths_inScope (listed : List Text)
    (uploads : List WorkspaceUploadFile) :
    workspaceDeleteObjectPaths p (listed.filter (inScope p)) uploads =
      workspaceDeleteObjectPaths p listed uploads := by
  unfold workspaceDeleteObjectPaths
  rw [sortedPaths_filter]
  refine collect_filter fun o _ hk => ?_
  simp [deleteObject_parts, workspaceLocalParts_outside hk]

/-- A listed path that is not safe ends every planning that looks at it. -/
theorem workspaceDownloadFiles_unsafe {listed : List Text} (ho : o ∈ listed)
    (h : safePath o = false) : ∃ e, workspaceDownloadFiles p listed = .error e := by
  cases hfiles : workspaceDownloadFiles p listed with
  | error e => exact ⟨e, rfl⟩
  | ok files =>
    rw [workspaceDownloadFiles_eq] at hfiles
    obtain ⟨y, hy⟩ := ok_of_collect hfiles o ((List.mem_insertionSort _).mpr ho)
    obtain ⟨e, he⟩ := workspaceLocalParts_unsafe (p := p) h
    simp [downloadObject, he] at hy

theorem workspaceDeleteObjectPaths_unsafe {listed : List Text} {uploads : List WorkspaceUploadFile}
    (ho : o ∈ listed) (hu : o ∉ uploads.map (·.objectPath)) (h : safePath o = false) :
    ∃ e, workspaceDeleteObjectPaths p listed uploads = .error e := by
  cases hdeletes : workspaceDeleteObjectPaths p listed uploads with
  | error e => exact ⟨e, rfl⟩
  | ok deletes =>
    obtain ⟨y, hy⟩ := ok_of_collect hdeletes o ((List.mem_insertionSort _).mpr ho)
    obtain ⟨e, he⟩ := workspaceLocalParts_unsafe (p := p) h
    rw [deleteObject_parts, if_neg hu, he] at hy
    cases hy

/-- Listings with the same objects under the prefix, and the same paths that are not safe,
are planned alike; a path that is not safe is rejected wherever it lies. -/
theorem planning_scope (a b : List Text)
    (scope : (a.filter (inScope p)).Perm (b.filter (inScope p))) :
    workspaceDownloadFiles p a = workspaceDownloadFiles p b ∧
      (∀ uploads, workspaceDeleteObjectPaths p a uploads =
        workspaceDeleteObjectPaths p b uploads) ∧
      (∀ tree, buildWorkspaceSyncPlan tree p a = buildWorkspaceSyncPlan tree p b) ∧
      ∀ o ∈ a, ¬ Under p o → safePath o = false →
        (∃ e, workspaceDownloadFiles p a = .error e) ∧
          ∀ tree, ∃ e, buildWorkspaceSyncPlan tree p a = .error e := by
  have sorted : sortedPaths (a.filter (inScope p)) = sortedPaths (b.filter (inScope p)) :=
    sortedPaths_perm scope
  have deletes : ∀ uploads, workspaceDeleteObjectPaths p a uploads =
      workspaceDeleteObjectPaths p b uploads := by
    intro uploads
    rw [← workspaceDeleteObjectPaths_inScope a, ← workspaceDeleteObjectPaths_inScope b]
    simp only [workspaceDeleteObjectPaths, sorted]
  refine ⟨?_, deletes, fun tree => ?_, fun o ho outside rejected => ⟨?_, fun tree => ?_⟩⟩
  · rw [← workspaceDownloadFiles_inScope a, ← workspaceDownloadFiles_inScope b]
    simp only [workspaceDownloadFiles_eq, sorted]
  · simp only [buildWorkspaceSyncPlan, deletes]
  · exact workspaceDownloadFiles_unsafe ho rejected
  · cases huploads : workspaceUploadFiles tree p with
    | error e => exact ⟨e, by simp [buildWorkspaceSyncPlan, huploads]⟩
    | ok uploads =>
      have fresh : o ∉ uploads.map (·.objectPath) := by
        rw [mem_uploadPaths huploads]
        rintro ⟨parts, -, rfl⟩
        exact outside (encode_under p parts)
      obtain ⟨e, he⟩ := workspaceDeleteObjectPaths_unsafe (p := p) ho fresh rejected
      exact ⟨e, by simp [buildWorkspaceSyncPlan, huploads, he]⟩

/-- `WorkspaceSpec(prefix="audio")`. -/
def audioPrefix : WorkspacePrefix := ⟨text "audio", text "audio", rfl⟩

theorem planning_scope_sibling :
    workspaceDownloadFiles audioPrefix [text "audio/a", text "audio2/a"] =
      workspaceDownloadFiles audioPrefix [text "audio/a"] :=
  (planning_scope [text "audio/a", text "audio2/a"] [text "audio/a"] (.of_eq (by decide))).1

/-- An object beside the prefix, with an empty name in its path, makes the download fail. -/
theorem sibling_fails_download :
    ∃ (p : WorkspacePrefix) (a b : List Text), workspaceObjectPrefix p ≠ [] ∧
      (a.filter (Under p ·)).Perm (b.filter (Under p ·)) ∧
      (∃ files, workspaceDownloadFiles p a = .ok files) ∧
      ∃ e, workspaceDownloadFiles p b = .error e :=
  ⟨audioPrefix, [text "audio/a"], [text "audio/a", text "audio.bak//a"], by decide,
    .of_eq (by decide), ⟨_, rfl⟩, ⟨_, rfl⟩⟩

end Perago
