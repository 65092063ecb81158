import Perago.Workspace.Objects
import Mathlib.Data.List.Infix

/-!
# The directory of an attempt

What the calls of `pathlib` and `os` that a download and a snapshot make do to the
directory of one attempt. Missing parents are created on the way to a new file; a
parent that is no directory, or a name with a NUL in it, ends the call.
-/

namespace Perago

open Effect

/-! ## Listings that grow -/

/-- What stands at a path. -/
def LocalTree.kindAt (tree : LocalTree) (parts : List Text) : Option EntryKind :=
  (tree.entries.find? (·.parts = parts)).map (·.kind)

instance (name : Text) : Decidable (FileName name) :=
  decidable_of_iff ((slash ∉ name ∧ dotName name = false) ∧ 0 ∉ name)
    ⟨fun h => ⟨⟨h.1.1, h.1.2⟩, h.2⟩, fun h => ⟨⟨h.separator, h.dots⟩, h.nul⟩⟩

def osError (what : String) (parts : List Text) : PyException :=
  .mk' .osError (what ++ ": " ++ (joinSlash parts).render)

/-- A new entry. -/
def LocalTree.create (tree : LocalTree) (e : LocalEntry) : Except PyException LocalTree :=
  if hnew : e.parts ∉ tree.entries.map (·.parts) then
    if hpath : e.parts ≠ [] ∧ ∀ name ∈ e.parts, FileName name then
      .ok {
        entries := e :: tree.entries
        nodup := by
          rw [List.map_cons]
          exact List.nodup_cons.mpr ⟨hnew, tree.nodup⟩
        inside := List.forall_mem_cons.mpr ⟨hpath.1, tree.inside⟩
        named := List.forall_mem_cons.mpr ⟨hpath.2, tree.named⟩ }
    else .error (.mk' .valueError "embedded null byte")
  else .error (osError "File exists" e.parts)

/-- `mkdir(exist_ok=True)`. -/
def LocalTree.makeDirectory (tree : LocalTree) (parts : List Text) :
    Except PyException LocalTree :=
  match tree.kindAt parts with
  | none => tree.create ⟨parts, .directory⟩
  | some .directory => .ok tree
  | some _ => .error (osError "File exists" parts)

/-- `open("wb")`; there are no symlinks in a workspace that is being downloaded. -/
def LocalTree.openForWriting (tree : LocalTree) (parts : List Text) :
    Except PyException LocalTree :=
  match tree.kindAt parts with
  | none => tree.create ⟨parts, .file⟩
  | some .file => .ok tree
  | some _ => .error (osError "Is a directory" parts)

/-- The directories above a path, outermost first. -/
def parents (parts : List Text) : List (List Text) :=
  parts.inits.filter fun q => q ≠ [] ∧ q ≠ parts

theorem mem_parents {parts q : List Text} :
    q ∈ parents parts ↔ q <+: parts ∧ q ≠ [] ∧ q ≠ parts := by
  rw [parents, List.mem_filter, List.mem_inits]
  simp

variable {tree tree' : LocalTree} {parts : List Text}

theorem LocalTree.kindAt_eq_some {kind : EntryKind} :
    tree.kindAt parts = some kind ↔ ⟨parts, kind⟩ ∈ tree.entries := by
  rw [LocalTree.kindAt, Option.map_eq_some_iff]
  constructor
  · rintro ⟨e, he, rfl⟩
    have hparts := List.find?_some he
    obtain rfl : e.parts = parts := by simpa using hparts
    exact List.mem_of_find?_eq_some he
  · intro hmem
    cases hf : tree.entries.find? (·.parts = parts) with
    | none =>
      have absent := List.find?_eq_none.mp hf _ hmem
      simp at absent
    | some e =>
      have hparts := List.find?_some hf
      have same : e = ⟨parts, kind⟩ :=
        List.inj_on_of_nodup_map tree.nodup (List.mem_of_find?_eq_some hf) hmem
          (by simpa using hparts)
      exact ⟨e, rfl, by rw [same]⟩

theorem LocalTree.create_ok {e : LocalEntry} (h : tree.create e = .ok tree') :
    tree'.entries = e :: tree.entries := by
  unfold LocalTree.create at h
  split at h
  · split at h
    · obtain rfl := Except.ok.inj h
      rfl
    · cases h
  · cases h

theorem LocalTree.mem_makeDirectory (h : tree.makeDirectory parts = .ok tree') (e : LocalEntry) :
    e ∈ tree'.entries ↔ e ∈ tree.entries ∨ e = ⟨parts, .directory⟩ := by
  unfold LocalTree.makeDirectory at h
  split at h
  · rw [LocalTree.create_ok h, List.mem_cons, or_comm]
  · rename_i found
    obtain rfl := Except.ok.inj h
    rw [iff_self_or]
    rintro rfl
    exact LocalTree.kindAt_eq_some.mp found
  · cases h

theorem LocalTree.mem_openForWriting (h : tree.openForWriting parts = .ok tree') (e : LocalEntry) :
    e ∈ tree'.entries ↔ e ∈ tree.entries ∨ e = ⟨parts, .file⟩ := by
  unfold LocalTree.openForWriting at h
  split at h
  · rw [LocalTree.create_ok h, List.mem_cons, or_comm]
  · rename_i found
    obtain rfl := Except.ok.inj h
    rw [iff_self_or]
    rintro rfl
    exact LocalTree.kindAt_eq_some.mp found
  · cases h

/-! ## Writing a file -/

/-- A call that changes the listing, or raises and leaves it. -/
def changeTree (f : LocalTree → Except PyException LocalTree) :
    Proc PyException LocalWorkspace Unit := fun W =>
  match f W.tree with
  | .ok tree => (.ok (), { W with tree := tree })
  | .error exc => (.error exc, W)

/-- `parent.mkdir(parents=True, exist_ok=True)`, then `open("wb")` and the copy. -/
def writeFile (parts : List Text) (content : Bytes) : Proc PyException LocalWorkspace Unit := do
  .each (fun q => changeTree (·.makeDirectory q)) (parents parts)
  changeTree (·.openForWriting parts)
  .modify fun W => { W with bytes := Function.update W.bytes parts content }

/-- A directory with the entries that writing these files has made. -/
structure Written (files : List (List Text × Bytes)) (W W' : LocalWorkspace) : Prop where
  entries : ∀ e, e ∈ W'.tree.entries ↔ e ∈ W.tree.entries ∨
    ∃ f ∈ files, e = ⟨f.1, .file⟩ ∨ ∃ q ∈ parents f.1, e = ⟨q, .directory⟩
  content : ∀ f ∈ files, W'.bytes f.1 = f.2
  others : ∀ parts, (∀ f ∈ files, parts ≠ f.1) → W'.bytes parts = W.bytes parts

variable {W W' : LocalWorkspace} {content : Bytes}

theorem changeTree_ok {f : LocalTree → Except PyException LocalTree} {u : Unit}
    (h : changeTree f W = (.ok u, W')) :
    f W.tree = .ok W'.tree ∧ W'.bytes = W.bytes ∧ W'.target = W.target := by
  unfold changeTree at h
  split at h
  · rename_i tree htree
    obtain ⟨-, rfl⟩ := Prod.mk.inj h
    exact ⟨htree, rfl, rfl⟩
  · cases h

theorem makeParents_ok {dirs : List (List Text)} {u : Unit}
    (h : Proc.each (fun q => changeTree (·.makeDirectory q)) dirs W = (.ok u, W')) :
    (∀ e, e ∈ W'.tree.entries ↔ e ∈ W.tree.entries ∨ ∃ q ∈ dirs, e = ⟨q, .directory⟩) ∧
      W'.bytes = W.bytes := by
  induction dirs generalizing W with
  | nil =>
    obtain ⟨-, rfl⟩ := Prod.mk.inj h
    simp
  | cons q dirs ih =>
    obtain ⟨_, V, hq, hrest⟩ := Proc.bind_ok_iff.mp h
    obtain ⟨htree, hbytes, -⟩ := changeTree_ok hq
    obtain ⟨entries, bytes⟩ := ih hrest
    refine ⟨fun e => ?_, bytes.trans hbytes⟩
    rw [entries, LocalTree.mem_makeDirectory htree]
    simp [or_assoc]

theorem writeFile_ok {u : Unit} (h : writeFile parts content W = (.ok u, W')) :
    Written [(parts, content)] W W' := by
  obtain ⟨_, U, hparents, h⟩ := Proc.bind_ok_iff.mp h
  obtain ⟨_, V, hopen, h⟩ := Proc.bind_ok_iff.mp h
  obtain ⟨-, rfl⟩ := Prod.mk.inj h
  obtain ⟨entries, bytes⟩ := makeParents_ok hparents
  obtain ⟨htree, hbytes, -⟩ := changeTree_ok hopen
  refine ⟨fun e => ?_, by simp, fun other hother => ?_⟩
  · dsimp only
    rw [LocalTree.mem_openForWriting htree, entries]
    simp only [List.mem_singleton, exists_eq_left, or_assoc]
    exact or_congr_right or_comm
  · have hne : other ≠ parts := by simpa using hother
    simp [hne, hbytes, bytes]

/-- The files of a download, one after the other. -/
theorem writeFiles_ok {files : List (List Text × Bytes)} {u : Unit}
    (nodup : (files.map (·.1)).Nodup)
    (h : Proc.each (fun f => writeFile f.1 f.2) files W = (.ok u, W')) : Written files W W' := by
  induction files generalizing W with
  | nil =>
    obtain ⟨-, rfl⟩ := Prod.mk.inj h
    exact ⟨by simp, by simp, fun _ _ => rfl⟩
  | cons f files ih =>
    obtain ⟨hf, nodup⟩ := List.nodup_cons.mp nodup
    obtain ⟨_, V, hfirst, hrest⟩ := Proc.bind_ok_iff.mp h
    have first := writeFile_ok hfirst
    have rest := ih nodup hrest
    have apart : ∀ g ∈ files, f.1 ≠ g.1 := fun g hg heq =>
      hf (List.mem_map.mpr ⟨g, hg, heq.symm⟩)
    refine ⟨fun e => ?_, fun g hg => ?_, fun other hother => ?_⟩
    · rw [rest.entries, first.entries]
      simp [or_assoc]
    · cases hg with
      | head => rw [rest.others _ apart, first.content _ List.mem_cons_self]
      | tail _ hg => exact rest.content g hg
    · obtain ⟨hne, hother⟩ := List.forall_mem_cons.mp hother
      rw [rest.others _ hother, first.others _ (by simpa using hne)]

end Perago
