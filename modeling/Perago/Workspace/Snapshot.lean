import Perago.Execution
import Perago.Workspace.Objects

/-!
# What a snapshot shows

`_snapshot_workspace` walks a directory and reads its files and symlinks. On a machine
that answers these calls from one workspace it returns what that workspace holds, the
marker file apart.
-/

namespace Perago

open Effect

/-- What `_snapshot_workspace` records of an entry. -/
def snapshotOf (sha256 : Bytes → String) (W : LocalWorkspace) (e : LocalEntry) :
    Option SnapshotEntry :=
  if pathName e.parts = attemptWorkspaceMarker then none
  else match e.kind with
    | .symlink => some (.symlink (joinSlash e.parts) (W.target e.parts))
    | .file => some (.file (joinSlash e.parts) (sha256 (W.bytes e.parts)))
    | .directory | .special => none

/-- The snapshot of a workspace. -/
def LocalWorkspace.snapshot (sha256 : Bytes → String) (W : LocalWorkspace) : List SnapshotEntry :=
  (sortedEntries W.tree.entries).filterMap (snapshotOf sha256 W)

variable {σ : Type}

/-- In the world `s` the directory holds the workspace `W`: it is listed, and its files and
symlinks are read, without a change. -/
structure Host.Shows (host : Host σ) (dir : Path) (W : LocalWorkspace) (s : σ) : Prop where
  rglob : host.rglob dir s = (.ok W.tree, s)
  readlink : ∀ e ∈ W.tree.entries, e.kind = .symlink →
    host.readlink (dir ++ e.parts) s = (.ok (W.target e.parts), s)
  readBytes : ∀ e ∈ W.tree.entries, e.kind = .file →
    host.readBytes (dir ++ e.parts) s = (.ok (W.bytes e.parts), s)

variable {host : Host σ} {dir : Path} {W : LocalWorkspace} {s : σ}

theorem Host.Shows.snapshotEntry (h : host.Shows dir W s) {e : LocalEntry}
    (he : e ∈ W.tree.entries) :
    snapshotEntry host dir e s = (.ok (snapshotOf host.sha256 W e), s) := by
  unfold Perago.snapshotEntry snapshotOf
  split
  · rfl
  · cases hk : e.kind with
    | symlink => exact Proc.bind_of_ok (h.readlink e he hk)
    | file => exact Proc.bind_of_ok (Proc.bind_of_ok (h.readBytes e he hk))
    | directory | special => rfl

theorem Host.Shows.snapshotWorkspace (h : host.Shows dir W s) :
    snapshotWorkspace host dir s = (.ok (W.snapshot host.sha256), s) := by
  refine (Proc.bind_of_ok h.rglob).trans ?_
  have all : ∀ entries : List LocalEntry, (∀ e ∈ entries, e ∈ W.tree.entries) →
      Proc.gather (Perago.snapshotEntry host dir) entries s =
        (.ok (entries.filterMap (snapshotOf host.sha256 W)), s) := by
    intro entries inside
    induction entries with
    | nil => rfl
    | cons e entries ih =>
      obtain ⟨he, inside⟩ := List.forall_mem_cons.mp inside
      refine Proc.bind_ok_iff.mpr ⟨_, s, h.snapshotEntry he, Proc.bind_ok_iff.mpr
        ⟨_, s, ih inside, ?_⟩⟩
      cases hsnap : snapshotOf host.sha256 W e <;> simp [hsnap, Pure.pure, Proc.pure]
  exact all _ fun e he => mem_sortedEntries.mp he

end Perago
