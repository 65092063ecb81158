import Perago.Workspace.Gc
import Mathlib.Data.List.Sort

/-!
# What a collection removes

A pass acts on every marker below the root, at whatever depth. It removes nothing but
whole attempt workspaces of its own root exactly when every other marker that it would
act on is gone by the time of its visit, or is not visited any more.
-/

namespace Perago

open Effect

section

variable (fromisoformat : String → Option Timestamp) (args : GcArguments) (prepared : Text → Prop)

/-- The pass acts on the marker if it can read it. -/
def MarkerPath.Collected (x : MarkerPath) : Prop :=
  ∃ m, readGcMarker fromisoformat x.content = .ok (some m) ∧ args.collects m = true

/-- Reading the marker ends the pass. -/
def MarkerPath.Aborts (x : MarkerPath) : Prop :=
  ∃ exc, readGcMarker fromisoformat x.content = .error exc

/-- A directory that `prepare_attempt_workspace` created directly under the root. -/
def OwnWorkspace (dir : List Text) : Prop := ∃ name, dir = [name] ∧ prepared name

/-- An attempt workspace of the root is removed before the visit of `x`, and `x` with it. -/
structure Covers (g x : MarkerPath) : Prop where
  collected : g.Collected fromisoformat args
  own : OwnWorkspace prepared g.dir
  earlier : g.path < x.path
  above : g.dir <+: x.dir ∨ ∃ link ∈ x.links, g.dir <+: link

/-- Each marker that the pass would act on, and that is not at the root of an attempt
workspace of this root, is removed together with such a workspace before its visit, or
comes after a marker that ends the pass. -/
def MarkerTree.Scoped (tree : MarkerTree) : Prop :=
  ∀ b ∈ tree.markers, b.Collected fromisoformat args → ¬ OwnWorkspace prepared b.dir →
    (∃ g ∈ tree.markers, g.links = [] ∧ Covers fromisoformat args prepared g b) ∨
    ∃ u ∈ tree.markers, u.Aborts fromisoformat ∧ u.path < b.path ∧
      ∀ g ∈ tree.markers, ¬ Covers fromisoformat args prepared g u

/-- Every removed directory is an attempt workspace of this root, by its own marker. -/
def RemovesOwnWorkspaces (tree : MarkerTree) (removed : List (List Text)) : Prop :=
  ∀ d ∈ removed, ∃ g ∈ tree.markers, g.dir = d ∧ g.Collected fromisoformat args ∧
    OwnWorkspace prepared d

end

variable {fromisoformat : String → Option Timestamp} {args : GcArguments} {prepared : Text → Prop}
variable {rmtreeFails : List Text → Option PyException} {tree : MarkerTree}
variable {removed : List (List Text)} {x g b : MarkerPath} {before rest : List MarkerPath}

/-! ## One visit -/

theorem gone_iff : x.gone removed = true ↔
    ∃ d ∈ removed, d <+: x.dir ∨ ∃ link ∈ x.links, d <+: link := by
  simp [MarkerPath.gone]

variable (fromisoformat args rmtreeFails) in
/-- A visit passes over the marker, ends the pass, or removes the marker's directory. -/
inductive Visited (x : MarkerPath) (removed : List (List Text)) :
    Outcome PyException Unit × List (List Text) → Prop where
  | passed : x.gone removed = true ∨
      ¬ x.Collected fromisoformat args ∧ ¬ x.Aborts fromisoformat →
      Visited x removed (.ok (), removed)
  | ended (exc : PyException) : x.gone removed = false → x.Aborts fromisoformat →
      Visited x removed (.error exc, removed)
  | collected : x.gone removed = false → x.Collected fromisoformat args →
      Visited x removed (.ok (), removed ++ [x.dir])
  | failed (exc : PyException) : x.gone removed = false → x.Collected fromisoformat args →
      rmtreeFails x.dir = some exc → Visited x removed (.error exc, removed ++ [x.dir])

theorem gcVisit_visited : Visited fromisoformat args rmtreeFails x removed
    (gcVisit fromisoformat args rmtreeFails x removed) := by
  unfold gcVisit
  cases hgone : x.gone removed with
  | true => exact .passed (.inl hgone)
  | false =>
    simp only [Bool.false_eq_true, if_false]
    cases hread : readGcMarker fromisoformat x.content with
    | error exc => exact .ended exc hgone ⟨exc, hread⟩
    | ok read =>
      have quiet : ¬ x.Aborts fromisoformat := by
        rintro ⟨exc, herror⟩
        cases hread.symm.trans herror
      cases read with
      | none =>
        refine .passed (.inr ⟨?_, quiet⟩)
        rintro ⟨m, hm, -⟩
        cases hread.symm.trans hm
      | some m =>
        cases hcollects : args.collects m with
        | true =>
          cases hfails : rmtreeFails x.dir with
          | none => simpa [hcollects, hfails] using .collected hgone ⟨m, hread, hcollects⟩
          | some exc =>
            simpa [hcollects, hfails] using .failed exc hgone ⟨m, hread, hcollects⟩ hfails
        | false =>
          have kept : ¬ x.Collected fromisoformat args := by
            rintro ⟨m', hm', hcollects'⟩
            obtain rfl : m = m' := by simpa using hread.symm.trans hm'
            simp [hcollects] at hcollects'
          simpa [hcollects] using .passed (.inr ⟨kept, quiet⟩)

/-! ## The order of the visits -/

theorem sorted_perm (tree : MarkerTree) : tree.sorted.Perm tree.markers :=
  List.perm_insertionSort _ _

theorem sorted_pairwise (tree : MarkerTree) : tree.sorted.Pairwise fun x y => x.path < y.path := by
  have ordered : tree.sorted.Pairwise fun x y => x.path ≤ y.path :=
    List.pairwise_insertionSort (fun x y : MarkerPath => x.path ≤ y.path) _
  have distinct : tree.sorted.Pairwise fun x y => x.dir ≠ y.dir := by
    refine List.pairwise_map.mp (List.nodup_iff_pairwise_ne.mp ?_)
    exact ((sorted_perm tree).map _).nodup_iff.mpr tree.nodup
  refine ordered.imp₂ (fun x y hle hne => lt_of_le_of_ne hle fun heq => hne ?_) distinct
  exact List.append_cancel_right heq

/-- What comes before a visited marker in the order has been visited. -/
theorem mem_before_iff (split : tree.sorted = before ++ x :: rest) (hg : g ∈ tree.markers) :
    g ∈ before ↔ g.path < x.path := by
  have ordered := sorted_pairwise tree
  have mem : g ∈ before ++ x :: rest := split ▸ (sorted_perm tree).symm.subset hg
  rw [split, List.pairwise_append, List.pairwise_cons] at ordered
  obtain ⟨-, ⟨later, -⟩, earlier⟩ := ordered
  constructor
  · intro h
    exact earlier g h x List.mem_cons_self
  · intro h
    rw [List.mem_append, List.mem_cons] at mem
    obtain mem | rfl | mem := mem
    · exact mem
    · exact absurd h (lt_irrefl _)
    · exact absurd h (later g mem).not_gt

/-! ## Passes that have removed attempt workspaces of their root only -/

variable (fromisoformat args prepared) in
/-- After the visits of `before`. -/
structure OwnSoFar (before : List MarkerPath) (removed : List (List Text)) : Prop where
  own : ∀ d ∈ removed, ∃ g ∈ before, g.dir = d ∧ g.Collected fromisoformat args ∧
    OwnWorkspace prepared d
  taken : ∀ g ∈ before, g.links = [] → g.Collected fromisoformat args →
    OwnWorkspace prepared g.dir → g.dir ∈ removed
  calm : ∀ u ∈ before, u.Aborts fromisoformat →
    ∃ g ∈ before, Covers fromisoformat args prepared g u

theorem prefix_own {d e : List Text} (hd : OwnWorkspace prepared d) (he : OwnWorkspace prepared e)
    (h : d <+: e) : d = e := by
  obtain ⟨name, rfl, -⟩ := hd
  obtain ⟨name', rfl, -⟩ := he
  exact h.eq_of_length rfl

/-- What is gone at its visit is covered. -/
theorem OwnSoFar.covers (h : OwnSoFar fromisoformat args prepared before removed)
    (earlier : ∀ g ∈ before, g.path < x.path) (gone : x.gone removed = true) :
    ∃ g ∈ before, Covers fromisoformat args prepared g x := by
  obtain ⟨d, hd, above⟩ := gone_iff.mp gone
  obtain ⟨g, hg, rfl, collected, own⟩ := h.own d hd
  exact ⟨g, hg, collected, own, earlier g hg, above⟩

/-- What is covered by a regular marker is gone at its visit. -/
theorem OwnSoFar.gone (h : OwnSoFar fromisoformat args prepared before removed) (hg : g ∈ before)
    (regular : g.links = []) (covers : Covers fromisoformat args prepared g x) :
    x.gone removed = true :=
  gone_iff.mpr ⟨g.dir, h.taken g hg regular covers.collected covers.own, covers.above⟩

theorem OwnSoFar.passed (h : OwnSoFar fromisoformat args prepared before removed)
    (earlier : ∀ g ∈ before, g.path < x.path)
    (hx : x.gone removed = true ∨ ¬ x.Collected fromisoformat args ∧ ¬ x.Aborts fromisoformat) :
    OwnSoFar fromisoformat args prepared (before ++ [x]) removed := by
  refine ⟨fun d hd => ?_, fun g hg regular collected own => ?_, fun u hu aborts => ?_⟩
  · obtain ⟨g, hg, rest⟩ := h.own d hd
    exact ⟨g, List.mem_append_left _ hg, rest⟩
  · rw [List.mem_append, List.mem_singleton] at hg
    obtain hg | rfl := hg
    · exact h.taken g hg regular collected own
    · obtain gone | ⟨kept, -⟩ := hx
      · obtain ⟨d, hd, hpre | ⟨link, hlink, -⟩⟩ := gone_iff.mp gone
        · obtain ⟨-, -, -, -, own'⟩ := h.own d hd
          exact prefix_own own' own hpre ▸ hd
        · simp [regular] at hlink
      · exact absurd collected kept
  · rw [List.mem_append, List.mem_singleton] at hu
    obtain hu | rfl := hu
    · obtain ⟨g, hg, covers⟩ := h.calm u hu aborts
      exact ⟨g, List.mem_append_left _ hg, covers⟩
    · obtain gone | ⟨-, quiet⟩ := hx
      · obtain ⟨g, hg, covers⟩ := h.covers earlier gone
        exact ⟨g, List.mem_append_left _ hg, covers⟩
      · exact absurd aborts quiet

theorem OwnSoFar.collected (h : OwnSoFar fromisoformat args prepared before removed)
    (collected : x.Collected fromisoformat args) (own : OwnWorkspace prepared x.dir) :
    OwnSoFar fromisoformat args prepared (before ++ [x]) (removed ++ [x.dir]) := by
  refine ⟨fun d hd => ?_, fun g hg regular collected' own' => ?_, fun u hu aborts => ?_⟩
  · rw [List.mem_append, List.mem_singleton] at hd
    obtain hd | rfl := hd
    · obtain ⟨g, hg, rest⟩ := h.own d hd
      exact ⟨g, List.mem_append_left _ hg, rest⟩
    · exact ⟨x, by simp, rfl, collected, own⟩
  · rw [List.mem_append, List.mem_singleton] at hg
    obtain hg | rfl := hg
    · exact List.mem_append_left _ (h.taken g hg regular collected' own')
    · simp
  · rw [List.mem_append, List.mem_singleton] at hu
    obtain hu | rfl := hu
    · obtain ⟨g, hg, covers⟩ := h.calm u hu aborts
      exact ⟨g, List.mem_append_left _ hg, covers⟩
    · obtain ⟨m, hm, -⟩ := collected
      obtain ⟨exc, hexc⟩ := aborts
      cases hm.symm.trans hexc

theorem OwnSoFar.nil : OwnSoFar fromisoformat args prepared [] [] := ⟨nofun, nofun, nofun⟩

variable (fromisoformat args rmtreeFails) in
/-- What the visits of `markers` leave removed. -/
def removedAfter (markers : List MarkerPath) (removed : List (List Text)) : List (List Text) :=
  (Proc.each (gcVisit fromisoformat args rmtreeFails) markers removed).2

theorem removedAfter_of_ok {u : List (List Text)}
    (h : gcVisit fromisoformat args rmtreeFails x removed = (.ok (), u)) :
    removedAfter fromisoformat args rmtreeFails (x :: rest) removed =
      removedAfter fromisoformat args rmtreeFails rest u :=
  congrArg Prod.snd (Proc.bind_of_ok h)

theorem removedAfter_of_error {u : List (List Text)} {exc : PyException}
    (h : gcVisit fromisoformat args rmtreeFails x removed = (.error exc, u)) :
    removedAfter fromisoformat args rmtreeFails (x :: rest) removed = u :=
  congrArg Prod.snd (Proc.bind_of_error h)

/-- What has been removed stays removed. -/
theorem subset_removedAfter (markers : List MarkerPath) (removed : List (List Text)) :
    removed ⊆ removedAfter fromisoformat args rmtreeFails markers removed := by
  induction markers generalizing removed with
  | nil => exact List.Subset.refl _
  | cons x rest ih =>
    have visited : Visited fromisoformat args rmtreeFails x removed _ := gcVisit_visited
    generalize hv : gcVisit fromisoformat args rmtreeFails x removed = visit at visited
    cases visited with
    | passed =>
      rw [removedAfter_of_ok hv]
      exact ih removed
    | ended =>
      rw [removedAfter_of_error hv]
      exact List.Subset.refl _
    | collected =>
      rw [removedAfter_of_ok hv]
      exact List.Subset.trans (List.subset_append_left _ _) (ih _)
    | failed =>
      rw [removedAfter_of_error hv]
      exact List.subset_append_left _ _

theorem RemovesOwnWorkspaces.of_ownSoFar (split : tree.sorted = before ++ rest)
    (h : OwnSoFar fromisoformat args prepared before removed) :
    RemovesOwnWorkspaces fromisoformat args prepared tree removed := by
  intro d hd
  obtain ⟨g, hg, found⟩ := h.own d hd
  have mem : g ∈ tree.sorted := split ▸ List.mem_append_left _ hg
  exact ⟨g, (sorted_perm tree).subset mem, found⟩

/-- A marker that is still there at its visit and collected is at the root of an attempt
workspace. -/
theorem MarkerTree.Scoped.own (hscoped : tree.Scoped fromisoformat args prepared)
    (split : tree.sorted = before ++ x :: rest)
    (h : OwnSoFar fromisoformat args prepared before removed)
    (there : x.gone removed = false) (collected : x.Collected fromisoformat args) :
    OwnWorkspace prepared x.dir := by
  have mem : x ∈ tree.markers := (sorted_perm tree).subset (split ▸ by simp)
  by_contra stray
  obtain ⟨g, hg, regular, covers⟩ | ⟨u, hu, aborts, earlier, uncovered⟩ :=
    hscoped x mem collected stray
  · have hbefore := (mem_before_iff split hg).mpr covers.earlier
    simp [h.gone hbefore regular covers] at there
  · obtain ⟨g, hg, covers⟩ := h.calm u ((mem_before_iff split hu).mpr earlier) aborts
    have hg' : g ∈ tree.sorted := split ▸ List.mem_append_left _ hg
    exact uncovered g ((sorted_perm tree).subset hg') covers

/-- The condition is enough: nothing else is removed, wherever the pass ends. -/
theorem own_of_scoped (hscoped : tree.Scoped fromisoformat args prepared)
    (split : tree.sorted = before ++ rest)
    (h : OwnSoFar fromisoformat args prepared before removed) :
    RemovesOwnWorkspaces fromisoformat args prepared tree
      (removedAfter fromisoformat args rmtreeFails rest removed) := by
  induction rest generalizing before removed with
  | nil => exact .of_ownSoFar split h
  | cons x rest ih =>
    have earlier : ∀ g ∈ before, g.path < x.path := by
      intro g hg
      have mem : g ∈ tree.sorted := split ▸ List.mem_append_left _ hg
      exact (mem_before_iff split ((sorted_perm tree).subset mem)).mp hg
    have split' : tree.sorted = (before ++ [x]) ++ rest := by simp [split]
    have visited : Visited fromisoformat args rmtreeFails x removed _ := gcVisit_visited
    generalize hv : gcVisit fromisoformat args rmtreeFails x removed = visit at visited
    cases visited with
    | passed hx =>
      rw [removedAfter_of_ok hv]
      exact ih split' (h.passed earlier hx)
    | ended =>
      rw [removedAfter_of_error hv]
      exact .of_ownSoFar split h
    | collected there collected =>
      rw [removedAfter_of_ok hv]
      exact ih split' (h.collected collected (hscoped.own split h there collected))
    | failed exc there collected =>
      rw [removedAfter_of_error hv]
      exact .of_ownSoFar split' (h.collected collected (hscoped.own split h there collected))

/-- A pass that removes attempt workspaces of its root only, and none of whose `rmtree`
calls fails, gets to a marker unless an uncovered one before it ends the pass. -/
theorem reaches (regular : ∀ x ∈ tree.markers, x.links = [])
    (calm : ∀ u ∈ tree.markers, u.Aborts fromisoformat → u.path < b.path →
      ∃ g ∈ tree.markers, Covers fromisoformat args prepared g u)
    {mid : List MarkerPath} (split : tree.sorted = before ++ (mid ++ b :: rest))
    (h : OwnSoFar fromisoformat args prepared before removed)
    (own : RemovesOwnWorkspaces fromisoformat args prepared tree
      (removedAfter fromisoformat args (fun _ => none) (mid ++ b :: rest) removed)) :
    ∃ r, OwnSoFar fromisoformat args prepared (before ++ mid) r ∧
      removedAfter fromisoformat args (fun _ => none) (mid ++ b :: rest) removed =
        removedAfter fromisoformat args (fun _ => none) (b :: rest) r := by
  induction mid generalizing before removed with
  | nil => exact ⟨removed, by simpa using h, rfl⟩
  | cons x mid ih =>
    have splitx : tree.sorted = before ++ x :: (mid ++ b :: rest) := by simp [split]
    have split' : tree.sorted = (before ++ [x]) ++ (mid ++ b :: rest) := by simp [split]
    have splitb : tree.sorted = (before ++ x :: mid) ++ b :: rest := by simp [split]
    have mem : x ∈ tree.markers := (sorted_perm tree).subset (splitx ▸ by simp)
    have earlier : ∀ g ∈ before, g.path < x.path := by
      intro g hg
      have hg' : g ∈ tree.sorted := split ▸ List.mem_append_left _ hg
      exact (mem_before_iff splitx ((sorted_perm tree).subset hg')).mp hg
    have visited : Visited fromisoformat args (fun _ => none) x removed _ := gcVisit_visited
    generalize hv : gcVisit fromisoformat args (fun _ => none) x removed = visit at visited
    cases visited with
    | passed hx =>
      rw [List.cons_append, removedAfter_of_ok hv] at own ⊢
      obtain ⟨r, hr, run⟩ := ih split' (h.passed earlier hx) own
      exact ⟨r, by simpa using hr, run⟩
    | ended exc there aborts =>
      obtain ⟨g, hg, covers⟩ := calm x mem aborts ((mem_before_iff splitb mem).mp (by simp))
      have hbefore := (mem_before_iff splitx hg).mpr covers.earlier
      simp [h.gone hbefore (regular g hg) covers] at there
    | collected there collected =>
      rw [List.cons_append, removedAfter_of_ok hv] at own ⊢
      have hdir : x.dir ∈ removedAfter fromisoformat args (fun _ => none) (mid ++ b :: rest)
          (removed ++ [x.dir]) := subset_removedAfter _ _ (by simp)
      obtain ⟨-, -, -, -, hown⟩ := own x.dir hdir
      obtain ⟨r, hr, run⟩ := ih split' (h.collected collected hown) own
      exact ⟨r, by simpa using hr, run⟩
    | failed exc there collected fails => cases fails

/-- The condition is needed where no marker is a symlink into the root. -/
theorem scoped_of_own (regular : ∀ x ∈ tree.markers, x.links = [])
    (own : RemovesOwnWorkspaces fromisoformat args prepared tree
      (removedAfter fromisoformat args (fun _ => none) tree.sorted [])) :
    tree.Scoped fromisoformat args prepared := by
  intro b hb collected stray
  by_contra hnot
  rw [not_or] at hnot
  obtain ⟨uncovered, calm⟩ := hnot
  have calm' : ∀ u ∈ tree.markers, u.Aborts fromisoformat → u.path < b.path →
      ∃ g ∈ tree.markers, Covers fromisoformat args prepared g u := by
    intro u hu aborts earlier
    by_contra hnone
    exact calm ⟨u, hu, aborts, earlier, fun g hg covers => hnone ⟨g, hg, covers⟩⟩
  obtain ⟨mid, rest, split⟩ := List.append_of_mem ((sorted_perm tree).symm.subset hb)
  rw [split] at own
  have start : tree.sorted = [] ++ (mid ++ b :: rest) := split
  obtain ⟨r, hr, run⟩ := reaches regular calm' start .nil own
  rw [run] at own
  have visited : Visited fromisoformat args (fun _ => none) b r _ := gcVisit_visited
  generalize hv : gcVisit fromisoformat args (fun _ => none) b r = visit at visited
  -- `b` is there when it is visited, and its directory is removed
  have there : b.gone r = false := by
    by_contra hgone
    have earlier : ∀ g ∈ [] ++ mid, g.path < b.path := by
      intro g hg
      have hg' : g ∈ tree.sorted := split ▸ List.mem_append_left _ hg
      exact (mem_before_iff split ((sorted_perm tree).subset hg')).mp hg
    obtain ⟨g, hg, covers⟩ := hr.covers earlier (by simpa using hgone)
    have hg' : g ∈ tree.markers := (sorted_perm tree).subset (split ▸ List.mem_append_left _ hg)
    exact uncovered ⟨g, hg', regular g hg', covers⟩
  cases visited with
  | passed hb =>
    obtain gone | ⟨kept, -⟩ := hb
    · simp [gone] at there
    · exact kept collected
  | ended exc _ aborts =>
    obtain ⟨m, hm, -⟩ := collected
    obtain ⟨exc, hexc⟩ := aborts
    cases hm.symm.trans hexc
  | collected =>
    rw [removedAfter_of_ok hv] at own
    obtain ⟨-, -, -, -, hown⟩ := own b.dir (subset_removedAfter _ _ (by simp))
    exact stray hown
  | failed exc _ _ fails => cases fails

/-- A pass removes nothing but attempt workspaces that were created directly under its
root, each by its own marker, exactly when the markers below the root allow it. -/
theorem gc_scope_iff (fromisoformat : String → Option Timestamp) (args : GcArguments)
    (prepared : Text → Prop) (tree : MarkerTree) :
    (tree.Scoped fromisoformat args prepared → ∀ rmtreeFails,
      RemovesOwnWorkspaces fromisoformat args prepared tree
        (garbageCollectAttemptWorkspaces fromisoformat args rmtreeFails tree []).2) ∧
    ((∀ x ∈ tree.markers, x.links = []) →
      (∀ rmtreeFails, RemovesOwnWorkspaces fromisoformat args prepared tree
        (garbageCollectAttemptWorkspaces fromisoformat args rmtreeFails tree []).2) →
      tree.Scoped fromisoformat args prepared) :=
  have start : tree.sorted = [] ++ tree.sorted := rfl
  ⟨fun hscoped _ => own_of_scoped hscoped start .nil,
    fun regular own => scoped_of_own regular (own fun _ => none)⟩

/-! ## A marker inside a live workspace -/

def epoch (s : String) : Option Timestamp :=
  if s = "1970-01-01T00:00:00+00:00" then some ⟨0, some 0⟩ else none

def oldMarker (ownerToken : String) : MarkerContent :=
  .json <| .dict [(.str "owner_worker_id", .str "worker0001"), (.str "owner_pid", .int 7),
    (.str "owner_token", .str ownerToken), (.str "execution_id", .str "e"),
    (.str "started_at", .str "1970-01-01T00:00:00+00:00")]

/-- The body of a running attempt has unpacked an old workspace into its own. -/
def unpackedTree : MarkerTree where
  markers := [⟨[text "task_id=1-exec=e"], [], oldMarker "live"⟩,
    ⟨[text "task_id=1-exec=e", text "data"], [], oldMarker "gone"⟩]
  nodup := by decide

/-- The periodic pass spares the workspace, and removes a directory inside it. -/
theorem nested_marker_removed :
    let args := loopArguments 60000000 [] ["live"] 3600000000
    ¬ RemovesOwnWorkspaces epoch args (· = text "task_id=1-exec=e") unpackedTree
      (garbageCollectAttemptWorkspaces epoch args (fun _ => none) unpackedTree []).2 := by
  intro args own
  have run : (garbageCollectAttemptWorkspaces epoch args (fun _ => none) unpackedTree []).2 =
      [[text "task_id=1-exec=e", text "data"]] := rfl
  rw [run] at own
  obtain ⟨-, -, -, -, name, hdir, -⟩ := own _ List.mem_cons_self
  simp at hdir

end Perago
