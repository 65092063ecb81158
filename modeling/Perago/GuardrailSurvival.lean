import Perago.GuardrailScope
import Perago.NoopDetection

/-!
# Guardrails after a publication

A publication keeps files and nothing else: the next task finds the marker of its own
attempt, the published files and the directories above them. Which guardrails of the
publishing task still hold there depends on what of their matches survives.
-/

namespace Perago

open Effect Pathlib

/-! ## Local trees as listings -/

/-- What the listing says of an entry that is no symlink. -/
def LocalEntry.toEntry (e : LocalEntry) : Entry where
  parts := e.parts
  kind := match e.kind with
    | .file => .file
    | .directory => .directory
    | .special => .special
    | .symlink => .dangling
  linked := e.kind = .symlink
  real := e.parts

/-- The listing of a workspace whose symlinks, if any, lead nowhere. -/
def LocalTree.listing (tree : LocalTree) : Listing where
  entries := tree.entries.map LocalEntry.toEntry
  nodup := by
    rw [List.map_map]
    exact tree.nodup

/-- Below a directory there are files and directories only, each in a directory. -/
structure LocalTree.Plain (tree : LocalTree) : Prop where
  kinds : ∀ e ∈ tree.entries, e.kind = .file ∨ e.kind = .directory
  closed : ∀ e ∈ tree.entries, ∀ q ∈ parents e.parts, ⟨q, .directory⟩ ∈ tree.entries

variable {tree tree' : LocalTree} {parts : List Text} {rules : Rules}

theorem kindAt_listing_file :
    tree.listing.kindAt parts = some .file ↔ ⟨parts, .file⟩ ∈ tree.entries := by
  rw [Listing.kindAt_eq_some]
  constructor
  · rintro ⟨_, he, rfl, hk⟩
    obtain ⟨⟨parts, kind⟩, hmem, rfl⟩ := List.mem_map.mp he
    cases kind <;> simp_all [LocalEntry.toEntry]
  · intro hmem
    exact ⟨_, List.mem_map_of_mem hmem, rfl, rfl⟩

theorem kindAt_listing_directory :
    tree.listing.kindAt parts = some .directory ↔ ⟨parts, .directory⟩ ∈ tree.entries := by
  rw [Listing.kindAt_eq_some]
  constructor
  · rintro ⟨_, he, rfl, hk⟩
    obtain ⟨⟨parts, kind⟩, hmem, rfl⟩ := List.mem_map.mp he
    cases kind <;> simp_all [LocalEntry.toEntry]
  · intro hmem
    exact ⟨_, List.mem_map_of_mem hmem, rfl, rfl⟩

theorem isDirectory_listing :
    tree.listing.isDirectory parts = true ↔ ⟨parts, .directory⟩ ∈ tree.entries := by
  rw [← kindAt_listing_directory, Listing.kindAt_eq_some]
  simp [Listing.isDirectory]

theorem isPlainDirectory_listing :
    tree.listing.isPlainDirectory parts = tree.listing.isDirectory parts := by
  rw [Bool.eq_iff_iff]
  simp only [Listing.isDirectory, Listing.isPlainDirectory, LocalTree.listing, List.any_map,
    List.any_eq_true, Function.comp_apply, decide_eq_true_eq]
  refine exists_congr fun e => and_congr_right fun _ => and_congr_right fun _ => ?_
  cases hk : e.kind <;> simp [LocalEntry.toEntry, hk]

/-! ## What survives -/

def markerEntry : LocalEntry := ⟨[attemptWorkspaceMarker], .file⟩

/-- The entry is a published file, or a directory above one, or the root marker that
every attempt writes. -/
def LocalTree.Survives (tree : LocalTree) (e : LocalEntry) : Prop :=
  e = markerEntry ∨ (∃ parts ∈ tree.files, e = ⟨parts, .file⟩) ∨
    ∃ parts ∈ tree.files, ∃ q ∈ parents parts, e = ⟨q, .directory⟩

instance : DecidableEq LocalEntry := fun a b =>
  decidable_of_iff (a.parts = b.parts ∧ a.kind = b.kind) (by cases a; cases b; simp)

instance : DecidablePred tree.Survives := fun e => by unfold LocalTree.Survives; infer_instance

/-- The matches of a pattern that survive, with the new marker if the body removed its own. -/
def survivingMatches (rules : Rules) (tree : LocalTree) (pattern : List Text) : Nat :=
  (tree.listing.leadsTo rules pattern [] []).toNat +
    (tree.entries.countP fun e =>
      tree.listing.globs rules pattern e.toEntry && decide (tree.Survives e)) +
    if markerEntry ∈ tree.entries then 0
    else (markerListing.globs rules pattern markerEntry.toEntry).toNat

/-- What the next task finds where the tree was published. -/
def Republished (tree tree' : LocalTree) : Prop :=
  ∀ e, e ∈ tree'.entries ↔ tree.Survives e

theorem parents_trans {q r : List Text} (hq : q ∈ parents r) (hr : r ∈ parents parts) :
    q ∈ parents parts := by
  obtain ⟨hqr, hne, hqne⟩ := mem_parents.mp hq
  obtain ⟨hrp, -, hrne⟩ := mem_parents.mp hr
  refine mem_parents.mpr ⟨hqr.trans hrp, hne, ?_⟩
  rintro rfl
  exact hrne (hrp.eq_of_length_le hqr.length_le)

theorem parents_singleton (name : Text) : parents [name] = [] := by
  refine List.eq_nil_iff_forall_not_mem.mpr fun q hq => ?_
  obtain ⟨hpre, hne, hself⟩ := mem_parents.mp hq
  obtain rfl | ⟨rest, rfl, hrest⟩ := List.prefix_cons_iff.mp hpre
  · exact hne rfl
  · exact hself (by rw [List.prefix_nil.mp hrest])

/-- The directories above what survives survive. -/
theorem LocalTree.Survives.parents {e : LocalEntry} (h : tree.Survives e) {q : List Text}
    (hq : q ∈ parents e.parts) : tree.Survives ⟨q, .directory⟩ := by
  obtain rfl | ⟨parts, hparts, rfl⟩ | ⟨parts, hparts, r, hr, rfl⟩ := h
  · simp [markerEntry, parents_singleton] at hq
  · exact .inr (.inr ⟨parts, hparts, q, hq, rfl⟩)
  · exact .inr (.inr ⟨parts, hparts, q, parents_trans hq hr, rfl⟩)

/-- All that survives was there, but perhaps for the root marker. -/
theorem LocalTree.Survives.mem (plain : tree.Plain) {e : LocalEntry} (h : tree.Survives e) :
    e = markerEntry ∨ e ∈ tree.entries := by
  obtain rfl | ⟨parts, hparts, rfl⟩ | ⟨parts, hparts, q, hq, rfl⟩ := h
  · exact .inl rfl
  · exact .inr (LocalTree.mem_files_iff.mp hparts).1
  · exact .inr (plain.closed _ (LocalTree.mem_files_iff.mp hparts).1 q hq)

theorem isDirectory_of_mem {e : LocalEntry} (he : e ∈ tree.entries) :
    tree.listing.isDirectory e.parts = decide (e.kind = .directory) := by
  rw [Bool.eq_iff_iff, isDirectory_listing, decide_eq_true_eq]
  constructor
  · intro hmem
    rw [List.inj_on_of_nodup_map tree.nodup he hmem rfl]
  · rintro hk
    rw [← hk]
    exact he

/-- Two trees that hold an entry and the directories above it agree on the way to it. -/
theorem sameOnPath_of_mem {e : LocalEntry} (he : e ∈ tree.entries) (he' : e ∈ tree'.entries)
    (above : ∀ q ∈ parents e.parts, ⟨q, .directory⟩ ∈ tree.entries ∧
      ⟨q, .directory⟩ ∈ tree'.entries) :
    Listing.SameOnPath tree.listing tree'.listing [] e.parts := by
  intro q below hsplit hne
  rw [List.nil_append, isPlainDirectory_listing, isPlainDirectory_listing, and_self]
  by_cases hself : q = e.parts
  · rw [hself, isDirectory_of_mem he, isDirectory_of_mem he']
  · have hq := above q (mem_parents.mpr ⟨⟨below, hsplit⟩, hne, hself⟩)
    rw [isDirectory_listing.mpr hq.1, isDirectory_listing.mpr hq.2]

theorem globs_congr {L K : Listing} {e : Entry} {pattern : List Text}
    (h : Listing.SameOnPath L K [] e.parts) :
    L.globs rules pattern e = K.globs rules pattern e := by
  simp only [Listing.globs, Listing.leadsTo_congr h]

theorem globs_marker (hm : markerEntry ∈ tree.entries) (pattern : List Text) :
    tree.listing.globs rules pattern markerEntry.toEntry =
      markerListing.globs rules pattern markerEntry.toEntry := by
  refine globs_congr fun above below hsplit hne => ?_
  change above ++ below = [attemptWorkspaceMarker] at hsplit
  obtain ⟨rfl, -⟩ | ⟨rfl, -⟩ := List.append_eq_singleton_iff.mp hsplit
  · exact absurd rfl hne
  · have dir : tree.listing.isDirectory [attemptWorkspaceMarker] = false := isDirectory_of_mem hm
    rw [List.nil_append, isPlainDirectory_listing, dir]
    exact ⟨rfl, rfl⟩

/-- The entries of the next task, in some order. -/
theorem Republished.perm (plain : tree.Plain) (h : Republished tree tree') :
    tree'.entries.Perm ((if markerEntry ∈ tree.entries then [] else [markerEntry]) ++
      tree.entries.filter tree.Survives) := by
  have nodup : (tree.entries.filter tree.Survives).Nodup :=
    (List.Nodup.of_map _ tree.nodup).filter _
  refine (List.perm_ext_iff_of_nodup (List.Nodup.of_map _ tree'.nodup) ?_).mpr fun e => ?_
  · split
    · exact nodup
    · rename_i hm
      exact List.nodup_cons.mpr ⟨fun hmem => hm (List.mem_filter.mp hmem).1, nodup⟩
  · rw [h e]
    by_cases hm : markerEntry ∈ tree.entries
    · simp only [hm, if_true, List.nil_append, List.mem_filter, decide_eq_true_eq]
      refine ⟨fun hs => ⟨?_, hs⟩, And.right⟩
      obtain rfl | he := hs.mem plain
      · exact hm
      · exact he
    · simp only [hm, if_false, List.singleton_append, List.mem_cons, List.mem_filter,
        decide_eq_true_eq]
      constructor
      · intro hs
        exact (hs.mem plain).imp_right fun he => ⟨he, hs⟩
      · rintro (rfl | ⟨-, hs⟩)
        · exact .inl rfl
        · exact hs

/-- The matches of the next task are the surviving ones. -/
theorem count_republished (plain : tree.Plain) (h : Republished tree tree') (pattern : List Text) :
    tree'.listing.count rules pattern = survivingMatches rules tree pattern := by
  have root :
      tree'.listing.leadsTo rules pattern [] [] = tree.listing.leadsTo rules pattern [] [] :=
    Listing.leadsTo_congr fun above _ hsplit hne => absurd (List.append_eq_nil_iff.mp hsplit).1 hne
  have own : ∀ e ∈ tree.entries, tree.Survives e →
      tree'.listing.globs rules pattern e.toEntry = tree.listing.globs rules pattern e.toEntry := by
    intro e he hs
    refine globs_congr (sameOnPath_of_mem ((h e).mpr hs) he fun q hq => ?_)
    exact ⟨(h _).mpr (hs.parents hq), plain.closed e he q hq⟩
  have kept : (tree.entries.filter tree.Survives).countP
        (fun e => tree'.listing.globs rules pattern e.toEntry) =
      tree.entries.countP fun e =>
        tree.listing.globs rules pattern e.toEntry && decide (tree.Survives e) := by
    rw [List.countP_filter]
    refine List.countP_congr fun e he => ?_
    by_cases hs : tree.Survives e
    · simp [hs, own e he hs]
    · simp [hs]
  have marker : tree'.listing.globs rules pattern markerEntry.toEntry =
      markerListing.globs rules pattern markerEntry.toEntry :=
    globs_marker ((h markerEntry).mpr (.inl rfl)) pattern
  have total : tree'.listing.entries.countP (tree'.listing.globs rules pattern) =
      tree'.entries.countP fun e => tree'.listing.globs rules pattern e.toEntry := List.countP_map
  rw [Listing.count, survivingMatches, root, total, (h.perm plain).countP_eq, List.countP_append,
    kept, Nat.add_assoc, Nat.add_comm (List.countP _ _)]
  congr 2
  split
  · rfl
  · rw [List.countP_singleton, marker]
    cases markerListing.globs rules pattern markerEntry.toEntry <;> rfl

/-- If the body left the root marker, a publication adds no match. -/
theorem survivingMatches_le (hm : markerEntry ∈ tree.entries) (pattern : List Text) :
    survivingMatches rules tree pattern ≤ tree.listing.count rules pattern := by
  have fewer : (tree.entries.countP fun e =>
        tree.listing.globs rules pattern e.toEntry && decide (tree.Survives e)) ≤
      tree.listing.entries.countP (tree.listing.globs rules pattern) := by
    rw [LocalTree.listing, List.countP_map]
    exact List.countP_mono_left fun e _ he => (Bool.and_eq_true_iff.mp he).1
  rw [survivingMatches, if_pos hm, Listing.count]
  exact Nat.add_le_add_left fewer _

/-! ## Which guardrails survive -/

namespace WorkspaceGuardrail

/-- What the guardrail asks for is still there after a publication. -/
def Survives (rules : Rules) (tree : LocalTree) (g : WorkspaceGuardrail) : Prop :=
  match g.kind with
  | .requireFile => tree.Survives ⟨posixParts g.path, .file⟩
  | .requireDir => tree.Survives ⟨posixParts g.path, .directory⟩
  | .requireGlob | .forbidGlob => g.Accepts (survivingMatches rules tree g.pattern)

variable {g : WorkspaceGuardrail}

/-- A guardrail that held for the publishing task holds for the next one if it survives. -/
theorem holds_republished_iff (plain : tree.Plain) (h : Republished tree tree')
    (held : g.Holds rules tree.listing) : g.Holds rules tree'.listing ↔ g.Survives rules tree := by
  cases hk : g.kind with
  | requireFile => simp only [Holds, Survives, hk, kindAt_listing_file, h _]
  | requireDir => simp only [Holds, Survives, hk, kindAt_listing_directory, h _]
  | requireGlob | forbidGlob =>
    simp only [Holds, hk] at held
    simp only [Holds, Survives, hk, held.1, count_republished plain h, true_and]

/-- A guardrail that bounds the matches from above survives if the body left the marker. -/
theorem survives_of_upper_bound (hm : markerEntry ∈ tree.entries)
    (held : g.Holds rules tree.listing)
    (upper : g.kind = .forbidGlob ∨ g.kind = .requireGlob ∧ g.minCount = none) :
    g.Survives rules tree := by
  have fewer : survivingMatches rules tree g.pattern ≤ tree.listing.count rules g.pattern :=
    survivingMatches_le hm g.pattern
  obtain hk | ⟨hk, hmin⟩ := upper
  · simp only [Holds, Survives, Accepts, hk] at held ⊢
    omega
  · simp only [Holds, Survives, Accepts, hk, hmin] at held ⊢
    exact ⟨by simp, fun m hmax => fewer.trans (held.2.2 m hmax)⟩

end WorkspaceGuardrail

/-! ## Publish, download, check again -/

section

open ObjectStore

variable {base : LakeFSClient ObjectStore} {commitId : ObjectMap → String} {budget : Option Nat}
variable {machine : Host ObjectStore} {dir : Path} {s s' u t : ObjectStore}
variable {i next : WorkspaceInput} {spec spec' : WorkspaceSpec} {E : ObjectMap}

/-- A download of what was staged gives the published files, the directories above them
and a marker. -/
theorem republished_of_staged {branch : String} {staged : StagedWorkspace} {marker : Bytes}
    (hE : s.refs (i.repository, branch) = some E)
    (stage : (runtime base commitId budget).stageOnBranch (host machine dir) dir i spec branch s =
      (.ok staged, s'))
    (published : u.refs (next.repository, next.ref) = s'.refs (i.repository, staged.commit))
    (samePrefix : spec'.workspacePrefix = spec.workspacePrefix)
    (prepared : u.disk = preparedWorkspace marker)
    (down : (runtime base commitId budget).downloadWorkspace (host machine dir) next spec' dir u =
      (.ok (), t)) : Republished s.disk.tree t.disk.tree := by
  cases hplan : buildWorkspaceSyncPlan s.disk.tree spec.workspacePrefix
      (E.listing (workspaceObjectPrefix spec.workspacePrefix)) with
  | error exc =>
    rw [stageOnBranch_error hE hplan] at stage
    cases stage
  | ok plan =>
    rw [stageOnBranch_ok hE hplan] at stage
    obtain ⟨hstaged, rfl⟩ := Prod.mk.inj stage
    obtain rfl := Outcome.ok.inj hstaged
    have hE' : u.refs (next.repository, next.ref) = some (plan.applyTo s.disk E) := by
      simpa using published
    have fresh := downloadWorkspace_freshCopy prepared hE' down
    rw [samePrefix] at fresh
    have files := ((mirrors_iff_same_files fresh.mirrors).mp
      (applyTo_mirrors (.refl _) hplan)).1
    intro e
    rw [fresh.entries]
    simp only [← files, LocalTree.Survives, markerEntry]
    grind

variable {rules : Rules} {posting preparing : Host Listing} {root root' : Path}
variable {G : List WorkspaceGuardrail}

/-- Guardrails that pass after the body pass before the next task on the published ref
exactly when all of them survive; those that bound matches from above do as long as the
body left its root marker. -/
theorem guardrails_survive_iff (plain : s.disk.tree.Plain) {branch : String}
    {staged : StagedWorkspace} {marker : Bytes} (hE : s.refs (i.repository, branch) = some E)
    (post : (checkGuardrails (listingHost posting rules root) root G .post
      s.disk.tree.listing).1 = .ok ())
    (stage : (runtime base commitId budget).stageOnBranch (host machine dir) dir i spec branch s =
      (.ok staged, s'))
    (published : u.refs (next.repository, next.ref) = s'.refs (i.repository, staged.commit))
    (samePrefix : spec'.workspacePrefix = spec.workspacePrefix)
    (prepared : u.disk = preparedWorkspace marker)
    (down : (runtime base commitId budget).downloadWorkspace (host machine dir) next spec' dir u =
      (.ok (), t)) :
    ((checkGuardrails (listingHost preparing rules root') root' G .pre
        t.disk.tree.listing).1 = .ok () ↔ ∀ g ∈ G, g.Survives rules s.disk.tree) ∧
    (markerEntry ∈ s.disk.tree.entries → ∀ g ∈ G,
      g.kind = .forbidGlob ∨ g.kind = .requireGlob ∧ g.minCount = none →
        g.Survives rules s.disk.tree) := by
  have held := checkGuardrails_passes_iff.mp post
  have republished := republished_of_staged hE stage published samePrefix prepared down
  constructor
  · rw [checkGuardrails_passes_iff]
    exact forall₂_congr fun g hg => g.holds_republished_iff plain republished (held g hg)
  · intro hm g hg upper
    exact g.survives_of_upper_bound hm (held g hg) upper

end

/-! ## One required directory -/

/-- Every ref holds the same objects. -/
def ObjectStore.uniform (E : ObjectMap) (W : LocalWorkspace) : ObjectStore := ⟨fun _ => some E, W⟩

/-- `require_dir("d")`. -/
def requireD : WorkspaceGuardrail := ⟨.requireDir, text "d", none, none⟩

/-- The next task has the commit as its input. -/
def nextInput : WorkspaceInput :=
  ⟨"data", "main", "c1", ObjectStore.someInput.repository_nonblank,
    ObjectStore.someInput.branch_nonblank, rfl⟩

def wholeRef : WorkspaceSpec := ⟨rootPrefix, [], [], false⟩

def someHost : Host Listing := restingHost (fun _ => emptyTree) fun _ => ""

def publishingRuntime : LakeFSWorkspaceRuntime ObjectStore :=
  ObjectStore.runtime ObjectStore.absentClient (fun _ => "c1") none

def someMachine : Host ObjectStore := ObjectStore.host ObjectStore.idleMachine []

/-- The objects of an empty ref, and a workspace to be published there. -/
def bodyDone (W : LocalWorkspace) : ObjectStore := .uniform ∅ W

/-- What the next task prepares after the publication. -/
def handedOver (W : LocalWorkspace) : ObjectStore :=
  { (publishingRuntime.stageOnBranch someMachine [] ObjectStore.someInput wholeRef "b"
      (bodyDone W)).2 with
    disk := preparedWorkspace [] }

/-- The body writes `d/a`. -/
theorem guardrails_survive_iff_file :
    let W : LocalWorkspace := ⟨plainTree, fun _ => [3], fun _ => []⟩
    let t :=
      (publishingRuntime.downloadWorkspace someMachine nextInput wholeRef [] (handedOver W)).2
    (checkGuardrails (listingHost someHost before313 []) [] [requireD] .pre
        t.disk.tree.listing).1 = .ok () ↔
      ∀ g ∈ [requireD], g.Survives before313 plainTree := by
  intro W t
  have plain : (bodyDone W).disk.tree.Plain := by
    constructor <;> decide
  have down : publishingRuntime.downloadWorkspace someMachine nextInput wholeRef [] (handedOver W) =
      (.ok (), t) := Prod.ext rfl rfl
  have post : (checkGuardrails (listingHost someHost before313 []) [] [requireD] .post
      (bodyDone W).disk.tree.listing).1 = .ok () := rfl
  have stage : publishingRuntime.stageOnBranch someMachine [] ObjectStore.someInput wholeRef "b"
      (bodyDone W) = (.ok ⟨"data", "b", "c1"⟩, _) := Prod.ext rfl rfl
  exact (guardrails_survive_iff plain rfl post stage rfl rfl rfl down).1

/-- The body leaves an empty directory beside the marker. -/
def emptyDirectory : LocalWorkspace where
  tree := {
    entries := [⟨[text "d"], .directory⟩, markerEntry]
    nodup := by decide
    inside := by decide
    named := by decide }
  bytes _ := []
  target _ := []

/-- The guardrail passes after the body, and fails before the next task. -/
theorem empty_directory_not_published :
    let staging := publishingRuntime.stageOnBranch someMachine [] ObjectStore.someInput wholeRef "b"
      (bodyDone emptyDirectory)
    let down := publishingRuntime.downloadWorkspace someMachine nextInput wholeRef []
      (handedOver emptyDirectory)
    emptyDirectory.tree.Plain ∧ staging.1 = .ok ⟨"data", "b", "c1"⟩ ∧ down.1 = .ok () ∧
    (checkGuardrails (listingHost someHost before313 []) [] [requireD] .post
        emptyDirectory.tree.listing).1 = .ok () ∧
    (checkGuardrails (listingHost someHost before313 []) [] [requireD] .pre
        down.2.disk.tree.listing).1 ≠ .ok () := by
  refine ⟨by constructor <;> decide, rfl, rfl, rfl, ?_⟩
  rw [Ne, checkGuardrails_passes_iff]
  intro h
  have found : (publishingRuntime.downloadWorkspace someMachine nextInput wholeRef []
      (handedOver emptyDirectory)).2.disk.tree.listing.kindAt [text "d"] = some .directory :=
    h requireD List.mem_cons_self
  exact absurd found (by decide)

end Perago
