import Perago.Workspace.GcScope

/-!
# One workspace beside the others

A pass visits the attempt directories of its root in the order of their names, and the
first visit that raises ends it: reading the marker may raise what `_read_gc_marker` does
not catch, and `shutil.rmtree` is not guarded. What happens to one workspace depends on no
other one exactly when nothing that the pass could remove comes after such a visit.
-/

namespace Perago

open Effect

/-! ## Markers as bytes -/

/-- What `json.loads` comes to. -/
inductive Loaded where
  | value (data : PyValue)
  | decodeError
  | raises (exc : PyException)

def unicodeDecodeError : PyException :=
  .mk' (.other "UnicodeDecodeError") "'utf-8' codec can't decode the marker"

/-- `json.loads(marker.read_text(encoding="utf-8"))`, for a given `json.loads` and for the
bytes of the marker, if they can be read. -/
def markerContent (loads : String → Loaded) : Option ByteArray → MarkerContent
  | none => .unreadable
  | some bytes => match String.fromUTF8? bytes with
    | none => .raises unicodeDecodeError
    | some s => match loads s with
      | .value data => .json data
      | .decodeError => .invalid
      | .raises exc => .raises exc

/-- A directory directly under the root, with its marker. -/
structure AttemptDirectory where
  name : Text
  marker : Option ByteArray

structure AttemptDirectories where
  dirs : List AttemptDirectory
  nodup : (dirs.map (·.name)).Nodup

section

variable (loads : String → Loaded) (fromisoformat : String → Option Timestamp)
variable (args : GcArguments) (rmtreeFails : List Text → Option PyException)

def AttemptDirectory.markerPath (d : AttemptDirectory) : MarkerPath :=
  ⟨[d.name], [], markerContent loads d.marker⟩

def AttemptDirectories.tree (all : AttemptDirectories) : MarkerTree where
  markers := all.dirs.map (·.markerPath loads)
  nodup := by
    have singletons := all.nodup.map (f := fun name => [name]) List.singleton_injective
    simpa [Function.comp_def, AttemptDirectory.markerPath] using singletons

/-- The owner is inactive, and the target if there is one; the attempt is old enough. -/
def AttemptDirectory.Collected (d : AttemptDirectory) : Prop :=
  (d.markerPath loads).Collected fromisoformat args

/-- Reading the marker raises. -/
def AttemptDirectory.Aborts (d : AttemptDirectory) : Prop :=
  (d.markerPath loads).Aborts fromisoformat

/-- The directory is to be removed, and its removal raises. -/
def AttemptDirectory.Stuck (d : AttemptDirectory) : Prop :=
  d.Collected loads fromisoformat args ∧ rmtreeFails [d.name] ≠ none

/-- What happens to each directory is due to its own marker and its own removal, and a
pass that raises has failed to remove something. -/
structure Isolated (all : AttemptDirectories)
    (call : Outcome PyException Unit × List (List Text)) : Prop where
  removed : ∀ d ∈ all.dirs, [d.name] ∈ call.2 ∧ rmtreeFails [d.name] = none ↔
    d.Collected loads fromisoformat args ∧ rmtreeFails [d.name] = none
  raises : ∀ exc, call.1 = .error exc →
    ∃ d ∈ all.dirs, [d.name] ∈ call.2 ∧ rmtreeFails [d.name] = some exc

/-- The pass comes to what it can remove before a removal fails, and to no marker that
ends it. -/
structure AttemptDirectories.Orderly (all : AttemptDirectories) : Prop where
  aborting : ∀ u ∈ all.dirs, u.Aborts loads fromisoformat →
    ∃ f ∈ all.dirs, f.Stuck loads fromisoformat args rmtreeFails ∧
      (f.markerPath loads).path < (u.markerPath loads).path
  removable : ∀ d ∈ all.dirs, d.Collected loads fromisoformat args → rmtreeFails [d.name] = none →
    ∀ f ∈ all.dirs, f.Stuck loads fromisoformat args rmtreeFails →
      (d.markerPath loads).path < (f.markerPath loads).path

end

/-! ## The visit that ends a pass -/

section

variable (fromisoformat : String → Option Timestamp) (args : GcArguments)
variable (rmtreeFails : List Text → Option PyException)

/-- No visit of `before` has raised. -/
structure GcUndisturbed (before : List MarkerPath) (removed : List (List Text)) : Prop where
  quiet : ∀ g ∈ before, ¬ g.Aborts fromisoformat
  succeeds : ∀ g ∈ before, g.Collected fromisoformat args → rmtreeFails g.dir = none
  removed : ∀ dir, dir ∈ removed ↔ ∃ g ∈ before, g.dir = dir ∧ g.Collected fromisoformat args

/-- A pass over `markers` visits them all, or ends with the first visit that raises. -/
inductive PassEnds (markers : List MarkerPath) :
    Outcome PyException Unit × List (List Text) → Prop where
  | visited (removed : List (List Text)) :
      GcUndisturbed fromisoformat args rmtreeFails markers removed →
      PassEnds markers (.ok (), removed)
  | aborted (before : List MarkerPath) (x : MarkerPath) (rest : List MarkerPath)
      (removed : List (List Text)) (exc : PyException) :
      markers = before ++ x :: rest → GcUndisturbed fromisoformat args rmtreeFails before removed →
      x.Aborts fromisoformat → PassEnds markers (.error exc, removed)
  | failed (before : List MarkerPath) (x : MarkerPath) (rest : List MarkerPath)
      (removed : List (List Text)) (exc : PyException) :
      markers = before ++ x :: rest → GcUndisturbed fromisoformat args rmtreeFails before removed →
      x.Collected fromisoformat args → rmtreeFails x.dir = some exc →
      PassEnds markers (.error exc, removed ++ [x.dir])

end

variable {loads : String → Loaded} {fromisoformat : String → Option Timestamp}
variable {args : GcArguments} {rmtreeFails : List Text → Option PyException}
variable {all : AttemptDirectories} {removed : List (List Text)} {x g : MarkerPath}
variable {before rest markers : List MarkerPath} {d u f : AttemptDirectory}

theorem not_aborts_of_collected (h : x.Collected fromisoformat args) :
    ¬ x.Aborts fromisoformat := by
  obtain ⟨m, hm, -⟩ := h
  rintro ⟨exc, hexc⟩
  cases hm.symm.trans hexc

/-- A visit that removes the directory has removed it without an error. -/
theorem rmtree_of_ok
    (h : gcVisit fromisoformat args rmtreeFails x removed = (.ok (), removed ++ [x.dir])) :
    rmtreeFails x.dir = none := by
  cases hfails : rmtreeFails x.dir with
  | none => rfl
  | some exc =>
    simp only [gcVisit, hfails] at h
    generalize readGcMarker _ _ = read at h
    rcases read with _ | _ | m
    · simp at h
    · simp at h
    · cases hm : args.collects m <;> simp [hm] at h

theorem GcUndisturbed.nil : GcUndisturbed fromisoformat args rmtreeFails [] [] :=
  ⟨nofun, nofun, by simp⟩

theorem GcUndisturbed.passed (h : GcUndisturbed fromisoformat args rmtreeFails before removed)
    (kept : ¬ x.Collected fromisoformat args) (quiet : ¬ x.Aborts fromisoformat) :
    GcUndisturbed fromisoformat args rmtreeFails (before ++ [x]) removed where
  quiet := by
    have := h.quiet
    grind
  succeeds := by
    have := h.succeeds
    grind
  removed := by
    have := h.removed
    grind

theorem GcUndisturbed.collected (h : GcUndisturbed fromisoformat args rmtreeFails before removed)
    (collected : x.Collected fromisoformat args) (succeeds : rmtreeFails x.dir = none) :
    GcUndisturbed fromisoformat args rmtreeFails (before ++ [x]) (removed ++ [x.dir]) where
  quiet := by
    have := h.quiet
    have := not_aborts_of_collected collected
    grind
  succeeds := by
    have := h.succeeds
    grind
  removed := by
    have := h.removed
    grind

/-- The marker of another attempt directory is still there. -/
theorem GcUndisturbed.there (h : GcUndisturbed fromisoformat args rmtreeFails before removed)
    (flat : ∀ g ∈ x :: before, ∃ name, g.dir = [name] ∧ g.links = [])
    (apart : ∀ g ∈ before, g.dir ≠ x.dir) : x.gone removed = false := by
  rw [Bool.eq_false_iff]
  intro gone
  obtain ⟨name, hname, links⟩ := flat x List.mem_cons_self
  obtain ⟨dir, hdir, above | ⟨link, hlink, -⟩⟩ := gone_iff.mp gone
  · obtain ⟨g, hg, rfl, -⟩ := (h.removed dir).mp hdir
    obtain ⟨name', hname', -⟩ := flat g (List.mem_cons_of_mem _ hg)
    exact apart g hg (above.eq_of_length (by simp [hname, hname']))
  · simp [links] at hlink

/-- Attempt directories do not contain one another, so only a visit that raises matters
to the later ones. -/
theorem passEnds (flat : ∀ g ∈ markers, ∃ name, g.dir = [name] ∧ g.links = [])
    (apart : markers.Pairwise fun x y => x.dir ≠ y.dir) (split : markers = before ++ rest)
    (h : GcUndisturbed fromisoformat args rmtreeFails before removed) :
    PassEnds fromisoformat args rmtreeFails markers
      (Proc.each (gcVisit fromisoformat args rmtreeFails) rest removed) := by
  induction rest generalizing before removed with
  | nil => exact .visited removed (by simpa [split] using h)
  | cons x rest ih =>
    have split' : markers = (before ++ [x]) ++ rest := by simp [split]
    have there : x.gone removed = false := by
      refine h.there (fun g hg => flat g ?_) fun g hg => ?_
      · rw [split, List.mem_append, List.mem_cons]
        grind
      · rw [split, List.pairwise_append] at apart
        exact apart.2.2 g hg x List.mem_cons_self
    have visited : Visited fromisoformat args rmtreeFails x removed _ := gcVisit_visited
    generalize hv : gcVisit fromisoformat args rmtreeFails x removed = visit at visited
    cases visited with
    | passed hx =>
      obtain gone | ⟨kept, quiet⟩ := hx
      · simp [there] at gone
      · rw [Proc.each, Proc.bind_of_ok hv]
        exact ih split' (h.passed kept quiet)
    | ended exc _ aborts =>
      rw [Proc.each, Proc.bind_of_error hv]
      exact .aborted before x rest removed exc split h aborts
    | collected _ collected =>
      rw [Proc.each, Proc.bind_of_ok hv]
      exact ih split' (h.collected collected (rmtree_of_ok hv))
    | failed exc _ collected fails =>
      rw [Proc.each, Proc.bind_of_error hv]
      exact .failed before x rest removed exc split h collected fails

/-! ## Attempt directories -/

theorem mem_sorted : x ∈ (all.tree loads).sorted ↔ ∃ d ∈ all.dirs, d.markerPath loads = x := by
  rw [(sorted_perm _).mem_iff]
  exact List.mem_map

theorem mem_markers (hd : d ∈ all.dirs) : d.markerPath loads ∈ (all.tree loads).markers :=
  List.mem_map_of_mem hd

/-- The run of a pass over attempt directories. -/
theorem AttemptDirectories.ends (all : AttemptDirectories) :
    PassEnds fromisoformat args rmtreeFails (all.tree loads).sorted
      (garbageCollectAttemptWorkspaces fromisoformat args rmtreeFails (all.tree loads) []) := by
  refine passEnds ?_ ?_ rfl .nil
  · intro g hg
    obtain ⟨d, -, rfl⟩ := mem_sorted.mp hg
    exact ⟨d.name, rfl, rfl⟩
  · refine (sorted_pairwise _).imp fun {x y} hlt heq => ?_
    simp [MarkerPath.path, heq] at hlt

theorem AttemptDirectories.eq_of_name {d e : AttemptDirectory} (hd : d ∈ all.dirs)
    (he : e ∈ all.dirs) (h : d.name = e.name) : d = e :=
  List.inj_on_of_nodup_map all.nodup hd he h

/-- What an undisturbed run has removed. -/
theorem GcUndisturbed.mem_removed_iff
    (h : GcUndisturbed fromisoformat args rmtreeFails before removed)
    (split : (all.tree loads).sorted = before ++ rest) (hd : d ∈ all.dirs) :
    [d.name] ∈ removed ↔ d.markerPath loads ∈ before ∧ d.Collected loads fromisoformat args := by
  rw [h.removed]
  constructor
  · rintro ⟨g, hg, hdir, collected⟩
    have mem : g ∈ (all.tree loads).sorted := split ▸ List.mem_append_left _ hg
    obtain ⟨e, he, rfl⟩ := mem_sorted.mp mem
    obtain rfl : e = d := all.eq_of_name he hd (List.singleton_injective hdir)
    exact ⟨hg, collected⟩
  · rintro ⟨hg, collected⟩
    exact ⟨d.markerPath loads, hg, rfl, collected⟩

/-- What is neither before the last visited marker nor the marker itself comes later. -/
theorem path_lt_of_not_mem (split : (all.tree loads).sorted = before ++ f.markerPath loads :: rest)
    (hu : u ∈ all.dirs) (hnot : u.markerPath loads ∉ before)
    (hne : u.markerPath loads ≠ f.markerPath loads) :
    (f.markerPath loads).path < (u.markerPath loads).path := by
  have ordered := sorted_pairwise (all.tree loads)
  have mem : u.markerPath loads ∈ (all.tree loads).sorted := mem_sorted.mpr ⟨u, hu, rfl⟩
  rw [split, List.pairwise_append, List.pairwise_cons] at ordered
  rw [split, List.mem_append, List.mem_cons] at mem
  exact ordered.2.1.1 _ ((mem.resolve_left hnot).resolve_left hne)

/-- A directory that cannot be removed has not been passed without an exception. -/
theorem GcUndisturbed.not_stuck (h : GcUndisturbed fromisoformat args rmtreeFails before removed)
    (hf : f.Stuck loads fromisoformat args rmtreeFails) : f.markerPath loads ∉ before :=
  fun hmem => hf.2 (h.succeeds _ hmem hf.1)

theorem GcUndisturbed.not_raised (h : GcUndisturbed fromisoformat args rmtreeFails before removed)
    (split : (all.tree loads).sorted = before ++ rest) (hd : d ∈ all.dirs)
    (hmem : [d.name] ∈ removed) : rmtreeFails [d.name] = none := by
  obtain ⟨hbefore, collected⟩ := (h.mem_removed_iff split hd).mp hmem
  exact h.succeeds _ hbefore collected

theorem stuck_of_fails {exc : PyException} (collected : f.Collected loads fromisoformat args)
    (hfails : rmtreeFails [f.name] = some exc) : f.Stuck loads fromisoformat args rmtreeFails := by
  refine ⟨collected, fun succeeds => ?_⟩
  cases succeeds.symm.trans hfails

/-! ## When workspaces are independent of one another -/

theorem orderly_of_isolated (h : Isolated loads fromisoformat args rmtreeFails all
      (garbageCollectAttemptWorkspaces fromisoformat args rmtreeFails (all.tree loads) [])) :
    all.Orderly loads fromisoformat args rmtreeFails := by
  have ends : PassEnds fromisoformat args rmtreeFails (all.tree loads).sorted _ := all.ends
  generalize garbageCollectAttemptWorkspaces fromisoformat args rmtreeFails (all.tree loads) [] =
    call at h ends
  cases ends with
  | visited removed undisturbed =>
    refine ⟨fun u hu aborts => ?_, fun d hd collected _ f hf stuck => ?_⟩
    · exact absurd aborts (undisturbed.quiet _ (mem_sorted.mpr ⟨u, hu, rfl⟩))
    · exact absurd (mem_sorted.mpr ⟨f, hf, rfl⟩) (undisturbed.not_stuck stuck)
  | aborted before x rest removed exc split undisturbed aborts =>
    -- the exception is not a failed removal
    obtain ⟨d, hd, hmem, hfails⟩ := h.raises exc rfl
    simp [undisturbed.not_raised split hd hmem] at hfails
  | failed before x rest removed exc split undisturbed collected hfails =>
    obtain ⟨f, hf, rfl⟩ := mem_sorted.mp (split ▸ by simp : x ∈ (all.tree loads).sorted)
    have stuck : f.Stuck loads fromisoformat args rmtreeFails := stuck_of_fails collected hfails
    refine ⟨fun u hu aborts => ⟨f, hf, stuck, ?_⟩, fun d hd dcollected succeeds e he estuck => ?_⟩
    · refine path_lt_of_not_mem split hu (fun hmem => undisturbed.quiet _ hmem aborts) ?_
      intro heq
      exact not_aborts_of_collected collected (heq ▸ aborts)
    · have hmem := ((h.removed d hd).mpr ⟨dcollected, succeeds⟩).1
      have hbefore : d.markerPath loads ∈ before := by
        rw [List.mem_append, List.mem_singleton] at hmem
        obtain hmem | hmem := hmem
        · exact ((undisturbed.mem_removed_iff split hd).mp hmem).1
        · have succeeds' : rmtreeFails (f.markerPath loads).dir = none := hmem ▸ succeeds
          simp [succeeds'] at hfails
      have hlt := (mem_before_iff split (mem_markers hd)).mp hbefore
      by_cases heq : e.markerPath loads = f.markerPath loads
      · rwa [heq]
      · exact hlt.trans (path_lt_of_not_mem split he (undisturbed.not_stuck estuck) heq)

theorem isolated_of_orderly (h : all.Orderly loads fromisoformat args rmtreeFails) :
    Isolated loads fromisoformat args rmtreeFails all
      (garbageCollectAttemptWorkspaces fromisoformat args rmtreeFails (all.tree loads) []) := by
  have ends : PassEnds fromisoformat args rmtreeFails (all.tree loads).sorted _ := all.ends
  generalize garbageCollectAttemptWorkspaces fromisoformat args rmtreeFails (all.tree loads) [] =
    call at ends
  cases ends with
  | visited removed undisturbed =>
    refine ⟨fun d hd => ?_, nofun⟩
    have split : (all.tree loads).sorted = (all.tree loads).sorted ++ [] := by simp
    rw [undisturbed.mem_removed_iff split hd]
    have mem : d.markerPath loads ∈ (all.tree loads).sorted := mem_sorted.mpr ⟨d, hd, rfl⟩
    simp [mem]
  | aborted before x rest removed exc split undisturbed aborts =>
    obtain ⟨u, hu, rfl⟩ := mem_sorted.mp (split ▸ by simp : x ∈ (all.tree loads).sorted)
    obtain ⟨f, hf, stuck, hlt⟩ := h.aborting u hu aborts
    exact absurd ((mem_before_iff split (mem_markers hf)).mpr hlt) (undisturbed.not_stuck stuck)
  | failed before x rest removed exc split undisturbed collected hfails =>
    obtain ⟨f, hf, rfl⟩ := mem_sorted.mp (split ▸ by simp : x ∈ (all.tree loads).sorted)
    have stuck : f.Stuck loads fromisoformat args rmtreeFails := stuck_of_fails collected hfails
    refine ⟨fun d hd => ⟨?_, ?_⟩, ?_⟩
    · rintro ⟨hmem, succeeds⟩
      rw [List.mem_append, List.mem_singleton] at hmem
      obtain hmem | hmem := hmem
      · exact ⟨((undisturbed.mem_removed_iff split hd).mp hmem).2, succeeds⟩
      · have succeeds' : rmtreeFails (f.markerPath loads).dir = none := hmem ▸ succeeds
        simp [succeeds'] at hfails
    · rintro ⟨dcollected, succeeds⟩
      have hlt := h.removable d hd dcollected succeeds f hf stuck
      have hbefore := (mem_before_iff split (mem_markers hd)).mpr hlt
      have hmem := (undisturbed.mem_removed_iff split hd).mpr ⟨hbefore, dcollected⟩
      exact ⟨List.mem_append_left _ hmem, succeeds⟩
    · rintro _ ⟨⟩
      exact ⟨f, hf, List.mem_append_right _ (List.mem_singleton.mpr rfl), hfails⟩

/-- In a pass, each attempt directory is removed by its own marker, age and removal only,
and no marker makes the pass raise, exactly when a failed removal comes before every
marker that would end it, and no removable directory comes after a failed removal. -/
theorem gc_isolation_iff (loads : String → Loaded) (fromisoformat : String → Option Timestamp)
    (args : GcArguments) (rmtreeFails : List Text → Option PyException)
    (all : AttemptDirectories) :
    Isolated loads fromisoformat args rmtreeFails all
      (garbageCollectAttemptWorkspaces fromisoformat args rmtreeFails (all.tree loads) []) ↔
    all.Orderly loads fromisoformat args rmtreeFails :=
  ⟨orderly_of_isolated, isolated_of_orderly⟩

/-! ## A marker that is not UTF-8 -/

def oldMarkerText : String :=
  "\x7b\"owner_worker_id\": \"worker0001\", \"owner_pid\": 7, \"owner_token\": \"gone\", " ++
    "\"execution_id\": \"e\", \"started_at\": \"1970-01-01T00:00:00+00:00\"\x7d"

def loadsOldMarker (s : String) : Loaded :=
  if s = oldMarkerText then
    .value <| .dict [(.str "owner_worker_id", .str "worker0001"), (.str "owner_pid", .int 7),
      (.str "owner_token", .str "gone"), (.str "execution_id", .str "e"),
      (.str "started_at", .str "1970-01-01T00:00:00+00:00")]
  else .decodeError

/-- One byte of the first marker has been overwritten; the second is as it was written. -/
def undecodable : AttemptDirectories where
  dirs := [⟨text "task_id=1-exec=e", some ⟨#[0xff]⟩⟩,
    ⟨text "task_id=2-exec=e", some oldMarkerText.toUTF8⟩]
  nodup := by decide

theorem fromUTF8?_toUTF8 (s : String) : String.fromUTF8? s.toUTF8 = some s := by
  have valid : s.toUTF8.IsValidUTF8 := s.isValidUTF8
  simp only [String.fromUTF8?, valid, dif_pos]
  rfl

/-- The start-up sweep raises, and leaves the second workspace, which it would collect. -/
theorem undecodable_marker_ends_sweep :
    let args := sweepArguments [] 3600000000
    let call := garbageCollectAttemptWorkspaces epoch args (fun _ => none)
      (undecodable.tree loadsOldMarker) []
    call = (.error unicodeDecodeError, []) ∧
      (∃ d ∈ undecodable.dirs, d.Collected loadsOldMarker epoch args) ∧
      ¬ Isolated loadsOldMarker epoch args (fun _ => none) undecodable call := by
  intro args call
  have run : call = (.error unicodeDecodeError, []) := rfl
  refine ⟨run, ?_, fun isolated => ?_⟩
  · refine ⟨_, List.mem_cons_of_mem _ List.mem_cons_self, ⟨"worker0001", 7, "gone", "e", 0⟩,
      ?_, rfl⟩
    simp only [AttemptDirectory.markerPath, markerContent, fromUTF8?_toUTF8]
    rfl
  · obtain ⟨d, -, -, hfails⟩ := isolated.raises unicodeDecodeError (congrArg Prod.fst run)
    cases hfails

end Perago
