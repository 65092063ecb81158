import Perago.Python

/-!
# Workspace paths

The three canonicalisers of object paths: the prefix validator of `WorkspaceSpec`,
the encoder of local paths and the decoder of object paths. They agree on lists of
path names: a text is accepted exactly when it joins names that are neither empty
nor dots, and the two text canonicalisers reject backslashes and drive prefixes on
top of that.
-/

namespace Perago

/-! ## Names and separators -/

def slash : CodePoint := 0x2F
def backslash : CodePoint := 0x5C
def colon : CodePoint := 0x3A

def joinSlash (parts : List Text) : Text := [slash].intercalate parts

/-- `part in {"", ".", ".."}`. -/
def dotName (part : Text) : Bool := part == [] || part == text "." || part == text ".."

/-- `_WINDOWS_DRIVE_PREFIX_RE`, the pattern `^[A-Za-z]:`. -/
def windowsDrivePrefix : Text → Bool
  | letter :: second :: _ =>
    ((0x41 ≤ letter && letter ≤ 0x5A) || (0x61 ≤ letter && letter ≤ 0x7A)) && second == colon
  | _ => false

/-! ## Canonical paths -/

/-- A path as `_path_parts` takes it: by the classes it tells apart. -/
inductive PathValue where
  | windows (qualified : Bool) (parts : List Text)
  | posix (absolute : Bool) (parts : List Text)
  | text (t : Text)

def definitionError (message : String) : PyException := .mk' .taskDefinitionError message

/-- `_path_parts`. -/
def pathParts : PathValue → Except PyException (List Text)
  | .windows qualified parts =>
    if qualified then
      .error (definitionError "drive-qualified or absolute guardrail paths are not allowed")
    else .ok parts
  | .posix absolute parts =>
    if absolute then .error (definitionError "absolute guardrail paths are not allowed")
    else .ok parts
  | .text t =>
    if backslash ∈ t then
      .error (definitionError "string guardrail paths must use '/' separators")
    else if t.head? = some slash then
      .error (definitionError "guardrail paths must be relative to WorkspaceSpec(prefix=...)")
    else if windowsDrivePrefix t then
      .error (definitionError "drive-qualified guardrail paths are not allowed")
    else .ok (t.splitOn slash)

/-- `_canonical_workspace_path`. -/
def canonicalWorkspacePath (value : PathValue) : Except PyException Text :=
  match pathParts value with
  | .error e => .error e
  | .ok parts =>
    if parts = [] then .error (definitionError "workspace guardrail paths must not be empty")
    else if parts.any dotName then .error (definitionError
      "workspace guardrail paths must be relative and must not contain '..'")
    else .ok (joinSlash parts)

/-! ## The prefix of a workspace -/

/-- `WorkspaceSpec.validate_prefix`. -/
def validatePrefix (value : Text) : Except PyException Text :=
  if backslash ∈ value then
    .error (definitionError "WorkspaceSpec.prefix must use '/' separators")
  else
    let stripped := strip value
    if stripped = [slash] then .ok [slash]
    else
      let normalized := stripped.dropWhile (· == slash)
      if normalized = [] then .error (definitionError "WorkspaceSpec.prefix must not be empty")
      else
        let parts := normalized.splitOn slash
        if parts.any dotName then
          .error (definitionError "WorkspaceSpec.prefix must stay inside the repository")
        else .ok (joinSlash parts)

/-- A prefix that the validator returned. -/
def WorkspacePrefix := { t : Text // ∃ value, validatePrefix value = .ok t }

/-- `workspace_object_prefix`. -/
def workspaceObjectPrefix (p : WorkspacePrefix) : Text :=
  if p.val = [slash] then [] else p.val

/-- `workspace_object_path`. -/
def workspaceObjectPath (p : WorkspacePrefix) (workspacePath : PathValue) :
    Except PyException Text :=
  match canonicalWorkspacePath workspacePath with
  | .error e => .error e
  | .ok localPath =>
    if workspaceObjectPrefix p = [] then .ok localPath
    else .ok (workspaceObjectPrefix p ++ slash :: localPath)

/-- `Path(t).parts` of a relative path. -/
def posixParts (t : Text) : List Text :=
  (t.splitOn slash).filter fun part => part ≠ [] ∧ part ≠ text "."

/-- `.name` of a path. -/
def pathName (parts : List Text) : Text := parts.getLast?.getD []

/-- `ATTEMPT_WORKSPACE_MARKER`. -/
def attemptWorkspaceMarker : Text := text ".perago-attempt.json"

/-- A `PurePosixPath`: the number of slashes of its root, and its parts below the root. -/
structure PosixPath where
  root : Nat
  parts : List Text
  deriving DecidableEq

/-- `//a` has a root of its own, `///a` has that of `/a`. -/
def posixRoot : Text → Nat
  | a :: b :: c :: _ => if a ≠ slash then 0 else if b = slash ∧ c ≠ slash then 2 else 1
  | [a, b] => if a ≠ slash then 0 else if b = slash then 2 else 1
  | [a] => if a ≠ slash then 0 else 1
  | [] => 0

/-- `Path(t)`. -/
def PosixPath.ofText (t : Text) : PosixPath := ⟨posixRoot t, posixParts t⟩

def PosixPath.name (path : PosixPath) : Text := pathName path.parts

/-- `left / right`. -/
def PosixPath.join (left right : PosixPath) : PosixPath :=
  if right.root = 0 then ⟨left.root, left.parts ++ right.parts⟩ else right

/-- The end of `workspace_local_path`: the marker is invisible. -/
def visibleLocalPath (remotePath : Text) : Option PosixPath :=
  let localPath := PosixPath.ofText remotePath
  if localPath.name = attemptWorkspaceMarker then none else some localPath

/-- `workspace_local_path`. -/
def workspaceLocalPath (p : WorkspacePrefix) (objectPath : Text) :
    Except PyException (Option PosixPath) :=
  match canonicalWorkspacePath (.text objectPath) with
  | .error e => .error e
  | .ok remotePath =>
    if workspaceObjectPrefix p = [] then .ok (visibleLocalPath remotePath)
    else
      let withSeparator := workspaceObjectPrefix p ++ [slash]
      if withSeparator.isPrefixOf remotePath then
        -- the suffix is validated again: it may start with a drive
        match canonicalWorkspacePath (.text (remotePath.drop withSeparator.length)) with
        | .error e => .error e
        | .ok visible => .ok (visibleLocalPath visible)
      else .ok none

/-! ## Local paths by their parts -/

/-- The parts of the path that an object is shown at. -/
def visibleLocalParts (remotePath : Text) : Option (List Text) :=
  (visibleLocalPath remotePath).map PosixPath.parts

/-- What `workspace_local_path` returns, by the parts of the path. -/
def workspaceLocalParts (p : WorkspacePrefix) (objectPath : Text) :
    Except PyException (Option (List Text)) :=
  (workspaceLocalPath p objectPath).map (Option.map PosixPath.parts)

theorem visibleLocalParts_eq (remotePath : Text) :
    visibleLocalParts remotePath =
      if pathName (posixParts remotePath) = attemptWorkspaceMarker then none
      else some (posixParts remotePath) := by
  simp only [visibleLocalParts, visibleLocalPath, PosixPath.name, PosixPath.ofText]
  by_cases marker : pathName (posixParts remotePath) = attemptWorkspaceMarker <;> simp [marker]

theorem workspaceLocalParts_eq (p : WorkspacePrefix) (objectPath : Text) :
    workspaceLocalParts p objectPath =
      match canonicalWorkspacePath (.text objectPath) with
      | .error e => .error e
      | .ok remotePath =>
        if workspaceObjectPrefix p = [] then .ok (visibleLocalParts remotePath)
        else
          let withSeparator := workspaceObjectPrefix p ++ [slash]
          if withSeparator.isPrefixOf remotePath then
            match canonicalWorkspacePath (.text (remotePath.drop withSeparator.length)) with
            | .error e => .error e
            | .ok visible => .ok (visibleLocalParts visible)
          else .ok none := by
  rw [workspaceLocalParts, workspaceLocalPath]
  cases canonicalWorkspacePath (.text objectPath) with
  | error e => rfl
  | ok remotePath =>
    simp only
    split
    · rfl
    · split
      · cases canonicalWorkspacePath
            (.text (remotePath.drop (workspaceObjectPrefix p ++ [slash]).length)) <;> rfl
      · rfl

/-! ## Joined names -/

/-- What every canonicaliser asks of a path name. -/
structure PlainName (name : Text) : Prop where
  separator : slash ∉ name
  dots : dotName name = false

theorem PlainName.ne_nil {name : Text} (h : PlainName name) : name ≠ [] := by
  rintro rfl
  exact absurd h.dots (by decide)

variable {parts names : List Text} {name t : Text} {p : WorkspacePrefix}

theorem splitOn_joinSlash (hne : parts ≠ []) (plain : ∀ name ∈ parts, PlainName name) :
    (joinSlash parts).splitOn slash = parts :=
  List.splitOn_intercalate slash (fun name hn => (plain name hn).separator) hne

theorem joinSlash_cons (hne : parts ≠ []) :
    joinSlash (name :: parts) = name ++ slash :: joinSlash parts := by
  simp [joinSlash, List.intercalate_cons_of_ne_nil hne]

theorem joinSlash_append (hne : parts ≠ []) (hne' : names ≠ []) :
    joinSlash (parts ++ names) = joinSlash parts ++ slash :: joinSlash names := by
  induction parts with
  | nil => exact absurd rfl hne
  | cons name rest ih =>
    by_cases hr : rest = []
    · subst hr
      simpa [joinSlash] using joinSlash_cons hne'
    · rw [List.cons_append, joinSlash_cons (by simp [hr]), joinSlash_cons hr, ih hr]
      simp

theorem mem_joinSlash {c : CodePoint} (hc : c ≠ slash) :
    c ∈ joinSlash parts ↔ ∃ name ∈ parts, c ∈ name := by
  induction parts with
  | nil => simp [joinSlash]
  | cons name rest ih =>
    by_cases hr : rest = []
    · subst hr
      simp [joinSlash]
    · simp [joinSlash_cons hr, ih, hc]

/-- A drive prefix ends before the first separator. -/
theorem windowsDrivePrefix_append (a b : Text) :
    windowsDrivePrefix (a ++ slash :: b) = windowsDrivePrefix a := by
  match a with
  | [] => cases b <;> simp [windowsDrivePrefix, slash]
  | [x] => simp [windowsDrivePrefix, slash, colon]
  | x :: y :: rest => simp [windowsDrivePrefix]

theorem windowsDrivePrefix_joinSlash :
    windowsDrivePrefix (joinSlash parts) = windowsDrivePrefix (parts.headD []) := by
  cases parts with
  | nil => rfl
  | cons name rest =>
    by_cases hr : rest = []
    · subst hr
      simp [joinSlash]
    · rw [joinSlash_cons hr, windowsDrivePrefix_append]
      rfl

theorem any_dotName (plain : ∀ name ∈ parts, PlainName name) : parts.any dotName = false := by
  rw [List.any_eq_false]
  intro name hn
  simp [(plain name hn).dots]

theorem joinSlash_head (plain : ∀ name ∈ parts, PlainName name) :
    (joinSlash parts).head? ≠ some slash := by
  cases parts with
  | nil => simp [joinSlash]
  | cons name rest =>
    have hname := plain name List.mem_cons_self
    cases name with
    | nil => exact absurd rfl hname.ne_nil
    | cons c name =>
      have hc : c ≠ slash := fun hc => hname.separator (hc ▸ List.mem_cons_self)
      by_cases hr : rest = []
      · subst hr
        simpa [joinSlash] using hc
      · simpa [joinSlash_cons hr] using hc

theorem canonicalWorkspacePath_posix (hne : parts ≠ [])
    (plain : ∀ name ∈ parts, PlainName name) :
    canonicalWorkspacePath (.posix false parts) = .ok (joinSlash parts) := by
  simp [canonicalWorkspacePath, pathParts, hne, any_dotName plain]

/-- The text canonicaliser gives joined names back, short of its own two rejections. -/
theorem canonicalWorkspacePath_text (hne : parts ≠ [])
    (plain : ∀ name ∈ parts, PlainName name) (hb : ∀ name ∈ parts, backslash ∉ name)
    (hd : windowsDrivePrefix (parts.headD []) = false) :
    canonicalWorkspacePath (.text (joinSlash parts)) = .ok (joinSlash parts) := by
  have noBackslash : backslash ∉ joinSlash parts := by
    rw [mem_joinSlash (by decide)]
    rintro ⟨name, hn, hmem⟩
    exact hb name hn hmem
  have split : pathParts (.text (joinSlash parts)) = .ok parts := by
    simp only [pathParts]
    rw [if_neg noBackslash, if_neg (joinSlash_head plain), windowsDrivePrefix_joinSlash, hd,
      if_neg Bool.false_ne_true, splitOn_joinSlash hne plain]
  simp only [canonicalWorkspacePath, split, if_neg hne, any_dotName plain,
    if_neg Bool.false_ne_true]

theorem canonicalWorkspacePath_error {value : PathValue} (h : ∃ e, pathParts value = .error e) :
    ∃ e, canonicalWorkspacePath value = .error e := by
  obtain ⟨e, he⟩ := h
  exact ⟨e, by simp only [canonicalWorkspacePath, he]⟩

theorem canonicalWorkspacePath_backslash (h : backslash ∈ t) :
    ∃ e, canonicalWorkspacePath (.text t) = .error e := by
  refine canonicalWorkspacePath_error ?_
  simp only [pathParts, h, if_true]
  exact ⟨_, rfl⟩

theorem canonicalWorkspacePath_drive (h : windowsDrivePrefix t = true) :
    ∃ e, canonicalWorkspacePath (.text t) = .error e := by
  refine canonicalWorkspacePath_error ?_
  simp only [pathParts, h, if_true]
  split
  · exact ⟨_, rfl⟩
  · split <;> exact ⟨_, rfl⟩

theorem posixParts_joinSlash (hne : parts ≠ []) (plain : ∀ name ∈ parts, PlainName name) :
    posixParts (joinSlash parts) = parts := by
  rw [posixParts, splitOn_joinSlash hne plain, List.filter_eq_self]
  intro name hn
  have dots := (plain name hn).dots
  simp only [dotName, Bool.or_eq_false_iff, beq_eq_false_iff_ne] at dots
  simpa using dots.1

theorem not_slash_of_mem_splitOn {x : Text} (h : name ∈ x.splitOn slash) : slash ∉ name := by
  induction x generalizing name with
  | nil => simp_all
  | cons c rest ih =>
    rw [List.splitOn_cons_eq_if_modifyHead] at h
    split at h
    · obtain rfl | h := List.mem_cons.mp h
      · simp
      · exact ih h
    · rename_i hc
      cases hs : rest.splitOn slash with
      | nil => simp [hs] at h
      | cons first others =>
        rw [hs, List.modifyHead_cons] at h
        obtain rfl | h := List.mem_cons.mp h
        · rw [List.mem_cons, not_or]
          exact ⟨fun heq => hc (by simp [heq]), ih (hs ▸ List.mem_cons_self)⟩
        · exact ih (hs ▸ List.mem_cons_of_mem _ h)

/-- A prefix other than the root joins plain names without backslashes. -/
theorem WorkspacePrefix.cases (p : WorkspacePrefix) :
    p.val = [slash] ∨ ∃ names, names ≠ [] ∧ p.val = joinSlash names ∧
      (∀ name ∈ names, PlainName name) ∧ ∀ name ∈ names, backslash ∉ name := by
  obtain ⟨t, value, hv⟩ := p
  unfold validatePrefix at hv
  split at hv
  · cases hv
  rename_i hb
  dsimp only at hv
  split at hv
  · exact .inl (Except.ok.inj hv).symm
  split at hv
  · cases hv
  rename_i hn
  split at hv
  · cases hv
  rename_i hdots
  right
  set normalized := (strip value).dropWhile (· == slash)
  have join := (Except.ok.inj hv).symm
  refine ⟨normalized.splitOn slash, List.splitOn_ne_nil slash _, join, ?_, ?_⟩
  · intro name hname
    refine ⟨not_slash_of_mem_splitOn hname, ?_⟩
    by_contra hd
    exact hdots (List.any_eq_true.mpr ⟨name, hname, by simpa using hd⟩)
  · intro name hname hmem
    have : backslash ∈ joinSlash (normalized.splitOn slash) :=
      (mem_joinSlash (by decide)).mpr ⟨name, hname, hmem⟩
    rw [joinSlash, List.intercalate_splitOn] at this
    exact hb (mem_of_mem_strip ((List.dropWhile_sublist _).subset this))

/-! ## Encoding and decoding -/

/-- A local path the decoder gives back: no backslash in it, and no drive prefix at
the start of it or of the workspace prefix. -/
def Portable (p : WorkspacePrefix) (parts : List Text) : Prop :=
  (∀ name ∈ parts, backslash ∉ name) ∧ windowsDrivePrefix (parts.headD []) = false ∧
    windowsDrivePrefix p.val = false

/-- The object path of a local path with plain names. -/
def encode (p : WorkspacePrefix) (parts : List Text) : Text :=
  if workspaceObjectPrefix p = [] then joinSlash parts
  else workspaceObjectPrefix p ++ slash :: joinSlash parts

theorem workspaceObjectPath_posix (hne : parts ≠ []) (plain : ∀ name ∈ parts, PlainName name) :
    workspaceObjectPath p (.posix false parts) = .ok (encode p parts) := by
  rw [workspaceObjectPath, canonicalWorkspacePath_posix hne plain, encode]
  dsimp only
  split <;> rfl

theorem visibleLocalParts_joinSlash (hne : parts ≠ []) (plain : ∀ name ∈ parts, PlainName name)
    (hm : pathName parts ≠ attemptWorkspaceMarker) :
    visibleLocalParts (joinSlash parts) = some parts := by
  rw [visibleLocalParts_eq, posixParts_joinSlash hne plain, if_neg hm]

/-- Decoding starts by taking the prefix off again. -/
theorem encode_split (parts : List Text) (root : workspaceObjectPrefix p ≠ []) :
    (workspaceObjectPrefix p ++ [slash]).isPrefixOf (encode p parts) = true ∧
      (encode p parts).drop (workspaceObjectPrefix p ++ [slash]).length = joinSlash parts := by
  have split : encode p parts = (workspaceObjectPrefix p ++ [slash]) ++ joinSlash parts := by
    rw [encode, if_neg root]
    simp
  rw [split]
  exact ⟨List.isPrefixOf_iff_prefix.mpr (List.prefix_append _ _), List.drop_left⟩

theorem canonicalWorkspacePath_text_eq {r : Text}
    (h : canonicalWorkspacePath (.text t) = .ok r) : r = t := by
  unfold canonicalWorkspacePath at h
  split at h
  · cases h
  · rename_i parts hparts
    split at h
    · cases h
    · split at h
      · cases h
      · have split : parts = t.splitOn slash := by
          simp only [pathParts] at hparts
          split at hparts
          · cases hparts
          · split at hparts
            · cases hparts
            · split at hparts <;> cases hparts
              rfl
        rw [← Except.ok.inj h, split, joinSlash, List.intercalate_splitOn]

/-- What the encoder made of a portable path, the decoder takes back. -/
theorem workspaceLocalParts_encode (hne : parts ≠ []) (plain : ∀ name ∈ parts, PlainName name)
    (hm : pathName parts ≠ attemptWorkspaceMarker) (h : Portable p parts) :
    workspaceLocalParts p (encode p parts) = .ok (some parts) := by
  obtain ⟨hb, hd, hp⟩ := h
  have visible := visibleLocalParts_joinSlash hne plain hm
  have canonical := canonicalWorkspacePath_text hne plain hb hd
  obtain root | ⟨names, hne', hnames, plain', hb'⟩ := p.cases
  · have none : workspaceObjectPrefix p = [] := by simp [workspaceObjectPrefix, root]
    simp [workspaceLocalParts_eq, encode, none, canonical, visible]
  · have some : workspaceObjectPrefix p = joinSlash names := by
      rw [workspaceObjectPrefix, if_neg, hnames]
      rw [hnames]
      intro heq
      exact joinSlash_head plain' (by rw [heq]; rfl)
    have nonempty : joinSlash names ≠ [] := by
      intro heq
      have := splitOn_joinSlash hne' plain'
      rw [heq, List.splitOn_nil] at this
      exact (plain' [] (this ▸ List.mem_singleton_self _)).ne_nil rfl
    have whole : canonicalWorkspacePath (.text (joinSlash (names ++ parts))) =
        .ok (joinSlash (names ++ parts)) := by
      refine canonicalWorkspacePath_text (by simp [hne]) ?_ ?_ ?_
      · exact fun name hn => (List.mem_append.mp hn).elim (plain' name) (plain name)
      · exact fun name hn => (List.mem_append.mp hn).elim (hb' name) (hb name)
      · rw [hnames, windowsDrivePrefix_joinSlash] at hp
        cases names with
        | nil => exact absurd rfl hne'
        | cons first others => exact hp
    rw [joinSlash_append hne' hne] at whole
    have root : workspaceObjectPrefix p ≠ [] := some ▸ nonempty
    have encoded : encode p parts = joinSlash names ++ slash :: joinSlash parts := by
      rw [encode, if_neg root, some]
    obtain ⟨found, rest⟩ := encode_split parts root
    simp only [workspaceLocalParts_eq, if_neg root, found, if_true, rest, encoded ▸ whole,
      canonical, visible]

/-- A path that is not portable is encoded, and its object path is rejected. -/
theorem workspaceLocalParts_error (h : ¬ Portable p parts) :
    ∃ e, workspaceLocalParts p (encode p parts) = .error e := by
  have rejected : (∃ e, canonicalWorkspacePath (.text (encode p parts)) = .error e) →
      ∃ e, workspaceLocalParts p (encode p parts) = .error e := by
    rintro ⟨e, he⟩
    exact ⟨e, by simp only [workspaceLocalParts_eq, he]⟩
  by_cases hb : ∀ name ∈ parts, backslash ∉ name
  · by_cases hp : windowsDrivePrefix p.val = true
    · -- the prefix itself starts with a drive
      refine rejected (canonicalWorkspacePath_drive ?_)
      have root : p.val ≠ [slash] := by
        intro root
        simp [root, windowsDrivePrefix] at hp
      have some : workspaceObjectPrefix p = p.val := if_neg root
      rw [encode, some, if_neg, windowsDrivePrefix_append, hp]
      intro empty
      simp [empty, windowsDrivePrefix] at hp
    · have hd : windowsDrivePrefix (parts.headD []) = true := by
        by_contra hd
        exact h ⟨hb, by simpa using hd, by simpa using hp⟩
      rw [← windowsDrivePrefix_joinSlash] at hd
      -- the local path starts with a drive, before or after the prefix is removed
      by_cases root : workspaceObjectPrefix p = []
      · exact rejected (canonicalWorkspacePath_drive (by rw [encode, if_pos root]; exact hd))
      · cases hwhole : canonicalWorkspacePath (.text (encode p parts)) with
        | error e => exact rejected ⟨e, hwhole⟩
        | ok remote =>
          obtain rfl := canonicalWorkspacePath_text_eq hwhole
          obtain ⟨e, he⟩ := canonicalWorkspacePath_drive hd
          obtain ⟨found, rest⟩ := encode_split parts root
          exact ⟨e, by
            simp only [workspaceLocalParts_eq, hwhole, if_neg root, found, if_true, rest, he]⟩
  · simp only [not_forall, not_not] at hb
    obtain ⟨name, hn, hmem⟩ := hb
    refine rejected (canonicalWorkspacePath_backslash ?_)
    have hmem : backslash ∈ joinSlash parts := (mem_joinSlash (by decide)).mpr ⟨name, hn, hmem⟩
    rw [encode]
    split
    · exact hmem
    · exact List.mem_append_right _ (List.mem_cons_of_mem _ hmem)

/-! ## What the decoder shows -/

/-- The object lies under the prefix; everything lies under the root. -/
def Under (p : WorkspacePrefix) (objectPath : Text) : Prop :=
  workspaceObjectPrefix p = [] ∨ (workspaceObjectPrefix p ++ [slash]) <+: objectPath

instance : DecidablePred (Under p) := fun o => by unfold Under; infer_instance

/-- The last name of the object path is that of the attempt marker. -/
def MarkerNamed (objectPath : Text) : Prop :=
  pathName (objectPath.splitOn slash) = attemptWorkspaceMarker

instance : DecidablePred MarkerNamed := fun o => by unfold MarkerNamed; infer_instance

theorem canonicalWorkspacePath_text_parts {r : Text}
    (h : canonicalWorkspacePath (.text t) = .ok r) :
    r = t ∧ ∀ name ∈ t.splitOn slash, PlainName name := by
  obtain rfl := canonicalWorkspacePath_text_eq h
  refine ⟨rfl, fun name hn => ⟨not_slash_of_mem_splitOn hn, ?_⟩⟩
  have split : pathParts (.text r) = .ok (r.splitOn slash) := by
    simp only [canonicalWorkspacePath, pathParts] at h ⊢
    split
    · simp_all
    · split
      · simp_all
      · split
        · simp_all
        · rfl
  by_contra hd
  have dots : (r.splitOn slash).any dotName = true :=
    List.any_eq_true.mpr ⟨name, hn, by simpa using hd⟩
  simp [canonicalWorkspacePath, split, List.splitOn_ne_nil, dots] at h

theorem joinSlash_splitOn (t : Text) : joinSlash (t.splitOn slash) = t :=
  List.intercalate_splitOn slash

theorem pathName_append (hne : names ≠ []) : pathName (parts ++ names) = pathName names := by
  simp [pathName, List.getLast?_append, List.getLast?_eq_some_getLast hne]

theorem markerNamed_append (a b : Text) : MarkerNamed (a ++ slash :: b) ↔ MarkerNamed b := by
  rw [MarkerNamed, MarkerNamed, List.splitOn_append_cons_self,
    pathName_append (List.splitOn_ne_nil slash b)]

theorem markerNamed_joinSlash (hne : parts ≠ []) (plain : ∀ name ∈ parts, PlainName name) :
    MarkerNamed (joinSlash parts) ↔ pathName parts = attemptWorkspaceMarker := by
  rw [MarkerNamed, splitOn_joinSlash hne plain]

theorem encode_under (p : WorkspacePrefix) (parts : List Text) : Under p (encode p parts) := by
  by_cases root : workspaceObjectPrefix p = []
  · exact .inl root
  · refine .inr ?_
    rw [encode, if_neg root]
    exact ⟨joinSlash parts, by simp⟩

theorem markerNamed_encode (hne : parts ≠ []) (plain : ∀ name ∈ parts, PlainName name) :
    MarkerNamed (encode p parts) ↔ pathName parts = attemptWorkspaceMarker := by
  rw [encode]
  split
  · exact markerNamed_joinSlash hne plain
  · rw [markerNamed_append, markerNamed_joinSlash hne plain]

theorem encode_injective {parts' : List Text} (hne : parts ≠ []) (hne' : parts' ≠ [])
    (plain : ∀ name ∈ parts, PlainName name) (plain' : ∀ name ∈ parts', PlainName name)
    (h : encode p parts = encode p parts') : parts = parts' := by
  have joined : joinSlash parts = joinSlash parts' := by
    rw [encode, encode] at h
    split at h
    · exact h
    · exact (List.cons.inj (List.append_cancel_left h)).2
  rw [← splitOn_joinSlash hne plain, joined, splitOn_joinSlash hne' plain']

/-- The visible local path of an object that is joined from plain names. -/
theorem visibleLocalParts_splitOn (plain : ∀ name ∈ t.splitOn slash, PlainName name) :
    visibleLocalParts t = if MarkerNamed t then none else some (t.splitOn slash) := by
  have parts : posixParts t = t.splitOn slash := by
    have h := posixParts_joinSlash (List.splitOn_ne_nil slash t) plain
    rwa [joinSlash_splitOn] at h
  rw [visibleLocalParts_eq, parts]
  rfl

/-- What the decoder says of an object path that it does not reject. -/
inductive Decoded (p : WorkspacePrefix) (o : Text) : Option (List Text) → Prop
  | hidden (h : ¬ Under p o ∨ MarkerNamed o) : Decoded p o none
  | shown (local' : List Text) (encoded : o = encode p local') (nonempty : local' ≠ [])
      (plain : ∀ name ∈ local', PlainName name)
      (unmarked : pathName local' ≠ attemptWorkspaceMarker) : Decoded p o (some local')

theorem Decoded.visible {o t : Text} (plain : ∀ name ∈ t.splitOn slash, PlainName name)
    (named : MarkerNamed o ↔ MarkerNamed t) (encoded : o = encode p (t.splitOn slash)) :
    Decoded p o (visibleLocalParts t) := by
  rw [visibleLocalParts_splitOn plain]
  split
  · rename_i hm
    exact .hidden (.inr (named.mpr hm))
  · rename_i hm
    exact .shown _ encoded (List.splitOn_ne_nil slash t) plain hm

theorem workspaceLocalParts_ok {o : Text} {local' : Option (List Text)}
    (h : workspaceLocalParts p o = .ok local') : Decoded p o local' := by
  rw [workspaceLocalParts_eq] at h
  split at h
  · cases h
  rename_i remote hremote
  obtain ⟨rfl, plain⟩ := canonicalWorkspacePath_text_parts hremote
  split at h
  · rename_i root
    obtain rfl := Except.ok.inj h
    refine .visible plain .rfl ?_
    rw [encode, if_pos root, joinSlash_splitOn]
  rename_i root
  dsimp only at h
  split at h
  · rename_i found
    obtain ⟨rest, rfl⟩ := List.isPrefixOf_iff_prefix.mp found
    rw [List.drop_left] at h
    split at h
    · cases h
    rename_i suffix hsuffix
    obtain ⟨rfl, plain'⟩ := canonicalWorkspacePath_text_parts hsuffix
    obtain rfl := Except.ok.inj h
    refine .visible plain' ?_ ?_
    · rw [List.append_assoc]
      exact markerNamed_append _ _
    · rw [encode, if_neg root, joinSlash_splitOn]
      simp
  · rename_i found
    obtain rfl := Except.ok.inj h
    refine .hidden (.inl fun under => ?_)
    obtain empty | under := under
    · exact root empty
    · exact found (List.isPrefixOf_iff_prefix.mpr under)

/-- What the decoder accepts, it shows exactly when it is a visible object. -/
theorem Decoded.isSome {o : Text} {local' : Option (List Text)} (h : Decoded p o local') :
    local'.isSome ↔ Under p o ∧ ¬ MarkerNamed o := by
  cases h with
  | hidden h => simpa [imp_iff_not_or] using h
  | shown _ encoded nonempty plain unmarked =>
    subst encoded
    simp [encode_under, markerNamed_encode nonempty plain, unmarked]

end Perago
