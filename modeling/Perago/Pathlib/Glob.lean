import Perago.Python
import Mathlib.Data.List.Nodup

/-!
# `Path.glob`

The paths below a directory that a glob pattern matches. A pattern is a list of
components; `**` stands for any number of directories, every other component for one
name. What differs between the releases of `pathlib` is a parameter.
-/

namespace Perago.Pathlib

/-! ## Patterns of one component -/

def star : CodePoint := 0x2A
def questionMark : CodePoint := 0x3F
def openBracket : CodePoint := 0x5B
def closeBracket : CodePoint := 0x5D
def exclamation : CodePoint := 0x21
def hyphen : CodePoint := 0x2D

/-- The ranges of a character class. -/
def classRanges : Text → List (CodePoint × CodePoint)
  | lo :: second :: hi :: rest =>
    if second = hyphen then (lo, hi) :: classRanges rest
    else (lo, lo) :: classRanges (second :: hi :: rest)
  | c :: rest => (c, c) :: classRanges rest
  | [] => []

/-- What stands before the closing bracket of a class, and what follows it; a bracket
that opens the class body is a member of the class. -/
def splitClass : Text → Option (Text × Text)
  | [] => none
  | first :: rest => match rest.dropWhile (· ≠ closeBracket) with
    | [] => none
    | _ :: after => some (first :: rest.takeWhile (· ≠ closeBracket), after)

inductive Token where
  | anything
  | one
  | literal (c : CodePoint)
  | oneOf (negated : Bool) (ranges : List (CodePoint × CodePoint))

/-- The tokens of a component; `fuel` bounds their number. -/
def tokens : Nat → Text → List Token
  | fuel + 1, c :: rest =>
    if c = star then .anything :: tokens fuel rest
    else if c = questionMark then .one :: tokens fuel rest
    else if c = openBracket then
      let negated := rest.head? = some exclamation
      match splitClass (if negated then rest.tail else rest) with
      | none => .literal c :: tokens fuel rest
      | some (members, after) => .oneOf negated (classRanges members) :: tokens fuel after
    else .literal c :: tokens fuel rest
  | _, _ => []

def Token.accepts : Token → CodePoint → Bool
  | .anything, _ | .one, _ => true
  | .literal c, x => x == c
  | .oneOf negated ranges, x => negated != ranges.any fun r => r.1 ≤ x && x ≤ r.2

def matchTokens : List Token → Text → Bool
  | [], name => name.isEmpty
  | .anything :: ts, name => name.tails.any (matchTokens ts)
  | t :: ts, name => match name with
    | [] => false
    | c :: rest => t.accepts c && matchTokens ts rest

/-- `fnmatch.fnmatchcase`. -/
def fnmatch (pattern name : Text) : Bool := matchTokens (tokens pattern.length pattern) name

/-- The component is a pattern and no plain name. -/
def hasMagic (part : Text) : Bool :=
  part.any fun c => c == star || c == questionMark || c == openBracket

def recursive : Text := [star, star]

/-- The choices of a release of `pathlib`: how one name is matched, whether a last `**`
gives files too, whether a plain last name may be a symlink that leads nowhere, and
which components raise `ValueError`. -/
structure Rules where
  fnmatch : Text → Text → Bool
  recursiveFiles : Bool
  danglingNames : Bool
  malformed : Text → Bool

/-- Up to Python 3.12. -/
def before313 : Rules where
  fnmatch := Pathlib.fnmatch
  recursiveFiles := false
  danglingNames := false
  malformed part := part ≠ recursive && part.tails.any (recursive.isPrefixOf ·)

/-- From Python 3.13 on. -/
def since313 : Rules where
  fnmatch := Pathlib.fnmatch
  recursiveFiles := true
  danglingNames := true
  malformed _ := false

/-! ## Listings -/

/-- What `stat` says of a path; a dangling symlink leads nowhere. -/
inductive Kind where
  | file
  | directory
  | special
  | dangling
  deriving DecidableEq

/-- A path below a directory: whether its last name is a symlink, and where it leads. -/
structure Entry where
  parts : List Text
  kind : Kind
  linked : Bool
  real : List Text
  deriving DecidableEq

/-- The paths that exist below a directory, through symlinked directories too. -/
structure Listing where
  entries : List Entry
  nodup : (entries.map (·.parts)).Nodup

namespace Listing

def kindAt (L : Listing) (parts : List Text) : Option Kind :=
  (L.entries.find? (·.parts = parts)).map (·.kind)

/-- `is_dir()`. -/
def isDirectory (L : Listing) (parts : List Text) : Bool :=
  L.entries.any fun e => e.parts = parts ∧ e.kind = .directory

/-- `is_dir(follow_symlinks=False)`. -/
def isPlainDirectory (L : Listing) (parts : List Text) : Bool :=
  L.entries.any fun e => e.parts = parts ∧ e.kind = .directory ∧ e.linked = false

variable (rules : Rules)

def matchesName (part name : Text) : Bool :=
  if hasMagic part then rules.fnmatch part name else part == name

/-- `**` before what `next` matches; `files` if it is last and gives files too. -/
def descend (L : Listing) (files : Bool) (next : List Text → List Text → Bool) :
    List Text → List Text → Bool
  | base, [] => next base []
  | base, name :: rest => next base (name :: rest) ||
      (files && rest.isEmpty) ||
      (L.isPlainDirectory (base ++ [name]) && descend L files next (base ++ [name]) rest)

/-- The pattern leads from `base` to the path `rest` below it. -/
def leadsTo (L : Listing) : List Text → List Text → List Text → Bool
  | [], _, rest => rest.isEmpty
  | part :: pattern, base, rest =>
    if part = recursive then
      L.descend (rules.recursiveFiles && pattern.isEmpty) (L.leadsTo pattern) base rest
    else match rest with
      | [] => false
      | name :: rest => matchesName rules part name &&
          (pattern.isEmpty || L.isDirectory (base ++ [name])) &&
          L.leadsTo pattern (base ++ [name]) rest

/-- A plain last name has to exist. -/
def found (pattern : List Text) (e : Entry) : Bool :=
  e.kind ≠ .dangling || rules.danglingNames || hasMagic (pattern.getLast?.getD [])

/-- The entry is among the results of `glob`. -/
def globs (L : Listing) (pattern : List Text) (e : Entry) : Bool :=
  L.leadsTo rules pattern [] e.parts && found rules pattern e

/-- The number of results; the directory itself may be one of them. -/
def count (L : Listing) (pattern : List Text) : Nat :=
  (L.leadsTo rules pattern [] []).toNat + L.entries.countP (L.globs rules pattern)

/-- The file at `target` is unlinked: symlinks to it are left dangling. -/
def unlinkEntry (target : List Text) (e : Entry) : Option Entry :=
  if e.kind = .file ∧ e.real = target then
    if e.linked then some { e with kind := .dangling } else none
  else some e

theorem unlinkEntry_parts {target : List Text} {e e' : Entry}
    (h : unlinkEntry target e = some e') : e'.parts = e.parts := by
  unfold unlinkEntry at h
  grind

def unlink (L : Listing) (target : List Text) : Listing where
  entries := L.entries.filterMap (unlinkEntry target)
  nodup := by
    refine L.nodup.sublist ?_
    have kept : ∀ entries : List Entry, List.Sublist
        ((entries.filterMap (unlinkEntry target)).map (·.parts)) (entries.map (·.parts)) := by
      intro entries
      induction entries with
      | nil => simp
      | cons e entries ih =>
        cases he : unlinkEntry target e with
        | none => simpa [he] using ih.cons _
        | some e' => simpa [he, unlinkEntry_parts he] using ih
    exact kept _

variable {L : Listing} {target : List Text} {rules}

/-- A path has one entry. -/
theorem eq_of_parts_eq {e e' : Entry} (he : e ∈ L.entries) (he' : e' ∈ L.entries)
    (h : e.parts = e'.parts) : e = e' :=
  List.inj_on_of_nodup_map L.nodup he he' h

theorem kindAt_eq_some {parts : List Text} {kind : Kind} :
    L.kindAt parts = some kind ↔ ∃ e ∈ L.entries, e.parts = parts ∧ e.kind = kind := by
  rw [kindAt, Option.map_eq_some_iff]
  constructor
  · rintro ⟨e, he, rfl⟩
    exact ⟨e, List.mem_of_find?_eq_some he, by simpa using List.find?_some he, rfl⟩
  · rintro ⟨e, he, rfl, rfl⟩
    cases hf : L.entries.find? (·.parts = e.parts) with
    | none =>
      have absent := List.find?_eq_none.mp hf e he
      simp at absent
    | some d =>
      have same := eq_of_parts_eq (List.mem_of_find?_eq_some hf) he
        (by simpa using List.find?_some hf)
      exact ⟨d, rfl, by rw [same]⟩

theorem kindAt_unlink_directory {parts : List Text} :
    (L.unlink target).kindAt parts = some .directory ↔ L.kindAt parts = some .directory := by
  simp only [kindAt_eq_some, unlink, List.mem_filterMap]
  constructor
  · rintro ⟨d, ⟨e, he, hu⟩, rfl, hk⟩
    unfold unlinkEntry at hu
    grind
  · rintro ⟨e, he, rfl, hk⟩
    exact ⟨e, ⟨e, he, by simp [unlinkEntry, hk]⟩, rfl, hk⟩

theorem kindAt_unlink_file {parts : List Text} :
    (L.unlink target).kindAt parts = some .file ↔ L.kindAt parts = some .file ∧
      ¬ ∃ e ∈ L.entries, e.parts = parts ∧ e.kind = .file ∧ e.real = target := by
  simp only [kindAt_eq_some, unlink, List.mem_filterMap]
  constructor
  · rintro ⟨d, ⟨e, he, hu⟩, rfl, hk⟩
    obtain ⟨rfl, other⟩ : d = e ∧ ¬ (e.kind = .file ∧ e.real = target) := by
      unfold unlinkEntry at hu
      grind
    refine ⟨⟨d, he, rfl, hk⟩, ?_⟩
    rintro ⟨e', he', hparts, hk', hreal⟩
    obtain rfl := eq_of_parts_eq he' he hparts
    exact other ⟨hk', hreal⟩
  · rintro ⟨⟨e, he, rfl, hk⟩, other⟩
    refine ⟨e, ⟨e, he, ?_⟩, rfl, hk⟩
    rw [unlinkEntry, if_neg]
    exact fun h => other ⟨e, he, rfl, h⟩

/-- Unlinking a file leaves the directories. -/
theorem mem_unlink_directory {e : Entry} (he : e.kind = .directory) :
    e ∈ (L.unlink target).entries ↔ e ∈ L.entries := by
  simp only [unlink, List.mem_filterMap]
  constructor
  · rintro ⟨d, hd, hu⟩
    unfold unlinkEntry at hu
    grind
  · intro hmem
    exact ⟨e, hmem, by simp [unlinkEntry, he]⟩

@[simp] theorem isDirectory_unlink (parts : List Text) :
    (L.unlink target).isDirectory parts = L.isDirectory parts := by
  rw [Bool.eq_iff_iff]
  simp only [isDirectory, List.any_eq_true, decide_eq_true_eq]
  exact exists_congr fun e => and_congr_left fun he => mem_unlink_directory he.2

@[simp] theorem isPlainDirectory_unlink (parts : List Text) :
    (L.unlink target).isPlainDirectory parts = L.isPlainDirectory parts := by
  rw [Bool.eq_iff_iff]
  simp only [isPlainDirectory, List.any_eq_true, decide_eq_true_eq]
  exact exists_congr fun e => and_congr_left fun he => mem_unlink_directory he.2.1

theorem descend_unlink (files : Bool) (next : List Text → List Text → Bool)
    (base rest : List Text) :
    (L.unlink target).descend files next base rest = L.descend files next base rest := by
  induction rest generalizing base with
  | nil => rfl
  | cons name rest ih => simp only [descend, isPlainDirectory_unlink, ih]

theorem leadsTo_unlink (pattern base rest : List Text) :
    (L.unlink target).leadsTo rules pattern base rest = L.leadsTo rules pattern base rest := by
  induction pattern generalizing base rest with
  | nil => rfl
  | cons part pattern ih =>
    have next : (L.unlink target).leadsTo rules pattern = L.leadsTo rules pattern :=
      funext fun base => funext fun rest => ih base rest
    cases rest <;> simp only [leadsTo, next, descend_unlink, isDirectory_unlink]

/-- The results that unlinking takes away. -/
def countLost (L : Listing) (rules : Rules) (target : List Text) (pattern : List Text) : Nat :=
  L.entries.countP fun e =>
    L.globs rules pattern e && !(unlinkEntry target e).any (L.globs rules pattern)

/-- Unlinking a file takes its own results away and adds none. -/
theorem count_unlink (pattern : List Text) :
    L.count rules pattern =
      (L.unlink target).count rules pattern + L.countLost rules target pattern := by
  have globs : (L.unlink target).globs rules pattern = L.globs rules pattern :=
    funext fun e => by simp only [Listing.globs, leadsTo_unlink]
  have still : ∀ e : Entry, (unlinkEntry target e).any (L.globs rules pattern) = true →
      L.globs rules pattern e = true := by
    intro e he
    unfold unlinkEntry at he
    split at he
    · split at he
      · simp_all [Listing.globs, found]
      · simp at he
    · simpa using he
  have split : ∀ entries : List Entry, entries.countP (L.globs rules pattern) =
      (entries.filterMap (unlinkEntry target)).countP (L.globs rules pattern) +
        entries.countP fun e =>
          L.globs rules pattern e && !(unlinkEntry target e).any (L.globs rules pattern) := by
    intro entries
    induction entries with
    | nil => rfl
    | cons e entries ih =>
      have := still e
      cases hu : unlinkEntry target e with
      | none => simp [List.countP_cons, hu, ih]; omega
      | some e' => simp_all [List.countP_cons]; grind
  rw [count, count, leadsTo_unlink, globs, split]
  exact (Nat.add_assoc _ _ _).symm

/-! ## Listings that agree on the way to a path -/

/-- The two listings have the same directories from `base` down to `base ++ rest`. -/
def SameOnPath (L K : Listing) (base rest : List Text) : Prop :=
  ∀ above below, above ++ below = rest → above ≠ [] →
    L.isDirectory (base ++ above) = K.isDirectory (base ++ above) ∧
      L.isPlainDirectory (base ++ above) = K.isPlainDirectory (base ++ above)

variable {K : Listing} {base rest : List Text} {name : Text}

theorem SameOnPath.tail (h : SameOnPath L K base (name :: rest)) :
    SameOnPath L K (base ++ [name]) rest := by
  intro above below hsplit hne
  simpa using h (name :: above) below (by simp [hsplit]) (by simp)

theorem SameOnPath.head (h : SameOnPath L K base (name :: rest)) :
    L.isDirectory (base ++ [name]) = K.isDirectory (base ++ [name]) ∧
      L.isPlainDirectory (base ++ [name]) = K.isPlainDirectory (base ++ [name]) :=
  h [name] rest rfl (by simp)

theorem descend_congr {files : Bool} {next next' : List Text → List Text → Bool}
    (hnext : ∀ base rest, SameOnPath L K base rest → next base rest = next' base rest)
    (h : SameOnPath L K base rest) :
    L.descend files next base rest = K.descend files next' base rest := by
  induction rest generalizing base with
  | nil => exact hnext base [] h
  | cons name rest ih => simp only [descend, hnext _ _ h, h.head.2, ih h.tail]

/-- Where a pattern leads depends on the directories on the way only. -/
theorem leadsTo_congr {pattern : List Text} (h : SameOnPath L K base rest) :
    L.leadsTo rules pattern base rest = K.leadsTo rules pattern base rest := by
  induction pattern generalizing base rest with
  | nil => rfl
  | cons part pattern ih =>
    unfold leadsTo
    split
    · exact descend_congr (fun base rest h => ih h) h
    · cases rest with
      | nil => rfl
      | cons name rest => simp only [h.head.1, ih h.tail]

end Listing

end Perago.Pathlib
