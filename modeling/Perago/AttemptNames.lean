import Perago.Workspace.Lifecycle

/-!
# Names of executions

The workspace directory and the staging branch of an execution end in its id.
Whatever the sanitisers make of the other segments, they write only characters of
their class, and an id of hexadecimal digits is left as it is.
-/

namespace Perago

/-! ## Sanitised segments -/

section

variable {keep : Char → Bool} {replacement : Char} {inRun : Bool} {chars cs : List Char} {c : Char}

/-- What is written is kept or the replacement. -/
theorem mem_subRuns (h : c ∈ subRuns keep replacement inRun cs) : keep c ∨ c = replacement := by
  fun_induction subRuns keep replacement inRun cs <;> grind

theorem subRuns_of_all (h : cs.all keep) : subRuns keep replacement inRun cs = cs := by
  fun_induction subRuns keep replacement inRun cs <;> grind

theorem mem_of_mem_stripChars (h : c ∈ stripChars chars cs) : c ∈ cs := by
  rw [stripChars, List.mem_reverse] at h
  have inner := (List.dropWhile_sublist _).subset h
  rw [List.mem_reverse] at inner
  exact (List.dropWhile_sublist _).subset inner

theorem stripChars_of_disjoint (h : ∀ c ∈ cs, c ∉ chars) : stripChars chars cs = cs := by
  have kept : ∀ {ds : List Char}, (∀ d ∈ ds, d ∉ chars) → ds.dropWhile (· ∈ chars) = ds := by
    intro ds hds
    cases ds with
    | nil => rfl
    | cons d ds => exact List.dropWhile_cons_of_neg (by simpa using hds d List.mem_cons_self)
  rw [stripChars, kept h, kept (by simpa using h), List.reverse_reverse]

end

/-- `[A-Za-z0-9_.=-]`. -/
def isPathCharacter (c : Char) : Bool := isAsciiAlphanumeric c || c ∈ ['_', '.', '=', '-']

/-- `[A-Za-z0-9_-]`. -/
def isBranchCharacter (c : Char) : Bool := isAsciiAlphanumeric c || c ∈ ['_', '-']

theorem isPathCharacter_of_mem {value : String} {c : Char} (h : c ∈ (safeSegment value).toList) :
    isPathCharacter c := by
  unfold safeSegment at h
  simp only at h
  split at h
  · exact List.all_eq_true.mp (by decide : "unknown".toList.all isPathCharacter) c h
  · rw [String.toList_ofList] at h
    obtain kept | rfl := mem_subRuns (mem_of_mem_stripChars h)
    · exact kept
    · decide

theorem isBranchCharacter_of_mem {value : String} {c : Char}
    (h : c ∈ (lakefsBranchSegment value).toList) : isBranchCharacter c := by
  unfold lakefsBranchSegment at h
  simp only at h
  split at h
  · exact List.all_eq_true.mp (by decide : "unknown".toList.all isBranchCharacter) c h
  · rw [String.toList_ofList] at h
    obtain kept | rfl := mem_subRuns (mem_of_mem_stripChars h)
    · exact kept
    · decide

/-! ## Execution ids -/

def isHexDigit (c : Char) : Bool := ('0' ≤ c && c ≤ '9') || ('a' ≤ c && c ≤ 'f')

/-- A text that `uuid4().hex` can return. -/
structure IsUuidHex (id : String) : Prop where
  length : id.toList.length = 32
  digits : id.toList.all isHexDigit

namespace IsUuidHex

variable {id : String}

theorem isAsciiAlphanumeric (h : IsUuidHex id) {c : Char} (hc : c ∈ id.toList) :
    isAsciiAlphanumeric c := by
  have digit := List.all_eq_true.mp h.digits c hc
  simp only [isHexDigit, Perago.isAsciiAlphanumeric, Bool.or_eq_true, Bool.and_eq_true,
    decide_eq_true_eq] at *
  obtain digit | ⟨lower, upper⟩ := digit
  · exact .inr digit
  · exact .inl (.inr ⟨lower, upper.trans (by decide)⟩)

theorem ne_nil (h : IsUuidHex id) : id.toList ≠ [] := by
  intro empty
  have length := h.length
  simp [empty] at length

theorem not_mem (h : IsUuidHex id) (chars : List Char)
    (others : chars.all fun c => !Perago.isAsciiAlphanumeric c) : ∀ c ∈ id.toList, c ∉ chars := by
  intro c hc mem
  have other := List.all_eq_true.mp others c mem
  simp [h.isAsciiAlphanumeric hc] at other

/-- The sanitisers have nothing to replace and nothing to strip. -/
theorem safeSegment_eq (h : IsUuidHex id) : safeSegment id = id := by
  have kept : id.toList.all fun c =>
      Perago.isAsciiAlphanumeric c || c ∈ ['_', '.', '=', '-'] := by
    refine List.all_eq_true.mpr fun c hc => ?_
    rw [h.isAsciiAlphanumeric hc, Bool.true_or]
  have inner := h.not_mem ['.', '_'] (by decide)
  rw [safeSegment, subRuns_of_all kept, stripChars_of_disjoint inner]
  simp only [if_neg h.ne_nil, String.ofList_toList]

theorem lakefsBranchSegment_eq (h : IsUuidHex id) : lakefsBranchSegment id = id := by
  have kept : id.toList.all fun c => Perago.isAsciiAlphanumeric c || c ∈ ['_', '-'] := by
    refine List.all_eq_true.mpr fun c hc => ?_
    rw [h.isAsciiAlphanumeric hc, Bool.true_or]
  have inner := h.not_mem ['-', '_'] (by decide)
  have first : id.toList.head? ≠ some '-' := fun head =>
    inner _ (List.mem_of_mem_head? head) List.mem_cons_self
  rw [lakefsBranchSegment, subRuns_of_all kept, stripChars_of_disjoint inner]
  simp only [h.ne_nil, first, or_self, if_false, String.ofList_toList]

end IsUuidHex

/-! ## Workspace directories -/

/-- `SUPERVISOR_WORKSPACE_LOCK_FILE`. -/
def supervisorWorkspaceLockFile : Text := text ".perago-supervisor.lock"

/-- A single path component that is an entry of its own and not the lock file. -/
structure IsWorkspaceName (name : Text) : Prop where
  nonempty : name ≠ []
  slash : 0x2F ∉ name
  backslash : 0x5C ∉ name
  current : name ≠ text "."
  parent : name ≠ text ".."
  lock : name ≠ supervisorWorkspaceLockFile

theorem toNat_lt (c : Char) : c.toNat < 0x110000 := by
  obtain below | ⟨-, below⟩ := c.valid
  · exact below.trans (by decide)
  · exact below

theorem mem_text {s : String} {x : CodePoint} :
    x ∈ text s ↔ ∃ c ∈ s.toList, c.toNat = x.val := by
  simp only [text, List.mem_map]
  refine exists_congr fun c => and_congr_right fun _ => ?_
  rw [Fin.ext_iff, Fin.ofNat_eq_cast, Fin.val_natCast, Nat.mod_eq_of_lt (toNat_lt c)]

theorem text_injective : Function.Injective text := by
  have codes : Function.Injective fun c : Char => (Fin.ofNat 0x110000 c.toNat : CodePoint) := by
    intro c d same
    have values := congrArg Fin.val same
    simp only [Fin.ofNat_eq_cast, Fin.val_natCast, Nat.mod_eq_of_lt (toNat_lt _)] at values
    exact Char.toNat_inj.mp values
  intro a b same
  exact String.toList_inj.mp (List.map_injective_iff.mpr codes same)

/-- Names that end in texts of one length are told apart by these. -/
theorem end_eq_of_append_eq {s t a b : String} (length : a.toList.length = b.toList.length)
    (h : s ++ a = t ++ b) : a = b := by
  have characters := congrArg String.toList h
  simp only [String.toList_append] at characters
  exact String.toList_inj.mp (List.append_inj' characters length).2

variable {task : TaskExecutionContext} {root : Path}

theorem attemptWorkspaceDir_isWorkspaceName :
    ∃ name, attemptWorkspaceDir root task = root ++ [name] ∧ IsWorkspaceName name := by
  refine ⟨_, rfl, ?_⟩
  have first : (text ("task_id=" ++ safeSegment task.attempt.taskId ++ "-exec=" ++
      safeSegment task.executionId)).head? = some 0x74 := by
    simp only [text, String.toList_append, List.append_assoc, List.map_append]
    rfl
  have outside : ∀ x ∈ text ("task_id=" ++ safeSegment task.attempt.taskId ++ "-exec=" ++
      safeSegment task.executionId), ∃ c, isPathCharacter c ∧ c.toNat = x.val := by
    intro x hx
    obtain ⟨c, hc, same⟩ := mem_text.mp hx
    refine ⟨c, ?_, same⟩
    simp only [String.toList_append, List.mem_append] at hc
    obtain ((hc | hc) | hc) | hc := hc
    · exact List.all_eq_true.mp (by decide : "task_id=".toList.all isPathCharacter) c hc
    · exact isPathCharacter_of_mem hc
    · exact List.all_eq_true.mp (by decide : "-exec=".toList.all isPathCharacter) c hc
    · exact isPathCharacter_of_mem hc
  constructor
  · intro h
    rw [h] at first
    cases first
  · intro h
    obtain ⟨c, hc, same⟩ := outside _ h
    obtain rfl : c = '/' := Char.toNat_inj.mp same
    exact absurd hc (by decide)
  · intro h
    obtain ⟨c, hc, same⟩ := outside _ h
    obtain rfl : c = '\\' := Char.toNat_inj.mp same
    exact absurd hc (by decide)
  · intro h
    rw [h] at first
    exact absurd first (by decide)
  · intro h
    rw [h] at first
    exact absurd first (by decide)
  · intro h
    rw [h] at first
    exact absurd first (by decide)

/-! ## Branches -/

theorem forall_mem_intercalate {α : Type} {P : α → Prop} {separator : List α}
    {xss : List (List α)} (between : ∀ x ∈ separator, P x) (parts : ∀ xs ∈ xss, ∀ x ∈ xs, P x) :
    ∀ x ∈ separator.intercalate xss, P x := by
  induction xss with
  | nil => simp
  | cons xs xss ih =>
    rw [List.forall_mem_cons] at parts
    cases xss with
    | nil => simpa using parts.1
    | cons ys xss =>
      intro x hx
      rw [List.intercalate_cons_cons] at hx
      simp only [List.mem_append] at hx
      obtain (hx | hx) | hx := hx
      · exact parts.1 x hx
      · exact between x hx
      · exact ih parts.2 x hx

theorem isBranchCharacter_of_mem_name {c : Char} (h : c ∈ (stagingBranchName task).toList) :
    isBranchCharacter c := by
  have plain : ∀ {label : String}, label.toList.all isBranchCharacter →
      ∀ c ∈ label.toList, isBranchCharacter c := List.all_eq_true.mp
  have sanitised : ∀ {value : String}, ∀ c ∈ (lakefsBranchSegment value).toList,
      isBranchCharacter c := fun _ => isBranchCharacter_of_mem
  have labelled : ∀ {label value : String}, label.toList.all isBranchCharacter →
      ∀ c ∈ (label ++ lakefsBranchSegment value).toList, isBranchCharacter c := by
    intro label value hl c hc
    rw [String.toList_append, List.mem_append] at hc
    exact hc.elim (plain hl c) (sanitised c)
  rw [stagingBranchName, String.toList_intercalate] at h
  refine forall_mem_intercalate (P := fun c => isBranchCharacter c) ?_ ?_ c h
  · exact plain (by decide)
  · simp only [List.map_cons, List.map_nil, List.forall_mem_cons]
    exact ⟨plain (by decide), plain (by decide), sanitised, sanitised, labelled (by decide),
      labelled (by decide), labelled (by decide), labelled (by decide), labelled (by decide),
      List.forall_mem_nil _⟩

theorem stagingBranchName_start :
    ∃ rest, stagingBranchName task = "perago-staging-" ++ rest := by
  rw [stagingBranchName, String.intercalate_cons_cons, String.intercalate_cons_cons]
  exact ⟨_, by simp only [← String.append_assoc]; rfl⟩

/-- The id is the end of the branch name. -/
theorem stagingBranchName_end (task : TaskExecutionContext) :
    ∃ start, stagingBranchName task = start ++ lakefsBranchSegment task.executionId := by
  rw [stagingBranchName]
  simp only [String.intercalate_cons_cons, String.intercalate_singleton, ← String.append_assoc]
  exact ⟨_, rfl⟩

/-! ## Isolation -/

variable {task' : TaskExecutionContext}

theorem attemptWorkspaceDir_ne (h : IsUuidHex task.executionId) (h' : IsUuidHex task'.executionId)
    (distinct : task.executionId ≠ task'.executionId) :
    attemptWorkspaceDir root task ≠ attemptWorkspaceDir root task' := by
  intro same
  have names := text_injective (List.singleton_inj.mp (List.append_cancel_left same))
  rw [h.safeSegment_eq, h'.safeSegment_eq] at names
  exact distinct (end_eq_of_append_eq (h.length.trans h'.length.symm) names)

theorem stagingBranchName_ne (h : IsUuidHex task.executionId) (h' : IsUuidHex task'.executionId)
    (distinct : task.executionId ≠ task'.executionId) :
    stagingBranchName task ≠ stagingBranchName task' := by
  intro same
  obtain ⟨start, named⟩ := stagingBranchName_end task
  obtain ⟨start', named'⟩ := stagingBranchName_end task'
  rw [named, named', h.lakefsBranchSegment_eq, h'.lakefsBranchSegment_eq] at same
  exact distinct (end_eq_of_append_eq (h.length.trans h'.length.symm) same)

/-- What holds of the names of an execution. -/
structure NamesConfined (root : Path) (task : TaskExecutionContext) : Prop where
  workspace : ∃ name, attemptWorkspaceDir root task = root ++ [name] ∧ IsWorkspaceName name
  branch : ∃ rest, stagingBranchName task = "perago-staging-" ++ rest
  characters : (stagingBranchName task).toList.all isBranchCharacter

theorem namesConfined (root : Path) (task : TaskExecutionContext) : NamesConfined root task where
  workspace := attemptWorkspaceDir_isWorkspaceName
  branch := stagingBranchName_start
  characters := List.all_eq_true.mpr fun _ => isBranchCharacter_of_mem_name

/-- Executions with different ids have workspaces directly below the root and staging branches
that are their own. -/
theorem attempt_names_isolate (root : Path) {task task' : TaskExecutionContext}
    (h : IsUuidHex task.executionId) (h' : IsUuidHex task'.executionId)
    (distinct : task.executionId ≠ task'.executionId) :
    NamesConfined root task ∧ NamesConfined root task' ∧
      attemptWorkspaceDir root task ≠ attemptWorkspaceDir root task' ∧
      stagingBranchName task ≠ stagingBranchName task' :=
  ⟨namesConfined root task, namesConfined root task', attemptWorkspaceDir_ne h h' distinct,
    stagingBranchName_ne h h' distinct⟩

/-- Two executions of one attempt whose task id has nothing to keep. -/
theorem attempt_names_isolate_rerun :
    let attempt := { ConductorRuntime.someAttempt with taskId := "/../" }
    let first : TaskExecutionContext := ⟨attempt, "0123456789abcdef0123456789abcdef"⟩
    let second : TaskExecutionContext := ⟨attempt, "0123456789abcdef0123456789abcdee"⟩
    NamesConfined [] first ∧ NamesConfined [] second ∧
      attemptWorkspaceDir [] first ≠ attemptWorkspaceDir [] second ∧
      stagingBranchName first ≠ stagingBranchName second :=
  attempt_names_isolate [] ⟨by decide, by decide⟩ ⟨by decide, by decide⟩ (by decide)

end Perago
