import Mathlib.Algebra.Order.Field.Rat
import Mathlib.Data.Nat.Cast.Order.Ring
import Mathlib.Tactic.IntervalCases
import Perago.Execution
import Perago.ResultContract

/-!
# The input contract

What the input schema of a workspace task accepts, and what an attempt then
accepts of the same input. The two differ in blank references only: the schema
asks for texts that are not empty, the attempt for texts that are not blank.
-/

namespace Perago

/-! ## Documents as Python values -/

mutual

/-- What `json.loads` makes of a document. -/
def pyValue : Json → PyValue
  | .null => .none
  | .bool b => .bool b
  | .num n => if n.den = 1 then .int n.num else .float true (toString n)
  | .str s => .str s
  | .arr items => .list (pyItems items)
  | .obj members => .dict (pyMembers members)

def pyItems : List Json → List PyValue
  | [] => []
  | item :: items => pyValue item :: pyItems items

def pyMembers : Members → List (PyKey × PyValue)
  | [] => []
  | (key, item) :: members => (.str key, pyValue item) :: pyMembers members

end

variable {xs : Members} {v w : Json} {k s : String}

theorem pyMembers_eq_map : pyMembers xs = xs.map fun m => (.str m.1, pyValue m.2) := by
  induction xs with
  | nil => rfl
  | cons m xs ih => simp [pyMembers, ih]

theorem get?_pyValue_obj : (pyValue (.obj xs)).get? k = (xs.lookup k).map pyValue := by
  change (pyMembers xs).lookup (.str k) = _
  induction xs with
  | nil => rfl
  | cons m xs ih =>
    obtain ⟨key, item⟩ := m
    by_cases same : k = key
    · simp [pyMembers, same]
    · have ne : (k == key) = false := by simpa using same
      have ne' : (PyKey.str k == PyKey.str key) = false := by simpa using same
      simp [pyMembers, List.lookup_cons, ne, ne', ih]

theorem pyValue_eq_str_iff : pyValue v = .str s ↔ v = .str s := by
  cases v with
  | num n =>
    rw [pyValue]
    split <;> simp
  | _ => simp [pyValue]

theorem all_pyMembers {P : PyKey → Bool} :
    (pyMembers xs).all (fun item => P item.1) = xs.all fun m => P (.str m.1) := by
  simp [pyMembers_eq_map, Function.comp_def]

/-! ## References -/

/-- The schema that pydantic generates for a field of a reference. -/
def refFieldSchema (title : String) : Json :=
  .obj [("minLength", .num 1), ("title", .str title), ("type", .str "string")]

/-- A schema of a reference, as pydantic generates it for `WorkspaceInput` and
`WorkspaceOutput`. -/
def workspaceRefSchema (title description : String) : Members :=
  [("additionalProperties", .bool false), ("description", .str description),
    ("properties", .obj [("repository", refFieldSchema "Repository"),
      ("branch", refFieldSchema "Branch"),
      ("refType", .obj [("const", .str "commit"), ("title", .str "Reftype"),
        ("type", .str "string")]),
      ("ref", refFieldSchema "Ref")]),
    ("required", .arr [.str "repository", .str "branch", .str "refType", .str "ref"]),
    ("title", .str title), ("type", .str "object")]

/-- What pydantic documents of the schemas of the two models: the constraints of their fields,
under some title and description. -/
def IsWorkspaceRefSchema (generated : Members) : Prop :=
  ∃ title description, generated = workspaceRefSchema title description

def emittedRefFieldSchema : Json := .obj [("minLength", .num 1), ("type", .str "string")]

def emittedRefTypeSchema : Json := .obj [("const", .str "commit"), ("type", .str "string")]

def emittedRefSchema : Members :=
  [("additionalProperties", .bool false),
    ("properties", .obj [("repository", emittedRefFieldSchema), ("branch", emittedRefFieldSchema),
      ("refType", emittedRefTypeSchema), ("ref", emittedRefFieldSchema)]),
    ("required", .arr [.str "repository", .str "branch", .str "refType", .str "ref"]),
    ("type", .str "object")]

theorem schemaForModel_workspaceRef (n : Nat) (title description : String) :
    schemaForModel (n + 4) (workspaceRefSchema title description) false =
      .ok (.obj emittedRefSchema) := by
  rfl

theorem emitted_of_schemaForModel {n : Nat} {generated : Members} {schema : Json}
    (documented : IsWorkspaceRefSchema generated)
    (built : schemaForModel n generated false = .ok schema) : schema = .obj emittedRefSchema := by
  obtain ⟨title, description, rfl⟩ := documented
  obtain ⟨k, rfl⟩ | small : (∃ k, n = k + 4) ∨ n < 4 := by
    rcases Nat.lt_or_ge n 4 with small | enough
    · exact .inr small
    · exact .inl ⟨n - 4, by omega⟩
  · exact (Except.ok.inj built).symm
  · interval_cases n <;> cases built

/-- The document is a reference with these three texts and nothing else. -/
def RefOf (w : Json) (repository branch ref : String) : Prop :=
  ∃ xs : Members, w = .obj xs ∧ xs.lookup "repository" = some (.str repository) ∧
    xs.lookup "branch" = some (.str branch) ∧ xs.lookup "refType" = some (.str "commit") ∧
    xs.lookup "ref" = some (.str ref) ∧
    ∀ m ∈ xs, m.1 ∈ ["repository", "branch", "refType", "ref"]

/-! ## What an attempt accepts -/

theorem refField_eq_ok_iff {value : PyValue} {field : String}
    {s : { s : String // isBlank s = false }} :
    refField value field = .ok s ↔ value.get? field = some (.str s.1) := by
  constructor
  · intro h
    rw [refField] at h
    split at h
    · cases h
    · rename_i found
      split at h
      · cases h
        exact found
      · cases h
    · cases h
  · intro h
    rw [refField_str h, dif_pos s.2]

theorem lookup_eq_str_iff : (pyValue (.obj xs)).get? k = some (.str s) ↔
    xs.lookup k = some (.str s) := by
  rw [get?_pyValue_obj]
  cases xs.lookup k <;> simp [pyValue_eq_str_iff]

theorem keysAllowed_iff : ((pyMembers xs).all fun item =>
    item.1 ∈ ["repository", "branch", "refType", "ref"].map PyKey.str) = true ↔
      ∀ m ∈ xs, m.1 ∈ ["repository", "branch", "refType", "ref"] := by
  rw [all_pyMembers
    (P := fun key => key ∈ ["repository", "branch", "refType", "ref"].map PyKey.str),
    List.all_eq_true]
  simp

/-- An attempt accepts exactly the references whose texts are not blank. -/
theorem validate_pyValue_iff {r : WorkspaceRef} :
    WorkspaceRef.validate (pyValue w) = .ok r ↔ RefOf w r.repository r.branch r.ref := by
  constructor
  · intro h
    cases w with
    | obj xs =>
      rw [pyValue, WorkspaceRef.validate] at h
      obtain ⟨repository, hrepository, h⟩ := ok_of_bind h
      obtain ⟨branch, hbranch, h⟩ := ok_of_bind h
      obtain ⟨ref, href, h⟩ := ok_of_bind h
      split at h
      · rename_i commit
        split at h
        · rename_i allowed
          cases h
          exact ⟨xs, rfl, lookup_eq_str_iff.mp (refField_eq_ok_iff.mp hrepository),
            lookup_eq_str_iff.mp (refField_eq_ok_iff.mp hbranch), lookup_eq_str_iff.mp commit,
            lookup_eq_str_iff.mp (refField_eq_ok_iff.mp href), keysAllowed_iff.mp allowed⟩
        · cases h
      · cases h
      · cases h
    | num n =>
      rw [pyValue] at h
      split at h <;> cases h
    | _ => cases h
  · rintro ⟨xs, rfl, hrepository, hbranch, commit, href, allowed⟩
    have repository := refField_eq_ok_iff (s := ⟨r.repository, r.repository_nonblank⟩).mpr
      (lookup_eq_str_iff.mpr hrepository)
    have branch := refField_eq_ok_iff (s := ⟨r.branch, r.branch_nonblank⟩).mpr
      (lookup_eq_str_iff.mpr hbranch)
    have ref := refField_eq_ok_iff (s := ⟨r.ref, r.ref_nonblank⟩).mpr (lookup_eq_str_iff.mpr href)
    have type := lookup_eq_str_iff.mpr commit
    rw [pyValue] at repository branch ref type ⊢
    rw [WorkspaceRef.validate]
    simp only [repository, branch, ref, type]
    change (if _ then _ else _) = _
    rw [if_pos (keysAllowed_iff.mpr allowed)]
    rfl

/-! ## What the schema accepts -/

variable {search : String → String → Prop} {ref : String → Json → Prop}

theorem accepts_emittedRefField_iff :
    accepts search unset ref emittedRefFieldSchema v ↔ ∃ s, v = .str s ∧ s ≠ "" := by
  have length (s : String) : (1 : Rat) ≤ (s.length : Rat) ↔ s ≠ "" := by
    rw [← Nat.cast_one, Nat.cast_le, Nat.one_le_iff_ne_zero, Ne, String.length_eq_zero_iff]
  rw [emittedRefFieldSchema]
  constructor
  · intro h
    have conforms := accepts_obj.mp h
    have type := (conforms.alone "type" _ rfl).text _ rfl
    have bound := (conforms.alone "minLength" _ rfl).bound _ rfl
    cases v with
    | str s => exact ⟨s, rfl, (length s).mp bound⟩
    | _ => cases type
  · rintro ⟨s, rfl, nonempty⟩
    have only : OnlyKeywords ["minLength", "type"]
        [("minLength", .num 1), ("type", .str "string")] := by
      intro k _ other
      apply lookup_eq_none_of_not_mem
      simpa using other
    refine accepts_separate only (by decide) rfl ?_
    intro k hk arg harg
    obtain rfl | rfl : k = "minLength" ∨ k = "type" := by simpa using hk
    · obtain rfl := Option.some.inj harg
      constructor
      case bound =>
        rintro _ ⟨⟩
        exact (length s).mpr nonempty
      all_goals nofun
    · obtain rfl := Option.some.inj harg
      exact keywordHolds_type rfl

theorem Json.Same.eq_of_str (h : Json.Same (.str s) v) : v = .str s := by
  generalize hx : Json.str s = x at h
  cases h with
  | scalar => rfl
  | arr => cases hx
  | obj => cases hx

theorem accepts_emittedRefType_iff :
    accepts search unset ref emittedRefTypeSchema v ↔ v = .str "commit" := by
  rw [emittedRefTypeSchema]
  constructor
  · intro h
    have const := ((accepts_obj.mp h).alone "const" _ rfl).const rfl
    exact const.eq_of_str
  · rintro rfl
    have only : OnlyKeywords ["const", "type"]
        [("const", .str "commit"), ("type", .str "string")] := by
      intro k _ other
      apply lookup_eq_none_of_not_mem
      simpa using other
    refine accepts_separate only (by decide) rfl ?_
    intro k hk arg harg
    obtain rfl | rfl : k = "const" ∨ k = "type" := by simpa using hk
    · obtain rfl := Option.some.inj harg
      constructor
      case const => exact fun _ => .scalar trivial
      all_goals simp [textHolds]
    · obtain rfl := Option.some.inj harg
      exact keywordHolds_type rfl

/-- The schema asks for its four fields and admits no other. -/
theorem fields_of_accepts (h : accepts search unset ref (.obj emittedRefSchema) w) :
    ∃ xs, w = .obj xs ∧
      (∀ name p, schemaUnder emittedRefSchema "properties" name = some p →
        ∃ x, xs.lookup name = some x ∧ accepts search unset ref p x) ∧
      ∀ m ∈ xs, m.1 ∈ ["repository", "branch", "refType", "ref"] := by
  have conforms := accepts_obj.mp h
  have type := (conforms.alone "type" _ rfl).text _ rfl
  have required := (conforms.alone "required" _ rfl).texts _ rfl
  cases w with
  | obj xs =>
    refine ⟨xs, rfl, ?_, ?_⟩
    · intro name p hp
      have named : name ∈ textsOf [.str "repository", .str "branch", .str "refType",
          .str "ref"] := by
        have := mem_of_lookup hp
        simp [textsOf] at this ⊢
        tauto
      obtain ⟨x, hx⟩ := Option.isSome_iff_exists.mp (required name named)
      exact ⟨x, hx, conforms.properties xs rfl name p x hp hx⟩
    · intro m hm
      by_contra other
      have known : (xs.lookup m.1).isSome :=
        lookup_isSome_iff_mem_keys.mpr (List.mem_map.mpr ⟨m, hm, rfl⟩)
      obtain ⟨x, hx⟩ := Option.isSome_iff_exists.mp known
      have undeclared : ¬ Declared search emittedRefSchema m.1 := by
        rintro (declared | ⟨pattern, declared, _⟩)
        · obtain ⟨p, hp⟩ := Option.isSome_iff_exists.mp declared
          have := mem_of_lookup hp
          simp at this other
          tauto
        · cases declared
      have := conforms.additionalProperties xs rfl m.1 x hx undeclared
      simp [AdditionalHolds, unset, emittedRefSchema] at this
  | _ => cases type

theorem accepts_emittedRef_iff : accepts search unset ref (.obj emittedRefSchema) w ↔
    ∃ repository branch commit, RefOf w repository branch commit ∧
      repository ≠ "" ∧ branch ≠ "" ∧ commit ≠ "" := by
  constructor
  · intro h
    obtain ⟨xs, rfl, field, allowed⟩ := fields_of_accepts h
    obtain ⟨_, hrepository, accepted⟩ := field "repository" _ rfl
    obtain ⟨repository, rfl, repository_ne⟩ := accepts_emittedRefField_iff.mp accepted
    obtain ⟨_, hbranch, accepted⟩ := field "branch" _ rfl
    obtain ⟨branch, rfl, branch_ne⟩ := accepts_emittedRefField_iff.mp accepted
    obtain ⟨_, htype, accepted⟩ := field "refType" _ rfl
    obtain rfl := accepts_emittedRefType_iff.mp accepted
    obtain ⟨_, href, accepted⟩ := field "ref" _ rfl
    obtain ⟨commit, rfl, commit_ne⟩ := accepts_emittedRefField_iff.mp accepted
    exact ⟨repository, branch, commit, ⟨xs, rfl, hrepository, hbranch, htype, href, allowed⟩,
      repository_ne, branch_ne, commit_ne⟩
  · rintro ⟨repository, branch, commit, ⟨xs, rfl, hrepository, hbranch, htype, href, allowed⟩,
      nonempty⟩
    have only : OnlyKeywords ["type", "properties", "required", "additionalProperties"]
        emittedRefSchema := by
      intro k _ other
      apply lookup_eq_none_of_not_mem
      simp [emittedRefSchema] at other ⊢
      tauto
    refine accepts_object only rfl rfl rfl ?_ ?_
    · intro name hname
      simp [textsOf] at hname
      rcases hname with rfl | rfl | rfl | rfl <;> simp [*]
    · intro name x hx
      have named := allowed _ (mem_of_lookup hx)
      simp at named
      rcases named with rfl | rfl | rfl | rfl
      · obtain rfl := Option.some.inj (hrepository.symm.trans hx)
        exact ⟨_, rfl, accepts_emittedRefField_iff.mpr ⟨_, rfl, nonempty.1⟩⟩
      · obtain rfl := Option.some.inj (hbranch.symm.trans hx)
        exact ⟨_, rfl, accepts_emittedRefField_iff.mpr ⟨_, rfl, nonempty.2.1⟩⟩
      · obtain rfl := Option.some.inj (htype.symm.trans hx)
        exact ⟨_, rfl, accepts_emittedRefType_iff.mpr rfl⟩
      · obtain rfl := Option.some.inj (href.symm.trans hx)
        exact ⟨_, rfl, accepts_emittedRefField_iff.mpr ⟨_, rfl, nonempty.2.2⟩⟩

/-- The data of `inputSchema` in `build_taskdef`. -/
def inputSchemaData (workspace : Option Json) (params : Json) : Members :=
  objectSchema ((workspace.map fun w => ("workspace", w)).toList ++ [("params", params)])
    ((workspace.map fun _ => "workspace").toList ++ ["params"]) true

/-- An object schema that allows extra members asks for the required ones and checks those it
declares. -/
theorem accepts_openObject_iff {properties : Members} {required : List String} :
    accepts search unset ref (.obj (objectSchema properties required true)) v ↔
      ∃ xs, v = .obj xs ∧ (∀ name ∈ required, (xs.lookup name).isSome) ∧
        ∀ name p x, properties.lookup name = some p → xs.lookup name = some x →
          accepts search unset ref p x := by
  constructor
  · intro h
    have conforms := accepts_obj.mp h
    have type := (conforms.alone "type" _ rfl).text _ rfl
    have present := (conforms.alone "required" _ rfl).texts _ rfl
    rw [textsOf_map_str] at present
    cases v with
    | obj xs =>
      refine ⟨xs, rfl, present, ?_⟩
      intro name p x hp hx
      exact conforms.properties xs rfl name p x hp hx
    | _ => cases type
  · rintro ⟨xs, rfl, present, each⟩
    have only : OnlyKeywords ["type", "properties", "required", "additionalProperties"]
        (objectSchema properties required true) := by
      intro k _ other
      apply lookup_eq_none_of_not_mem
      simpa [objectSchema] using other
    rw [accepts_obj]
    refine ⟨alone_of_only only ?_, ?_, ?_, ?_, ?_, ?_⟩
    · intro k hk separate arg harg
      obtain rfl | rfl | rfl | rfl : k = "type" ∨ k = "properties" ∨ k = "required" ∨
        k = "additionalProperties" := by simpa using hk
      · obtain rfl := Option.some.inj harg
        exact keywordHolds_type rfl
      · exact absurd separate (by decide)
      · obtain rfl := Option.some.inj harg
        constructor
        case texts =>
          rintro _ ⟨⟩
          rw [textsOf_map_str]
          exact present
        all_goals simp
      · exact absurd separate (by decide)
    · rintro _ ⟨⟩ name p x hp hx
      exact each name p x hp hx
    · simp [schemaUnder, only "patternProperties" (by decide) (by decide)]
    · rintro _ ⟨⟩ name x hx undeclared s hs
      obtain rfl := Option.some.inj hs
      exact accepts_bool.mpr rfl
    · simp
    · simp

/-- A reference that the schema accepts, with a blank text. -/
def BlankRef (w : Json) : Prop :=
  ∃ repository branch commit, RefOf w repository branch commit ∧
    (repository ≠ "" ∧ branch ≠ "" ∧ commit ≠ "") ∧
    (isBlank repository ∨ isBlank branch ∨ isBlank commit)

theorem RefOf.texts_eq {a b c a' b' c' : String} (h : RefOf w a b c) (h' : RefOf w a' b' c') :
    a = a' ∧ b = b' ∧ c = c' := by
  obtain ⟨xs, rfl, ha, hb, -, hc, -⟩ := h
  obtain ⟨_, ⟨⟩, ha', hb', -, hc', -⟩ := h'
  simp_all

theorem ne_empty_of_nonblank (h : isBlank s = false) : s ≠ "" := by
  rintro rfl
  exact absurd h (by decide)

theorem not_validates_of_blank (h : BlankRef w) (r : WorkspaceRef) :
    WorkspaceRef.validate (pyValue w) ≠ .ok r := by
  intro valid
  obtain ⟨repository, branch, commit, refOf, -, blank⟩ := h
  obtain ⟨rfl, rfl, rfl⟩ := refOf.texts_eq (validate_pyValue_iff.mp valid)
  simp [r.repository_nonblank, r.branch_nonblank, r.ref_nonblank] at blank

/-- The schema accepts the references that an attempt accepts, and blank ones. -/
theorem accepts_emittedRef_iff_validates : accepts search unset ref (.obj emittedRefSchema) w ↔
    (∃ r, WorkspaceRef.validate (pyValue w) = .ok r) ∨ BlankRef w := by
  rw [accepts_emittedRef_iff]
  constructor
  · rintro ⟨repository, branch, commit, refOf, nonempty⟩
    by_cases blank : isBlank repository ∨ isBlank branch ∨ isBlank commit
    · exact .inr ⟨repository, branch, commit, refOf, nonempty, blank⟩
    · simp only [not_or, Bool.not_eq_true] at blank
      exact .inl ⟨⟨repository, branch, commit, blank.1, blank.2.1, blank.2.2⟩,
        validate_pyValue_iff.mpr refOf⟩
  · rintro (⟨r, valid⟩ | ⟨repository, branch, commit, refOf, nonempty, -⟩)
    · exact ⟨_, _, _, validate_pyValue_iff.mp valid, ne_empty_of_nonblank r.repository_nonblank,
        ne_empty_of_nonblank r.branch_nonblank, ne_empty_of_nonblank r.ref_nonblank⟩
    · exact ⟨repository, branch, commit, refOf, nonempty⟩

/-- A published reference as a document. -/
def WorkspaceRef.document (r : WorkspaceRef) : Json :=
  .obj [("repository", .str r.repository), ("branch", .str r.branch), ("refType", .str "commit"),
    ("ref", .str r.ref)]

/-- The emitted input schema of a workspace task accepts an input exactly when the attempt finds
both of its parts, the params schema accepts the params, and the attempt accepts the reference
or finds a blank text in it; and what an attempt publishes passes both checks of the next one. -/
theorem workspace_inputs_agree (search : String → String → Prop) (ref : String → Json → Prop)
    (paramsSchema x : Json) :
    (∀ n title description, schemaForModel (n + 4) (workspaceRefSchema title description) false =
      .ok (.obj emittedRefSchema)) ∧
    (accepts search unset ref
        (.obj (inputSchemaData (some (.obj emittedRefSchema)) paramsSchema)) x ↔
      ∃ xs workspace params, x = .obj xs ∧ xs.lookup "workspace" = some workspace ∧
        xs.lookup "params" = some params ∧
        wrappedInput (pyValue x) = .ok (pyValue workspace, pyValue params) ∧
        accepts search unset ref paramsSchema params ∧
        ((∃ r, WorkspaceRef.validate (pyValue workspace) = .ok r) ∨ BlankRef workspace)) ∧
    (∀ w, BlankRef w → ∀ r, WorkspaceRef.validate (pyValue w) ≠ .ok r) ∧
    ∀ r : WorkspaceRef, pyValue r.document = r.modelDump ∧
      accepts search unset ref (.obj emittedRefSchema) r.document ∧
      WorkspaceRef.validate (pyValue r.document) = .ok r := by
  refine ⟨schemaForModel_workspaceRef, ?_, fun w => not_validates_of_blank, ?_⟩
  · rw [inputSchemaData, accepts_openObject_iff]
    constructor
    · rintro ⟨xs, rfl, present, each⟩
      obtain ⟨workspace, hw⟩ := Option.isSome_iff_exists.mp (present "workspace" (by simp))
      obtain ⟨params, hq⟩ := Option.isSome_iff_exists.mp (present "params" (by simp))
      refine ⟨xs, workspace, params, rfl, hw, hq, ?_, each "params" _ _ rfl hq, ?_⟩
      · simp [wrappedInput, get?_pyValue_obj, hw, hq]
      · exact accepts_emittedRef_iff_validates.mp (each "workspace" _ _ rfl hw)
    · rintro ⟨xs, workspace, params, rfl, hw, hq, -, accepted, valid⟩
      refine ⟨xs, rfl, ?_, ?_⟩
      · intro name hname
        obtain rfl | rfl : name = "workspace" ∨ name = "params" := by simpa using hname
        · exact Option.isSome_of_eq_some hw
        · exact Option.isSome_of_eq_some hq
      intro name p y hp hy
      obtain ⟨rfl, rfl⟩ | ⟨rfl, rfl⟩ :
          name = "workspace" ∧ p = .obj emittedRefSchema ∨ name = "params" ∧ p = paramsSchema := by
        simpa using mem_of_lookup hp
      · obtain rfl := Option.some.inj (hw.symm.trans hy)
        exact accepts_emittedRef_iff_validates.mpr valid
      · obtain rfl := Option.some.inj (hq.symm.trans hy)
        exact accepted
  · intro r
    have dumped : pyValue r.document = r.modelDump := rfl
    have valid : WorkspaceRef.validate (pyValue r.document) = .ok r :=
      dumped ▸ r.validate_modelDump
    exact ⟨dumped, accepts_emittedRef_iff_validates.mpr (.inl ⟨r, valid⟩), valid⟩

end Perago
