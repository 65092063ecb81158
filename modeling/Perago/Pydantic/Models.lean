import Mathlib.Data.List.Nodup
import Perago.JsonSchema
import Perago.Taskdef.InlineRefs

/-!
# Declared models

What is relied on of `pydantic`. The classes are data; the functions that dump,
validate and describe an instance are parameters, and `Documented` says what the
documentation says of them: a dump has the names of the fields and the computed
fields, validation and the JSON Schema use the aliases, and validation with extra
keys forbidden takes no other key.
-/

namespace Perago

section

variable (T L : Type)

/-- The type of a field. A leaf has no class in it. A list has types for its first items and for
the rest, so that it stands for tuples as well; `Optional` is a union with the leaf `None`. -/
inductive Ty where
  | leaf (t : T)
  | record (name : String)
  | list (firsts : List Ty) (rest : Option Ty) (bounds : Nat → Bool)
  | dict (item : Ty) (bounds : Nat → Bool)
  | union (tys : List Ty)

/-- Data in Python. A record is an instance of a model or a dataclass, or a `TypedDict`. -/
inductive PyData where
  | leaf (l : L)
  | list (items : List PyData)
  | dict (members : List (String × PyData))
  | record (name : String) (fields : List (String × PyData))

/-- `aliases` has the alias or the choices of aliases. A field that is not required gets its
default, or stays absent in a `TypedDict`. `excludes` is `exclude` or `exclude_if`. -/
structure FieldDef where
  name : String
  aliases : List String := []
  ty : Ty T
  required : Bool
  default : Option (PyData L) := none
  excludes : PyData L → Bool := fun _ => false

/-- A computed field, with its value in both modes. -/
structure ComputedDef where
  name : String
  value : PyData L → Option (PyData L)
  json : PyData L → Option Json

/-- `bases` are the classes that it is derived from. -/
structure RecordDef where
  isModel : Bool
  bases : List String := []
  fields : List (FieldDef T L)
  computed : List (ComputedDef L) := []
  nodup : (fields.map (·.name) ++ computed.map (·.name)).Nodup

/-- The functions of `pydantic`; `none` where one raises. A value is dumped as one of a field of
the type, an instance as one of a class. `serializedAs` and `validatedAs` choose the member of a
union. -/
structure Pydantic where
  dump : Ty T → PyData L → Option (PyData L)
  dumpJson : Ty T → PyData L → Option Json
  validate : Ty T → PyData L → Option (PyData L)
  serializedAs : List (Ty T) → PyData L → Option (Ty T)
  validatedAs : List (Ty T) → PyData L → Option (Ty T)
  modelJsonSchema : String → Members

end

variable {T L : Type}

instance : Inhabited (PyData L) := ⟨.list []⟩

instance : Inhabited Json := ⟨.null⟩

/-! ## Names -/

/-- The names that validation tries. -/
def FieldDef.keys (f : FieldDef T L) : List String :=
  if f.aliases = [] then [f.name] else f.aliases

/-- The name in the schema. -/
def FieldDef.key (f : FieldDef T L) : String := f.aliases.headD f.name

def FieldDef.readKey (f : FieldDef T L) (data : List (String × PyData L)) : Option String :=
  f.keys.find? fun k => (data.lookup k).isSome

/-- A field that is dumped: its name, its type and its value. -/
structure Kept (T L : Type) where
  name : String
  ty : Ty T
  value : PyData L

def FieldDef.kept (f : FieldDef T L) (fields : List (String × PyData L)) : Option (Kept T L) :=
  (fields.lookup f.name).bind fun x => if f.excludes x then none else some ⟨f.name, f.ty, x⟩

def RecordDef.kept (m : RecordDef T L) (fields : List (String × PyData L)) : List (Kept T L) :=
  m.fields.filterMap fun f => f.kept fields

/-- The types of a list of so many items. -/
def itemTys (firsts : List (Ty T)) : Option (Ty T) → Nat → Option (List (Ty T))
  | some ty, n =>
    if firsts.length ≤ n then some (firsts ++ List.replicate (n - firsts.length) ty) else none
  | none, n => if firsts.length = n then some firsts else none

theorem eq_of_itemTys {ty ty' : Ty T} {n i : Nat} {tys : List (Ty T)}
    (typed : itemTys [] (some ty) n = some tys) (h : tys[i]? = some ty') : ty' = ty := by
  have all : tys = List.replicate n ty := (Option.some.inj typed).symm
  rw [all] at h
  exact List.eq_of_mem_replicate (List.mem_of_getElem? h)

/-- The schema of an item, of which so many first ones have one of their own. -/
def itemSchema (firsts : Nat) (schema : Members) (i : Nat) : Option Json :=
  if i < firsts then
    match schema.lookup "prefixItems" with
    | some (.arr ps) => ps[i]?
    | _ => none
  else schema.lookup "items"

/-! ## Dumping and validation -/

section

variable (records : List (String × RecordDef T L))

def IsA (name base : String) : Prop :=
  name = base ∨ ∃ m, records.lookup name = some m ∧ base ∈ m.bases

/-- What is documented of a mode of dumping, which makes lists and mappings with `listOf` and
`dictOf`. An instance has the fields of the class that it is dumped as. -/
structure Dumps {D : Type} (serializedAs : List (Ty T) → PyData L → Option (Ty T))
    (listOf : List D → D) (dictOf : List (String × D) → D)
    (computed : ComputedDef L → PyData L → Option D) (dump : Ty T → PyData L → Option D) :
    Prop where
  list firsts rest bounds xs : dump (.list firsts rest bounds) (.list xs) =
    (itemTys firsts rest xs.length).bind fun tys =>
      ((tys.zip xs).mapM fun p => dump p.1 p.2).map listOf
  dict ty bounds xs : dump (.dict ty bounds) (.dict xs) =
    (xs.mapM fun x => (dump ty x.2).map (x.1, ·)).map dictOf
  union tys x : dump (.union tys) x = (serializedAs tys x).bind fun ty => dump ty x
  record base m name fields : records.lookup base = some m → IsA records name base →
    dump (.record base) (.record name fields) =
      ((m.kept fields).mapM fun k => (dump k.ty k.value).map (k.name, ·)).bind fun members =>
        (m.computed.mapM fun p => (computed p (.record name fields)).map (p.name, ·)).map
          fun more => dictOf (members ++ more)

/-- What a validated instance has of the data: every key is read, and each field has the
validated value under the first of its keys that there is, or its default. -/
structure RecordDef.Reads (m : RecordDef T L) (validate : Ty T → PyData L → Option (PyData L))
    (data outs : List (String × PyData L)) : Prop where
  known : ∀ k ∈ data.map (·.1), ∃ f ∈ m.fields, f.readKey data = some k
  read : ∀ f ∈ m.fields, ∀ k v, f.readKey data = some k → data.lookup k = some v →
    ∃ y, validate f.ty v = some y ∧ outs.lookup f.name = some y
  missing : ∀ f ∈ m.fields, f.readKey data = none →
    f.required = false ∧ outs.lookup f.name = f.default

/-- What is documented of `model_validate(…, extra="forbid")`. -/
structure ValidatesForbidding (validatedAs : List (Ty T) → PyData L → Option (Ty T))
    (validate : Ty T → PyData L → Option (PyData L)) : Prop where
  list firsts rest bounds vs : validate (.list firsts rest bounds) (.list vs) =
    if bounds vs.length then (itemTys firsts rest vs.length).bind fun tys =>
      ((tys.zip vs).mapM fun p => validate p.1 p.2).map .list
    else none
  dict ty bounds vs : validate (.dict ty bounds) (.dict vs) =
    if bounds vs.length then (vs.mapM fun v => (validate ty v.2).map (v.1, ·)).map .dict else none
  union tys v : validate (.union tys) v = (validatedAs tys v).bind fun ty => validate ty v
  record name m data y : records.lookup name = some m →
    validate (.record name) (.dict data) = some y →
      ∃ outs, y = .record name outs ∧ m.Reads validate data outs
  accepts name m data : records.lookup name = some m →
    (∀ k ∈ data.map (·.1), ∃ f ∈ m.fields, f.readKey data = some k) →
    (∀ f ∈ m.fields, ∀ k v, f.readKey data = some k → data.lookup k = some v →
      (validate f.ty v).isSome) →
    (∀ f ∈ m.fields, f.readKey data = none → f.required = false) →
      (validate (.record name) (.dict data)).isSome

end

/-! ## JSON Schema -/

section

variable (defs : Members)

/-- A schema stands for one that its references lead to, as the name of a type alias does. -/
inductive StandsFor : Json → Json → Prop
  | refl {schema : Json} : StandsFor schema schema
  | step {members definition : Members} {name : String} {schema : Json}
      (isRef : refName members = some name) (found : defs.lookup name = some (.obj definition))
      (object : isObjectType definition → refName definition = none)
      (siblings : ∀ k ∈ structuralKeys, members.lookup k = none)
      (h : StandsFor (.obj (updateKeys definition (eraseKey "$ref" members))) schema) :
      StandsFor (.obj members) schema

/-- The schema of a field of the type. -/
inductive Describes : Ty T → Json → Prop
  | leaf {t : T} {schema : Json} (notText : ∀ text, schema ≠ .str text) :
      Describes (.leaf t) schema
  | record {name : String} {schema : Json} {members : Members}
      (stands : StandsFor defs schema (.obj members)) (isRef : refName members = some name)
      (siblings : ∀ k ∈ structuralKeys, members.lookup k = none)
      (defined : (defs.lookup name).isSome) : Describes (.record name) schema
  | list {firsts : List (Ty T)} {rest : Option (Ty T)} {bounds : Nat → Bool} {schema : Json}
      {members : Members} (stands : StandsFor defs schema (.obj members))
      (plain : refName members = none) (type : members.lookup "type" = some (.str "array"))
      (present : ∀ n tys i ty, itemTys firsts rest n = some tys → tys[i]? = some ty →
        (itemSchema firsts.length members i).isSome)
      (each : ∀ n tys i ty p, itemTys firsts rest n = some tys → tys[i]? = some ty →
        itemSchema firsts.length members i = some p → Describes ty p) :
      Describes (.list firsts rest bounds) schema
  | dict {ty : Ty T} {bounds : Nat → Bool} {schema : Json} {members : Members}
      (stands : StandsFor defs schema (.obj members)) (plain : refName members = none)
      (unnamed : members.lookup "properties" = none)
      (item : ∀ p, members.lookup "additionalProperties" = some p → Describes ty p) :
      Describes (.dict ty bounds) schema
  | union {tys : List (Ty T)} {schema : Json} {members : Members} {k : String}
      {options : List Json} {option : Ty T → Json}
      (stands : StandsFor defs schema (.obj members)) (plain : refName members = none)
      (untyped : members.lookup "type" = none) (keyword : k = "anyOf" ∨ k = "oneOf")
      (offered : members.lookup k = some (.arr options)) (mem : ∀ ty ∈ tys, option ty ∈ options)
      (each : ∀ ty ∈ tys, Describes ty (option ty)) : Describes (.union tys) schema
  | only {tys : List (Ty T)} {schema : Json} (some : tys ≠ [])
      (each : ∀ ty ∈ tys, Describes ty schema) : Describes (.union tys) schema

/-- The schema of a class. -/
structure DescribesRecord (m : RecordDef T L) (schema : Members) : Prop where
  plain : refName schema = none
  type : schema.lookup "type" = some (.str "object")
  properties : ∃ ps, schema.lookup "properties" = some (.obj ps) ∧
    (∀ f ∈ m.fields, (ps.lookup f.key).isSome) ∧
    ∀ p ∈ ps, ∃ f ∈ m.fields, f.key = p.1 ∧ Describes defs f.ty p.2
  required : ∀ v, schema.lookup "required" = some v → ∃ names : List String,
    v = .arr (names.map .str) ∧ ∀ name ∈ names, ∃ f ∈ m.fields, f.key = name ∧ f.required = true

/-- What is documented of `model_json_schema()`: the classes that are referred to are among the
definitions, and a class that refers to itself is itself referred to. -/
structure DescribesModel (records : List (String × RecordDef T L)) (m : RecordDef T L)
    (schema : Members) : Prop where
  definitions : ∀ name m', records.lookup name = some m' →
    ∀ d, (definitionsOf schema).lookup name = some d →
      ∃ members, d = .obj members ∧ DescribesRecord (definitionsOf schema) m' members
  root : DescribesRecord (definitionsOf schema) m (eraseKey "$defs" schema) ∨
    ∃ name, eraseKey "$defs" schema = [("$ref", .str (refPrefix ++ name))]
  resolves : ∀ s ∈ allSites (rootOf schema) (definitionsOf schema),
    s.Resolves (definitionsOf schema)

end

/-- What is documented of `pydantic`. -/
structure Pydantic.Documented (py : Pydantic T L) (records : List (String × RecordDef T L)) :
    Prop where
  dump : Dumps records py.serializedAs .list .dict ComputedDef.value py.dump
  dumpJson : Dumps records py.serializedAs .arr .obj ComputedDef.json py.dumpJson
  validate : ValidatesForbidding records py.validatedAs py.validate
  modelJsonSchema : ∀ name m, records.lookup name = some m → m.isModel →
    DescribesModel records m (py.modelJsonSchema name)

/-- A value of the type. An instance may be of a derived class; only a `TypedDict` may be without
a field. -/
inductive Valid (py : Pydantic T L) (records : List (String × RecordDef T L)) :
    Ty T → PyData L → Prop
  | leaf {t : T} {x : PyData L} : Valid py records (.leaf t) x
  | list {firsts tys : List (Ty T)} {rest : Option (Ty T)} {bounds : Nat → Bool}
      {xs : List (PyData L)} (typed : itemTys firsts rest xs.length = some tys)
      (bounded : bounds xs.length) (each : ∀ p ∈ tys.zip xs, Valid py records p.1 p.2) :
      Valid py records (.list firsts rest bounds) (.list xs)
  | dict {ty : Ty T} {bounds : Nat → Bool} {xs : List (String × PyData L)}
      (bounded : bounds xs.length) (each : ∀ x ∈ xs, Valid py records ty x.2) :
      Valid py records (.dict ty bounds) (.dict xs)
  | union {tys : List (Ty T)} {ty : Ty T} {x : PyData L}
      (serialized : py.serializedAs tys x = some ty) (mem : ty ∈ tys)
      (h : Valid py records ty x) : Valid py records (.union tys) x
  | record {base name : String} {m : RecordDef T L} {fields : List (String × PyData L)}
      (found : records.lookup base = some m) (isA : IsA records name base)
      (present : ∀ f ∈ m.fields, fields.lookup f.name = none →
        f.required = false ∧ f.default = none)
      (each : ∀ f ∈ m.fields, ∀ x, fields.lookup f.name = some x → Valid py records f.ty x) :
      Valid py records (.record base) (.record name fields)

/-! ## Lists -/

section

variable {α β γ : Type} {f : α → Option β} {xs : List α} {ys : List β}

theorem mapM_eq_some_iff :
    xs.mapM f = some ys ↔ List.Forall₂ (fun x y => f x = some y) xs ys := by
  induction xs generalizing ys with
  | nil => cases ys <;> simp
  | cons x xs ih =>
    rw [List.mapM_cons]
    cases ys with
    | nil => cases f x <;> cases xs.mapM f <;> simp
    | cons y ys =>
      rw [List.forall₂_cons, ← ih]
      cases f x <;> cases xs.mapM f <;> simp

theorem mapM_eq_map {g : α → β} (h : ∀ x ∈ xs, f x = some (g x)) :
    xs.mapM f = some (xs.map g) := by
  rw [mapM_eq_some_iff, List.forall₂_map_right_iff, List.forall₂_same]
  exact h

theorem exists_of_mapM [Inhabited β] (h : xs.mapM f = some ys) :
    ∃ g : α → β, (∀ x ∈ xs, f x = some (g x)) ∧ ys = xs.map g := by
  refine ⟨fun x => (f x).getD default, ?_⟩
  induction mapM_eq_some_iff.mp h with
  | nil => simp
  | @cons x y xs ys hx rest ih =>
    obtain ⟨each, rfl⟩ := ih (mapM_eq_some_iff.mpr rest)
    simp only [hx, Option.getD_some, List.map_cons, and_true]
    rintro z (_ | ⟨_, hz⟩)
    · rw [hx]
      rfl
    · exact each z hz

/-- The same with names beside the values. -/
theorem exists_of_mapM_named [Inhabited β] {name : α → String} {ys : List (String × β)}
    (h : xs.mapM (fun x => (f x).map (name x, ·)) = some ys) :
    ∃ g : α → β, (∀ x ∈ xs, f x = some (g x)) ∧ ys = xs.map fun x => (name x, g x) := by
  obtain ⟨g, each, rfl⟩ := exists_of_mapM (β := String × β) h
  have named : ∀ x ∈ xs, f x = some (g x).2 ∧ g x = (name x, (g x).2) := by
    intro x hx
    obtain ⟨y, hy, same⟩ := Option.map_eq_some_iff.mp (each x hx)
    rw [← same]
    exact ⟨hy, rfl⟩
  exact ⟨fun x => (g x).2, fun x hx => (named x hx).1,
    List.map_congr_left fun x hx => (named x hx).2⟩

/-- Nothing is lost with what is not in the shorter list. -/
theorem filterMap_of_sublist {as bs : List α} (h : as.Sublist bs) (nodup : bs.Nodup)
    (gone : ∀ x ∈ bs, x ∉ as → f x = none) : bs.filterMap f = as.filterMap f := by
  induction h with
  | slnil => rfl
  | @cons as bs b h ih =>
    obtain ⟨fresh, nodup⟩ := List.nodup_cons.mp nodup
    rw [List.filterMap_cons, gone b List.mem_cons_self fun hb => fresh (h.subset hb)]
    exact ih nodup fun x hx => gone x (List.mem_cons_of_mem _ hx)
  | @cons_cons as bs b h ih =>
    obtain ⟨fresh, nodup⟩ := List.nodup_cons.mp nodup
    have rest := ih nodup fun x hx other => gone x (List.mem_cons_of_mem _ hx) fun mem => by
      obtain rfl | mem := List.mem_cons.mp mem
      · exact fresh hx
      · exact other mem
    rw [List.filterMap_cons, List.filterMap_cons, rest]

theorem mapM_map (g : γ → α) (xs : List γ) : (xs.map g).mapM f = xs.mapM fun x => f (g x) := by
  induction xs with
  | nil => rfl
  | cons x xs ih => rw [List.map_cons, List.mapM_cons, List.mapM_cons, ih]

theorem forall₂_filterMap {R : β → γ → Prop} {g : α → Option γ}
    (h : ∀ x ∈ xs, Option.Rel R (f x) (g x)) :
    List.Forall₂ R (xs.filterMap f) (xs.filterMap g) := by
  induction xs with
  | nil => exact .nil
  | cons x xs ih =>
    have rest := ih fun y hy => h y (List.mem_cons_of_mem _ hy)
    have head := h x List.mem_cons_self
    rw [List.filterMap_cons, List.filterMap_cons]
    generalize f x = a at head
    generalize g x = b at head
    cases head with
    | none => exact rest
    | some related => exact .cons related rest

/-- The types stay beside what the values become. -/
theorem zip_map_zip {as : List α} {bs : List β} (g : α × β → γ) (h : as.length = bs.length) :
    as.zip ((as.zip bs).map g) = (as.zip bs).map fun p => (p.1, g p) := by
  induction as generalizing bs with
  | nil => rfl
  | cons a as ih =>
    cases bs with
    | nil => cases h
    | cons b bs =>
      rw [List.zip_cons_cons, List.map_cons, List.zip_cons_cons, List.map_cons,
        ih (Nat.succ.inj h)]

theorem lookup_isSome_iff_mem_map {members : List (String × α)} {k : String} :
    (members.lookup k).isSome ↔ k ∈ members.map (·.1) := by
  induction members with
  | nil => simp
  | cons m members ih => grind

theorem length_itemTys {T : Type} {firsts tys : List (Ty T)} {rest : Option (Ty T)} {n : Nat}
    (h : itemTys firsts rest n = some tys) : tys.length = n := by
  cases rest with
  | none =>
    rw [itemTys] at h
    split at h
    · rename_i same
      rwa [← Option.some.inj h]
    · cases h
  | some ty =>
    rw [itemTys] at h
    split at h
    · rename_i enough
      rw [← Option.some.inj h, List.length_append, List.length_replicate]
      omega
    · cases h

end

/-! ## What is kept -/

section

variable {m : RecordDef T L} {f g : FieldDef T L} {fields data : List (String × PyData L)}
  {k : Kept T L}

theorem RecordDef.field_eq (m : RecordDef T L) (hf : f ∈ m.fields) (hg : g ∈ m.fields)
    (same : f.name = g.name) : f = g :=
  List.inj_on_of_nodup_map m.nodup.of_append_left hf hg same

theorem FieldDef.kept_eq_some_iff : f.kept fields = some k ↔
    ∃ x, fields.lookup f.name = some x ∧ f.excludes x = false ∧ k = ⟨f.name, f.ty, x⟩ := by
  rw [FieldDef.kept, Option.bind_eq_some_iff]
  refine exists_congr fun x => and_congr_right fun _ => ?_
  cases f.excludes x <;> simp [eq_comm]

theorem RecordDef.mem_kept : k ∈ m.kept fields ↔ ∃ f ∈ m.fields, f.kept fields = some k := by
  simp [RecordDef.kept]

theorem RecordDef.name_mem_kept (hf : f ∈ m.fields) :
    f.name ∈ (m.kept fields).map (·.name) ↔ ∃ k, f.kept fields = some k := by
  rw [List.mem_map]
  constructor
  · rintro ⟨k, hk, same⟩
    obtain ⟨g, hg, kept⟩ := RecordDef.mem_kept.mp hk
    obtain ⟨x, -, -, rfl⟩ := FieldDef.kept_eq_some_iff.mp kept
    obtain rfl := m.field_eq hg hf same
    exact ⟨_, kept⟩
  · rintro ⟨k, kept⟩
    obtain ⟨x, -, -, rfl⟩ := FieldDef.kept_eq_some_iff.mp kept
    exact ⟨_, RecordDef.mem_kept.mpr ⟨f, hf, kept⟩, rfl⟩

theorem RecordDef.nodup_kept : ((m.kept fields).map (·.name)).Nodup := by
  have within : ∀ fs : List (FieldDef T L),
      ((fs.filterMap fun f => f.kept fields).map (·.name)).Sublist (fs.map (·.name)) := by
    intro fs
    induction fs with
    | nil => exact .slnil
    | cons f fs ih =>
      rw [List.filterMap_cons, List.map_cons]
      cases kept : f.kept fields with
      | none => exact ih.cons _
      | some k =>
        obtain ⟨x, -, -, rfl⟩ := FieldDef.kept_eq_some_iff.mp kept
        exact ih.cons_cons _
  exact (within m.fields).nodup m.nodup.of_append_left

theorem RecordDef.lookup_kept {D : Type} (out : Kept T L → D) (hk : k ∈ m.kept fields) :
    ((m.kept fields).map fun k => (k.name, out k)).lookup k.name = some (out k) :=
  lookup_map_of_unique out hk fun _ hj same =>
    List.inj_on_of_nodup_map RecordDef.nodup_kept hj hk same

theorem RecordDef.names_kept {D : Type} (out : Kept T L → D) :
    ((m.kept fields).map fun k => (k.name, out k)).map (·.1) = (m.kept fields).map (·.name) := by
  rw [List.map_map]
  rfl

theorem FieldDef.readKey_of_key (own : f.key = f.name) (present : (data.lookup f.name).isSome) :
    f.readKey data = some f.name := by
  rw [FieldDef.key] at own
  rw [FieldDef.readKey, FieldDef.keys]
  cases aliases : f.aliases with
  | nil => simp [present]
  | cons a rest =>
    obtain rfl : a = f.name := by simpa [aliases] using own
    simp [present]

theorem FieldDef.readKey_eq_none (absent : ∀ k ∈ f.keys, k ∉ data.map (·.1)) :
    f.readKey data = none := by
  rw [FieldDef.readKey, List.find?_eq_none]
  intro k hk present
  exact absent k hk (lookup_isSome_iff_mem_map.mp present)

theorem FieldDef.mem_of_readKey {key : String} (h : f.readKey data = some key) :
    key ∈ f.keys ∧ (data.lookup key).isSome :=
  ⟨List.mem_of_find?_eq_some h, by simpa using List.find?_some h⟩

theorem FieldDef.key_mem_keys (f : FieldDef T L) : f.key ∈ f.keys := by
  rw [FieldDef.key, FieldDef.keys]
  cases f.aliases <;> simp

end

/-! ## What an instance is dumped to -/

section

variable {D : Type} {records : List (String × RecordDef T L)}
  {serializedAs : List (Ty T) → PyData L → Option (Ty T)} {listOf : List D → D}
  {dictOf : List (String × D) → D} {computed : ComputedDef L → PyData L → Option D}
  {dump : Ty T → PyData L → Option D} {m : RecordDef T L} {base name : String}
  {fields : List (String × PyData L)}

/-- The kept fields and the computed ones, under their names. -/
theorem Dumps.record_inv [Inhabited D] (h : Dumps records serializedAs listOf dictOf computed dump)
    (found : records.lookup base = some m) (isA : IsA records name base) {w : D}
    (dumped : dump (.record base) (.record name fields) = some w) :
    ∃ (d : Kept T L → D) (g : ComputedDef L → D),
      (∀ k ∈ m.kept fields, dump k.ty k.value = some (d k)) ∧
        w = dictOf (((m.kept fields).map fun k => (k.name, d k)) ++
          m.computed.map fun p => (p.name, g p)) := by
  rw [h.record base m name fields found isA] at dumped
  obtain ⟨members, hmembers, dumped⟩ := Option.bind_eq_some_iff.mp dumped
  obtain ⟨more, hmore, rfl⟩ := Option.map_eq_some_iff.mp dumped
  obtain ⟨d, dumpedAt, rfl⟩ := exists_of_mapM_named hmembers
  obtain ⟨g, -, rfl⟩ := exists_of_mapM_named hmore
  exact ⟨d, g, dumpedAt, rfl⟩

theorem Dumps.of_kept (h : Dumps records serializedAs listOf dictOf computed dump)
    (found : records.lookup base = some m) (isA : IsA records name base)
    (nothing : m.computed = []) {d : Kept T L → D}
    (each : ∀ k ∈ m.kept fields, dump k.ty k.value = some (d k)) :
    dump (.record base) (.record name fields) =
      some (dictOf ((m.kept fields).map fun k => (k.name, d k))) := by
  rw [h.record base m name fields found isA, nothing,
    mapM_eq_map (g := fun k => (k.name, d k)) fun k hk => by rw [each k hk]; rfl]
  simp

/-- An instance of a class that writes as a base is dumped as by the base. -/
theorem Dumps.as_base (h : Dumps records serializedAs listOf dictOf computed dump)
    {m' : RecordDef T L} (found : records.lookup base = some m)
    (found' : records.lookup name = some m') (isA : IsA records name base)
    (nothing : m'.computed = []) (nothing' : m.computed = [])
    (kept : m'.kept fields = m.kept fields) :
    dump (.record name) (.record name fields) = dump (.record base) (.record name fields) := by
  rw [h.record name m' name fields found' (.inl rfl), h.record base m name fields found isA,
    nothing, nothing', kept]

end

theorem StandsFor.ne_str {defs members : Members} {schema : Json}
    (h : StandsFor defs schema (.obj members)) (text : String) : schema ≠ .str text := by
  rintro rfl
  cases h

/-- No schema of a field is a text. -/
theorem Describes.ne_str {defs : Members} {ty : Ty T} {schema : Json}
    (h : Describes defs ty schema) (text : String) : schema ≠ .str text := by
  induction h with
  | leaf notText => exact notText text
  | record stands => exact stands.ne_str text
  | list stands => exact stands.ne_str text
  | dict stands => exact stands.ne_str text
  | union stands => exact stands.ne_str text
  | only some _ ih =>
    obtain ⟨ty, hty⟩ := List.exists_mem_of_ne_nil _ some
    exact ih ty hty

end Perago
