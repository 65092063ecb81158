import Perago.Pydantic.ReadBack

/-!
# A small interpreter

Functions that behave as the documented ones do on leaves, lists, mappings and
records. Leaves are integers, and unions are left out.
-/

namespace Perago

/-! ## Recursion on data -/

section

variable {L A : Type} (leaf : L → A) (list : List (PyData L × A) → A)
  (dict : List (String × PyData L × A) → A) (record : String → List (String × PyData L × A) → A)

mutual

/-- Recursion with the parts and what they come to. -/
def PyData.para : PyData L → A
  | .leaf l => leaf l
  | .list items => list (paraItems items)
  | .dict members => dict (paraMembers members)
  | .record name fields => record name (paraMembers fields)

def paraItems : List (PyData L) → List (PyData L × A)
  | [] => []
  | x :: items => (x, PyData.para x) :: paraItems items

def paraMembers : List (String × PyData L) → List (String × PyData L × A)
  | [] => []
  | (key, x) :: members => (key, x, PyData.para x) :: paraMembers members

end

theorem paraItems_eq_map (items : List (PyData L)) : paraItems leaf list dict record items =
    items.map fun x => (x, x.para leaf list dict record) := by
  induction items with
  | nil => rfl
  | cons x items ih => rw [paraItems, ih, List.map_cons]

theorem paraMembers_eq_map (members : List (String × PyData L)) :
    paraMembers leaf list dict record members =
      members.map fun x => (x.1, x.2, x.2.para leaf list dict record) := by
  induction members with
  | nil => rfl
  | cons x members ih => rw [paraMembers, ih, List.map_cons]

end

/-! ## Dumping -/

section

variable (records : List (String × RecordDef Unit Int)) {D : Type} (leafOf : Int → D)
  (listOf : List D → D) (dictOf : List (String × D) → D)
  (computed : ComputedDef Int → PyData Int → Option D)

/-- The fields that are dumped, each with what its value comes to at its type. -/
def keptParts (m : RecordDef Unit Int)
    (fields : List (String × PyData Int × (Ty Unit → Option D))) : List (String × Option D) :=
  m.fields.filterMap fun f => (fields.lookup f.name).bind fun p =>
    if f.excludes p.1 then none else some (f.name, p.2 f.ty)

def dumpLeaf (l : Int) : Ty Unit → Option D
  | .leaf _ => some (leafOf l)
  | _ => none

def dumpList (items : List (PyData Int × (Ty Unit → Option D))) : Ty Unit → Option D
  | .list firsts rest _ => (itemTys firsts rest items.length).bind fun tys =>
    ((tys.zip items).mapM fun p : Ty Unit × PyData Int × (Ty Unit → Option D) =>
      p.2.2 p.1).map listOf
  | _ => none

def dumpDict (members : List (String × PyData Int × (Ty Unit → Option D))) : Ty Unit → Option D
  | .dict ty _ => (members.mapM fun x : String × PyData Int × (Ty Unit → Option D) =>
    (x.2.2 ty).map (x.1, ·)).map dictOf
  | _ => none

def dumpRecord (name : String) (fields : List (String × PyData Int × (Ty Unit → Option D))) :
    Ty Unit → Option D
  | .record base => (records.lookup base).bind fun m =>
    ((keptParts m fields).mapM fun p : String × Option D => p.2.map (p.1, ·)).bind fun members =>
      (m.computed.mapM fun p =>
        (computed p (.record name (fields.map fun x => (x.1, x.2.1)))).map (p.name, ·)).map
          fun more => dictOf (members ++ more)
  | _ => none

def dumpWith (ty : Ty Unit) (x : PyData Int) : Option D :=
  x.para (dumpLeaf leafOf) (dumpList listOf) (dumpDict dictOf)
    (dumpRecord records dictOf computed) ty

theorem keptParts_eq (m : RecordDef Unit Int) (fields : List (String × PyData Int))
    (out : PyData Int → Ty Unit → Option D) :
    keptParts m (fields.map fun x => (x.1, x.2, out x.2)) =
      (m.kept fields).map fun k => (k.name, out k.value k.ty) := by
  rw [keptParts, RecordDef.kept, List.map_filterMap]
  congr 1
  funext f
  rw [lookup_map fun _ x => (x, out x), FieldDef.kept]
  cases fields.lookup f.name with
  | none => rfl
  | some x => cases h : f.excludes x <;> simp [h]

theorem dumpWith_dumps : Dumps records (fun _ _ => none) listOf dictOf computed
    (dumpWith records leafOf listOf dictOf computed) where
  list firsts rest bounds xs := by
    rw [dumpWith, PyData.para, paraItems_eq_map, dumpList, List.length_map]
    refine congrArg _ (funext fun tys => congrArg _ ?_)
    rw [List.zip_map_right, mapM_map]
    rfl
  dict ty bounds xs := by
    rw [dumpWith, PyData.para, paraMembers_eq_map, dumpDict, mapM_map]
    rfl
  union tys x := by
    rw [dumpWith]
    cases x <;> rfl
  record base m name fields found _ := by
    rw [dumpWith, PyData.para, paraMembers_eq_map, dumpRecord, found, Option.bind_some,
      keptParts_eq m fields fun x => x.para _ _ _ _, mapM_map, List.map_map]
    simp only [Function.comp_def, Prod.mk.eta, List.map_id']
    rfl

end

/-! ## Validation -/

section

variable (records : List (String × RecordDef Unit Int))

abbrev Read := Ty Unit → Option (PyData Int)

def validateLeaf (l : Int) : Read
  | .leaf _ => some (.leaf l)
  | _ => none

def validateList (items : List (PyData Int × Read)) : Read
  | .list firsts rest bounds =>
    if bounds items.length then (itemTys firsts rest items.length).bind fun tys =>
      ((tys.zip items).mapM fun p : Ty Unit × PyData Int × Read => p.2.2 p.1).map .list
    else none
  | _ => none

/-- What a field gets of the data. -/
def readField (members : List (String × PyData Int × Read)) (f : FieldDef Unit Int) :
    Option (Option (PyData Int)) :=
  match f.readKey (members.map fun x => (x.1, x.2.1)) with
  | some k => (members.lookup k).bind fun p => (p.2 f.ty).map some
  | none => if f.required then none else some f.default

def knownKeys (m : RecordDef Unit Int) (data : List (String × PyData Int)) : Bool :=
  (data.map (·.1)).all fun k => m.fields.any fun f => f.readKey data == some k

def validateDict (members : List (String × PyData Int × Read)) : Read
  | .dict ty bounds =>
    if bounds members.length then
      (members.mapM fun x : String × PyData Int × Read => (x.2.2 ty).map (x.1, ·)).map .dict
    else none
  | .record name => (records.lookup name).bind fun m =>
    if knownKeys m (members.map fun x => (x.1, x.2.1)) then
      (m.fields.mapM fun f => (readField members f).map fun y => (f.name, y)).map fun outs =>
        .record name (outs.filterMap fun o => o.2.map fun y => (o.1, y))
    else none
  | _ => none

def validateForbidding (ty : Ty Unit) (v : PyData Int) : Option (PyData Int) :=
  v.para validateLeaf validateList (validateDict records) (fun _ _ _ => none) ty

theorem lookup_outs {m : RecordDef Unit Int} {out : FieldDef Unit Int → Option (PyData Int)}
    {f : FieldDef Unit Int} (hf : f ∈ m.fields) :
    ((m.fields.map fun f => (f.name, out f)).filterMap fun o => o.2.map fun y =>
      (o.1, y)).lookup f.name = out f := by
  have nodup := m.nodup.of_append_left
  generalize m.fields = fs at hf nodup
  induction fs with
  | nil => cases hf
  | cons g fs ih =>
    rw [List.map_cons, List.nodup_cons] at nodup
    rw [List.map_cons, List.filterMap_cons]
    obtain rfl | hf := List.mem_cons.mp hf
    · cases h : out f with
      | some y => simp
      | none =>
        refine lookup_eq_none_of_not_mem fun mem => nodup.1 ?_
        obtain ⟨o, ho, same⟩ := List.mem_map.mp mem
        obtain ⟨q, hq, made⟩ := List.mem_filterMap.mp ho
        obtain ⟨g, hg, rfl⟩ := List.mem_map.mp hq
        obtain ⟨y, -, rfl⟩ := Option.map_eq_some_iff.mp made
        exact List.mem_map.mpr ⟨g, hg, same⟩
    · have other : (f.name == g.name) = false := by
        rw [beq_eq_false_iff_ne]
        rintro same
        exact nodup.1 (same ▸ List.mem_map_of_mem hf)
      cases h : out g with
      | some y =>
        simp only [Option.map_some, List.lookup_cons, other]
        exact ih hf nodup.2
      | none => exact ih hf nodup.2

theorem map_read (xs : List (String × PyData Int)) (read : PyData Int → Read) :
    (xs.map fun x => (x.1, x.2, read x.2)).map (fun x => (x.1, x.2.1)) = xs := by
  rw [List.map_map]
  exact List.map_id' xs

theorem readField_eq {f : FieldDef Unit Int} {data : List (String × PyData Int)}
    (read : PyData Int → Read) :
    readField (data.map fun x => (x.1, x.2, read x.2)) f =
      match f.readKey data with
      | some k => (data.lookup k).bind fun v => (read v f.ty).map some
      | none => if f.required then none else some f.default := by
  rw [readField, map_read]
  cases f.readKey data with
  | none => rfl
  | some k =>
    simp only
    rw [lookup_map fun _ x => (x, read x)]
    cases data.lookup k <;> rfl

theorem knownKeys_iff {m : RecordDef Unit Int} {data : List (String × PyData Int)} :
    knownKeys m data ↔ ∀ k ∈ data.map (·.1), ∃ f ∈ m.fields, f.readKey data = some k := by
  simp [knownKeys]

theorem validateForbidding_record {name : String} {m : RecordDef Unit Int}
    {data : List (String × PyData Int)} (found : records.lookup name = some m) :
    validateForbidding records (.record name) (.dict data) =
      if knownKeys m data then
        (m.fields.mapM fun f => (readField (data.map fun x =>
          (x.1, x.2, fun ty => validateForbidding records ty x.2)) f).map fun y => (f.name, y)).map
            fun outs => .record name (outs.filterMap fun o => o.2.map fun y => (o.1, y))
      else none := by
  rw [validateForbidding, PyData.para, paraMembers_eq_map, validateDict, found, Option.bind_some,
    map_read]
  rfl

theorem validateForbidding_validates :
    ValidatesForbidding records (fun _ _ => none) (validateForbidding records) where
  list firsts rest bounds vs := by
    rw [validateForbidding, PyData.para, paraItems_eq_map, validateList, List.length_map]
    refine if_congr Iff.rfl (congrArg _ (funext fun tys => congrArg _ ?_)) rfl
    rw [List.zip_map_right, mapM_map]
    rfl
  dict ty bounds vs := by
    rw [validateForbidding, PyData.para, paraMembers_eq_map, validateDict, List.length_map,
      mapM_map]
    rfl
  union tys v := by
    rw [validateForbidding]
    cases v <;> rfl
  record name m data y found validated := by
    rw [validateForbidding_record records found] at validated
    split at validated
    · rename_i known
      obtain ⟨outs, houts, rfl⟩ := Option.map_eq_some_iff.mp validated
      obtain ⟨out, each, rfl⟩ := exists_of_mapM_named houts
      refine ⟨_, rfl, knownKeys_iff.mp known, fun f hf k v read found => ?_, fun f hf unread => ?_⟩
      · have value := each f hf
        rw [readField_eq fun v ty => validateForbidding records ty v, read] at value
        simp only [found, Option.bind_some] at value
        obtain ⟨y, hy, same⟩ := Option.map_eq_some_iff.mp value
        exact ⟨y, hy, (lookup_outs hf).trans same.symm⟩
      · have value := each f hf
        rw [readField_eq fun v ty => validateForbidding records ty v, unread] at value
        simp only at value
        split at value
        · cases value
        · rename_i optional
          exact ⟨by simpa using optional, (lookup_outs hf).trans (Option.some.inj value).symm⟩
    · cases validated
  accepts name m data found known each missing := by
    rw [validateForbidding_record records found, if_pos (knownKeys_iff.mpr known),
      Option.isSome_map]
    have some : ∀ f ∈ m.fields, (readField (data.map fun x =>
        (x.1, x.2, fun ty => validateForbidding records ty x.2)) f).isSome := by
      intro f hf
      rw [readField_eq fun v ty => validateForbidding records ty v]
      cases read : f.readKey data with
      | none => simp [missing f hf read]
      | some k =>
        obtain ⟨v, hv⟩ := Option.isSome_iff_exists.mp (FieldDef.mem_of_readKey read).2
        simpa [hv] using each f hf k v read hv
    rw [mapM_eq_map (g := fun f => (f.name, ((readField (data.map fun x =>
      (x.1, x.2, fun ty => validateForbidding records ty x.2)) f).getD none))) fun f hf => by
        obtain ⟨y, hy⟩ := Option.isSome_iff_exists.mp (some f hf)
        rw [hy]
        rfl]
    rfl

end

/-! ## The interpreter -/

section

variable (records : List (String × RecordDef Unit Int)) (schemas : String → Members)

def interpreter : Pydantic Unit Int where
  dump := dumpWith records .leaf .list .dict ComputedDef.value
  dumpJson := dumpWith records (fun l => .num l) .arr .obj ComputedDef.json
  validate := validateForbidding records
  serializedAs _ _ := none
  validatedAs _ _ := none
  modelJsonSchema := schemas

theorem interpreter_documented (shape : ∀ name m, records.lookup name = some m → m.isModel →
      DescribesModel records m (schemas name)) :
    (interpreter records schemas).Documented records where
  dump := dumpWith_dumps records PyData.leaf PyData.list PyData.dict ComputedDef.value
  dumpJson := dumpWith_dumps records (fun l => Json.num l) Json.arr Json.obj ComputedDef.json
  validate := validateForbidding_validates records
  modelJsonSchema := shape

end

/-- The schema of a class without a docstring. -/
def modelSchema (title : String) (properties : Members) (required : List String) : Members :=
  [("properties", .obj properties), ("required", .arr (required.map .str)),
    ("title", .str title), ("type", .str "object")]

theorem describesRecord_modelSchema {defs properties : Members} {m : RecordDef Unit Int}
    {title : String} {required : List String}
    (all : ∀ f ∈ m.fields, f.key ∈ properties.map (·.1))
    (each : ∀ p ∈ properties, ∃ f ∈ m.fields, f.key = p.1 ∧ Describes defs f.ty p.2)
    (needed : ∀ name ∈ required, ∃ f ∈ m.fields, f.key = name ∧ f.required = true) :
    DescribesRecord defs m (modelSchema title properties required) where
  plain := rfl
  type := rfl
  properties := ⟨properties, rfl, fun f hf => lookup_isSome_iff_mem_map.mpr (all f hf), each⟩
  required _ hv := ⟨required, (Option.some.inj hv).symm, needed⟩

end Perago
