import Perago.Pydantic.Interpreter
import Perago.Taskdef.ExtraPolicy

/-!
# The output contract

A result is dumped under the names of its fields, validated under their aliases
and dumped again, and the TaskDef publishes the aliases. The three agree when
every field is read under its own name and nothing is computed.
-/

namespace Perago

/-! ## The code -/

section

variable {T L : Type} (records : List (String × RecordDef T L)) (py : Pydantic T L)

/-- `_validate_result`. -/
def validateResult (outputModel : String) : PyData L → Option (PyData L)
  | .record name fields =>
    if (records.lookup name).any (·.isModel) then
      (py.dump (.record name) (.record name fields)).bind (py.validate (.record outputModel))
    else py.validate (.record outputModel) (.record name fields)
  | rawResult => py.validate (.record outputModel) rawResult

/-- `result.model_dump(mode="json")` of an instance. -/
def dumpResult : PyData L → Option Json
  | .record name fields => py.dumpJson (.record name) (.record name fields)
  | _ => none

end

/-- The output of both builders, which `workspace` is part of for a workspace task. -/
def taskOutput (workspace : Option Json) (result : Json) : Members :=
  (workspace.map fun w => ("workspace", w)).toList ++ [("result", result)]

/-- `_object_schema`. -/
def objectSchema (properties : Members) (required : List String) (allowExtra : Bool) : Members :=
  [("type", .str "object"), ("properties", .obj properties),
    ("required", .arr (required.map .str)), ("additionalProperties", .bool allowExtra)]

/-- The data of `outputSchema` in `build_taskdef`. -/
def outputSchemaData (workspace : Option Json) (result : Json) : Members :=
  objectSchema (taskOutput workspace result) ((workspace.map fun _ => "workspace").toList ++
    ["result"]) false

/-! ## Agreement -/

/-- The object schema is closed, and the keys are among its properties with the required ones
present. -/
structure Closes (schema ps value : Members) : Prop where
  type : schema.lookup "type" = some (.str "object")
  properties : schema.lookup "properties" = some (.obj ps)
  closed : schema.lookup "additionalProperties" = some (.bool false)
  required : ∀ v, schema.lookup "required" = some v → ∃ names : List String,
    v = .arr (names.map .str) ∧ ∀ name ∈ names, (value.lookup name).isSome
  declared : ∀ k, (value.lookup k).isSome → (ps.lookup k).isSome

/-- In a value of the type, the keys of every instance are those that a closed schema has at
its place. -/
inductive KeysFit {T L : Type} (records : List (String × RecordDef T L)) : Ty T → Json → Json → Prop
  | leaf {t : T} {schema value : Json} : KeysFit records (.leaf t) schema value
  | record {name : String} {m : RecordDef T L} {schema ps xs : Members}
      (found : records.lookup name = some m) (closes : Closes schema ps xs)
      (each : ∀ f ∈ m.fields, ∀ p x, ps.lookup f.name = some p →
        xs.lookup f.name = some x → KeysFit records f.ty p x) :
      KeysFit records (.record name) (.obj schema) (.obj xs)
  | list {firsts tys : List (Ty T)} {rest : Option (Ty T)} {bounds : Nat → Bool}
      {schema : Members} {xs : List Json} (typed : itemTys firsts rest xs.length = some tys)
      (present : ∀ i < xs.length, (itemSchema firsts.length schema i).isSome)
      (each : ∀ i ty p x, tys[i]? = some ty → itemSchema firsts.length schema i = some p →
        xs[i]? = some x → KeysFit records ty p x) :
      KeysFit records (.list firsts rest bounds) (.obj schema) (.arr xs)
  | dict {ty : Ty T} {bounds : Nat → Bool} {schema xs : Members}
      (each : ∀ p, schema.lookup "additionalProperties" = some p → ∀ x ∈ xs,
        KeysFit records ty p x.2) : KeysFit records (.dict ty bounds) (.obj schema) (.obj xs)
  | union {tys : List (Ty T)} {ty : Ty T} {schema : Members} {k : String} {options : List Json}
      {option value : Json} (mem : ty ∈ tys) (keyword : k = "anyOf" ∨ k = "oneOf")
      (offered : schema.lookup k = some (.arr options)) (present : option ∈ options)
      (h : KeysFit records ty option value) : KeysFit records (.union tys) (.obj schema) value
  | only {tys : List (Ty T)} {ty : Ty T} {schema value : Json} (mem : ty ∈ tys)
      (h : KeysFit records ty schema value) : KeysFit records (.union tys) schema value

section

variable {T L : Type} (records : List (String × RecordDef T L)) (py : Pydantic T L)

/-- The instance is validated, the emitted result is its data, and the published schema is closed
with the keys of the result, as that of either builder's output is with the keys of the output. -/
def OutputContract (outputModel : String) (x : PyData L) : Prop :=
  ∃ result json, validateResult records py outputModel x = some result ∧
    dumpResult py result = some json ∧ dumpResult py x = some json ∧
    ∃ stack schema, schemaForModel stack (py.modelJsonSchema outputModel) false = .ok schema ∧
      KeysFit records (.record outputModel) schema json ∧
      ∀ workspace : Option (Json × Json),
        Closes (outputSchemaData (workspace.map (·.1)) schema)
          (taskOutput (workspace.map (·.1)) schema) (taskOutput (workspace.map (·.2)) json)

/-- An instance of a class that is the model or derived from it. -/
def IsInstance (outputModel : String) (x : PyData L) : Prop :=
  ∃ name m fields, x = .record name fields ∧ records.lookup name = some m ∧ m.isModel ∧
    IsA records name outputModel ∧ Valid py records (.record name) x

/-- A derived class writes no more than the model. -/
def WritesAs (outputModel : String) : PyData L → Prop
  | .record name fields => ∀ m m', records.lookup outputModel = some m →
      records.lookup name = some m' → m'.computed = [] ∧ m'.kept fields = m.kept fields
  | _ => False

/-- The schema of the model is not a reference, and no definition that it comes to leads back to
itself. -/
def Publishable (schema : Members) : Prop :=
  refName (eraseKey "$defs" schema) = none ∧
    ∀ s, ReachedSite (stripModelSchemaMetadata schema) s →
      ¬ Relation.TransGen (RefSite.LeadsTo (definitionsOf (stripModelSchemaMetadata schema))) s s

end

/-! ## The published schema -/

theorem refName_of_lookup {members : Members} {name : String}
    (h : members.lookup "$ref" = some (.str (refPrefix ++ name))) :
    refName members = some name := by
  rw [refName, h]
  simp [String.toList_append]

section

variable {defs lefts : Members} {t : Json} {keep allowExtra : Bool}

theorem emitted_str {o : Json} {text : String} {allowExtra : Bool}
    (h : Inlines defs (.str text) o) : emit allowExtra keep o = .str text := by
  cases h
  exact emit_scalar trivial

theorem emitted_texts {o : Json} {texts : List String} {allowExtra : Bool}
    (h : Inlines defs (.arr (texts.map .str)) o) :
    emit allowExtra keep o = .arr (texts.map .str) := by
  have free : RefFree (.arr (texts.map .str)) := by
    rw [refFree_arr]
    intro v hv
    obtain ⟨text, -, rfl⟩ := List.mem_map.mp hv
    rfl
  rw [h.eq_of_refFree free, emit_arr, List.map_map]
  exact congrArg Json.arr (List.map_congr_left fun text _ => emit_scalar trivial)

/-- What a plain mapping is emitted with. -/
theorem emitted_plain (allowExtra keep : Bool) (h : Inlines defs (.obj lefts) t)
    (plain : refName lefts = none) : ∃ outs, emit allowExtra keep t = .obj outs ∧
      (∀ k, ¬ IsOverwritten lefts k → k ≠ "title" →
        (lefts.lookup k = none ∧ outs.lookup k = none) ∨
          ∃ v t', lefts.lookup k = some v ∧ Inlines defs v t' ∧
            outs.lookup k = some (emit allowExtra (k == "properties") t')) ∧
      (isObjectSchema lefts → outs.lookup "additionalProperties" = some (.bool allowExtra)) := by
  obtain ⟨inner, rfl, parts⟩ := h.plain_inv plain
  refine ⟨_, emit_obj, fun k kept title => lookup_emitted allowExtra keep parts kept (.inr title),
    fun object => ?_⟩
  rw [lookup_emitMembers, if_pos ⟨isObjectSchema_of_lookup parts ▸ object, rfl⟩]

/-- The schema of an item is emitted. -/
theorem itemSchema_emitted {outs : Members} {n i : Nat} {p : Json}
    (under : ∀ k, ¬ IsOverwritten lefts k → k ≠ "title" →
      (lefts.lookup k = none ∧ outs.lookup k = none) ∨
        ∃ v t', lefts.lookup k = some v ∧ Inlines defs v t' ∧
          outs.lookup k = some (emit allowExtra (k == "properties") t'))
    (h : itemSchema n lefts i = some p) :
    ∃ t', Inlines defs p t' ∧ itemSchema n outs i = some (emit allowExtra false t') := by
  rw [itemSchema] at h
  split at h
  · rename_i first
    split at h
    · rename_i ps hps
      obtain ⟨absent, -⟩ | ⟨v, t', hv, inlined, found⟩ :=
        under "prefixItems" (by simp [IsOverwritten]) (by decide)
      · rw [absent] at hps
        cases hps
      · obtain rfl := Option.some.inj (hps.symm.trans hv)
        obtain ⟨os, t'', hos, inlined', at'⟩ := item_emitted allowExtra false inlined h
        refine ⟨t'', inlined', ?_⟩
        have prefixed : outs.lookup "prefixItems" = some (.arr os) :=
          found.trans (congrArg some hos)
        rw [itemSchema, if_pos first, prefixed]
        exact at'
    · cases h
  · rename_i later
    obtain ⟨absent, -⟩ | ⟨v, t', hv, inlined, found⟩ :=
      under "items" (by simp [IsOverwritten]) (by decide)
    · rw [absent] at h
      cases h
    · obtain rfl := Option.some.inj (h.symm.trans hv)
      exact ⟨t', inlined, by rw [itemSchema, if_neg later]; exact found⟩

end

section

variable {schema : Members} {t : Json} {keep : Bool}

/-- What a schema stands for is inlined in its place, without the metadata of a definition. -/
theorem StandsFor.inlined {s : Json} {members : Members}
    (h : StandsFor (definitionsOf schema) s (.obj members))
    (inlined : Inlines (definitionsOf (stripModelSchemaMetadata schema)) s t) :
    ∃ lefts, Inlines (definitionsOf (stripModelSchemaMetadata schema)) (.obj lefts) t ∧
      (∀ k ∈ structuralKeys, lefts.lookup k = members.lookup k) ∧
        (isObjectType members = false → lefts = members) ∧ refName lefts = refName members := by
  generalize stood : Json.obj members = target at h
  induction h with
  | refl =>
    subst stood
    exact ⟨members, inlined, fun _ _ => rfl, fun _ => rfl, rfl⟩
  | @step from' definition name _ isRef found object siblings h ih =>
    have stripped : (definitionsOf (stripModelSchemaMetadata schema)).lookup name =
        some (stripDefinition (.obj definition)) := by
      rw [definitionsOf_stripped, lookup_map fun _ => stripDefinition, found, Option.map_some]
    rw [stripDefinition] at stripped
    cases typed : isObjectType definition with
    | false =>
      rw [typed, if_neg (by decide)] at stripped
      exact ih (inlined.ref_inv isRef stripped) stood
    | true =>
      rw [typed, if_pos rfl] at stripped
      have noRef : ∀ d : Members, refName (updateKeys d (eraseKey "$ref" from')) = refName d := by
        intro d
        simp [refName]
      have outside : ∀ k ∈ structuralKeys, (eraseKey "$ref" from').lookup k = none := by
        intro k hk
        rw [lookup_eraseKey, siblings k hk, ite_self]
      have plain := (noRef definition).trans (object typed)
      cases h with
      | step again => rw [plain] at again; cases again
      | refl =>
        obtain rfl := Json.obj.inj stood
        refine ⟨_, inlined.ref_inv isRef stripped, fun k hk => ?_, fun untyped => ?_, ?_⟩
        · rw [lookup_updateKeys, lookup_updateKeys, outside k hk,
            lookup_stripObjectSchemaMetadata, if_pos (List.contains_iff_mem.mpr hk)]
        · rw [isObjectType, lookup_updateKeys, outside "type" (by decide), Option.none_or,
            ← isObjectType, typed] at untyped
          cases untyped
        · rw [plain, noRef, refName, lookup_stripObjectSchemaMetadata]
          rfl

end

/-! ## Keys of the emitted result -/

section

variable {T L : Type} {records : List (String × RecordDef T L)} {py : Pydantic T L}
  {m : RecordDef T L} {base : String} {fields : List (String × PyData L)} {ty : Ty T}
  {x : PyData L} {schema : Members} {t : Json} {keep : Bool}

/-- The class is emitted as a closed schema with the keys that an instance is dumped under. -/
theorem keysFit_record {defs defs' described lefts : Members} (found : records.lookup base = some m)
    (shape : DescribesRecord defs m described)
    (same : ∀ k ∈ structuralKeys, lefts.lookup k = described.lookup k)
    (plain : refName lefts = none) (inlined : Inlines defs' (.obj lefts) t)
    (aligned : ∀ f ∈ m.fields, f.ReadsItself py m fields) {json : Kept T L → Json}
    (each : ∀ k ∈ m.kept fields, ∀ s t keep, Describes defs k.ty s → Inlines defs' s t →
      KeysFit records k.ty (emit false keep t) (json k)) :
    KeysFit records (.record base) (emit false keep t)
      (.obj ((m.kept fields).map fun k => (k.name, json k))) := by
  obtain ⟨outs, emitted, under, object⟩ := emitted_plain false keep inlined plain
  rw [emitted]
  obtain ⟨ps, hps, declared, describedAt⟩ := shape.properties
  have type := (same "type" (by decide)).trans shape.type
  have properties := (same "properties" (by decide)).trans hps
  have schemas : ∀ p ∈ ps, ∀ s, p.2 ≠ .str s := by
    intro p hp s
    obtain ⟨f, -, -, h⟩ := describedAt p hp
    exact h.ne_str s
  have outType : outs.lookup "type" = some (.str "object") := by
    obtain ⟨absent, -⟩ | ⟨v, t', hv, inlined, found⟩ :=
      under "type" (by simp [IsOverwritten]) (by decide)
    · simp [absent] at type
    · obtain rfl := Option.some.inj (type.symm.trans hv)
      rw [found, emitted_str inlined]
  obtain ⟨t', inlinedPs, outProperties⟩ : ∃ t', Inlines defs' (.obj ps) t' ∧
      outs.lookup "properties" = some (emit false true t') := by
    obtain ⟨absent, -⟩ | ⟨v, t', hv, inlined, found⟩ :=
      under "properties" (by simp [IsOverwritten]) (by decide)
    · simp [absent] at properties
    · obtain rfl := Option.some.inj (properties.symm.trans hv)
      exact ⟨t', inlined, found⟩
  obtain ⟨os, hos⟩ : ∃ os, emit false true t' = .obj os := by
    obtain ⟨inner, rfl, -⟩ := inlinedPs.plain_inv (refName_of_schemas schemas)
    exact ⟨_, emit_obj⟩
  -- the schema under the name of a kept field is that of the field
  have at' : ∀ f ∈ m.fields, ∀ k, f.kept fields = some k → ∃ s t' keep, Describes defs f.ty s ∧
      Inlines defs' s t' ∧ os.lookup f.name = some (emit false keep t') := by
    intro f hf k kept
    have key := (aligned f hf).key ((RecordDef.name_mem_kept hf).mpr ⟨k, kept⟩)
    obtain ⟨p, hp⟩ := Option.isSome_iff_exists.mp (key ▸ declared f hf)
    obtain ⟨g, hg, sameKey, describedG⟩ := describedAt _ (mem_of_lookup hp)
    have own : g = f := by
      by_cases named : g.name ∈ (m.kept fields).map (·.name)
      · exact m.field_eq hg hf (((aligned g hg).key named).symm.trans sameKey)
      · have others := ((aligned g hg).absent named).2.2 g.key g.key_mem_keys
        rw [show g.key = f.name from sameKey] at others
        exact absurd ((RecordDef.name_mem_kept hf).mpr ⟨k, kept⟩) others
    obtain ⟨os', t'', hos', inlined', found⟩ := name_emitted (k := "properties") false inlinedPs
      schemas (.inl rfl) hp
    obtain rfl := Json.obj.inj (hos.symm.trans hos')
    exact ⟨p, t'', _, own ▸ describedG, inlined', found⟩
  have fieldOf : ∀ name v, ((m.kept fields).map fun k => (k.name, json k)).lookup name = some v →
      ∃ f ∈ m.fields, ∃ k, f.kept fields = some k ∧ f.name = name ∧ json k = v := by
    intro name v hv
    obtain ⟨k, hk, same⟩ := List.mem_map.mp (mem_of_lookup hv)
    obtain ⟨f, hf, kept⟩ := RecordDef.mem_kept.mp hk
    obtain ⟨x, -, -, rfl⟩ := FieldDef.kept_eq_some_iff.mp kept
    exact ⟨f, hf, _, kept, (Prod.mk.inj same).1, (Prod.mk.inj same).2⟩
  refine .record found ⟨outType, outProperties.trans (congrArg some hos),
    object (isObjectSchema_iff.mpr ⟨type, ps, properties⟩), ?_, ?_⟩ ?_
  · intro v hv
    obtain ⟨-, absent⟩ | ⟨w, t', hw, inlined, found⟩ :=
      under "required" (by simp [IsOverwritten]) (by decide)
    · simp [absent] at hv
    · obtain ⟨names, rfl, required⟩ :=
        shape.required w ((same "required" (by decide)).symm.trans hw)
      rw [emitted_texts inlined, hv] at found
      refine ⟨names, Option.some.inj found, fun name hname => ?_⟩
      obtain ⟨f, hf, rfl, required⟩ := required name hname
      have named : f.name ∈ (m.kept fields).map (·.name) := by
        by_contra unnamed
        simp [((aligned f hf).absent unnamed).1] at required
      rw [(aligned f hf).key named, lookup_isSome_iff_mem_map, List.map_map]
      exact named
  · intro name present
    obtain ⟨v, hv⟩ := Option.isSome_iff_exists.mp present
    obtain ⟨f, hf, k, kept, rfl, -⟩ := fieldOf name v hv
    obtain ⟨s, t', keep, -, -, found⟩ := at' f hf k kept
    rw [found]
    rfl
  · intro f hf p v hp hv
    obtain ⟨f', hf', k, kept, sameName, rfl⟩ := fieldOf f.name v hv
    obtain rfl := m.field_eq hf' hf sameName
    obtain ⟨s, t', keep, described, inlined, found⟩ := at' f' hf k kept
    obtain rfl := Option.some.inj (found.symm.trans hp)
    have hk := RecordDef.mem_kept.mpr ⟨f', hf, kept⟩
    obtain ⟨x, -, -, rfl⟩ := FieldDef.kept_eq_some_iff.mp kept
    exact each _ hk s t' keep described inlined

/-- The data of a value that reads back has the keys of its schema. -/
theorem ReadsBack.keysFit (laws : py.Documented records)
    (definitions : ∀ name m', records.lookup name = some m' →
      ∀ d, (definitionsOf schema).lookup name = some d →
        ∃ members, d = .obj members ∧ DescribesRecord (definitionsOf schema) m' members)
    (back : ReadsBack records py ty x) {s json : Json}
    (described : Describes (definitionsOf schema) ty s)
    (inlined : Inlines (definitionsOf (stripModelSchemaMetadata schema)) s t)
    (data : py.dumpJson ty x = some json) : KeysFit records ty (emit false keep t) json := by
  induction back generalizing s t keep json with
  | leaf => exact .leaf
  | @record base name m fields found isA computed aligned _ ih =>
    obtain ⟨js, _, dataAt, rfl⟩ := laws.dumpJson.record_inv found isA data
    rw [computed, List.map_nil, List.append_nil]
    cases described with
    | @record _ _ members stands isRef siblings defined =>
      obtain ⟨lefts, inlined, -, whole, -⟩ := stands.inlined inlined
      obtain rfl := whole (by rw [isObjectType, siblings "type" (by decide)])
      obtain ⟨d, hd⟩ := Option.isSome_iff_exists.mp defined
      obtain ⟨body, rfl, shape⟩ := definitions base m found d hd
      have stripped : (definitionsOf (stripModelSchemaMetadata schema)).lookup base =
          some (.obj (stripObjectSchemaMetadata body)) := by
        rw [definitionsOf_stripped, lookup_map fun _ => stripDefinition, hd, Option.map_some,
          stripDefinition, isObjectType, shape.type, if_pos (by simp)]
      have outside : ∀ k ∈ structuralKeys, (eraseKey "$ref" lefts).lookup k = none := by
        intro k hk
        rw [lookup_eraseKey, siblings k hk, ite_self]
      refine keysFit_record found shape (fun k hk => ?_) ?_ (inlined.ref_inv isRef stripped) aligned
        fun k hk s t keep described inlined => ih k hk described inlined (dataAt k hk)
      · rw [lookup_updateKeys, outside k hk, lookup_stripObjectSchemaMetadata,
          if_pos (List.contains_iff_mem.mpr hk)]
        rfl
      · rw [refName, lookup_updateKeys, lookup_eraseKey, if_pos rfl,
          lookup_stripObjectSchemaMetadata]
        rfl
  | @list firsts tys rest bounds xs typed bounded _ ih =>
    rw [laws.dumpJson.list, typed, Option.bind_some] at data
    obtain ⟨js, hjs, rfl⟩ := Option.map_eq_some_iff.mp data
    obtain ⟨j, dataAt, rfl⟩ := exists_of_mapM hjs
    have zipped := length_itemTys typed
    have size : ((tys.zip xs).map j).length = xs.length := by simp [zipped]
    cases described with
    | @list _ _ _ _ members stands plain type present each =>
      obtain ⟨lefts, inlined, -, whole, -⟩ := stands.inlined inlined
      obtain rfl := whole (by rw [isObjectType, type]; rfl)
      obtain ⟨outs, emitted, under, -⟩ := emitted_plain false keep inlined plain
      rw [emitted]
      refine .list (size.symm ▸ typed) (fun i hi => ?_) fun i ty p v hty hp hv => ?_
      · obtain ⟨p', hp'⟩ := Option.isSome_iff_exists.mp (present _ tys i _ typed
          (List.getElem?_eq_getElem (zipped.trans size.symm ▸ hi)))
        obtain ⟨t', -, found⟩ := itemSchema_emitted under hp'
        rw [found]
        rfl
      obtain ⟨p', hp'⟩ := Option.isSome_iff_exists.mp (present _ tys i ty typed hty)
      obtain ⟨t', inlined', found⟩ := itemSchema_emitted under hp'
      obtain rfl := Option.some.inj (found.symm.trans hp)
      rw [List.getElem?_map] at hv
      obtain ⟨q, hq, rfl⟩ := Option.map_eq_some_iff.mp hv
      obtain ⟨hq₁, -⟩ := List.getElem?_zip_eq_some.mp hq
      obtain rfl := Option.some.inj (hq₁.symm.trans hty)
      have mem := List.mem_of_getElem? hq
      exact ih q mem (each _ tys i _ p' typed hty hp') inlined' (dataAt q mem)
  | @dict ty bounds xs bounded _ ih =>
    rw [laws.dumpJson.dict] at data
    obtain ⟨js, hjs, rfl⟩ := Option.map_eq_some_iff.mp data
    obtain ⟨j, dataAt, rfl⟩ := exists_of_mapM_named hjs
    cases described with
    | @dict _ _ _ members stands plain unnamed item =>
      obtain ⟨lefts, inlined, same, -, ref⟩ := stands.inlined inlined
      obtain ⟨outs, emitted, under, -⟩ := emitted_plain false keep inlined (ref.trans plain)
      rw [emitted]
      refine .dict fun p hp v hv => ?_
      obtain ⟨y, hy, rfl⟩ := List.mem_map.mp hv
      have open' : ¬ IsOverwritten lefts "additionalProperties" := by
        rintro ⟨object, -⟩
        obtain ⟨-, ps, hps⟩ := isObjectSchema_iff.mp object
        rw [same "properties" (by decide), unnamed] at hps
        cases hps
      obtain ⟨-, absent⟩ | ⟨w, t', hw, inlined', found⟩ :=
        under "additionalProperties" open' (by decide)
      · simp [absent] at hp
      · obtain rfl := Option.some.inj (found.symm.trans hp)
        rw [same "additionalProperties" (by decide)] at hw
        exact ih y hy (item w hw) inlined' (dataAt y hy)
  | @union tys ty x mem serialized _ _ ih =>
    rw [laws.dumpJson.union, serialized, Option.bind_some] at data
    cases described with
    | @union _ _ members k options option stands plain untyped keyword offered mems each =>
      obtain ⟨lefts, inlined, -, whole, -⟩ := stands.inlined inlined
      obtain rfl := whole (by rw [isObjectType, untyped])
      obtain ⟨outs, emitted, under, -⟩ := emitted_plain false keep inlined plain
      rw [emitted]
      have special : ¬ IsOverwritten lefts k ∧ k ≠ "title" ∧ (k == "properties") = false := by
        obtain rfl | rfl := keyword <;> exact ⟨by simp [IsOverwritten], by decide, by decide⟩
      obtain ⟨absent, -⟩ | ⟨w, t', hw, inlined', found⟩ := under k special.1 special.2.1
      · simp [absent] at offered
      · obtain rfl := Option.some.inj (offered.symm.trans hw)
        obtain ⟨i, hi⟩ := List.mem_iff_getElem?.mp (mems ty mem)
        obtain ⟨os, t'', hos, inlined'', at'⟩ := item_emitted false false inlined' hi
        rw [special.2.2, hos] at found
        exact .union mem keyword found (List.mem_of_getElem? at')
          (ih (each ty mem) inlined'' data)
    | only _ each => exact .only mem (ih (each ty mem) inlined data)

end

/-! ## Publication -/

section

variable {T L : Type} {records : List (String × RecordDef T L)} {py : Pydantic T L}
  {m : RecordDef T L} {outputModel : String} {x : PyData L} {schema : Members}

/-- The root without its metadata. -/
theorem lookup_root_stripped {k : String} :
    (eraseKey "$defs" (stripModelSchemaMetadata schema)).lookup k =
      if structuralKeys.contains k then (eraseKey "$defs" schema).lookup k else none := by
  by_cases isDefs : k = "$defs"
  · simp [isDefs]
  · rw [lookup_eraseKey, lookup_eraseKey, if_neg isDefs, if_neg isDefs,
      lookup_stripModelSchemaMetadata isDefs, lookup_stripObjectSchemaMetadata]

theorem refName_root_stripped :
    refName (eraseKey "$defs" (stripModelSchemaMetadata schema)) = none := by
  rw [refName, lookup_root_stripped]
  rfl

/-- The published schema of a publishable model is closed, with the keys of the data. -/
theorem published_fits (laws : py.Documented records) (shape : DescribesModel records m schema)
    (found : records.lookup outputModel = some m) (root : refName (eraseKey "$defs" schema) = none)
    (back : ReadsBack records py (.record outputModel) x) {json out : Json} {stack : Nat}
    (data : py.dumpJson (.record outputModel) x = some json)
    (returned : schemaForModel stack schema false = .ok out) :
    KeysFit records (.record outputModel) out json := by
  obtain ⟨inlined, visited, rfl⟩ := schemaForModel_eq returned
  have hroot : Inlines (definitionsOf (stripModelSchemaMetadata schema))
      (rootOf (stripModelSchemaMetadata schema)) inlined := inlines_of_visit.1 visited
  obtain described | ⟨name, reference⟩ := shape.root
  · cases back with
    | @record _ name m' fields found' isA computed aligned each =>
      obtain rfl := Option.some.inj (found.symm.trans found')
      obtain ⟨js, _, dataAt, rfl⟩ := laws.dumpJson.record_inv found isA data
      rw [computed, List.map_nil, List.append_nil]
      refine keysFit_record found described (fun k hk => ?_) refName_root_stripped hroot aligned
        fun k hk s t keep described inlined =>
          (each k hk).keysFit laws shape.definitions described inlined (dataAt k hk)
      rw [lookup_root_stripped, if_pos (List.contains_iff_mem.mpr hk)]
  · have isRef : refName (eraseKey "$defs" schema) = some name :=
      refName_of_lookup (by rw [reference]; rfl)
    rw [isRef] at root
    cases root

/-- A published schema that is closed is of a publishable model. -/
theorem publishable_of_keysFit {out json : Json} {stack : Nat}
    (shape : DescribesModel records m schema)
    (returned : schemaForModel stack schema false = .ok out)
    (fits : KeysFit records (.record outputModel) out json) : Publishable schema := by
  obtain ⟨inlined, visited, rfl⟩ := schemaForModel_eq returned
  have hroot : Inlines (definitionsOf (stripModelSchemaMetadata schema))
      (rootOf (stripModelSchemaMetadata schema)) inlined := inlines_of_visit.1 visited
  refine ⟨?_, fun s reached => (InliningEnds.acyclic ⟨stack, ?_⟩ reached).2⟩
  · obtain described | ⟨name, reference⟩ := shape.root
    · exact described.plain
    · obtain ⟨outs, emitted, under, -⟩ := emitted_plain false false hroot refName_root_stripped
      rw [emitted] at fits
      cases fits with
      | record _ closes =>
        have type := closes.type
        obtain ⟨-, absent⟩ | ⟨v, t, hv, -⟩ :=
          under "type" (by simp [IsOverwritten]) (by decide)
        · rw [absent] at type
          cases type
        · rw [lookup_root_stripped, reference] at hv
          cases hv
  · rw [visited]
    exact refFree_of_visit visited

/-! ## Both outputs -/

theorem textsOf_map_str (names : List String) : textsOf (names.map .str) = names := by
  induction names with
  | nil => rfl
  | cons name names ih => rw [List.map_cons, textsOf, ih]

/-- The output of either builder has the keys of the output schema. -/
theorem closes_outputSchemaData (schema result : Json) (workspace : Option (Json × Json)) :
    Closes (outputSchemaData (workspace.map (·.1)) schema)
      (taskOutput (workspace.map (·.1)) schema) (taskOutput (workspace.map (·.2)) result) where
  type := rfl
  properties := rfl
  closed := rfl
  required v hv := by
    refine ⟨_, (Option.some.inj hv).symm, fun name hname => ?_⟩
    cases workspace with
    | none =>
      obtain rfl : name = "result" := by simpa using hname
      rfl
    | some w =>
      obtain rfl | rfl : name = "workspace" ∨ name = "result" := by simpa using hname
      · rfl
      · rfl
  declared k present := by
    cases workspace with
    | none => simpa [taskOutput, lookup_isSome_iff_mem_map] using present
    | some w => simpa [taskOutput, lookup_isSome_iff_mem_map] using present

section

variable {search : String → String → Prop} {ref : String → Json → Prop}

/-- The output schema accepts what the builders make of a result that it accepts. -/
theorem outputSchemaData_accepts {schema result : Json} {workspace : Option (Json × Json)}
    (accepted : accepts search unset ref schema result)
    (both : ∀ w ∈ workspace, accepts search unset ref w.1 w.2) :
    accepts search unset ref (.obj (outputSchemaData (workspace.map (·.1)) schema))
      (.obj (taskOutput (workspace.map (·.2)) result)) := by
  have only : OnlyKeywords ["type", "properties", "required", "additionalProperties"]
      (outputSchemaData (workspace.map (·.1)) schema) := by
    intro k _ other
    apply lookup_eq_none_of_not_mem
    simpa [outputSchemaData, objectSchema] using other
  refine accepts_object only rfl rfl rfl ?_ ?_
  · intro name hname
    rw [textsOf_map_str] at hname
    cases workspace <;> simp at hname <;> simp [taskOutput] <;> grind
  · intro name v hv
    have found := mem_of_lookup hv
    cases workspace with
    | none =>
      obtain ⟨rfl, rfl⟩ : name = "result" ∧ v = result := by simpa [taskOutput] using found
      exact ⟨schema, rfl, accepted⟩
    | some w =>
      obtain ⟨rfl, rfl⟩ | ⟨rfl, rfl⟩ :
          name = "workspace" ∧ v = w.2 ∨ name = "result" ∧ v = result := by
        simpa [taskOutput] using found
      · exact ⟨w.1, rfl, both w rfl⟩
      · exact ⟨schema, rfl, accepted⟩

end

end

/-- The contract holds of every instance that reads back where the class writes as the model and
the schema can be published, and only of these where keys are apart, derived classes declare no
field again and unions choose their own member. -/
theorem outputContract_readsBack {T L : Type} {records : List (String × RecordDef T L)}
    {py : Pydantic T L} {outputModel : String} {m : RecordDef T L} {x : PyData L}
    (laws : py.Documented records) (found : records.lookup outputModel = some m)
    (model : m.isModel) (returned : IsInstance records py outputModel x) :
    (Publishable (py.modelJsonSchema outputModel) → WritesAs records outputModel x →
      ReadsBack records py (.record outputModel) x → OutputContract records py outputModel x) ∧
    (Unambiguous records → Inherits records → ChoosesOwn records py →
      OutputContract records py outputModel x →
        Publishable (py.modelJsonSchema outputModel) ∧ WritesAs records outputModel x ∧
          ReadsBack records py (.record outputModel) x) := by
  obtain ⟨name, m', fields, rfl, found', isModel, isA, valid⟩ := returned
  have shape := laws.modelJsonSchema outputModel m found model
  have validated : validateResult records py outputModel (.record name fields) =
      (py.dump (.record name) (.record name fields)).bind (py.validate (.record outputModel)) := by
    rw [validateResult, found', Option.any_some, if_pos isModel]
  constructor
  · intro ⟨root, acyclic⟩ writes back
    obtain ⟨nothing, kept⟩ := writes m m' found found'
    obtain ⟨d, y, json, dumped, validatedAs, emitted, data⟩ := back.revalidates laws
    have computed : m.computed = [] := by
      cases back with
      | record found'' _ computed =>
        obtain rfl := Option.some.inj (found.symm.trans found'')
        exact computed
    have sameDump := (laws.dump.as_base found found' isA nothing computed kept).trans dumped
    have sameData := (laws.dumpJson.as_base found found' isA nothing computed kept).trans data
    obtain ⟨_, _, _, rfl⟩ := laws.dump.record_inv found isA dumped
    obtain ⟨outs, rfl, -⟩ := laws.validate.record outputModel m _ y found validatedAs
    obtain ⟨stack, out, returned⟩ := schemaForModel_returns shape.resolves acyclic false
    exact ⟨.record outputModel outs, json,
      by rw [validated, sameDump, Option.bind_some, validatedAs], emitted, sameData,
      stack, out, returned, published_fits laws shape found root back data returned,
      fun workspace => closes_outputSchemaData out json workspace⟩
  · rintro unambiguous inherits own
      ⟨y, json, validatedAs, emitted, data, stack, out, returned, fits, -⟩
    rw [validated] at validatedAs
    obtain ⟨d, dumped, validatedAs⟩ := Option.bind_eq_some_iff.mp validatedAs
    obtain ⟨_, _, _, rfl⟩ := laws.dump.record_inv found' (.inl rfl) dumped
    obtain ⟨outs, rfl, -⟩ := laws.validate.record outputModel m _ y found validatedAs
    obtain ⟨nothing, kept, computed, aligned, trips⟩ := aligned_of_validated laws found found'
      (.inl rfl) (unambiguous name outputModel m m' found found' isA)
      (inherits name outputModel m m' found found' isA) dumped validatedAs emitted data
    refine ⟨publishable_of_keysFit shape returned fits, fun m₁ m₂ h₁ h₂ => ?_,
      .record found isA computed aligned fun k hk => ?_⟩
    · obtain rfl := Option.some.inj (found.symm.trans h₁)
      obtain rfl := Option.some.inj (found'.symm.trans h₂)
      exact ⟨nothing, kept⟩
    · cases valid with
      | record found'' _ _ each =>
        obtain rfl := Option.some.inj (found'.symm.trans found'')
        obtain ⟨g, hg, keptG⟩ := RecordDef.mem_kept.mp (kept ▸ hk)
        obtain ⟨x, hx, -, rfl⟩ := FieldDef.kept_eq_some_iff.mp keptG
        exact readsBack_of_revalidates laws unambiguous own (each g hg x hx) (trips _ hk)

/-! ## Models of integers -/

def countField (aliases : List String) : FieldDef Unit Int :=
  { name := "count", aliases := aliases, ty := .leaf (), required := true }

def countModel (aliases : List String) : RecordDef Unit Int where
  isModel := true
  fields := [countField aliases]
  nodup := by simp

/-- A model with a list of items. -/
def listModel : RecordDef Unit Int where
  isModel := true
  fields := [{
    name := "items"
    ty := .list [] (some (.record "Item")) fun _ => true
    required := true
  }]
  nodup := by simp

def itemRecords (item : RecordDef Unit Int) : List (String × RecordDef Unit Int) :=
  [("Result", listModel), ("Item", item)]

def countSchema (key : String) : Members :=
  modelSchema "Item" [(key, .obj [("title", .str key.capitalize), ("type", .str "integer")])] [key]

def listBody : Members :=
  modelSchema "Result" [("items", .obj [("items", .obj [("$ref", .str "#/$defs/Item")]),
    ("title", .str "Items"), ("type", .str "array")])] ["items"]

def listSchema (key : String) : Members :=
  ("$defs", .obj [("Item", .obj (countSchema key))]) :: listBody

def itemPydantic (item : RecordDef Unit Int) (key : String) : Pydantic Unit Int :=
  interpreter (itemRecords item) fun name =>
    if name = "Result" then listSchema key else countSchema key

def itemsResult : PyData Int :=
  .record "Result" [("items", .list [.record "Item" [("count", .leaf 3)]])]

theorem listSchema_sites : ∀ key ∈ ["count", "n"],
    allSites (rootOf (countSchema key)) (definitionsOf (countSchema key)) = [] ∧
      allSites (rootOf (listSchema key)) (definitionsOf (listSchema key)) = [⟨"Item", ∅⟩] := by
  decide +kernel

section

variable {item : RecordDef Unit Int} {key : String}

theorem describesRecord_count {defs : Members} {aliases : List String}
    (fields : item.fields = [countField aliases]) (named : (countField aliases).key = key) :
    DescribesRecord defs item (countSchema key) := by
  refine describesRecord_modelSchema ?_ ?_ ?_
  · simp [fields, named]
  · simp only [fields, List.mem_singleton, forall_eq, exists_eq_left]
    exact ⟨named, .leaf fun _ => Json.noConfusion⟩
  · simp only [fields, List.mem_singleton, forall_eq, exists_eq_left]
    exact ⟨named, rfl⟩

theorem describesRecord_list {defs : Members} (defined : (defs.lookup "Item").isSome) :
    DescribesRecord defs listModel listBody := by
  refine describesRecord_modelSchema ?_ ?_ ?_
  · simp [listModel, FieldDef.key]
  · simp only [listModel, List.mem_singleton, forall_eq, exists_eq_left]
    refine ⟨rfl, .list .refl rfl rfl (fun n tys i ty _ _ => rfl)
      fun n tys i ty p typed hty hp => ?_⟩
    obtain rfl := Option.some.inj hp
    obtain rfl := eq_of_itemTys typed hty
    exact .record .refl rfl (by decide) defined
  · simp [listModel, FieldDef.key]

theorem itemPydantic_documented {aliases : List String} (mem : key ∈ ["count", "n"])
    (fields : item.fields = [countField aliases]) (named : (countField aliases).key = key) :
    (itemPydantic item key).Documented (itemRecords item) := by
  obtain ⟨flat, sites⟩ := listSchema_sites key mem
  have described {defs : Members} : DescribesRecord defs item (countSchema key) :=
    describesRecord_count fields named
  refine interpreter_documented _ _ fun name m found _ => ?_
  obtain ⟨rfl, rfl⟩ | ⟨rfl, rfl⟩ :
      name = "Result" ∧ m = listModel ∨ name = "Item" ∧ m = item := by
    simpa [itemRecords] using mem_of_lookup found
  · refine ⟨fun name m found d hd => ?_, .inl (describesRecord_list rfl), ?_⟩
    · obtain ⟨rfl, rfl⟩ : name = "Item" ∧ d = .obj (countSchema key) := by
        simpa [definitionsOf, listSchema] using mem_of_lookup hd
      obtain rfl : item = m := Option.some.inj found
      exact ⟨_, rfl, described⟩
    · rw [if_pos rfl, sites]
      intro s hs
      obtain rfl := List.mem_singleton.mp hs
      exact ⟨_, rfl⟩
  · rw [if_neg (by decide)]
    refine ⟨fun name m _ d hd => (by cases hd), .inl described, ?_⟩
    rw [flat]
    intro s hs
    cases hs

end

theorem itemsResult_instance {item : RecordDef Unit Int} {key : String} {aliases : List String}
    (fields : item.fields = [countField aliases]) :
    IsInstance (itemRecords item) (itemPydantic item key) "Result" itemsResult := by
  refine ⟨_, _, _, rfl, rfl, rfl, .inl rfl, .record rfl (.inl rfl) ?_ ?_⟩
  · intro f hf absent
    obtain rfl := List.mem_singleton.mp hf
    cases absent
  · intro f hf x hx
    obtain rfl := List.mem_singleton.mp hf
    obtain rfl := Option.some.inj hx
    refine .list rfl rfl fun p hp => ?_
    obtain rfl := List.mem_singleton.mp hp
    refine .record rfl (.inl rfl) ?_ ?_
    · intro f hf absent
      obtain rfl := List.mem_singleton.mp (fields ▸ hf)
      cases absent
    · intro f hf x hx
      obtain rfl := List.mem_singleton.mp (fields ▸ hf)
      exact .leaf

theorem listSchema_publishable : Publishable (listSchema "count") := by
  refine ⟨rfl, fun s reached => (InliningEnds.acyclic ⟨9, ?_⟩ reached).2⟩
  rfl

theorem itemsResult_readsBack :
    ReadsBack (itemRecords (countModel [])) (itemPydantic (countModel []) "count")
      (.record "Result") itemsResult := by
  have itself {m : RecordDef Unit Int} {fields : List (String × PyData Int)} {f : FieldDef Unit Int}
      (key : f.key = f.name) (kept : f.name ∈ (m.kept fields).map (·.name))
      (stays : f.excludes = fun _ => false) :
      f.ReadsItself (itemPydantic (countModel []) "count") m fields :=
    ⟨fun _ => key, fun absent => absurd kept absent, fun _ _ _ _ _ _ _ => by rw [stays]⟩
  refine .record rfl (.inl rfl) rfl (fun f hf => ?_) fun k hk => ?_
  · obtain rfl := List.mem_singleton.mp hf
    exact itself rfl List.mem_cons_self rfl
  · obtain rfl := List.mem_singleton.mp hk
    refine .list rfl rfl fun p hp => ?_
    obtain rfl := List.mem_singleton.mp hp
    refine .record rfl (.inl rfl) rfl (fun f hf => ?_) fun k hk => ?_
    · obtain rfl := List.mem_singleton.mp hf
      exact itself rfl List.mem_cons_self rfl
    · obtain rfl := List.mem_singleton.mp hk
      exact .leaf ⟨.leaf 3, .leaf 3, .num 3, rfl, rfl, rfl, rfl⟩

theorem itemsResult_contract :
    OutputContract (itemRecords (countModel [])) (itemPydantic (countModel []) "count") "Result"
      itemsResult := by
  have writes : WritesAs (itemRecords (countModel [])) "Result" itemsResult := by
    intro m m' found found'
    obtain rfl := Option.some.inj found
    obtain rfl := Option.some.inj found'
    exact ⟨rfl, rfl⟩
  have laws : (itemPydantic (countModel []) "count").Documented (itemRecords (countModel [])) :=
    itemPydantic_documented (by simp) rfl rfl
  exact (outputContract_readsBack laws rfl rfl (itemsResult_instance rfl)).1
    listSchema_publishable writes itemsResult_readsBack

/-! ## Models without agreement -/

/-- The same with a computed field. -/
def doubledModel : RecordDef Unit Int where
  isModel := true
  fields := [countField []]
  computed := [⟨"double", fun _ => some (.leaf 6), fun _ => some (.num 6)⟩]
  nodup := by decide

/-- A model with a list of itself. -/
def treeModel : RecordDef Unit Int where
  isModel := true
  fields := [countField [], {
    name := "children"
    ty := .list [] (some (.record "Tree")) fun _ => true
    required := false
    default := some (.list [])
  }]
  nodup := by decide

def treeSchema : Members :=
  [("$defs", .obj [("Tree", .obj (modelSchema "Tree"
    [("count", .obj [("title", .str "Count"), ("type", .str "integer")]),
      ("children", .obj [("default", .arr []), ("items", .obj [("$ref", .str "#/$defs/Tree")]),
        ("title", .str "Children"), ("type", .str "array")])] ["count"]))]),
    ("$ref", .str "#/$defs/Tree")]

/-- A model derived from the one of a count, with a field more. -/
def pricedModel : RecordDef Unit Int where
  isModel := true
  bases := ["Item"]
  fields := [countField [], { name := "price", ty := .leaf (), required := true }]
  nodup := by decide

def pricedSchema : Members :=
  modelSchema "Priced" [("count", .obj [("title", .str "Count"), ("type", .str "integer")]),
    ("price", .obj [("title", .str "Price"), ("type", .str "integer")])] ["count", "price"]

def treePydantic : Pydantic Unit Int := interpreter [("Tree", treeModel)] fun _ => treeSchema

def pricedRecords : List (String × RecordDef Unit Int) :=
  [("Item", countModel []), ("Priced", pricedModel)]

def pricedPydantic : Pydantic Unit Int :=
  interpreter pricedRecords fun name => if name = "Item" then countSchema "count" else pricedSchema

theorem treePydantic_documented : treePydantic.Documented [("Tree", treeModel)] := by
  refine interpreter_documented _ _ fun name m found _ => ?_
  obtain ⟨rfl, rfl⟩ : name = "Tree" ∧ m = treeModel := by simpa using mem_of_lookup found
  refine ⟨fun name m found d hd => ?_, .inr ⟨"Tree", rfl⟩, ?_⟩
  · obtain ⟨rfl, rfl⟩ : name = "Tree" ∧ m = treeModel := by simpa using mem_of_lookup found
    refine ⟨_, (Option.some.inj hd).symm, describesRecord_modelSchema ?_ ?_ ?_⟩
    · simp [treeModel, countField, FieldDef.key]
    · intro p hp
      obtain rfl | rfl := List.mem_pair.mp hp
      · exact ⟨_, List.mem_cons_self, rfl, .leaf fun _ => Json.noConfusion⟩
      · refine ⟨_, List.mem_cons_of_mem _ List.mem_cons_self, rfl, .list .refl rfl rfl
          (fun n tys i ty _ _ => rfl) fun n tys i ty p typed hty hp => ?_⟩
        obtain rfl := Option.some.inj hp
        obtain rfl := eq_of_itemTys typed hty
        exact .record .refl rfl (by decide) rfl
    · simp [treeModel, countField, FieldDef.key]
  · have sites : allSites (rootOf treeSchema) (definitionsOf treeSchema) =
        [⟨"Tree", ∅⟩, ⟨"Tree", ∅⟩] := by decide +kernel
    rw [sites]
    intro s hs
    obtain rfl : s = ⟨"Tree", ∅⟩ := by simpa using hs
    exact ⟨_, rfl⟩

theorem pricedPydantic_documented : pricedPydantic.Documented pricedRecords := by
  refine interpreter_documented _ _ fun name m found _ => ?_
  obtain ⟨rfl, rfl⟩ | ⟨rfl, rfl⟩ :
      name = "Item" ∧ m = countModel [] ∨ name = "Priced" ∧ m = pricedModel := by
    simpa [pricedRecords] using mem_of_lookup found
  · refine ⟨fun name m _ d hd => (by cases hd), .inl (describesRecord_count rfl rfl), ?_⟩
    rw [if_pos rfl, (listSchema_sites "count" (by simp)).1]
    intro s hs
    cases hs
  · refine ⟨fun name m _ d hd => (by cases hd), .inl (describesRecord_modelSchema ?_ ?_ ?_), ?_⟩
    · simp [pricedModel, countField, FieldDef.key]
    · intro p hp
      obtain rfl | rfl := List.mem_pair.mp hp
      · exact ⟨_, List.mem_cons_self, rfl, .leaf fun _ => Json.noConfusion⟩
      · exact ⟨_, List.mem_cons_of_mem _ List.mem_cons_self, rfl,
          .leaf fun _ => Json.noConfusion⟩
    · simp [pricedModel, countField, FieldDef.key]
    · have sites : allSites (rootOf pricedSchema) (definitionsOf pricedSchema) = [] := by
        decide +kernel
      rw [if_neg (by decide), sites]
      intro s hs
      cases hs

/-- An instance of an output model with documented functions, without the contract. -/
def Breaks {T L : Type} (records : List (String × RecordDef T L)) (py : Pydantic T L)
    (outputModel : String) (x : PyData L) : Prop :=
  py.Documented records ∧ IsInstance records py outputModel x ∧
    ¬ OutputContract records py outputModel x

/-- An alias and a computed field below the top, a model that refers to itself, and an instance
of a derived class. -/
theorem contract_broken :
    Breaks (itemRecords (countModel ["n"])) (itemPydantic (countModel ["n"]) "n") "Result"
        itemsResult ∧
      Breaks (itemRecords doubledModel) (itemPydantic doubledModel "count") "Result"
        itemsResult ∧
      Breaks [("Tree", treeModel)] treePydantic "Tree"
        (.record "Tree" [("count", .leaf 1), ("children", .list [])]) ∧
      Breaks pricedRecords pricedPydantic "Item"
        (.record "Priced" [("count", .leaf 3), ("price", .leaf 5)]) := by
  have refused {records : List (String × RecordDef Unit Int)} {py : Pydantic Unit Int}
      {outputModel : String} {x : PyData Int} (h : validateResult records py outputModel x = none) :
      ¬ OutputContract records py outputModel x := by
    rintro ⟨result, json, validated, -⟩
    rw [h] at validated
    cases validated
  refine ⟨⟨itemPydantic_documented (by simp) rfl rfl, itemsResult_instance rfl, refused rfl⟩,
    ⟨itemPydantic_documented (by simp) rfl rfl, itemsResult_instance rfl, refused rfl⟩,
    ⟨treePydantic_documented, ?_, ?_⟩, ⟨pricedPydantic_documented, ?_, refused rfl⟩⟩
  · refine ⟨_, _, _, rfl, rfl, rfl, .inl rfl, .record rfl (.inl rfl) ?_ ?_⟩
    · intro f hf absent
      obtain rfl | rfl := List.mem_pair.mp hf <;> cases absent
    · intro f hf x hx
      obtain rfl | rfl := List.mem_pair.mp hf
      · exact .leaf
      · obtain rfl := Option.some.inj hx
        exact .list rfl rfl fun p hp => (by cases hp)
  · rintro ⟨result, json, -, -, -, stack, schema, returned, fits, -⟩
    have shape := treePydantic_documented.modelJsonSchema "Tree" treeModel rfl rfl
    have root := (publishable_of_keysFit shape returned fits).1
    cases root
  · refine ⟨_, _, _, rfl, rfl, rfl, .inr ⟨_, rfl, List.mem_cons_self⟩, .record rfl (.inl rfl) ?_ ?_⟩
    · intro f hf absent
      obtain rfl | rfl := List.mem_pair.mp hf <;> cases absent
    · intro f hf x hx
      obtain rfl | rfl := List.mem_pair.mp hf <;> exact .leaf

end Perago
