import Perago.JsonSchema
import Perago.Taskdef.Emitted

/-!
# Emitted positions

The schema positions of a stripped schema that are emitted, found by the keywords
that hold schemas, and what the keywords of an inlined mapping are emitted as.
-/

namespace Perago

/-- `additionalProperties` of an object schema, which is set by the last rewrite. -/
def IsOverwritten (members : Members) (k : String) : Prop :=
  isObjectSchema members ∧ k = "additionalProperties"

/-! ## Positions -/

/-- A schema position below `root` and the one below `out` that it became. A reference stands
for its definition under its siblings. -/
inductive SchemaPair (defs : Members) (root out : Json) : Json → Json → Prop
  | root : SchemaPair defs root out root out
  | ref {members definition : Members} {name : String} {o : Json}
      (h : SchemaPair defs root out (.obj members) o) (isRef : refName members = some name)
      (found : defs.lookup name = some (.obj definition)) :
      SchemaPair defs root out (.obj (updateKeys definition (eraseKey "$ref" members))) o
  | named {members outs ps os : Members} {k name : String} {p o : Json}
      (h : SchemaPair defs root out (.obj members) (.obj outs)) (plain : refName members = none)
      (keyword : k ∈ nameMapKeywords) (names : members.lookup k = some (.obj ps))
      (outNames : outs.lookup k = some (.obj os)) (schema : ps.lookup name = some p)
      (outSchema : os.lookup name = some o) : SchemaPair defs root out p o
  | sub {members outs : Members} {k : String} {p o : Json}
      (h : SchemaPair defs root out (.obj members) (.obj outs)) (plain : refName members = none)
      (keyword : k ∈ subschemaKeywords) (kept : ¬ IsOverwritten members k)
      (schema : members.lookup k = some p) (outSchema : outs.lookup k = some o) :
      SchemaPair defs root out p o
  | item {members outs : Members} {ps os : List Json} {k : String} {i : Nat} {p o : Json}
      (h : SchemaPair defs root out (.obj members) (.obj outs)) (plain : refName members = none)
      (keyword : k ∈ schemaListKeywords) (schemas : members.lookup k = some (.arr ps))
      (outSchemas : outs.lookup k = some (.arr os)) (schema : ps[i]? = some p)
      (outSchema : os[i]? = some o) : SchemaPair defs root out p o

/-- A schema position below `root` that is emitted; `keep` where it is named `properties`. -/
inductive SchemaAt (defs : Members) (root : Json) : Bool → Json → Prop
  | root : SchemaAt defs root false root
  | ref {members definition : Members} {name : String} {keep : Bool}
      (h : SchemaAt defs root keep (.obj members)) (isRef : refName members = some name)
      (found : defs.lookup name = some (.obj definition)) :
      SchemaAt defs root keep (.obj (updateKeys definition (eraseKey "$ref" members)))
  | named {members ps : Members} {k name : String} {p : Json} {keep : Bool}
      (h : SchemaAt defs root keep (.obj members)) (plain : refName members = none)
      (keyword : k ∈ nameMapKeywords) (kept : k = "properties" ∨ name ≠ "title")
      (names : members.lookup k = some (.obj ps)) (schema : ps.lookup name = some p) :
      SchemaAt defs root (name == "properties") p
  | sub {members : Members} {k : String} {p : Json} {keep : Bool}
      (h : SchemaAt defs root keep (.obj members)) (plain : refName members = none)
      (keyword : k ∈ subschemaKeywords) (kept : ¬ IsOverwritten members k)
      (schema : members.lookup k = some p) : SchemaAt defs root false p
  | item {members : Members} {ps : List Json} {k : String} {i : Nat} {p : Json} {keep : Bool}
      (h : SchemaAt defs root keep (.obj members)) (plain : refName members = none)
      (keyword : k ∈ schemaListKeywords) (schemas : members.lookup k = some (.arr ps))
      (schema : ps[i]? = some p) : SchemaAt defs root false p

/-- What stands under the names of a name map are schemas, not texts. -/
def NamesSchemas (defs : Members) (root : Json) : Prop :=
  ∀ keep members, SchemaAt defs root keep (.obj members) → refName members = none →
    ∀ k ∈ nameMapKeywords, ∀ names, members.lookup k = some (.obj names) →
      ∀ m ∈ names, ∀ s, m.2 ≠ .str s

/-! ## Inlined mappings -/

variable {defs members outs : Members} {root out : Json} {allowExtra keep : Bool}

theorem Inlines.plain_inv {t : Json} (h : Inlines defs (.obj members) t)
    (plain : refName members = none) :
    ∃ outs, t = .obj outs ∧ ∀ k,
      (members.lookup k = none ∧ outs.lookup k = none) ∨
        ∃ v o, members.lookup k = some v ∧ outs.lookup k = some o ∧ Inlines defs v o := by
  cases h with
  | scalar scalar => cases scalar
  | obj plain keys each => exact ⟨_, rfl, Inlines.lookup keys each⟩
  | ref isRef => simp [plain] at isRef

theorem Inlines.ref_inv {t : Json} {name : String} {definition : Members}
    (h : Inlines defs (.obj members) t) (isRef : refName members = some name)
    (found : defs.lookup name = some (.obj definition)) :
    Inlines defs (.obj (updateKeys definition (eraseKey "$ref" members))) t := by
  cases h with
  | scalar scalar => cases scalar
  | obj plain => simp [plain] at isRef
  | ref isRef' found' expanded =>
    obtain rfl := Option.some.inj (isRef.symm.trans isRef')
    rw [found] at found'
    cases found'
    exact expanded

theorem Inlines.obj_iff {v o : Json} (h : Inlines defs v o) :
    (∃ members, v = .obj members) ↔ ∃ outs, o = .obj outs := by
  refine ⟨h.obj_of_obj, fun ⟨outs, ho⟩ => ?_⟩
  cases h with
  | scalar => exact ⟨outs, ho⟩
  | arr => cases ho
  | obj => exact ⟨_, rfl⟩
  | ref => exact ⟨_, rfl⟩

theorem Inlines.str_iff {v o : Json} {s : String} (h : Inlines defs v o) :
    v = .str s ↔ o = .str s := by
  constructor
  · rintro rfl
    cases h
    rfl
  · rintro rfl
    exact h.eq_str

theorem isObjectSchema_iff : isObjectSchema members ↔
    members.lookup "type" = some (.str "object") ∧
      ∃ ps, members.lookup "properties" = some (.obj ps) := by
  rw [isObjectSchema, isObjectType, Bool.and_eq_true]
  refine and_congr ?_ ?_
  · split
    · rename_i t ht
      simp [ht]
    · rename_i other
      exact iff_of_false (by decide) fun h => other _ h
  · split
    · rename_i ps hps
      simp [hps]
    · rename_i other
      refine iff_of_false (by decide) ?_
      rintro ⟨ps, h⟩
      exact other ps h

/-- Inlining does not make or unmake an object schema. -/
theorem isObjectSchema_of_lookup
    (h : ∀ k, (members.lookup k = none ∧ outs.lookup k = none) ∨
      ∃ v o, members.lookup k = some v ∧ outs.lookup k = some o ∧ Inlines defs v o) :
    isObjectSchema outs = isObjectSchema members := by
  rw [Bool.eq_iff_iff, isObjectSchema_iff, isObjectSchema_iff]
  refine and_congr ?_ ?_
  · obtain ⟨hm, ho⟩ | ⟨v, o, hv, ho, hvo⟩ := h "type"
    · rw [hm, ho]
    · rw [hv, ho, Option.some.injEq, Option.some.injEq, hvo.str_iff]
  · obtain ⟨hm, ho⟩ | ⟨v, o, hv, ho, hvo⟩ := h "properties"
    · rw [hm, ho]
    · simp only [hv, ho, Option.some.injEq]
      exact hvo.obj_iff.symm

/-- What a plain mapping is emitted as. -/
theorem lookup_emitted (allowExtra keep : Bool) {k : String}
    (h : ∀ k, (members.lookup k = none ∧ outs.lookup k = none) ∨
      ∃ v o, members.lookup k = some v ∧ outs.lookup k = some o ∧ Inlines defs v o)
    (kept : ¬ IsOverwritten members k) (stays : keep = true ∨ k ≠ "title") :
    (members.lookup k = none ∧ (emitMembers allowExtra keep outs).lookup k = none) ∨
      ∃ v t, members.lookup k = some v ∧ Inlines defs v t ∧
        (emitMembers allowExtra keep outs).lookup k =
          some (emit allowExtra (k == "properties") t) := by
  have plainly : (emitMembers allowExtra keep outs).lookup k =
      (outs.lookup k).map (emit allowExtra (k == "properties")) := by
    rw [IsOverwritten] at kept
    rw [lookup_emitMembers, isObjectSchema_of_lookup h, if_neg kept, if_neg]
    rintro ⟨hkeep, htitle⟩
    obtain hk | hk := stays
    · simp [hkeep] at hk
    · exact hk htitle
  obtain ⟨hm, ho⟩ | ⟨v, t, hv, ht, hvt⟩ := h k
  · exact .inl ⟨hm, by rw [plainly, ho]; rfl⟩
  · exact .inr ⟨v, t, hv, hvt, by rw [plainly, ht]; rfl⟩

/-- A name map is not a reference, and what it is inlined to is no object schema. -/
theorem refName_of_schemas (h : ∀ m ∈ members, ∀ s, m.2 ≠ .str s) : refName members = none := by
  unfold refName
  split
  · rename_i ref href
    exact absurd rfl (h _ (mem_of_lookup href) ref)
  · rfl

theorem not_isObjectSchema_of_schemas (h : ∀ m ∈ members, ∀ s, m.2 ≠ .str s) :
    ¬ isObjectSchema members := by
  rw [isObjectSchema_iff]
  rintro ⟨typed, -⟩
  exact h _ (mem_of_lookup typed) _ rfl

/-! ## Stripped metadata -/

section

variable {schema : Members} {k : String} {v : Json}

theorem lookup_stripObjectSchemaMetadata : (stripObjectSchemaMetadata members).lookup k =
    if structuralKeys.contains k then members.lookup k else none :=
  lookup_filter fun k => structuralKeys.contains k

theorem obj_of_stripDefinition {d : Members} (h : stripDefinition v = .obj d) :
    ∃ definition, v = .obj definition := by
  cases v with
  | obj definition => exact ⟨definition, rfl⟩
  | _ => cases h

theorem definitionsOf_stripped : definitionsOf (stripModelSchemaMetadata schema) =
    (definitionsOf schema).map fun m => (m.1, stripDefinition m.2) := by
  have kept : (stripObjectSchemaMetadata schema).lookup "$defs" = schema.lookup "$defs" := by
    rw [lookup_stripObjectSchemaMetadata, if_pos (by decide)]
  rw [definitionsOf, definitionsOf, stripModelSchemaMetadata]
  cases hdefs : schema.lookup "$defs" with
  | none => simp [kept, hdefs]
  | some defs => cases defs <;> simp [kept, hdefs]

theorem lookup_stripModelSchemaMetadata (other : k ≠ "$defs") :
    (stripModelSchemaMetadata schema).lookup k = (stripObjectSchemaMetadata schema).lookup k := by
  unfold stripModelSchemaMetadata
  split
  · rw [lookup_setKey, if_neg other]
  · rfl

theorem lookup_stripped {name : String} {d : Json}
    (h : (definitionsOf (stripModelSchemaMetadata schema)).lookup name = some d) :
    ∃ definition, (definitionsOf schema).lookup name = some definition ∧
      stripDefinition definition = d := by
  rw [definitionsOf_stripped, lookup_map fun _ => stripDefinition] at h
  exact Option.map_eq_some_iff.mp h

end

/-! ## Keywords and names -/

/-- A keyword of a position is emitted from what it is inlined to. -/
theorem keyword_emitted (allowExtra keep : Bool) {t v : Json} {k : String}
    (h : Inlines defs (.obj members) t) (plain : refName members = none)
    (kept : ¬ IsOverwritten members k) (stays : keep = true ∨ k ≠ "title")
    (hv : members.lookup k = some v) :
    ∃ outs t', emit allowExtra keep t = .obj outs ∧ Inlines defs v t' ∧
      outs.lookup k = some (emit allowExtra (k == "properties") t') := by
  obtain ⟨inner, rfl, parts⟩ := h.plain_inv plain
  obtain ⟨absent, -⟩ | ⟨v', t', hv', hvt, found⟩ := lookup_emitted allowExtra keep parts
    kept stays
  · rw [absent] at hv
    cases hv
  · obtain rfl := Option.some.inj (hv'.symm.trans hv)
    exact ⟨_, t', emit_obj, hvt, found⟩

/-- A name of a name map is emitted likewise. -/
theorem name_emitted (allowExtra : Bool) {t p : Json} {ps : Members} {k name : String}
    (h : Inlines defs (.obj ps) t) (schemas : ∀ m ∈ ps, ∀ s, m.2 ≠ .str s)
    (kept : k = "properties" ∨ name ≠ "title") (hp : ps.lookup name = some p) :
    ∃ outs t', emit allowExtra (k == "properties") t = .obj outs ∧ Inlines defs p t' ∧
      outs.lookup name = some (emit allowExtra (name == "properties") t') :=
  keyword_emitted allowExtra _ h (refName_of_schemas schemas)
    (fun h => not_isObjectSchema_of_schemas schemas h.1) (kept.imp (fun h => by simp [h]) id) hp

theorem lookup_title_emitted {t : Json} {outs : Members} (h : Inlines defs (.obj members) t)
    (plain : refName members = none) (emitted : emit allowExtra false t = .obj outs) :
    outs.lookup "title" = none := by
  obtain ⟨inner, rfl, -⟩ := h.plain_inv plain
  rw [emit_obj, Json.obj.injEq] at emitted
  rw [← emitted, lookup_emitMembers, if_neg (by simp), if_pos ⟨rfl, rfl⟩]

/-- An item of a list of schemas is emitted from what it is inlined to. -/
theorem item_emitted (allowExtra keep : Bool) {t p : Json} {ps : List Json} {i : Nat}
    (h : Inlines defs (.arr ps) t) (hp : ps[i]? = some p) :
    ∃ outs t', emit allowExtra keep t = .arr outs ∧ Inlines defs p t' ∧
      outs[i]? = some (emit allowExtra keep t') := by
  cases h with
  | scalar scalar => cases scalar
  | @arr _ ts length each =>
    have hi : i < ts.length := by
      obtain ⟨hi, -⟩ := List.getElem?_eq_some_iff.mp hp
      omega
    refine ⟨_, ts[i], emit_arr ts, each i p _ hp (List.getElem?_eq_getElem hi), ?_⟩
    rw [List.getElem?_map, List.getElem?_eq_getElem hi, Option.map_some]

theorem ne_title_of_nameMap {k : String} (h : k ∈ nameMapKeywords) : k ≠ "title" := by
  rintro rfl
  simp [nameMapKeywords] at h

theorem not_overwritten_of_nameMap {k : String} (h : k ∈ nameMapKeywords) :
    ¬ IsOverwritten members k := by
  rintro ⟨-, rfl⟩
  simp [nameMapKeywords] at h

theorem subschema_not_special {k : String} (h : k ∈ subschemaKeywords) :
    k ≠ "title" ∧ (k == "properties") = false := by
  constructor
  · rintro rfl
    simp [subschemaKeywords] at h
  · rw [beq_eq_false_iff_ne]
    rintro rfl
    simp [subschemaKeywords] at h

theorem schemaList_not_special (members : Members) {k : String} (h : k ∈ schemaListKeywords) :
    k ≠ "title" ∧ (k == "properties") = false ∧ ¬ IsOverwritten members k := by
  refine ⟨?_, ?_, ?_⟩
  · rintro rfl
    simp [schemaListKeywords] at h
  · rw [beq_eq_false_iff_ne]
    rintro rfl
    simp [schemaListKeywords] at h
  · rintro ⟨-, rfl⟩
    simp [schemaListKeywords] at h

/-! ## Pairs and positions -/

section

variable (shaped : NamesSchemas defs root) {inlined : Json} (hroot : Inlines defs root inlined)

include shaped hroot

/-- The second half of a pair is emitted from what its first half is inlined to. -/
theorem schemaPair_emitted {p o : Json}
    (h : SchemaPair defs root (emit allowExtra false inlined) p o) :
    ∃ keep t, SchemaAt defs root keep p ∧ Inlines defs p t ∧ o = emit allowExtra keep t := by
  induction h with
  | root => exact ⟨false, inlined, .root, hroot, rfl⟩
  | ref _ isRef found ih =>
    obtain ⟨keep, t, at', ht, rfl⟩ := ih
    exact ⟨keep, t, at'.ref isRef found, ht.ref_inv isRef found, rfl⟩
  | @named members outs ps os k name p o _ plain keyword names outNames schema outSchema ih =>
    obtain ⟨keep, t, at', ht, ho⟩ := ih
    have schemas := shaped keep _ at' plain k keyword ps names
    obtain ⟨outs', t', ho', hpt, found⟩ := keyword_emitted allowExtra keep ht
      plain (not_overwritten_of_nameMap keyword) (.inr (ne_title_of_nameMap keyword)) names
    obtain rfl := Json.obj.inj (ho.trans ho')
    have map := (Option.some.inj (found.symm.trans outNames))
    have kept : k = "properties" ∨ name ≠ "title" := by
      by_contra not
      obtain ⟨other, rfl⟩ : k ≠ "properties" ∧ name = "title" := by simpa using not
      rw [beq_eq_false_iff_ne.mpr other] at map
      rw [lookup_title_emitted hpt (refName_of_schemas schemas) map] at outSchema
      cases outSchema
    obtain ⟨os', t'', hos, hpt', found'⟩ := name_emitted allowExtra hpt schemas
      kept schema
    obtain rfl := Json.obj.inj (map.symm.trans hos)
    exact ⟨_, t'', at'.named plain keyword kept names schema, hpt',
      (Option.some.inj (found'.symm.trans outSchema)).symm⟩
  | @sub members outs k p o _ plain keyword kept schema outSchema ih =>
    obtain ⟨keep, t, at', ht, ho⟩ := ih
    obtain ⟨title, mapping⟩ := subschema_not_special keyword
    obtain ⟨outs', t', ho', hpt, found⟩ := keyword_emitted allowExtra keep ht
      plain kept (.inr title) schema
    obtain rfl := Json.obj.inj (ho.trans ho')
    rw [mapping] at found
    exact ⟨false, t', at'.sub plain keyword kept schema, hpt,
      (Option.some.inj (found.symm.trans outSchema)).symm⟩
  | @item members outs ps os k i p o _ plain keyword schemas outSchemas schema outSchema ih =>
    obtain ⟨keep, t, at', ht, ho⟩ := ih
    obtain ⟨title, mapping, kept⟩ := schemaList_not_special members keyword
    obtain ⟨outs', t', ho', hpt, found⟩ := keyword_emitted allowExtra keep ht
      plain kept (.inr title) schemas
    obtain rfl := Json.obj.inj (ho.trans ho')
    rw [mapping] at found
    obtain ⟨os', t'', hos, hpt', found'⟩ := item_emitted allowExtra false hpt schema
    obtain rfl := Json.arr.inj (hos.symm.trans (Option.some.inj (found.symm.trans outSchemas)))
    exact ⟨false, t'', at'.item plain keyword schemas schema, hpt',
      (Option.some.inj (found'.symm.trans outSchema)).symm⟩

/-- Every position that is emitted has a pair. -/
theorem schemaPair_of_schemaAt (allowExtra : Bool) {p : Json} (h : SchemaAt defs root keep p) :
    ∃ t, Inlines defs p t ∧
      SchemaPair defs root (emit allowExtra false inlined) p (emit allowExtra keep t) := by
  induction h with
  | root => exact ⟨inlined, hroot, .root⟩
  | ref _ isRef found ih =>
    obtain ⟨t, ht, pair⟩ := ih
    exact ⟨t, ht.ref_inv isRef found, pair.ref isRef found⟩
  | @named members ps k name p keep at' plain keyword kept names schema ih =>
    obtain ⟨t, ht, pair⟩ := ih
    have schemas := shaped keep _ at' plain k keyword ps names
    obtain ⟨outs, t', ho, hpt, found⟩ := keyword_emitted allowExtra keep ht
      plain (not_overwritten_of_nameMap keyword) (.inr (ne_title_of_nameMap keyword)) names
    obtain ⟨os, t'', hos, hpt', found'⟩ := name_emitted allowExtra hpt schemas
      kept schema
    rw [ho] at pair
    exact ⟨t'', hpt', pair.named plain keyword names (hos ▸ found) schema found'⟩
  | @sub members k p keep at' plain keyword kept schema ih =>
    obtain ⟨t, ht, pair⟩ := ih
    obtain ⟨title, mapping⟩ := subschema_not_special keyword
    obtain ⟨outs, t', ho, hpt, found⟩ := keyword_emitted allowExtra keep ht
      plain kept (.inr title) schema
    rw [ho] at pair
    exact ⟨t', hpt, pair.sub plain keyword kept schema (mapping ▸ found)⟩
  | @item members ps k i p keep at' plain keyword schemas schema ih =>
    obtain ⟨t, ht, pair⟩ := ih
    obtain ⟨title, mapping, kept⟩ := schemaList_not_special members keyword
    obtain ⟨outs, t', ho, hpt, found⟩ := keyword_emitted allowExtra keep ht
      plain kept (.inr title) schemas
    obtain ⟨os, t'', hos, hpt', found'⟩ := item_emitted allowExtra false hpt schema
    rw [ho] at pair
    rw [mapping, hos] at found
    exact ⟨t'', hpt', pair.item plain keyword schemas found schema found'⟩

end

end Perago
