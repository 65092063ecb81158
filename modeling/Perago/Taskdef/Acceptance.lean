import Perago.Taskdef.Positions

/-!
# What the emitted schema accepts

The emitted schema accepts what the generated one accepts, with `additionalProperties`
set on the object schemas, when the stripped keys are annotations, a reference has
nothing beside it that its definition contradicts, compared literals are left as
they are and no pattern is named `title`.
-/

namespace Perago

/-- `additionalProperties` as `_set_object_schema_extra` sets it. -/
def overwritten (allowExtra : Bool) (members : Members) : Option Bool :=
  if isObjectSchema members then some allowExtra else none

/-- No key is set from outside. -/
def unset (_ : Members) : Option Bool := none

/-- The references have the meaning of their definitions. -/
def Solves (search : String → String → Prop) (extra : Members → Option Bool) (defs : Members)
    (ref : String → Json → Prop) : Prop :=
  ∀ name definition, defs.lookup name = some definition →
    ∀ v, ref (refPrefix ++ name) v ↔ accepts search extra ref definition v

/-- No keyword of the mapping is lost with its metadata. -/
def OnlyAnnotations (members : Members) : Prop :=
  ∀ k ∈ acceptanceKeywords, (members.lookup k).isSome → k ∈ structuralKeys

/-- What stands beside a reference adds to its definition. -/
structure SiblingsFit (definition siblings : Members) : Prop where
  agree : ∀ k ∈ acceptanceKeywords, ∀ arg, siblings.lookup k = some arg →
    definition.lookup k = none ∨ definition.lookup k = some arg
  members : KeywordsApart memberKeywords definition siblings
  items : KeywordsApart itemKeywords definition siblings
  object : isObjectSchema (updateKeys definition siblings) →
    isObjectSchema definition ∨ isObjectSchema siblings

/-- The rewrites lose no keyword of the schema. -/
structure AcceptanceKept (allowExtra : Bool) (schema : Members) : Prop where
  root : OnlyAnnotations schema
  definition : ∀ keep members name d,
    SchemaAt (definitionsOf (stripModelSchemaMetadata schema))
      (rootOf (stripModelSchemaMetadata schema)) keep (.obj members) →
    refName members = some name → (definitionsOf schema).lookup name = some (.obj d) →
      isObjectType d → OnlyAnnotations d
  siblings : ∀ keep members name d,
    SchemaAt (definitionsOf (stripModelSchemaMetadata schema))
      (rootOf (stripModelSchemaMetadata schema)) keep (.obj members) →
    refName members = some name →
      (definitionsOf (stripModelSchemaMetadata schema)).lookup name = some (.obj d) →
        SiblingsFit d (eraseKey "$ref" members)
  compared : ∀ keep members,
    SchemaAt (definitionsOf (stripModelSchemaMetadata schema))
      (rootOf (stripModelSchemaMetadata schema)) keep (.obj members) →
    refName members = none → ∀ k ∈ comparedKeywords, ∀ v, members.lookup k = some v →
      RefFree v ∧ Settled allowExtra false v
  patterns : ∀ keep members,
    SchemaAt (definitionsOf (stripModelSchemaMetadata schema))
      (rootOf (stripModelSchemaMetadata schema)) keep (.obj members) →
    refName members = none → schemaUnder members "patternProperties" "title" = none

variable {search : String → String → Prop} {ref : String → Json → Prop} {allowExtra : Bool}
  {schema members definition : Members} {k : String} {v x : Json}

/-! ## Stripped metadata -/

theorem isObjectSchema_congr {m₁ m₂ : Members} (type : m₂.lookup "type" = m₁.lookup "type")
    (properties : m₂.lookup "properties" = m₁.lookup "properties") :
    isObjectSchema m₂ = isObjectSchema m₁ := by
  rw [isObjectSchema, isObjectSchema, isObjectType, isObjectType, type, properties]

theorem overwritten_congr {m₁ m₂ : Members} (h : isObjectSchema m₂ = isObjectSchema m₁) :
    overwritten allowExtra m₂ = overwritten allowExtra m₁ := by
  rw [overwritten, overwritten, h]

/-- Mappings with the same keywords are accepted alike. -/
theorem accepts_of_lookup {m₁ m₂ : Members}
    (agree : ∀ k ∈ acceptanceKeywords, m₂.lookup k = m₁.lookup k) :
    accepts search (overwritten allowExtra) ref (.obj m₁) x ↔
      accepts search (overwritten allowExtra) ref (.obj m₂) x := by
  rw [accepts_obj, accepts_obj]
  apply conforms_of_lookup agree
  apply overwritten_congr
  exact isObjectSchema_congr (agree "type" (by decide)) (agree "properties" (by decide))

theorem lookup_stripped_of_onlyAnnotations (only : OnlyAnnotations members)
    (hk : k ∈ acceptanceKeywords) :
    (stripObjectSchemaMetadata members).lookup k = members.lookup k := by
  rw [lookup_stripObjectSchemaMetadata]
  split
  · rfl
  · rename_i dropped
    cases present : members.lookup k with
    | none => rfl
    | some arg =>
      exact absurd (List.contains_iff_mem.mpr (only k hk (by simp [present]))) dropped

theorem accepts_stripDefinition (only : isObjectType definition → OnlyAnnotations definition)
    {d : Members} (h : stripDefinition (.obj definition) = .obj d) :
    accepts search (overwritten allowExtra) ref (.obj definition) x ↔
      accepts search (overwritten allowExtra) ref (.obj d) x := by
  rw [stripDefinition] at h
  split at h
  · rename_i object
    obtain rfl := Json.obj.inj h
    exact accepts_of_lookup fun k hk => lookup_stripped_of_onlyAnnotations (only object) hk
  · obtain rfl := Json.obj.inj h
    rfl

theorem accepts_rootOf_stripped (only : OnlyAnnotations schema) :
    accepts search (overwritten allowExtra) ref (rootOf schema) x ↔
      accepts search (overwritten allowExtra) ref (rootOf (stripModelSchemaMetadata schema)) x := by
  refine accepts_of_lookup fun k hk => ?_
  have other : k ≠ "$defs" := by
    rintro rfl
    exact absurd hk (by decide)
  rw [lookup_eraseKey, lookup_eraseKey, if_neg other, if_neg other,
    lookup_stripModelSchemaMetadata other, lookup_stripped_of_onlyAnnotations only hk]

/-! ## References -/

theorem lookup_of_refName {name : String} (isRef : refName members = some name) :
    members.lookup "$ref" = some (.str (refPrefix ++ name)) := by
  unfold refName at isRef
  split at isRef
  · rename_i uri huri
    split at isRef
    · rename_i h
      obtain rfl := Option.some.inj isRef
      obtain ⟨rest, hrest⟩ := List.isPrefixOf_iff_prefix.mp h
      rw [huri, ← hrest, List.drop_left]
      congr
      rw [← String.toList_inj, String.toList_append, String.toList_ofList, hrest]
    · cases isRef
  · cases isRef

theorem keywordHolds_ref {A : Json → Json → Prop} {uri : String} :
    KeywordHolds search ref A "$ref" (.str uri) x ↔ ref uri x := by
  refine ⟨fun h => h.ref rfl uri rfl, fun h => ?_⟩
  refine ⟨nofun, fun s _ => trivial, nofun, nofun, nofun, nofun, ?_, nofun, nofun, nofun, nofun,
    nofun⟩
  rintro - _ ⟨⟩
  exact h

theorem not_isObjectSchema_of_absent (absent : ∀ k ∈ memberKeywords, members.lookup k = none) :
    ¬ isObjectSchema members := by
  rw [isObjectSchema_iff]
  rintro ⟨-, ps, hps⟩
  rw [absent "properties" (by decide)] at hps
  cases hps

section

variable {siblings : Members}

theorem SiblingsFit.left (fits : SiblingsFit definition siblings)
    (absent : ∀ k ∈ memberKeywords, siblings.lookup k = none) :
    overwritten allowExtra siblings = none ∧
      overwritten allowExtra (updateKeys definition siblings) =
        overwritten allowExtra definition := by
  have plain := not_isObjectSchema_of_absent absent
  refine ⟨if_neg plain, overwritten_congr (Bool.eq_iff_iff.mpr ⟨fun h => ?_, fun h => ?_⟩)⟩
  · exact (fits.object h).resolve_right plain
  · rw [isObjectSchema_iff] at h ⊢
    refine ⟨?_, by simpa [absent "properties" (by decide)] using h.2⟩
    cases hs : siblings.lookup "type" with
    | none => simpa [hs] using h.1
    | some arg => simpa [hs, h.1, eq_comm] using fits.agree "type" (by decide) arg hs

theorem SiblingsFit.right (fits : SiblingsFit definition siblings)
    (absent : ∀ k ∈ memberKeywords, definition.lookup k = none) :
    overwritten allowExtra definition = none ∧
      overwritten allowExtra (updateKeys definition siblings) =
        overwritten allowExtra siblings := by
  have plain := not_isObjectSchema_of_absent absent
  refine ⟨if_neg plain, overwritten_congr (Bool.eq_iff_iff.mpr ⟨fun h => ?_, fun h => ?_⟩)⟩
  · exact (fits.object h).resolve_left plain
  · rw [isObjectSchema_iff] at h ⊢
    obtain ⟨type, ps, hps⟩ := h
    exact ⟨by simp [type], ps, by simp [hps]⟩

end

/-- A reference is its meaning and what stands beside it. -/
theorem conforms_ref {A : Json → Json → Prop} {uri : String}
    (href : members.lookup "$ref" = some (.str uri)) :
    Conforms search (overwritten allowExtra) ref A members x ↔
      ref uri x ∧ Conforms search (overwritten allowExtra) ref A (eraseKey "$ref" members) x := by
  have others : ∀ k, k ≠ "$ref" → (eraseKey "$ref" members).lookup k = members.lookup k := by
    intro k other
    rw [lookup_eraseKey, if_neg other]
  have ofMembers : ∀ k ∈ memberKeywords, (eraseKey "$ref" members).lookup k = members.lookup k :=
    fun k hk => others k (by rintro rfl; exact absurd hk (by decide))
  have ofItems : ∀ k ∈ itemKeywords, (eraseKey "$ref" members).lookup k = members.lookup k :=
    fun k hk => others k (by rintro rfl; exact absurd hk (by decide))
  have same : overwritten allowExtra (eraseKey "$ref" members) = overwritten allowExtra members :=
    overwritten_congr (isObjectSchema_congr (others _ (by decide)) (others _ (by decide)))
  constructor
  · intro h
    refine ⟨keywordHolds_ref.mp (h.alone _ _ href), ?_⟩
    refine conforms_of_groups (fun k arg harg _ => h.alone k arg ?_) ⟨_, h, same, ofMembers⟩
      ⟨_, h, ofItems⟩
    rw [lookup_eraseKey] at harg
    split at harg
    · cases harg
    · exact harg
  · rintro ⟨hm, h⟩
    refine conforms_of_groups (fun k arg harg _ => ?_)
      ⟨_, h, same.symm, fun k hk => (ofMembers k hk).symm⟩ ⟨_, h, fun k hk => (ofItems k hk).symm⟩
    by_cases isRef : k = "$ref"
    · subst isRef
      obtain rfl := Option.some.inj (href.symm.trans harg)
      exact keywordHolds_ref.mpr hm
    · exact h.alone k arg ((others k isRef).trans harg)

/-- A reference and what stands beside it accept what the definition under the siblings does. -/
theorem accepts_ref {name : String} (isRef : refName members = some name)
    (fits : SiblingsFit definition (eraseKey "$ref" members))
    (meaning : ref (refPrefix ++ name) x ↔
      accepts search (overwritten allowExtra) ref (.obj definition) x) :
    accepts search (overwritten allowExtra) ref (.obj members) x ↔
      accepts search (overwritten allowExtra) ref
        (.obj (updateKeys definition (eraseKey "$ref" members))) x := by
  rw [accepts_obj, accepts_obj, conforms_ref (lookup_of_refName isRef),
    conforms_updateKeys rfl fits.agree fits.members fits.items fits.left fits.right, meaning,
    accepts_obj]

/-! ## Emitted positions -/

variable {defs outs : Members} {root a o : Json} {keep : Bool}

section

variable (search ref allowExtra defs root)

/-- Wherever it stands, the value is accepted like what it is emitted as. -/
def AcceptedAlike (v o : Json) : Prop :=
  ∀ keep, SchemaAt defs root keep v → ∀ x,
    accepts search (overwritten allowExtra) ref v x ↔
      accepts search unset ref (emit allowExtra keep o) x

/-- So are the schemas in a name map or in a list. -/
structure ChildrenAlike (v o : Json) : Prop where
  names : ∀ ps os, v = .obj ps → refName ps = none → o = .obj os → ∀ name,
    Option.Rel (AcceptedAlike search ref allowExtra defs root) (ps.lookup name) (os.lookup name)
  items : ∀ ps os, v = .arr ps → o = .arr os →
    List.Forall₂ (AcceptedAlike search ref allowExtra defs root) ps os

structure Corresponds (v o : Json) : Prop where
  inlined : Inlines defs v o
  alike : AcceptedAlike search ref allowExtra defs root v o
  children : ChildrenAlike search ref allowExtra defs root v o

end

theorem textsOf_map {items outs : List Json} {f : Json → Json}
    (h : List.Forall₂ (fun v o => ∀ s, v = .str s ↔ f o = .str s) items outs) :
    textsOf items = textsOf (outs.map f) := by
  induction h with
  | nil => rfl
  | @cons v o items outs head _ ih =>
    rw [List.map_cons]
    by_cases text : ∃ s, v = .str s
    · obtain ⟨s, rfl⟩ := text
      rw [(head s).mp rfl, textsOf, textsOf, ih]
    · have left : textsOf (v :: items) = textsOf items := by
        rw [textsOf]
        exact fun s hs => text ⟨s, hs⟩
      have right : textsOf (f o :: outs.map f) = textsOf (outs.map f) := by
        rw [textsOf]
        exact fun s hs => text ⟨s, (head s).mpr hs⟩
      rw [left, right, ih]

theorem Inlines.items_of_arr {items outs : List Json}
    (h : Inlines defs (.arr items) (.arr outs)) : List.Forall₂ (Inlines defs) items outs := by
  cases h with
  | scalar scalar => cases scalar
  | arr length each => exact forall₂_of_length length each

theorem emit_str_iff {s : String} : emit allowExtra keep o = .str s ↔ o = .str s := by
  refine ⟨emit_eq_str, ?_⟩
  rintro rfl
  exact emit_scalar trivial

section

variable (shaped : NamesSchemas defs root)
  (compared : ∀ keep members, SchemaAt defs root keep (.obj members) → refName members = none →
    ∀ k ∈ comparedKeywords, ∀ v, members.lookup k = some v →
      RefFree v ∧ Settled allowExtra false v)
  (patterns : ∀ keep members, SchemaAt defs root keep (.obj members) → refName members = none →
    schemaUnder members "patternProperties" "title" = none)

include shaped compared patterns

/-- The argument of a keyword agrees with what is emitted for it. -/
theorem argAgrees_emitted (at' : SchemaAt defs root keep (.obj members))
    (plain : refName members = none) (other : k ≠ "additionalProperties")
    (ha : members.lookup k = some a) (h : Corresponds search ref allowExtra defs root a o) :
    ArgAgrees (fun p q => ∀ x, accepts search (overwritten allowExtra) ref p x ↔
      accepts search unset ref q x) k a (emit allowExtra (k == "properties") o) := by
  obtain ⟨h, alike, children⟩ := h
  have sub : k ∈ subschemaKeywords → ∀ x, accepts search (overwritten allowExtra) ref a x ↔
      accepts search unset ref (emit allowExtra (k == "properties") o) x := by
    intro hk
    rw [(subschema_not_special hk).2]
    exact alike false (at'.sub plain hk (fun h => other h.2) ha)
  have literal : k ∈ comparedKeywords → a = emit allowExtra (k == "properties") o := by
    intro hk
    have mapping : (k == "properties") = false := by
      rw [beq_eq_false_iff_ne]
      rintro rfl
      exact absurd hk (by decide)
    rw [mapping]
    exact ((emit_inlined_eq_iff h).mpr (compared keep members at' plain k hk a ha)).symm
  cases a with
  | arr items =>
    obtain ⟨outs, rfl⟩ : ∃ outs, o = .arr outs := by
      cases h with
      | scalar scalar => cases scalar
      | arr => exact ⟨_, rfl⟩
    rw [emit_arr] at sub literal ⊢
    refine .arr (textsOf_map ?_) (fun hk => Json.arr.inj (literal hk)) (fun hk => ?_) sub
    · exact h.items_of_arr.imp fun v o hvo s => hvo.str_iff.trans emit_str_iff.symm
    · obtain ⟨-, mapping, -⟩ := schemaList_not_special members hk
      rw [List.forall₂_map_right_iff, mapping]
      refine forall₂_imp_of_get (children.items items outs rfl rfl) fun i p o hp related => ?_
      exact related false (at'.item plain hk ha hp)
  | obj ps =>
    obtain ⟨os, rfl⟩ := h.obj_of_obj ⟨_, rfl⟩
    rw [emit_obj] at sub literal ⊢
    refine .obj (fun hk => Json.obj.inj (literal hk)) (fun hk name => ?_) sub
    have schemas := shaped keep members at' plain k hk ps ha
    obtain ⟨os', same, parts⟩ := h.plain_inv (refName_of_schemas schemas)
    obtain rfl := Json.obj.inj same
    have object : ¬ isObjectSchema os := by
      rw [isObjectSchema_of_lookup parts]
      exact not_isObjectSchema_of_schemas schemas
    have related := children.names ps os rfl (refName_of_schemas schemas) rfl name
    rw [lookup_emitMembers, if_neg (fun h => object h.1)]
    by_cases title : (k == "properties") = false ∧ name = "title"
    · obtain ⟨otherMap, rfl⟩ := title
      obtain rfl : k = "patternProperties" := by
        simpa [nameMapKeywords, beq_eq_false_iff_ne.mp otherMap] using hk
      have absent : ps.lookup "title" = none := by
        simpa [schemaUnder, ha] using patterns keep members at' plain
      rw [if_pos ⟨rfl, rfl⟩, absent]
      exact .none
    · rw [if_neg title]
      have kept : k = "properties" ∨ name ≠ "title" := by
        by_contra lost
        exact title (by simpa using lost)
      revert related
      cases hp : ps.lookup name <;> cases os.lookup name <;> rintro (related | _)
      · exact .none
      · exact .some (related _ (at'.named plain hk kept ha hp))
  | _ =>
    cases h
    rw [emit_scalar (by trivial)] at sub ⊢
    exact .scalar trivial sub

/-- A plain mapping is accepted like what it is emitted as. -/
theorem accepts_plain (at' : SchemaAt defs root keep (.obj members))
    (plain : refName members = none)
    (parts : List.Forall₂ (fun m o : String × Json => o.1 = m.1 ∧
      Corresponds search ref allowExtra defs root m.2 o.2) members outs) :
    accepts search (overwritten allowExtra) ref (.obj members) x ↔
      accepts search unset ref (emit allowExtra keep (.obj outs)) x := by
  have object : isObjectSchema outs = isObjectSchema members :=
    isObjectSchema_of_lookup fun k => lookup_of_forall₂ k <| parts.imp fun _ _ h =>
      ⟨h.1, h.2.inlined⟩
  rw [emit_obj, accepts_obj, accepts_obj]
  refine conforms_congr (fun _ _ h => h) (fun _ _ _ => .rfl) ⟨fun k hk other => ?_, fun y => ?_⟩
  · have title : ¬ (keep = false ∧ k = "title") := by
      rintro ⟨-, rfl⟩
      exact absurd hk (by decide)
    rw [lookup_emitMembers, if_neg (fun h => other h.2), if_neg title]
    obtain ⟨hm, ho⟩ | ⟨v, o, hv, ho, h⟩ := lookup_of_forall₂ k parts
    · rw [hm, ho]
      exact .none
    · rw [hv, ho]
      exact .some (argAgrees_emitted shaped compared patterns at' plain other hv h)
  · have emitted : unset (emitMembers allowExtra keep outs) = none := rfl
    by_cases overwrite : isObjectSchema members = true
    · have original : overwritten allowExtra members = some allowExtra := if_pos overwrite
      simp [AdditionalHolds, original, emitted, lookup_emitMembers, object, overwrite]
    · have original : overwritten allowExtra members = none := if_neg overwrite
      simp only [AdditionalHolds, original, emitted, lookup_emitMembers, object, overwrite]
      obtain ⟨hm, ho⟩ | ⟨v, o, hv, ho, h⟩ := lookup_of_forall₂ "additionalProperties" parts
      · simp [hm, ho]
      · simpa [hv, ho] using
          h.alike false (at'.sub plain (by decide) (fun h => overwrite h.1) hv) y

variable (refs : ∀ keep members name d, SchemaAt defs root keep (.obj members) →
  refName members = some name → defs.lookup name = some (.obj d) →
    SiblingsFit d (eraseKey "$ref" members) ∧ ∀ x, ref (refPrefix ++ name) x ↔
      accepts search (overwritten allowExtra) ref (.obj d) x)

include refs

/-- What is inlined is accepted alike, by induction on how it is inlined. -/
theorem corresponds_of_inlines (h : Inlines defs a o) :
    Corresponds search ref allowExtra defs root a o := by
  induction h with
  | @scalar v scalar =>
    refine ⟨.scalar scalar, fun keep _ x => ?_, ?_⟩
    · rw [emit_scalar scalar]
      cases v <;> first | exact scalar.elim | simp [accepts]
    · refine ⟨?_, ?_⟩ <;> rintro _ _ rfl <;> exact scalar.elim
  | arr length each ih =>
    refine ⟨.arr length each, fun keep _ x => by simp [accepts], ?_, ?_⟩
    · rintro _ _ ⟨⟩
    rintro _ _ ⟨⟩ ⟨⟩
    exact forall₂_of_length length fun i v o hv ho => (ih i v o hv ho).alike
  | @obj members outs plain keys each ih =>
    have parts : List.Forall₂ (fun m o : String × Json => o.1 = m.1 ∧
        Corresponds search ref allowExtra defs root m.2 o.2) members outs :=
      forall₂_of_keys keys ih
    refine ⟨.obj plain keys each,
      fun keep at' x => accepts_plain shaped compared patterns at' plain parts, ?_, ?_⟩
    swap
    · rintro _ _ ⟨⟩
    rintro _ _ ⟨⟩ _ ⟨⟩ name
    obtain ⟨hm, ho⟩ | ⟨v, o, hv, ho, h⟩ := lookup_of_forall₂ name parts
    · rw [hm, ho]
      exact .none
    · rw [hv, ho]
      exact .some h.alike
  | ref isRef found expanded ih =>
    refine ⟨.ref isRef found expanded, fun keep at' x => ?_, ?_, ?_⟩
    · obtain ⟨fits, meaning⟩ := refs keep _ _ _ at' isRef found
      exact (accepts_ref isRef fits (meaning x)).trans (ih.alike keep (at'.ref isRef found) x)
    · rintro _ _ ⟨⟩ plain
      rw [isRef] at plain
      cases plain
    · rintro _ _ ⟨⟩

end

/-- The emitted schema accepts what the generated one accepts, but for the extra keys. -/
theorem schemaForModel_accepts {search : String → String → Prop} {stack : Nat}
    {schema : Members} {allowExtra : Bool} {out : Json} {ref : String → Json → Prop}
    (returned : schemaForModel stack schema allowExtra = .ok out)
    (shaped : NamesSchemas (definitionsOf (stripModelSchemaMetadata schema))
      (rootOf (stripModelSchemaMetadata schema)))
    (kept : AcceptanceKept allowExtra schema)
    (solves : Solves search (overwritten allowExtra) (definitionsOf schema) ref) (v : Json) :
    accepts search unset ref out v ↔
      accepts search (overwritten allowExtra) ref (rootOf schema) v := by
  obtain ⟨inlined, visited, rfl⟩ := schemaForModel_eq returned
  have hroot : Inlines (definitionsOf (stripModelSchemaMetadata schema))
      (rootOf (stripModelSchemaMetadata schema)) inlined := inlines_of_visit.1 visited
  have refs : ∀ keep members name d, SchemaAt (definitionsOf (stripModelSchemaMetadata schema))
      (rootOf (stripModelSchemaMetadata schema)) keep (.obj members) →
      refName members = some name →
        (definitionsOf (stripModelSchemaMetadata schema)).lookup name = some (.obj d) →
          SiblingsFit d (eraseKey "$ref" members) ∧ ∀ x, ref (refPrefix ++ name) x ↔
            accepts search (overwritten allowExtra) ref (.obj d) x := by
    intro keep members name d at' isRef found
    refine ⟨kept.siblings keep members name d at' isRef found, fun x => ?_⟩
    rw [definitionsOf_stripped, lookup_map fun _ => stripDefinition] at found
    obtain ⟨definition, hdef, stripped⟩ := Option.map_eq_some_iff.mp found
    obtain ⟨original, rfl⟩ := obj_of_stripDefinition stripped
    exact (solves name _ hdef x).trans (accepts_stripDefinition
      (fun object => kept.definition keep members name original at' isRef hdef object) stripped)
  rw [accepts_rootOf_stripped kept.root]
  exact ((corresponds_of_inlines shaped kept.compared kept.patterns refs hroot).alike false .root
    v).symm

/-! ## Meanings -/

/-- What local references mean is not read in a schema without them. -/
theorem accepts_of_refFree {extra : Members → Option Bool} {ref₁ ref₂ : String → Json → Prop}
    {p : Json} (others : ∀ uri, ¬ refPrefix.toList.isPrefixOf uri.toList → ∀ x,
      ref₁ uri x ↔ ref₂ uri x) (free : RefFree p) :
    accepts search extra ref₁ p x ↔ accepts search extra ref₂ p x := by
  induction hn : sizeOf p using Nat.strong_induction_on generalizing p x with
  | _ n ih =>
    subst hn
    cases p with
    | obj members =>
      obtain ⟨plain, below⟩ := refSites_eq_nil_obj.mp free
      rw [accepts_obj, accepts_obj]
      have at' : ∀ k q, members.lookup k = some q → RefFree q ∧ sizeOf q < sizeOf members :=
        fun k q hq => ⟨below _ (mem_of_lookup hq), sizeOf_lt_of_lookup hq⟩
      refine conforms_congr (R := fun q o => q = o ∧ RefFree q ∧ sizeOf q < sizeOf members) ?_ ?_
        ⟨fun k _ _ => ?_, fun y => ?_⟩
      · rintro q _ ⟨rfl, freeBelow, smaller⟩ y
        exact ih (sizeOf q) (by simp; omega) freeBelow rfl
      · intro uri href
        refine others uri fun isLocal => ?_
        simp [refName, href, isLocal] at plain
      · cases ha : members.lookup k with
        | none => exact .none
        | some a =>
          obtain ⟨freeArg, smaller⟩ := at' k a ha
          refine .some (.refl ⟨rfl, freeArg, smaller⟩ ?_ ?_)
          · rintro items rfl q hq
            have := List.sizeOf_lt_of_mem hq
            exact ⟨rfl, refFree_arr.mp freeArg q hq, by simp at smaller; omega⟩
          · rintro inner rfl name q hq
            have := sizeOf_lt_of_lookup hq
            exact ⟨rfl, (refSites_eq_nil_obj.mp freeArg).2 _ (mem_of_lookup hq),
              by simp at smaller; omega⟩
      · unfold AdditionalHolds
        split
        · rfl
        · refine forall₂_congr fun q hq => ?_
          obtain ⟨freeArg, smaller⟩ := at' _ q hq
          exact ih (sizeOf q) (by simp; omega) freeArg rfl
    | _ => simp [accepts]

/-- The meaning of one local reference, where its definition has none. -/
def meaningOf (search : String → String → Prop) (extra : Members → Option Bool) (name : String)
    (definition : Json) (uri : String) (v : Json) : Prop :=
  uri = refPrefix ++ name ∧ accepts search extra (fun _ _ => False) definition v

theorem solves_meaningOf {extra : Members → Option Bool} {name : String} {definition : Json}
    (free : RefFree definition) :
    Solves search extra [(name, definition)] (meaningOf search extra name definition) := by
  intro name' definition' found v
  obtain ⟨rfl, rfl⟩ : name' = name ∧ definition' = definition := by
    simpa using mem_of_lookup found
  rw [meaningOf, eq_self_iff_true, true_and]
  refine accepts_of_refFree (fun uri foreign y => iff_of_false id fun h => foreign ?_) free
  rw [h.1, String.toList_append]
  exact List.isPrefixOf_iff_prefix.mpr (List.prefix_append _ _)

/-! ## A model in a model -/

def countMembers : Members :=
  [("default", .num 0), ("title", .str "Count"), ("type", .str "integer")]

def songDefinition : Members :=
  [("properties", .obj [("count", .obj countMembers)]), ("title", .str "Song"),
    ("type", .str "object")]

/-- A model with a model in it. -/
def songSchema : Members :=
  [("$defs", .obj [("Song", .obj songDefinition)]),
    ("properties", .obj [("song", .obj [("$ref", .str "#/$defs/Song")])]),
    ("required", .arr [.str "song"]), ("title", .str "Params"), ("type", .str "object")]

def songPositions : List Members :=
  [[("properties", .obj [("song", .obj [("$ref", .str "#/$defs/Song")])]),
      ("required", .arr [.str "song"]), ("type", .str "object")],
    [("$ref", .str "#/$defs/Song")],
    [("properties", .obj [("count", .obj countMembers)]), ("type", .str "object")],
    countMembers]

theorem songSchema_positions {keep : Bool} {p : Json}
    (h : SchemaAt (definitionsOf (stripModelSchemaMetadata songSchema))
      (rootOf (stripModelSchemaMetadata songSchema)) keep p) :
    ∃ members ∈ songPositions, p = .obj members := by
  induction h with
  | root => exact ⟨_, List.mem_cons_self, rfl⟩
  | @ref members definition name keep _ isRef found ih =>
    obtain ⟨_, hm, ⟨⟩⟩ := ih
    simp only [songPositions, List.mem_cons, List.not_mem_nil, or_false] at hm
    obtain rfl | rfl | rfl | rfl := hm
    · cases isRef
    · cases isRef
      cases found
      exact ⟨_, .tail _ (.tail _ (.head _)), rfl⟩
    · cases isRef
    · cases isRef
  | @named members ps k name p keep _ plain keyword kept names schema ih =>
    obtain ⟨_, hm, ⟨⟩⟩ := ih
    have found := mem_of_lookup names
    have below := mem_of_lookup schema
    simp only [songPositions, List.mem_cons, List.not_mem_nil, or_false] at hm
    obtain rfl | rfl | rfl | rfl := hm
    · obtain ⟨rfl, rfl⟩ : k = "properties" ∧
          ps = [("song", .obj [("$ref", .str "#/$defs/Song")])] := by
        simpa using found
      obtain ⟨rfl, rfl⟩ : name = "song" ∧ p = .obj [("$ref", .str "#/$defs/Song")] := by
        simpa using below
      exact ⟨_, .tail _ (.head _), rfl⟩
    · simp at found
    · obtain ⟨rfl, rfl⟩ : k = "properties" ∧ ps = [("count", .obj countMembers)] := by
        simpa using found
      obtain ⟨rfl, rfl⟩ : name = "count" ∧ p = .obj countMembers := by
        simpa using below
      exact ⟨_, .tail _ (.tail _ (.tail _ (.head _))), rfl⟩
    · simp [countMembers] at found
  | @sub members k _ _ _ plain keyword kept schema ih =>
    obtain ⟨_, hm, ⟨⟩⟩ := ih
    have found : k ∈ keysOf members := by
      rw [← lookup_isSome_iff_mem_keys, schema]
      rfl
    have none : ∀ members ∈ songPositions, ∀ k ∈ keysOf members, k ∉ subschemaKeywords := by
      decide
    exact absurd keyword (none members hm k found)
  | @item members _ k _ _ _ _ plain keyword schemas schema ih =>
    obtain ⟨_, hm, ⟨⟩⟩ := ih
    have found : k ∈ keysOf members := by
      rw [← lookup_isSome_iff_mem_keys, schemas]
      rfl
    have none : ∀ members ∈ songPositions, ∀ k ∈ keysOf members, k ∉ schemaListKeywords := by
      decide
    exact absurd keyword (none members hm k found)

theorem songSchema_shaped : NamesSchemas (definitionsOf (stripModelSchemaMetadata songSchema))
    (rootOf (stripModelSchemaMetadata songSchema)) := by
  intro keep members at' _ k _ names hnames m hm s
  obtain ⟨_, position, ⟨⟩⟩ := songSchema_positions at'
  have found := mem_of_lookup hnames
  simp only [songPositions, List.mem_cons, List.not_mem_nil, or_false] at position
  obtain rfl | rfl | rfl | rfl := position <;> simp [countMembers] at found
  · obtain ⟨-, rfl⟩ := found
    obtain rfl := List.mem_singleton.mp hm
    rintro ⟨⟩
  · obtain ⟨-, rfl⟩ := found
    obtain rfl := List.mem_singleton.mp hm
    rintro ⟨⟩

theorem songSchema_kept : AcceptanceKept false songSchema where
  root := by
    unfold OnlyAnnotations
    decide
  definition keep members name d at' isRef found _ := by
    obtain ⟨rfl, ⟨⟩⟩ : name = "Song" ∧ Json.obj d = .obj songDefinition := by
      simpa [songSchema, definitionsOf, List.lookup_cons] using mem_of_lookup found
    unfold OnlyAnnotations
    decide
  siblings keep members name d at' isRef found := by
    obtain ⟨_, position, ⟨⟩⟩ := songSchema_positions at'
    simp only [songPositions, List.mem_cons, List.not_mem_nil, or_false] at position
    obtain rfl | rfl | rfl | rfl := position
    · cases isRef
    · cases isRef
      cases found
      exact ⟨fun _ _ _ h => (by cases h), .inl fun _ _ => rfl, .inl fun _ _ => rfl, .inl⟩
    · cases isRef
    · cases isRef
  compared keep members at' _ k hk v hv := by
    obtain ⟨_, position, ⟨⟩⟩ := songSchema_positions at'
    have found : k ∈ keysOf members := by
      rw [← lookup_isSome_iff_mem_keys, hv]
      rfl
    have none : ∀ members ∈ songPositions, ∀ k ∈ keysOf members, k ∉ comparedKeywords := by
      decide
    exact absurd hk (none members position k found)
  patterns keep members at' _ := by
    obtain ⟨_, position, ⟨⟩⟩ := songSchema_positions at'
    simp only [songPositions, List.mem_cons, List.not_mem_nil, or_false] at position
    obtain rfl | rfl | rfl | rfl := position <;> rfl

theorem songSchema_accepts : ∃ out, schemaForModel 9 songSchema false = .ok out ∧
    ∀ search : String → String → Prop, ∃ ref,
      Solves search (overwritten false) (definitionsOf songSchema) ref ∧
        ∀ v, accepts search unset ref out v ↔
          accepts search (overwritten false) ref (rootOf songSchema) v := by
  have returned : schemaForModel 9 songSchema false = .ok (.obj
      [("properties", .obj [("song", .obj [("properties", .obj
          [("count", .obj [("default", .num 0), ("type", .str "integer")])]),
        ("type", .str "object"), ("additionalProperties", .bool false)])]),
      ("required", .arr [.str "song"]), ("type", .str "object"),
      ("additionalProperties", .bool false)]) := rfl
  refine ⟨_, returned, fun search => ?_⟩
  have solves : Solves search (overwritten false) (definitionsOf songSchema)
      (meaningOf search (overwritten false) "Song" (.obj songDefinition)) := solves_meaningOf rfl
  exact ⟨_, solves, schemaForModel_accepts returned songSchema_shaped songSchema_kept solves⟩

/-! ## A named type and a root reference -/

def tagsDefinition : Members :=
  [("additionalProperties", .obj [("type", .str "integer")]), ("minProperties", .num 1),
    ("type", .str "object")]

/-- A model with a field of a named type, a mapping that is not empty. -/
def tagsSchema : Members :=
  [("$defs", .obj [("Tags", .obj tagsDefinition)]),
    ("properties", .obj [("tags", .obj [("$ref", .str "#/$defs/Tags")])]),
    ("required", .arr [.str "tags"]), ("title", .str "Params"), ("type", .str "object")]

def tagsEmitted : Json :=
  .obj [("properties", .obj [("tags", .obj
      [("additionalProperties", .obj [("type", .str "integer")]), ("type", .str "object")])]),
    ("required", .arr [.str "tags"]), ("type", .str "object"),
    ("additionalProperties", .bool false)]

theorem tagsEmitted_accepts {search : String → String → Prop} {ref : String → Json → Prop} :
    accepts search unset ref tagsEmitted (.obj [("tags", .obj [])]) := by
  rw [tagsEmitted, accepts_obj]
  refine ⟨?_, ?_, ?_, ?_, ?_, ?_⟩
  · intro k arg harg
    have := mem_of_lookup harg
    simp only [List.mem_cons, Prod.mk.injEq, List.not_mem_nil, or_false] at this
    obtain ⟨rfl, rfl⟩ | ⟨rfl, rfl⟩ | ⟨rfl, rfl⟩ | ⟨rfl, rfl⟩ := this
    · exact keywordHolds_of_not_mem (by decide)
    · constructor <;> simp [textsHold, textsOf, List.lookup_cons]
    · constructor <;> simp [textHolds, hasType]
    · exact keywordHolds_of_not_mem (by decide)
  · rintro _ ⟨⟩ name p x hp hx
    obtain ⟨rfl, rfl⟩ : name = "tags" ∧ x = .obj [] := by simpa using mem_of_lookup hx
    obtain rfl := Option.some.inj hp
    rw [accepts_obj]
    refine ⟨?_, ?_, ?_, ?_, ?_, ?_⟩
    · intro k arg harg
      have := mem_of_lookup harg
      simp only [List.mem_cons, Prod.mk.injEq, List.not_mem_nil, or_false] at this
      obtain ⟨rfl, rfl⟩ | ⟨rfl, rfl⟩ := this
      · exact keywordHolds_of_not_mem (by decide)
      · constructor <;> simp [textHolds, hasType]
    all_goals simp [schemaUnder, List.lookup_cons]
  · rintro _ ⟨⟩ pattern p name x ⟨⟩
  · rintro _ ⟨⟩ name x hx undeclared
    obtain ⟨rfl, rfl⟩ : name = "tags" ∧ x = .obj [] := by simpa using mem_of_lookup hx
    exact absurd (.inl rfl) undeclared
  · rintro _ ⟨⟩
  · rintro _ ⟨⟩

/-- A model whose schema is a reference to itself. -/
def chainSchema : Members :=
  [("$defs", .obj [("Node", .obj
      [("properties", .obj [("next", .obj
          [("anyOf", .arr [.obj [("$ref", .str "#/$defs/Node")], .obj [("type", .str "null")]]),
            ("default", .null)])]),
        ("title", .str "Node"), ("type", .str "object")])]),
    ("$ref", .str "#/$defs/Node")]

theorem tagsSchema_rejects {search : String → String → Prop} :
    ¬ accepts search (overwritten false)
      (meaningOf search (overwritten false) "Tags" (.obj tagsDefinition)) (rootOf tagsSchema)
      (.obj [("tags", .obj [])]) := by
  intro accepted
  rw [rootOf, accepts_obj] at accepted
  have below := accepted.properties _ rfl "tags" (.obj [("$ref", .str "#/$defs/Tags")]) (.obj [])
    rfl rfl
  rw [accepts_obj] at below
  have href : List.lookup "$ref" [("$ref", .str "#/$defs/Tags")] =
      some (Json.str "#/$defs/Tags") := rfl
  obtain ⟨meaning, -⟩ := (conforms_ref href).mp below
  have definition := meaning.2
  rw [accepts_obj] at definition
  have bound := (definition.alone "minProperties" (.num 1) rfl).bound 1 rfl
  simp [boundHolds, keysOf] at bound
  exact absurd bound (by decide)

/-- Of a definition the bound is lost, and of a root reference everything. -/
theorem acceptance_lost :
    (schemaForModel 9 tagsSchema false = .ok tagsEmitted ∧
      ∀ search : String → String → Prop, ∃ ref,
        Solves search (overwritten false) (definitionsOf tagsSchema) ref ∧
          accepts search unset ref tagsEmitted (.obj [("tags", .obj [])]) ∧
            ¬ accepts search (overwritten false) ref (rootOf tagsSchema)
              (.obj [("tags", .obj [])])) ∧
      schemaForModel 9 chainSchema false = .ok (.obj []) ∧
        ∀ (search : String → String → Prop) (ref : String → Json → Prop),
          Solves search (overwritten false) (definitionsOf chainSchema) ref →
            accepts search unset ref (.obj []) (.num 3) ∧
              ¬ accepts search (overwritten false) ref (rootOf chainSchema) (.num 3) := by
  refine ⟨⟨rfl, fun search => ⟨_, solves_meaningOf rfl, tagsEmitted_accepts, tagsSchema_rejects⟩⟩,
    rfl, fun search ref solves => ⟨?_, fun accepted => ?_⟩⟩
  · rw [accepts_obj]
    exact conforms_nil rfl
  · rw [rootOf, accepts_obj] at accepted
    have href : (eraseKey "$defs" chainSchema).lookup "$ref" =
        some (.str "#/$defs/Node") := rfl
    obtain ⟨meaning, -⟩ := (conforms_ref href).mp accepted
    have definition := (solves "Node" _ rfl (.num 3)).mp meaning
    rw [accepts_obj] at definition
    have typed := (definition.alone "type" (.str "object") rfl).text "object" rfl
    simp [textHolds, hasType] at typed

end Perago
