import Perago.Taskdef.Acceptance

/-!
# One policy for extra fields, and no references

What every emitted schema of an acyclic model has: one policy at all its object
schemas, its maps and the siblings of its references kept, no reference and no
definitions.
-/

namespace Perago

variable {allowExtra keep : Bool} {schema members outs defs : Members} {root out v o : Json}
  {k : String} {s t : RefSite}

/-! ## Nodes at any depth -/

/-- The second value stands in the first, at some depth. -/
inductive Within (v : Json) : Json → Prop
  | self : Within v v
  | member {members : Members} {m : String × Json} (h : Within v (.obj members))
      (mem : m ∈ members) : Within v m.2
  | item {items : List Json} {o : Json} (h : Within v (.arr items)) (mem : o ∈ items) :
      Within v o

theorem within_obj_iff : Within (.obj members) o ↔
    o = .obj members ∨ ∃ m ∈ members, Within m.2 o := by
  constructor
  · intro h
    induction h with
    | self => exact .inl rfl
    | member _ mem ih =>
      obtain same | ⟨m, hm, below⟩ := ih
      · cases same
        exact .inr ⟨_, mem, .self⟩
      · exact .inr ⟨m, hm, .member below mem⟩
    | item _ mem ih =>
      obtain same | ⟨m, hm, below⟩ := ih
      · cases same
      · exact .inr ⟨m, hm, .item below mem⟩
  · rintro (rfl | ⟨m, hm, below⟩)
    · exact .self
    · induction below with
      | self => exact .member .self hm
      | member _ mem ih => exact .member ih mem
      | item _ mem ih => exact .item ih mem

theorem Within.eq_of_scalar (h : Within v o) (scalar : v.IsScalar) : o = v := by
  induction h with
  | self => rfl
  | member _ _ ih | item _ _ ih =>
    subst ih
    cases scalar

theorem RefFree.within (free : RefFree v) (h : Within v o) : RefFree o := by
  induction h with
  | self => exact free
  | member _ mem ih => exact (refSites_eq_nil_obj.mp ih).2 _ mem
  | item _ mem ih => exact refFree_arr.mp ih _ mem

theorem obj_of_emit (h : emit allowExtra keep v = .obj outs) :
    ∃ members, v = .obj members ∧ outs = emitMembers allowExtra keep members := by
  cases v with
  | obj members =>
    rw [emit_obj] at h
    exact ⟨members, rfl, (Json.obj.inj h).symm⟩
  | arr items =>
    rw [emit_arr] at h
    cases h
  | _ => cases h

theorem arr_of_emit {os : List Json} (h : emit allowExtra keep v = .arr os) :
    ∃ items, v = .arr items ∧ os = items.map (emit allowExtra keep) := by
  cases v with
  | obj members =>
    rw [emit_obj] at h
    cases h
  | arr items =>
    rw [emit_arr] at h
    exact ⟨items, rfl, (Json.arr.inj h).symm⟩
  | _ => cases h

/-- Every node of an emitted value is emitted, or is the policy. -/
theorem emit_of_within (h : Within (emit allowExtra keep v) o) :
    (∃ keep' v', o = emit allowExtra keep' v') ∨ o = .bool allowExtra := by
  induction h with
  | self => exact .inl ⟨keep, v, rfl⟩
  | member _ mem ih =>
    obtain ⟨keep', v', emitted⟩ | policy := ih
    · obtain ⟨members, rfl, rfl⟩ := obj_of_emit emitted.symm
      obtain rfl | ⟨m', -, keep'', same⟩ := mem_emitMembers mem
      · exact .inr rfl
      · exact .inl ⟨keep'', m'.2, same⟩
    · cases policy
  | item _ mem ih =>
    obtain ⟨keep', v', emitted⟩ | policy := ih
    · obtain ⟨items, rfl, rfl⟩ := arr_of_emit emitted.symm
      obtain ⟨v, -, rfl⟩ := List.mem_map.mp mem
      exact .inl ⟨keep', v, rfl⟩
    · cases policy

/-! ## The policy -/

theorem isObjectSchema_emitMembers :
    isObjectSchema (emitMembers allowExtra keep members) = isObjectSchema members := by
  have under : ∀ k, k ≠ "title" → k ≠ "additionalProperties" →
      (emitMembers allowExtra keep members).lookup k =
        (members.lookup k).map (emit allowExtra (k == "properties")) := by
    intro k title extra
    rw [lookup_emitMembers, if_neg (by simp [extra]), if_neg (by simp [title])]
  rw [Bool.eq_iff_iff, isObjectSchema_iff, isObjectSchema_iff, under "type" (by decide) (by decide),
    under "properties" (by decide) (by decide)]
  refine and_congr ?_ ?_
  · cases members.lookup "type" with
    | none => simp
    | some v =>
      simp only [Option.map_some, Option.some.injEq]
      refine ⟨emit_eq_str, fun h => ?_⟩
      subst h
      exact emit_scalar trivial
  · cases members.lookup "properties" with
    | none => simp
    | some v =>
      simp only [Option.map_some, Option.some.injEq]
      constructor
      · rintro ⟨os, h⟩
        obtain ⟨ps, rfl, -⟩ := obj_of_emit h
        exact ⟨ps, rfl⟩
      · rintro ⟨ps, rfl⟩
        exact ⟨_, emit_obj⟩

/-- Every object schema of the value has the policy. -/
def OnePolicy (allowExtra : Bool) (out : Json) : Prop :=
  ∀ members, Within out (.obj members) → isObjectSchema members →
    members.lookup "additionalProperties" = some (.bool allowExtra)

theorem onePolicy_emit : OnePolicy allowExtra (emit allowExtra keep v) := by
  intro members h object
  obtain ⟨keep', v', emitted⟩ | policy := emit_of_within h
  · obtain ⟨members, rfl, rfl⟩ := obj_of_emit emitted.symm
    rw [isObjectSchema_emitMembers] at object
    rw [lookup_emitMembers, if_pos ⟨object, rfl⟩]
  · cases policy

/-! ## What a reference becomes -/

/-- The siblings of a reference stand in what it is inlined to. -/
theorem Inlines.sibling {t : Json} (h : Inlines defs (.obj members) t) :
    ∃ outs, t = .obj outs ∧ ∀ k v, k ≠ "$ref" → members.lookup k = some v →
      ∃ o, outs.lookup k = some o ∧ Inlines defs v o := by
  generalize hw : Json.obj members = w at h
  induction h generalizing members with
  | scalar scalar =>
    subst hw
    cases scalar
  | arr => cases hw
  | obj plain keys each =>
    cases hw
    refine ⟨_, rfl, fun k v _ hv => ?_⟩
    obtain ⟨absent, -⟩ | ⟨v', o, hv', ho, hvo⟩ := Inlines.lookup keys each k
    · simp [absent] at hv
    · obtain rfl := Option.some.inj (hv'.symm.trans hv)
      exact ⟨o, ho, hvo⟩
  | ref isRef found expanded ih =>
    cases hw
    obtain ⟨outs, rfl, below⟩ := ih rfl
    refine ⟨outs, rfl, fun k v other hv => below k v other ?_⟩
    simp [other, hv]

/-- The siblings of a reference are emitted; what has no reference, no title and no object
schema in it is emitted as it is. -/
def SiblingsKept (defs : Members) (allowExtra : Bool) (members outs : Members) : Prop :=
  ∀ k v, k ≠ "$ref" → k ≠ "title" → members.lookup k = some v → ¬ IsOverwritten outs k →
    ∃ o, outs.lookup k = some o ∧
      (∃ t, Inlines defs v t ∧ o = emit allowExtra (k == "properties") t) ∧
      (o = v ↔ RefFree v ∧ Settled allowExtra (k == "properties") v)

theorem siblingsKept_emitted {t : Json} (h : Inlines defs (.obj members) t) :
    ∃ outs, emit allowExtra keep t = .obj outs ∧ SiblingsKept defs allowExtra members outs := by
  obtain ⟨inner, rfl, below⟩ := h.sibling
  refine ⟨_, emit_obj, fun k v other untitled hv kept => ?_⟩
  obtain ⟨o, ho, hvo⟩ := below k v other hv
  rw [IsOverwritten, isObjectSchema_emitMembers] at kept
  refine ⟨_, ?_, ⟨o, hvo, rfl⟩, emit_inlined_eq_iff hvo⟩
  rw [lookup_emitMembers, if_neg kept, if_neg (by simp [untitled]), ho]
  rfl

/-! ## Maps -/

/-- A map has the `additionalProperties` of its own, as a position of the result. -/
def MapKept (defs : Members) (root out : Json) (members outs : Members) : Prop :=
  (members.lookup "additionalProperties" = none ∧ outs.lookup "additionalProperties" = none) ∨
    ∃ v o, members.lookup "additionalProperties" = some v ∧
      outs.lookup "additionalProperties" = some o ∧ SchemaPair defs root out v o ∧
      (v.IsScalar → o = v)

section

variable (shaped : NamesSchemas defs root) {inlined : Json} (hroot : Inlines defs root inlined)

include shaped hroot

theorem mapKept_emitted
    (h : SchemaPair defs root (emit allowExtra false inlined) (.obj members) o)
    (plain : refName members = none) (map : ¬ isObjectSchema members) :
    ∃ outs, o = .obj outs ∧ MapKept defs root (emit allowExtra false inlined) members outs := by
  obtain ⟨keep, t, at', ht, rfl⟩ := schemaPair_emitted shaped hroot h
  obtain ⟨inner, rfl, parts⟩ := ht.plain_inv plain
  have kept : ¬ IsOverwritten members "additionalProperties" := fun object => map object.1
  rw [emit_obj] at h
  refine ⟨_, emit_obj, ?_⟩
  obtain absent | ⟨v, t, hv, hvt, found⟩ := lookup_emitted allowExtra keep parts kept
    (.inr (by decide))
  · exact .inl absent
  · refine .inr ⟨v, _, hv, found, h.sub plain (by decide) kept hv found, fun scalar => ?_⟩
    cases hvt with
    | scalar => exact emit_scalar scalar
    | _ => cases scalar

/-! ## Definitions -/

omit shaped hroot in
theorem defs_inlined {t : Json} (h : Inlines defs v t) (at' : SchemaAt defs root keep v)
    (nested : ∀ keep members, SchemaAt defs root keep (.obj members) →
      members.lookup "$defs" = none) (ht : t = .obj outs) : outs.lookup "$defs" = none := by
  induction h generalizing outs with
  | scalar scalar =>
    subst ht
    cases scalar
  | arr => cases ht
  | obj plain keys each =>
    cases ht
    obtain ⟨-, gone⟩ | ⟨v, o, hv, -⟩ := Inlines.lookup keys each "$defs"
    · exact gone
    · simp [nested _ _ at'] at hv
  | ref isRef found expanded ih => exact ih (at'.ref isRef found) ht

theorem defs_emitted (nested : ∀ keep members, SchemaAt defs root keep (.obj members) →
      members.lookup "$defs" = none)
    (h : SchemaPair defs root (emit allowExtra false inlined) v (.obj outs)) :
    outs.lookup "$defs" = none := by
  obtain ⟨keep, t, at', ht, emitted⟩ := schemaPair_emitted shaped hroot h
  obtain ⟨inner, rfl, rfl⟩ := obj_of_emit emitted.symm
  rw [lookup_emitMembers, if_neg (by simp), if_neg (by simp), defs_inlined ht at' nested rfl]
  rfl

end

/-! ## Acyclic definitions -/

/-- The definition of `name` refers to `other`. -/
def Mentions (defs : Members) (name other : String) : Prop :=
  ∃ definition, defs.lookup name = some definition ∧ ∃ s ∈ refSites definition, s.name = other

theorem mem_refSites_of_filter {p : String → Bool} (other : p "$ref" = false)
    (h : s ∈ refSites (.obj (members.filter fun m => p m.1))) : s ∈ refSites (.obj members) := by
  rw [mem_refSites_obj] at h ⊢
  have plain : refName (members.filter fun m => p m.1) = none := by
    rw [refName, lookup_filter p, other]
    rfl
  obtain site | ⟨m, ⟨mem, -⟩, hs⟩ := h
  · rw [siteOf, plain] at site
    cases site
  · obtain ⟨mem, kept⟩ := List.mem_filter.mp mem
    refine .inr ⟨m, ⟨mem, fun _ ref => ?_⟩, hs⟩
    simp [ref, other] at kept

theorem mem_refSites_of_stripDefinition (h : s ∈ refSites (stripDefinition v)) :
    s ∈ refSites v := by
  cases v with
  | obj definition =>
    rw [stripDefinition] at h
    split at h
    · exact mem_refSites_of_filter (by decide) h
    · exact h
  | _ => exact h

theorem eraseKey_setKey : eraseKey k (setKey k v members) = eraseKey k members := by
  induction members with
  | nil => simp [setKey, eraseKey]
  | cons m members ih => grind [setKey, eraseKey]

theorem mem_refSites_of_rootOf_stripped
    (h : s ∈ refSites (rootOf (stripModelSchemaMetadata schema))) :
    s ∈ refSites (rootOf schema) := by
  have same : eraseKey "$defs" (stripModelSchemaMetadata schema) =
      (eraseKey "$defs" schema).filter fun m => structuralKeys.contains m.1 := by
    have erased : eraseKey "$defs" (stripModelSchemaMetadata schema) =
        eraseKey "$defs" (stripObjectSchemaMetadata schema) := by
      unfold stripModelSchemaMetadata
      split
      · exact eraseKey_setKey
      · rfl
    rw [erased, eraseKey, stripObjectSchemaMetadata, eraseKey, List.filter_comm]
  rw [rootOf, same] at h
  exact mem_refSites_of_filter (by decide) h

theorem allSites_stripped (h : s ∈ allSites (rootOf (stripModelSchemaMetadata schema))
    (definitionsOf (stripModelSchemaMetadata schema))) :
    s ∈ allSites (rootOf schema) (definitionsOf schema) := by
  obtain h | h := List.mem_append.mp h
  · exact List.mem_append_left _ (mem_refSites_of_rootOf_stripped h)
  · obtain ⟨m, hm, hs⟩ := List.mem_flatMap.mp h
    rw [definitionsOf_stripped] at hm
    obtain ⟨d, hd, rfl⟩ := List.mem_map.mp hm
    exact List.mem_append_right _
      (List.mem_flatMap.mpr ⟨d, hd, mem_refSites_of_stripDefinition hs⟩)

theorem resolves_stripped (h : s.Resolves (definitionsOf schema)) :
    s.Resolves (definitionsOf (stripModelSchemaMetadata schema)) := by
  obtain ⟨definition, found⟩ := h
  rw [RefSite.Resolves, definitionsOf_stripped, lookup_map fun _ => stripDefinition, found]
  rw [Option.map_some, stripDefinition]
  split <;> exact ⟨_, rfl⟩

theorem mentions_of_leadsTo
    (h : s.LeadsTo (definitionsOf (stripModelSchemaMetadata schema)) t) :
    Mentions (definitionsOf schema) s.name t.name := by
  obtain ⟨d, found, r, hr, name, -⟩ := h.mentioned
  obtain ⟨definition, hd, stripped⟩ := lookup_stripped found
  rw [← stripped] at hr
  exact ⟨definition, hd, r, mem_refSites_of_stripDefinition hr, name⟩

/-- `schema_for_model` returns where the references of the schema lead nowhere back. -/
theorem schemaForModel_returns (resolves : ∀ s ∈ allSites (rootOf schema) (definitionsOf schema),
      s.Resolves (definitionsOf schema))
    (acyclic : ∀ s, ReachedSite (stripModelSchemaMetadata schema) s →
      ¬ Relation.TransGen (RefSite.LeadsTo (definitionsOf (stripModelSchemaMetadata schema))) s s)
    (allowExtra : Bool) : ∃ stack out, schemaForModel stack schema allowExtra = .ok out := by
  obtain ⟨stack, inlined, visited, -⟩ : ∃ stack out,
      inlineRefs stack (stripModelSchemaMetadata schema) = .ok out ∧ RefFree out := by
    refine inlineRefs_returns fun s reached => ⟨?_, acyclic s reached⟩
    obtain ⟨names, -⟩ := reached.mem_siteBound
    obtain ⟨r, hr, name⟩ := List.mem_map.mp names
    have found := resolves r (allSites_stripped hr)
    rw [RefSite.Resolves, name] at found
    exact resolves_stripped found
  exact ⟨stack, _, by rw [schemaForModel, visited]; rfl⟩

/-- The schema that pydantic generates for a model that is not recursive: every reference
has a definition, no definition leads back to itself, name maps hold schemas, and
definitions stand at the root only. -/
structure AcyclicSchema (schema : Members) : Prop where
  resolves : ∀ s ∈ allSites (rootOf schema) (definitionsOf schema),
    s.Resolves (definitionsOf schema)
  acyclic : ∀ name, ¬ Relation.TransGen (Mentions (definitionsOf schema)) name name
  shaped : NamesSchemas (definitionsOf (stripModelSchemaMetadata schema))
    (rootOf (stripModelSchemaMetadata schema))
  nested : ∀ keep members, SchemaAt (definitionsOf (stripModelSchemaMetadata schema))
    (rootOf (stripModelSchemaMetadata schema)) keep (.obj members) →
      members.lookup "$defs" = none

/-- Inlining returns for an acyclic schema. -/
theorem AcyclicSchema.returns (h : AcyclicSchema schema) :
    ∃ stack out, schemaForModel stack schema allowExtra = .ok out := by
  refine schemaForModel_returns h.resolves (fun s _ cycle => ?_) allowExtra
  exact h.acyclic s.name (cycle.lift RefSite.name fun _ _ => mentions_of_leadsTo)

/-! ## Emitted schemas -/

/-- What holds of the result of `schema_for_model`. A position is paired with the one below
the result that it became. -/
structure EmittedSchema (defs : Members) (root : Json) (allowExtra : Bool) (out : Json) :
    Prop where
  policy : OnePolicy allowExtra out
  refFree : ∀ members, Within out (.obj members) → refName members = none
  definitions : ∀ v outs, SchemaPair defs root out v (.obj outs) → outs.lookup "$defs" = none
  paired : ∀ keep v, SchemaAt defs root keep v → ∃ o, SchemaPair defs root out v o
  maps : ∀ members o, SchemaPair defs root out (.obj members) o → refName members = none →
    isObjectType members → ¬ isObjectSchema members →
      ∃ outs, o = .obj outs ∧ MapKept defs root out members outs
  siblings : ∀ members name o, SchemaPair defs root out (.obj members) o →
    refName members = some name →
      ∃ outs, o = .obj outs ∧ SiblingsKept defs allowExtra members outs

/-- The schema of an acyclic model is emitted, with one policy for extra fields and without
references. -/
theorem schemaForModel_emitted (allowExtra : Bool) (h : AcyclicSchema schema) :
    (∃ stack out, schemaForModel stack schema allowExtra = .ok out) ∧
      ∀ stack out, schemaForModel stack schema allowExtra = .ok out →
        EmittedSchema (definitionsOf (stripModelSchemaMetadata schema))
          (rootOf (stripModelSchemaMetadata schema)) allowExtra out := by
  refine ⟨h.returns, fun stack out returned => ?_⟩
  obtain ⟨inlined, visited, rfl⟩ := schemaForModel_eq returned
  have hroot : Inlines (definitionsOf (stripModelSchemaMetadata schema))
      (rootOf (stripModelSchemaMetadata schema)) inlined := inlines_of_visit.1 visited
  exact {
    policy := onePolicy_emit
    refFree := fun members within =>
      (refSites_eq_nil_obj.mp (hroot.refFree.emit.within within)).1
    definitions := fun v outs pair => defs_emitted h.shaped hroot h.nested pair
    paired := fun keep v at' => by
      obtain ⟨t, -, pair⟩ := schemaPair_of_schemaAt h.shaped hroot allowExtra at'
      exact ⟨_, pair⟩
    maps := fun members o pair plain _ map => mapKept_emitted h.shaped hroot pair plain map
    siblings := fun members name o pair _ => by
      obtain ⟨keep, t, -, ht, rfl⟩ := schemaPair_emitted h.shaped hroot pair
      exact siblingsKept_emitted ht }

theorem songSchema_acyclic : AcyclicSchema songSchema where
  resolves := by
    have sites : allSites (rootOf songSchema) (definitionsOf songSchema) = [⟨"Song", ∅⟩] := by
      decide +kernel
    rw [sites]
    intro s hs
    obtain rfl := List.mem_singleton.mp hs
    exact ⟨songDefinition, rfl⟩
  acyclic name cycle := by
    have none : ∀ name other, ¬ Mentions (definitionsOf songSchema) name other := by
      rintro name other ⟨definition, found, s, hs, -⟩
      obtain ⟨-, rfl⟩ : name = "Song" ∧ definition = .obj songDefinition := by
        simpa [definitionsOf, songSchema] using mem_of_lookup found
      have free : refSites (.obj songDefinition) = [] := by decide +kernel
      simp [free] at hs
    cases cycle with
    | single h => exact none _ _ h
    | tail _ h => exact none _ _ h
  shaped := songSchema_shaped
  nested keep members at' := by
    obtain ⟨_, position, ⟨⟩⟩ := songSchema_positions at'
    simp only [songPositions, List.mem_cons, List.not_mem_nil, or_false] at position
    obtain rfl | rfl | rfl | rfl := position <;> rfl

theorem songSchema_emitted :
    (∃ stack out, schemaForModel stack songSchema false = .ok out) ∧
      ∀ stack out, schemaForModel stack songSchema false = .ok out →
        EmittedSchema (definitionsOf (stripModelSchemaMetadata songSchema))
          (rootOf (stripModelSchemaMetadata songSchema)) false out :=
  schemaForModel_emitted false songSchema_acyclic

/-- The schema of a model whose extra fields are songs, with a description of their own. -/
def typedExtrasSchema : Members :=
  [("$defs", .obj [("Song", .obj [("properties", .obj [("count", .obj countMembers)]),
      ("title", .str "Song"), ("type", .str "object")])]),
    ("additionalProperties", .obj [("$ref", .str "#/$defs/Song"),
      ("description", .str "An extra song")]),
    ("properties", .obj [("count", .obj countMembers)]), ("title", .str "Params"),
    ("type", .str "object")]

/-- The policy is put over the schema of the extra fields, with its reference and the siblings. -/
theorem typedExtras_overwritten :
    ∃ out, schemaForModel 9 typedExtrasSchema false = .ok out ∧
      ¬ ∃ members, Within out (.obj members) ∧
        members.lookup "description" = some (.str "An extra song") := by
  refine ⟨.obj [("additionalProperties", .bool false), ("properties", .obj [("count", .obj
    [("default", .num 0), ("type", .str "integer")])]), ("type", .str "object")], rfl, ?_⟩
  rintro ⟨members, within, found⟩
  have leaf : ∀ {v : Json}, Within v (.obj members) → ¬ v.IsScalar := by
    intro v h scalar
    have same := h.eq_of_scalar scalar
    subst same
    cases scalar
  simp only [within_obj_iff, List.mem_cons, List.not_mem_nil, or_false, exists_eq_or_imp,
    exists_eq_left, Json.obj.injEq] at within
  obtain rfl | h | (rfl | rfl | h | h) | h := within
  · cases found
  · exact leaf h trivial
  · cases found
  · cases found
  · exact leaf h trivial
  · exact leaf h trivial
  · exact leaf h trivial

end Perago
