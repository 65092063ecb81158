import Perago.Taskdef.Acceptance

/-!
# What metadata stripping leaves

Each schema position of the schema that pydantic generates is paired with what
the emitted schema has there, which is nothing where a keyword on the way was
dropped. The names of properties and the literals are to be the same and no
`title` is to be left; the result says for which schemas this is so.
-/

namespace Perago

def literalKeywords : List String := ["default", "const", "enum", "examples"]

/-! ## Positions -/

/-- What an emitted value has under a key, if it is there. -/
def under (k : String) : Option Json → Option Json
  | some (.obj members) => members.lookup k
  | _ => none

/-- What an emitted value has at an index, if it is there. -/
def itemAt (i : Nat) : Option Json → Option Json
  | some (.arr items) => items[i]?
  | _ => none

/-- A schema position of the generated schema and what `out` has there. A reference stands for
its definition under its siblings. -/
inductive GeneratedPair (defs : Members) (root out : Json) : Json → Option Json → Prop
  | root : GeneratedPair defs root out root (some out)
  | ref {members definition : Members} {name : String} {o : Option Json}
      (h : GeneratedPair defs root out (.obj members) o) (isRef : refName members = some name)
      (found : defs.lookup name = some (.obj definition)) :
      GeneratedPair defs root out (.obj (updateKeys definition (eraseKey "$ref" members))) o
  | named {members ps : Members} {k name : String} {p : Json} {o : Option Json}
      (h : GeneratedPair defs root out (.obj members) o) (plain : refName members = none)
      (keyword : k ∈ nameMapKeywords) (names : members.lookup k = some (.obj ps))
      (schema : ps.lookup name = some p) :
      GeneratedPair defs root out p (under name (under k o))
  | sub {members : Members} {k : String} {p : Json} {o : Option Json}
      (h : GeneratedPair defs root out (.obj members) o) (plain : refName members = none)
      (keyword : k ∈ subschemaKeywords) (kept : ¬ IsOverwritten members k)
      (schema : members.lookup k = some p) : GeneratedPair defs root out p (under k o)
  | item {members : Members} {ps : List Json} {k : String} {i : Nat} {p : Json} {o : Option Json}
      (h : GeneratedPair defs root out (.obj members) o) (plain : refName members = none)
      (keyword : k ∈ schemaListKeywords) (schemas : members.lookup k = some (.arr ps))
      (schema : ps[i]? = some p) : GeneratedPair defs root out p (itemAt i (under k o))

/-- The keywords that the first pass drops from the schema of a model. -/
def dropsMetadata (k : String) : Bool := !structuralKeys.contains k

/-- The keywords that are dropped where a reference stands for its definition; `drops` those of
the reference. -/
def dropsExpanded (members definition : Members) (drops : String → Bool) (k : String) : Bool :=
  if ((eraseKey "$ref" members).lookup k).isSome then drops k
  else drops "$ref" || (isObjectType definition && dropsMetadata k)

/-- A schema position of the generated schema: whether it is named `properties`, and the
keywords that are dropped there. -/
inductive GeneratedAt (defs : Members) (root : Json) : Bool → (String → Bool) → Json → Prop
  | root : GeneratedAt defs root false dropsMetadata root
  | ref {members definition : Members} {name : String} {keep : Bool} {drops : String → Bool}
      (h : GeneratedAt defs root keep drops (.obj members)) (isRef : refName members = some name)
      (found : defs.lookup name = some (.obj definition)) :
      GeneratedAt defs root keep (dropsExpanded members definition drops)
        (.obj (updateKeys definition (eraseKey "$ref" members)))
  | named {members ps : Members} {k name : String} {p : Json} {keep : Bool}
      {drops : String → Bool} (h : GeneratedAt defs root keep drops (.obj members))
      (plain : refName members = none) (keyword : k ∈ nameMapKeywords)
      (names : members.lookup k = some (.obj ps)) (schema : ps.lookup name = some p) :
      GeneratedAt defs root (name == "properties")
        (fun _ => drops k || (k != "properties" && name == "title")) p
  | sub {members : Members} {k : String} {p : Json} {keep : Bool} {drops : String → Bool}
      (h : GeneratedAt defs root keep drops (.obj members)) (plain : refName members = none)
      (keyword : k ∈ subschemaKeywords) (kept : ¬ IsOverwritten members k)
      (schema : members.lookup k = some p) : GeneratedAt defs root false (fun _ => drops k) p
  | item {members : Members} {ps : List Json} {k : String} {i : Nat} {p : Json} {keep : Bool}
      {drops : String → Bool} (h : GeneratedAt defs root keep drops (.obj members))
      (plain : refName members = none) (keyword : k ∈ schemaListKeywords)
      (schemas : members.lookup k = some (.arr ps)) (schema : ps[i]? = some p) :
      GeneratedAt defs root false (fun _ => drops k) p

/-- What stands under the names of a name map of the generated schema are schemas, not texts. -/
def NamesSchemasGenerated (defs : Members) (root : Json) : Prop :=
  ∀ keep drops members, GeneratedAt defs root keep drops (.obj members) →
    refName members = none → ∀ k ∈ nameMapKeywords, ∀ names,
      members.lookup k = some (.obj names) → ∀ m ∈ names, ∀ s, m.2 ≠ .str s

/-! ## What becomes of a position -/

/-- A value is emitted whole, or not at all where it is `dropped`. -/
inductive Passed (defs : Members) (allowExtra keep : Bool) : Bool → Json → Option Json → Prop
  | lost {p : Json} : Passed defs allowExtra keep true p none
  | whole {p t : Json} (inlined : Inlines defs p t) :
      Passed defs allowExtra keep false p (some (emit allowExtra keep t))

/-- What a position becomes: it is passed as a whole, or of a model its kept keywords are. -/
inductive Became (defs : Members) (allowExtra keep : Bool) (drops : String → Bool) :
    Json → Option Json → Prop
  | passed {dropped : Bool} {p : Json} {o : Option Json} (all : ∀ k, drops k = dropped)
      (h : Passed defs allowExtra keep dropped p o) : Became defs allowExtra keep drops p o
  | part {members lefts : Members} {t : Json} (dropped : drops "$ref" = true)
      (left : ∀ k, lefts.lookup k = if drops k then none else members.lookup k)
      (inlined : Inlines defs (.obj lefts) t) :
      Became defs allowExtra keep drops (.obj members) (some (emit allowExtra keep t))

variable {defs members : Members} {root out p v : Json} {o : Option Json}
  {allowExtra keep dropped : Bool} {drops : String → Bool} {k : String}

/-- Of a plain mapping the kept keywords are emitted. -/
theorem Became.plain_inv (h : Became defs allowExtra keep drops (.obj members) o)
    (plain : refName members = none) :
    (o = none ∧ ∀ k, drops k = true) ∨ ∃ (lefts : Members) (inner : Members),
      o = some (.obj (emitMembers allowExtra keep inner)) ∧
        (∀ k, lefts.lookup k = if drops k then none else members.lookup k) ∧
        ∀ k, (lefts.lookup k = none ∧ inner.lookup k = none) ∨
          ∃ v t, lefts.lookup k = some v ∧ inner.lookup k = some t ∧ Inlines defs v t := by
  cases h with
  | passed all h =>
    cases h with
    | lost => exact .inl ⟨rfl, all⟩
    | whole inlined =>
      obtain ⟨inner, rfl, parts⟩ := inlined.plain_inv plain
      exact .inr ⟨members, inner, by rw [emit_obj], fun k => by simp [all], parts⟩
  | @part _ lefts _ dropped left inlined =>
    have noRef : refName lefts = none := by simp [refName, left, dropped]
    obtain ⟨inner, rfl, parts⟩ := inlined.plain_inv noRef
    exact .inr ⟨lefts, inner, by rw [emit_obj], left, parts⟩

/-- A keyword that is left makes the mapping that is left no less an object schema. -/
theorem IsOverwritten.of_left {lefts : Members}
    (left : ∀ k, lefts.lookup k = if drops k then none else members.lookup k)
    (h : IsOverwritten lefts k) : IsOverwritten members k := by
  have present : ∀ k v, lefts.lookup k = some v → members.lookup k = some v := by
    intro k v hv
    rw [left] at hv
    split at hv
    · cases hv
    · exact hv
  obtain ⟨object, rfl⟩ := h
  obtain ⟨type, ps, properties⟩ := isObjectSchema_iff.mp object
  exact ⟨isObjectSchema_iff.mpr ⟨present _ _ type, ps, present _ _ properties⟩, rfl⟩

theorem Became.absent (h : Became defs allowExtra keep drops (.obj members) o)
    (plain : refName members = none) (kept : ¬ IsOverwritten members k)
    (hk : members.lookup k = none) : under k o = none := by
  obtain ⟨rfl, -⟩ | ⟨lefts, inner, rfl, left, parts⟩ := h.plain_inv plain
  · rfl
  · have gone : lefts.lookup k = none := by rw [left, hk, ite_self]
    by_cases title : keep = false ∧ k = "title"
    · obtain ⟨rfl, rfl⟩ := title
      rw [under, lookup_emitMembers, if_neg (by simp), if_pos ⟨rfl, rfl⟩]
    · obtain ⟨-, absent⟩ | ⟨v, t, hv, -⟩ := lookup_emitted allowExtra keep parts
        (fun h => kept (h.of_left left)) (by grind)
      · exact absent
      · rw [gone] at hv
        cases hv

/-- A keyword is passed unless it is dropped or is a title. -/
theorem Became.member (h : Became defs allowExtra keep drops (.obj members) o)
    (plain : refName members = none) (kept : ¬ IsOverwritten members k)
    (hv : members.lookup k = some v) :
    Passed defs allowExtra (k == "properties") (drops k || (!keep && k == "title")) v
      (under k o) := by
  obtain ⟨rfl, dropped⟩ | ⟨lefts, inner, rfl, left, parts⟩ := h.plain_inv plain
  · rw [dropped]
    exact .lost
  · by_cases title : keep = false ∧ k = "title"
    · obtain ⟨rfl, rfl⟩ := title
      rw [under, lookup_emitMembers, if_neg (by simp), if_pos ⟨rfl, rfl⟩, beq_self_eq_true,
        Bool.not_false, Bool.and_true, Bool.or_true]
      exact .lost
    · have found := lookup_emitted allowExtra keep parts (fun h => kept (h.of_left left))
        (by grind)
      have stays : (!keep && k == "title") = false := by
        cases keep <;> simp at title ⊢
        exact title
      rw [stays, Bool.or_false, under]
      cases dropped : drops k with
      | true =>
        obtain ⟨-, absent⟩ | ⟨v', t, hv', -⟩ := found
        · rw [absent]
          exact .lost
        · simp [left, dropped] at hv'
      | false =>
        rw [left, dropped, hv] at found
        obtain ⟨⟨⟩, -⟩ | ⟨v', t, ⟨⟩, inlined, found⟩ := found
        rw [found]
        exact .whole inlined

theorem Passed.item {items : List Json} {i : Nat}
    (h : Passed defs allowExtra keep dropped (.arr items) o) (hp : items[i]? = some p) :
    Passed defs allowExtra keep dropped p (itemAt i o) := by
  cases h with
  | lost => exact .lost
  | whole inlined =>
    obtain ⟨outs, t, emitted, inlined, found⟩ := item_emitted allowExtra keep inlined hp
    rw [emitted, itemAt, found]
    exact .whole inlined

theorem Passed.became (h : Passed defs allowExtra keep dropped p o) :
    Became defs allowExtra keep (fun _ => dropped) p o :=
  .passed (fun _ => rfl) h

section

variable (h : Became defs allowExtra keep drops (.obj members) o) (plain : refName members = none)

include h plain

theorem Became.name {ps : Members} {name : String} (keyword : k ∈ nameMapKeywords)
    (names : members.lookup k = some (.obj ps)) (schemas : ∀ m ∈ ps, ∀ s, m.2 ≠ .str s)
    (schema : ps.lookup name = some p) :
    Passed defs allowExtra (name == "properties")
      (drops k || (k != "properties" && name == "title")) p (under name (under k o)) := by
  have map := h.member plain (not_overwritten_of_nameMap keyword) names
  have title : (k == "title") = false := beq_eq_false_iff_ne.mpr (ne_title_of_nameMap keyword)
  rw [title, Bool.and_false, Bool.or_false] at map
  exact map.became.member (refName_of_schemas schemas)
    (fun h => not_isObjectSchema_of_schemas schemas h.1) schema

theorem Became.sub (keyword : k ∈ subschemaKeywords) (kept : ¬ IsOverwritten members k)
    (schema : members.lookup k = some p) :
    Passed defs allowExtra false (drops k) p (under k o) := by
  have passed := h.member plain kept schema
  obtain ⟨title, mapping⟩ := subschema_not_special keyword
  rwa [mapping, beq_eq_false_iff_ne.mpr title, Bool.and_false, Bool.or_false] at passed

theorem Became.listed {ps : List Json} {i : Nat} (keyword : k ∈ schemaListKeywords)
    (schemas : members.lookup k = some (.arr ps)) (schema : ps[i]? = some p) :
    Passed defs allowExtra false (drops k) p (itemAt i (under k o)) := by
  obtain ⟨title, mapping, kept⟩ := schemaList_not_special members keyword
  have passed := h.member plain kept schemas
  rw [mapping, beq_eq_false_iff_ne.mpr title, Bool.and_false, Bool.or_false] at passed
  exact passed.item schema

end

/-! ## Positions and what becomes of them -/

section

variable {schema : Members} {inlined : Json}

theorem became_root
    (h : Inlines defs (rootOf (stripModelSchemaMetadata schema)) inlined) :
    Became defs allowExtra false dropsMetadata (rootOf schema)
      (some (emit allowExtra false inlined)) := by
  refine .part (by decide) (fun k => ?_) h
  by_cases isDefs : k = "$defs"
  · simp [isDefs]
  · rw [lookup_eraseKey, lookup_eraseKey, if_neg isDefs, if_neg isDefs,
      lookup_stripModelSchemaMetadata isDefs, lookup_stripObjectSchemaMetadata, dropsMetadata]
    cases structuralKeys.contains k <;> rfl

theorem Became.expanded {definition : Members} {name : String}
    (h : Became (definitionsOf (stripModelSchemaMetadata schema)) allowExtra keep drops
      (.obj members) o) (isRef : refName members = some name)
    (found : (definitionsOf schema).lookup name = some (.obj definition)) :
    Became (definitionsOf (stripModelSchemaMetadata schema)) allowExtra keep
      (dropsExpanded members definition drops)
      (.obj (updateKeys definition (eraseKey "$ref" members))) o := by
  cases h with
  | passed all h =>
    cases h with
    | lost => exact .passed (fun k => by simp [dropsExpanded, all]) .lost
    | whole inlined =>
      have stripped : (definitionsOf (stripModelSchemaMetadata schema)).lookup name =
          some (stripDefinition (.obj definition)) := by
        rw [definitionsOf_stripped, lookup_map fun _ => stripDefinition, found, Option.map_some]
      rw [stripDefinition] at stripped
      cases object : isObjectType definition with
      | false =>
        rw [object, if_neg (by decide)] at stripped
        exact .passed (fun k => by simp [dropsExpanded, all, object])
          (.whole (inlined.ref_inv isRef stripped))
      | true =>
        rw [object, if_pos rfl] at stripped
        refine .part ?_ (fun k => ?_) (inlined.ref_inv isRef stripped)
        · simp [dropsExpanded, object, dropsMetadata, structuralKeys]
        · rw [lookup_updateKeys, lookup_updateKeys, lookup_stripObjectSchemaMetadata, dropsExpanded,
            object, all, all, dropsMetadata]
          cases (eraseKey "$ref" members).lookup k <;> cases structuralKeys.contains k <;> rfl
  | @part _ lefts _ dropped left inlined =>
    refine .part (by simp [dropsExpanded, dropped]) (fun k => ?_) inlined
    rw [left, lookup_updateKeys, dropsExpanded]
    by_cases ref : k = "$ref"
    · simp [ref, dropped]
    · rw [lookup_eraseKey, if_neg ref]
      cases members.lookup k <;> simp [dropped]

section

variable (shaped : NamesSchemasGenerated (definitionsOf schema) (rootOf schema))
  (visited : Inlines (definitionsOf (stripModelSchemaMetadata schema))
    (rootOf (stripModelSchemaMetadata schema)) inlined)

include shaped visited

/-- What a position has in the emitted schema is what becomes of it there. -/
theorem generatedPair_became {allowExtra : Bool}
    (h : GeneratedPair (definitionsOf schema) (rootOf schema) (emit allowExtra false inlined) p o) :
    ∃ keep drops, GeneratedAt (definitionsOf schema) (rootOf schema) keep drops p ∧
      Became (definitionsOf (stripModelSchemaMetadata schema)) allowExtra keep drops p o := by
  induction h with
  | root => exact ⟨false, _, .root, became_root visited⟩
  | ref _ isRef found ih =>
    obtain ⟨keep, drops, at', became⟩ := ih
    exact ⟨keep, _, at'.ref isRef found, became.expanded isRef found⟩
  | named _ plain keyword names schema ih =>
    obtain ⟨keep, drops, at', became⟩ := ih
    exact ⟨_, _, at'.named plain keyword names schema,
      (became.name plain keyword names
        (shaped _ _ _ at' plain _ keyword _ names) schema).became⟩
  | sub _ plain keyword kept schema ih =>
    obtain ⟨keep, drops, at', became⟩ := ih
    exact ⟨_, _, at'.sub plain keyword kept schema, (became.sub plain keyword kept schema).became⟩
  | item _ plain keyword schemas schema ih =>
    obtain ⟨keep, drops, at', became⟩ := ih
    exact ⟨_, _, at'.item plain keyword schemas schema,
      (became.listed plain keyword schemas schema).became⟩

/-- Every position is paired with what becomes of it. -/
theorem generatedPair_of_generatedAt (allowExtra : Bool)
    (h : GeneratedAt (definitionsOf schema) (rootOf schema) keep drops p) :
    ∃ o, GeneratedPair (definitionsOf schema) (rootOf schema) (emit allowExtra false inlined) p o ∧
      Became (definitionsOf (stripModelSchemaMetadata schema)) allowExtra keep drops p o := by
  induction h with
  | root => exact ⟨_, .root, became_root visited⟩
  | ref _ isRef found ih =>
    obtain ⟨o, pair, became⟩ := ih
    exact ⟨o, pair.ref isRef found, became.expanded isRef found⟩
  | named at' plain keyword names schema ih =>
    obtain ⟨o, pair, became⟩ := ih
    exact ⟨_, pair.named plain keyword names schema,
      (became.name plain keyword names
        (shaped _ _ _ at' plain _ keyword _ names) schema).became⟩
  | sub _ plain keyword kept schema ih =>
    obtain ⟨o, pair, became⟩ := ih
    exact ⟨_, pair.sub plain keyword kept schema, (became.sub plain keyword kept schema).became⟩
  | item _ plain keyword schemas schema ih =>
    obtain ⟨o, pair, became⟩ := ih
    exact ⟨_, pair.item plain keyword schemas schema,
      (became.listed plain keyword schemas schema).became⟩

end

end

/-! ## Stripping -/

/-- The names of properties and the literals are the same, and no `title` is left. -/
structure PairKept (members : Members) (o : Option Json) : Prop where
  names : ∀ ps, members.lookup "properties" = some (.obj ps) →
    ∃ os, under "properties" o = some (.obj os) ∧
      ∀ name, (os.lookup name).isSome ↔ (ps.lookup name).isSome
  literals : ∀ k ∈ literalKeywords, under k o = members.lookup k
  untitled : under "title" o = none

/-- At every schema position of the generated schema. -/
def MetadataStripped (schema : Members) (out : Json) : Prop :=
  ∀ members o, GeneratedPair (definitionsOf schema) (rootOf schema) out (.obj members) o →
    refName members = none → PairKept members o

/-- No properties or literals are dropped, no schema that is named `properties` has a title
that is left, no literal has a reference, a title or what looks like an object schema in it. -/
def Strippable (allowExtra : Bool) (schema : Members) : Prop :=
  ∀ keep drops members,
    GeneratedAt (definitionsOf schema) (rootOf schema) keep drops (.obj members) →
    refName members = none →
      (∀ ps, members.lookup "properties" = some (.obj ps) → drops "properties" = false) ∧
      (keep = true → drops "title" = false → members.lookup "title" = none) ∧
      ∀ k ∈ literalKeywords, ∀ v, members.lookup k = some v →
        drops k = false ∧ RefFree v ∧ Settled allowExtra false v

theorem literal_not_special (members : Members) (hk : k ∈ literalKeywords) :
    k ≠ "title" ∧ (k == "properties") = false ∧ ¬ IsOverwritten members k := by
  refine ⟨?_, ?_, ?_⟩
  · rintro rfl
    simp [literalKeywords] at hk
  · rw [beq_eq_false_iff_ne]
    rintro rfl
    simp [literalKeywords] at hk
  · rintro ⟨-, rfl⟩
    simp [literalKeywords] at hk

section

variable (h : Became defs allowExtra keep drops (.obj members) o) (plain : refName members = none)

include h plain

theorem Became.names_iff
    (schemas : ∀ ps, members.lookup "properties" = some (.obj ps) → ∀ m ∈ ps, ∀ s, m.2 ≠ .str s) :
    (∀ ps, members.lookup "properties" = some (.obj ps) →
      ∃ os, under "properties" o = some (.obj os) ∧
        ∀ name, (os.lookup name).isSome ↔ (ps.lookup name).isSome) ↔
      ∀ ps, members.lookup "properties" = some (.obj ps) → drops "properties" = false := by
  refine forall₂_congr fun ps hps => ?_
  have noRef := refName_of_schemas (schemas ps hps)
  have map := h.member plain (by simp [IsOverwritten]) hps
  have same : (drops "properties" || (!keep && "properties" == "title")) =
      drops "properties" := by simp
  rw [same] at map
  cases dropped : drops "properties" with
  | true =>
    rw [dropped] at map
    refine iff_of_false ?_ (by simp)
    rintro ⟨os, present, -⟩
    generalize under "properties" o = child at map present
    cases map
    cases present
  | false =>
    refine iff_of_true ?_ rfl
    rw [dropped] at map
    generalize under "properties" o = child at map
    cases map with
    | whole inlined =>
      obtain ⟨inner, rfl, parts⟩ := inlined.plain_inv noRef
      refine ⟨_, congrArg some emit_obj, fun name => ?_⟩
      obtain ⟨hp, ho⟩ | ⟨p, t, hp, -, ho⟩ := lookup_emitted allowExtra true (k := name) parts
        (fun h => not_isObjectSchema_of_schemas (schemas ps hps) h.1) (.inl rfl)
      · simp only [beq_self_eq_true, hp, ho]
      · simp only [beq_self_eq_true, hp, ho, Option.isSome_some]

theorem Became.literal_iff (hk : k ∈ literalKeywords) : under k o = members.lookup k ↔
    ∀ v, members.lookup k = some v → drops k = false ∧ RefFree v ∧ Settled allowExtra false v := by
  obtain ⟨title, mapping, kept⟩ := literal_not_special members hk
  cases hv : members.lookup k with
  | none => simp [h.absent plain kept hv]
  | some v =>
    have passed := h.member plain kept hv
    rw [mapping, beq_eq_false_iff_ne.mpr title, Bool.and_false, Bool.or_false] at passed
    generalize under k o = child at passed
    generalize drops k = dropped at passed
    cases passed with
    | lost => simp
    | whole inlined => simp [emit_inlined_eq_iff inlined]

theorem Became.untitled_iff : under "title" o = none ↔
    (keep = true → drops "title" = false → members.lookup "title" = none) := by
  cases hv : members.lookup "title" with
  | none => simp [h.absent plain (by simp [IsOverwritten]) hv]
  | some v =>
    have passed := h.member plain (by simp [IsOverwritten]) hv
    generalize under "title" o = child at passed
    cases keep with
    | false =>
      simp only [Bool.not_false, Bool.true_and, beq_self_eq_true, Bool.or_true] at passed
      cases passed
      simp
    | true =>
      simp only [Bool.not_true, Bool.false_and, Bool.or_false] at passed
      generalize drops "title" = dropped at passed
      cases passed <;> simp

/-- One position is kept exactly when its names and literals are not dropped, its title is
stripped and its literals are left. -/
theorem pairKept_iff
    (schemas : ∀ ps, members.lookup "properties" = some (.obj ps) → ∀ m ∈ ps, ∀ s, m.2 ≠ .str s) :
    PairKept members o ↔
      (∀ ps, members.lookup "properties" = some (.obj ps) → drops "properties" = false) ∧
      (keep = true → drops "title" = false → members.lookup "title" = none) ∧
      ∀ k ∈ literalKeywords, ∀ v, members.lookup k = some v →
        drops k = false ∧ RefFree v ∧ Settled allowExtra false v := by
  rw [← h.names_iff plain schemas, ← h.untitled_iff plain]
  constructor
  · rintro ⟨names, literals, untitled⟩
    exact ⟨names, untitled, fun k hk => (h.literal_iff plain hk).mp (literals k hk)⟩
  · rintro ⟨names, untitled, literals⟩
    exact ⟨names, fun k hk => (h.literal_iff plain hk).mpr (literals k hk), untitled⟩

end

/-- What is emitted keeps names and literals and has no title exactly for the schemas that
can be stripped. -/
theorem schemaForModel_stripped_iff {stack : Nat} {schema : Members} {out : Json}
    (returned : schemaForModel stack schema allowExtra = .ok out)
    (shaped : NamesSchemasGenerated (definitionsOf schema) (rootOf schema)) :
    MetadataStripped schema out ↔ Strippable allowExtra schema := by
  obtain ⟨inlined, visited, rfl⟩ := schemaForModel_eq returned
  have hroot : Inlines (definitionsOf (stripModelSchemaMetadata schema))
      (rootOf (stripModelSchemaMetadata schema)) inlined := inlines_of_visit.1 visited
  constructor
  · intro stripped keep drops members at' plain
    obtain ⟨o, pair, became⟩ := generatedPair_of_generatedAt shaped hroot allowExtra at'
    have schemas := shaped keep drops members at' plain "properties" (by decide)
    exact (pairKept_iff became plain schemas).mp (stripped members o pair plain)
  · intro strippable members o pair plain
    obtain ⟨keep, drops, at', became⟩ := generatedPair_became shaped hroot pair
    have schemas := shaped keep drops members at' plain "properties" (by decide)
    exact (pairKept_iff became plain schemas).mpr (strippable keep drops members at' plain)

/-! ## Schemas that are stripped and that are altered -/

def songMembers : Members := [("properties", .obj [("song", .obj [("$ref", .str "#/$defs/Song")])]),
  ("required", .arr [.str "song"]), ("title", .str "Params"), ("type", .str "object")]

theorem songSchema_generatedAt
    (h : GeneratedAt (definitionsOf songSchema) (rootOf songSchema) keep drops p) :
    keep = false ∧ drops "properties" = false ∧
      (p = .obj songMembers ∨ p = .obj songDefinition ∨
        drops "$ref" = false ∧ p = .obj [("$ref", .str "#/$defs/Song")] ∨
        drops "default" = false ∧ p = .obj countMembers) := by
  induction h with
  | root => exact ⟨rfl, rfl, .inl rfl⟩
  | ref _ isRef found ih =>
    obtain ⟨rfl, -, ⟨⟨⟩⟩ | ⟨⟨⟩⟩ | ⟨ref, ⟨⟩⟩ | ⟨-, ⟨⟩⟩⟩ := ih <;> cases isRef
    obtain rfl := Json.obj.inj (Option.some.inj found)
    refine ⟨rfl, ?_, .inr (.inl rfl)⟩
    simp [dropsExpanded, eraseKey, ref, dropsMetadata, structuralKeys]
  | named _ plain keyword names schema ih =>
    have found := mem_of_lookup names
    have below := mem_of_lookup schema
    obtain ⟨rfl, kept, ⟨⟨⟩⟩ | ⟨⟨⟩⟩ | ⟨ref, ⟨⟩⟩ | ⟨-, ⟨⟩⟩⟩ := ih
    · simp only [songMembers, List.mem_cons, Prod.mk.injEq, List.not_mem_nil, or_false] at found
      obtain ⟨rfl, ⟨⟩⟩ | ⟨-, ⟨⟩⟩ | ⟨-, ⟨⟩⟩ | ⟨-, ⟨⟩⟩ := found
      obtain ⟨rfl, rfl⟩ := Prod.mk.inj (List.mem_singleton.mp below)
      simp [kept]
    · simp only [songDefinition, List.mem_cons, Prod.mk.injEq, List.not_mem_nil, or_false] at found
      obtain ⟨rfl, ⟨⟩⟩ | ⟨-, ⟨⟩⟩ | ⟨-, ⟨⟩⟩ := found
      obtain ⟨rfl, rfl⟩ := Prod.mk.inj (List.mem_singleton.mp below)
      simp [kept]
    · cases plain
    · simp [countMembers] at found
  | @sub members k _ _ _ _ plain keyword kept schema ih =>
    have found : k ∈ keysOf members := by
      rw [← lookup_isSome_iff_mem_keys, schema]
      rfl
    have none : ∀ members ∈ [songMembers, songDefinition, countMembers],
        ∀ k ∈ keysOf members, k ∉ subschemaKeywords := by decide
    obtain ⟨-, -, ⟨⟨⟩⟩ | ⟨⟨⟩⟩ | ⟨-, ⟨⟩⟩ | ⟨-, ⟨⟩⟩⟩ := ih
    · exact absurd keyword (none _ (by simp) k found)
    · exact absurd keyword (none _ (by simp) k found)
    · cases plain
    · exact absurd keyword (none _ (by simp) k found)
  | @item members _ k _ _ _ _ _ plain keyword schemas schema ih =>
    have found : k ∈ keysOf members := by
      rw [← lookup_isSome_iff_mem_keys, schemas]
      rfl
    have none : ∀ members ∈ [songMembers, songDefinition, countMembers],
        ∀ k ∈ keysOf members, k ∉ schemaListKeywords := by decide
    obtain ⟨-, -, ⟨⟨⟩⟩ | ⟨⟨⟩⟩ | ⟨-, ⟨⟩⟩ | ⟨-, ⟨⟩⟩⟩ := ih
    · exact absurd keyword (none _ (by simp) k found)
    · exact absurd keyword (none _ (by simp) k found)
    · cases plain
    · exact absurd keyword (none _ (by simp) k found)

theorem songSchema_strippable : Strippable false songSchema := by
  intro keep drops members at' plain
  obtain ⟨rfl, kept, position⟩ := songSchema_generatedAt at'
  refine ⟨fun _ _ => kept, by simp, fun k hk v hv => ?_⟩
  have found : k ∈ keysOf members := by
    rw [← lookup_isSome_iff_mem_keys, hv]
    rfl
  have none : ∀ members ∈ [songMembers, songDefinition],
      ∀ k ∈ keysOf members, k ∉ literalKeywords := by decide
  obtain ⟨⟨⟩⟩ | ⟨⟨⟩⟩ | ⟨-, ⟨⟩⟩ | ⟨left, ⟨⟩⟩ := position
  · exact absurd hk (none _ (by simp) k found)
  · exact absurd hk (none _ (by simp) k found)
  · cases plain
  · have only : ∀ k ∈ keysOf countMembers, k ∈ literalKeywords → k = "default" := by decide
    obtain rfl := only k found hk
    obtain rfl := Option.some.inj hv
    exact ⟨left, rfl, trivial⟩

theorem songSchema_stripped : ∃ out, schemaForModel 9 songSchema false = .ok out ∧
    MetadataStripped songSchema out := by
  have returned : schemaForModel 9 songSchema false = .ok (.obj
      [("properties", .obj [("song", .obj [("properties", .obj
          [("count", .obj [("default", .num 0), ("type", .str "integer")])]),
        ("type", .str "object"), ("additionalProperties", .bool false)])]),
      ("required", .arr [.str "song"]), ("type", .str "object"),
      ("additionalProperties", .bool false)]) := rfl
  refine ⟨_, returned, (schemaForModel_stripped_iff returned ?_).mpr songSchema_strippable⟩
  intro keep drops members at' plain k _ names hnames m hm s
  have found := mem_of_lookup hnames
  obtain ⟨-, -, ⟨⟨⟩⟩ | ⟨⟨⟩⟩ | ⟨-, ⟨⟩⟩ | ⟨-, ⟨⟩⟩⟩ := songSchema_generatedAt at'
  · simp only [songMembers, List.mem_cons, Prod.mk.injEq, List.not_mem_nil, or_false] at found
    obtain ⟨-, ⟨⟩⟩ | ⟨-, ⟨⟩⟩ | ⟨-, ⟨⟩⟩ | ⟨-, ⟨⟩⟩ := found
    obtain rfl := List.mem_singleton.mp hm
    simp
  · simp only [songDefinition, List.mem_cons, Prod.mk.injEq, List.not_mem_nil, or_false] at found
    obtain ⟨-, ⟨⟩⟩ | ⟨-, ⟨⟩⟩ | ⟨-, ⟨⟩⟩ := found
    obtain rfl := List.mem_singleton.mp hm
    simp
  · cases plain
  · simp [countMembers] at found

/-- The schema of a model with a text field `properties` and a mapping whose default has a
key `title`. -/
def authorSchema : Members :=
  [("properties", .obj
      [("properties", .obj [("title", .str "Properties"), ("type", .str "string")]),
        ("meta", .obj [("additionalProperties", .bool true),
          ("default", .obj [("title", .str "draft")]), ("title", .str "Meta"),
          ("type", .str "object")])]),
    ("required", .arr [.str "properties"]), ("title", .str "Params"), ("type", .str "object")]

def authorEmitted : Json :=
  .obj [("properties", .obj
      [("properties", .obj [("title", .str "Properties"), ("type", .str "string")]),
        ("meta", .obj [("additionalProperties", .bool true), ("default", .obj []),
          ("type", .str "object")])]),
    ("required", .arr [.str "properties"]), ("type", .str "object"),
    ("additionalProperties", .bool false)]

/-- A model with a field of a named type, a mapping with an example. -/
def exampleSchema : Members :=
  [("$defs", .obj [("Tags", .obj [("additionalProperties", .obj [("type", .str "integer")]),
      ("examples", .arr [.obj [("a", .num 1)]]), ("type", .str "object")])]),
    ("properties", .obj [("tags", .obj [("$ref", .str "#/$defs/Tags")])]),
    ("required", .arr [.str "tags"]), ("title", .str "Params"), ("type", .str "object")]

/-- The title of the field `properties` is left and the default of the mapping is emptied; the
example of the named type is dropped; so are the names of a model that refers to itself. -/
theorem author_altered :
    (schemaForModel 9 authorSchema false = .ok authorEmitted ∧
      ¬ MetadataStripped authorSchema authorEmitted) ∧
    (schemaForModel 9 exampleSchema false = .ok tagsEmitted ∧
      ¬ MetadataStripped exampleSchema tagsEmitted) ∧
    schemaForModel 9 chainSchema false = .ok (.obj []) ∧
      ¬ MetadataStripped chainSchema (.obj []) := by
  refine ⟨⟨rfl, fun stripped => ?_⟩, ⟨rfl, fun stripped => ?_⟩, rfl, fun stripped => ?_⟩
  · have kept := stripped _ _ (.named .root rfl (by decide)
      (rfl : List.lookup "properties" _ = _) (rfl : List.lookup "properties" _ = _)) rfl
    cases kept.untitled
  · have kept := stripped _ _ (.ref (.named .root rfl (by decide)
      (rfl : List.lookup "properties" _ = _) (rfl : List.lookup "tags" _ = _)) rfl rfl) rfl
    cases kept.literals "examples" (by decide)
  · have kept := stripped _ _ (.ref .root rfl rfl) rfl
    obtain ⟨os, ⟨⟩, -⟩ := kept.names _ rfl

end Perago
