import Perago.Taskdef.Inlined

/-!
# What is emitted

The last two rewrites as one function on an inlined value, with what it leaves
under each key and the values that it leaves as they are.
-/

namespace Perago

/-- Stripped and with its extra keys set; `keep` inside a preserved mapping. -/
def emit (allowExtra keep : Bool) (value : Json) : Json :=
  setObjectSchemaExtra allowExtra
    (stripKeys generatedMetadataKeys nameMappingKeys keep value)

theorem schemaForModel_eq {stack : Nat} {schema : Members} {allowExtra : Bool} {out : Json}
    (h : schemaForModel stack schema allowExtra = .ok out) :
    ∃ inlined, inlineRefs stack (stripModelSchemaMetadata schema) = .ok inlined ∧
      out = emit allowExtra false inlined := by
  obtain ⟨inlined, hi, h⟩ := ok_of_bind h
  exact ⟨inlined, hi, (Except.ok.inj h).symm⟩

section

variable {keys preserve : List String} {keep allowExtra : Bool} {members : Members}
  {items : List Json} {k : String}

/-! ## Each rewrite under a key -/

theorem lookup_stripKeysMembers :
    (stripKeysMembers keys preserve keep members).lookup k =
      if !keep && keys.contains k then none
      else (members.lookup k).map (stripKeys keys preserve (preserve.contains k)) := by
  induction members with
  | nil => simp [stripKeysMembers]
  | cons m members ih =>
    obtain ⟨key, item⟩ := m
    rw [stripKeysMembers]
    by_cases same : k = key
    · subst same
      by_cases gone : (!keep && keys.contains k) = true
      · rw [if_pos gone, ih]
        simp only [if_pos gone]
      · rw [if_neg gone]
        simp only [if_neg gone, List.lookup_cons_self, Option.map_some]
    · have other : (k == key) = false := by simpa using same
      split <;> simp only [List.lookup_cons, other, ih]

theorem lookup_setObjectSchemaExtraMembers :
    (setObjectSchemaExtraMembers allowExtra members).lookup k =
      (members.lookup k).map (setObjectSchemaExtra allowExtra) := by
  induction members with
  | nil => rfl
  | cons m members ih => grind [setObjectSchemaExtraMembers]

theorem stripKeysItems_eq_map :
    stripKeysItems keys preserve keep items = items.map (stripKeys keys preserve keep) := by
  induction items with
  | nil => rfl
  | cons v items ih => rw [stripKeysItems, ih, List.map_cons]

theorem setObjectSchemaExtraItems_eq_map :
    setObjectSchemaExtraItems allowExtra items = items.map (setObjectSchemaExtra allowExtra) := by
  induction items with
  | nil => rfl
  | cons v items ih => rw [setObjectSchemaExtraItems, ih, List.map_cons]

end

/-! ## Both rewrites under a key -/

variable {allowExtra keep : Bool} {members : Members} {k : String}

/-- The members of an emitted mapping. -/
def emitMembers (allowExtra keep : Bool) (members : Members) : Members :=
  let stripped := stripKeysMembers generatedMetadataKeys nameMappingKeys keep members
  if isObjectSchema stripped then
    setKey "additionalProperties" (.bool allowExtra)
      (setObjectSchemaExtraMembers allowExtra stripped)
  else setObjectSchemaExtraMembers allowExtra stripped

theorem emit_obj :
    emit allowExtra keep (.obj members) = .obj (emitMembers allowExtra keep members) := by
  rw [emit, stripKeys, setObjectSchemaExtra, emitMembers]
  split <;> rfl

@[simp] theorem emit_arr (items : List Json) :
    emit allowExtra keep (.arr items) = .arr (items.map (emit allowExtra keep)) := by
  rw [emit, stripKeys, setObjectSchemaExtra, stripKeysItems_eq_map,
    setObjectSchemaExtraItems_eq_map, List.map_map]
  rfl

theorem emit_scalar {v : Json} (h : v.IsScalar) : emit allowExtra keep v = v := by
  cases v <;> first | rfl | cases h

/-- The parts of a schema that make it an object schema are not stripped. -/
theorem isObjectSchema_stripKeysMembers :
    isObjectSchema (stripKeysMembers generatedMetadataKeys nameMappingKeys keep members) =
      isObjectSchema members := by
  have typeKept : (!keep && generatedMetadataKeys.contains "type") = false := by
    cases keep <;> decide
  have propertiesKept : (!keep && generatedMetadataKeys.contains "properties") = false := by
    cases keep <;> decide
  rw [isObjectSchema, isObjectSchema, isObjectType, isObjectType, lookup_stripKeysMembers,
    lookup_stripKeysMembers, typeKept, propertiesKept]
  congr 1
  · cases members.lookup "type" with
    | none => rfl
    | some t => cases t <;> rfl
  · cases members.lookup "properties" with
    | none => rfl
    | some ps => cases ps <;> rfl

theorem emitMembers_eq :
    emitMembers allowExtra keep members =
      if isObjectSchema members then
        setKey "additionalProperties" (.bool allowExtra) (setObjectSchemaExtraMembers allowExtra
          (stripKeysMembers generatedMetadataKeys nameMappingKeys keep members))
      else setObjectSchemaExtraMembers allowExtra
        (stripKeysMembers generatedMetadataKeys nameMappingKeys keep members) := by
  simp only [emitMembers, isObjectSchema_stripKeysMembers]

theorem lookup_emitMembers :
    (emitMembers allowExtra keep members).lookup k =
      if isObjectSchema members ∧ k = "additionalProperties" then some (.bool allowExtra)
      else if keep = false ∧ k = "title" then none
      else (members.lookup k).map (emit allowExtra (k == "properties")) := by
  have below : (setObjectSchemaExtraMembers allowExtra
      (stripKeysMembers generatedMetadataKeys nameMappingKeys keep members)).lookup k =
        if keep = false ∧ k = "title" then none
        else (members.lookup k).map (emit allowExtra (k == "properties")) := by
    rw [lookup_setObjectSchemaExtraMembers, lookup_stripKeysMembers]
    have generated : (!keep && generatedMetadataKeys.contains k) = true ↔
        keep = false ∧ k = "title" := by
      cases keep <;> simp [generatedMetadataKeys]
    have mapping : nameMappingKeys.contains k = (k == "properties") := by
      rw [Bool.eq_iff_iff]
      simp [nameMappingKeys]
    by_cases h : keep = false ∧ k = "title"
    · rw [if_pos (generated.mpr h), if_pos h]
      rfl
    · rw [if_neg (fun h' => h (generated.mp h')), if_neg h, mapping, Option.map_map]
      rfl
  rw [emitMembers_eq]
  by_cases object : isObjectSchema members = true
  · by_cases extra : k = "additionalProperties"
    · simp [object, extra]
    · simp [object, extra, below]
  · simp [object, below]

/-! ## What is left as it is -/

mutual

/-- The rewrites leave the value as it is: outside a preserved mapping it has no `title`, and
what looks like an object schema has its extra keys set already. -/
def Settled (allowExtra keep : Bool) : Json → Prop
  | .obj members =>
    (keep = false → members.lookup "title" = none) ∧
      (isObjectSchema members →
        members.lookup "additionalProperties" = some (.bool allowExtra)) ∧
      SettledMembers allowExtra members
  | .arr items => SettledItems allowExtra keep items
  | _ => True

def SettledMembers (allowExtra : Bool) : Members → Prop
  | [] => True
  | (key, item) :: members =>
    Settled allowExtra (key == "properties") item ∧ SettledMembers allowExtra members

def SettledItems (allowExtra keep : Bool) : List Json → Prop
  | [] => True
  | item :: items => Settled allowExtra keep item ∧ SettledItems allowExtra keep items

end

theorem settledMembers_iff : SettledMembers allowExtra members ↔
    ∀ m ∈ members, Settled allowExtra (m.1 == "properties") m.2 := by
  induction members with
  | nil => simp [SettledMembers]
  | cons m members ih =>
    obtain ⟨key, item⟩ := m
    simp [SettledMembers, ih]

theorem settledItems_iff {items : List Json} : SettledItems allowExtra keep items ↔
    ∀ v ∈ items, Settled allowExtra keep v := by
  induction items with
  | nil => simp [SettledItems]
  | cons v items ih => simp [SettledItems, ih]

theorem map_eq_self_iff {α : Type} {f : α → α} {xs : List α} :
    xs.map f = xs ↔ ∀ x ∈ xs, f x = x := by
  conv_lhs => rhs; rw [← List.map_id xs]
  exact List.map_inj_left

theorem setKey_map_eq_self_iff {f : String × Json → String × Json} {item : Json}
    (keys : ∀ m, (f m).1 = m.1) (fixed : f (k, item) = (k, item)) :
    setKey k item (members.map f) = members ↔
      members.lookup k = some item ∧ ∀ m ∈ members, f m = m := by
  induction members with
  | nil => simp [setKey]
  | cons m members ih =>
    rw [List.map_cons, setKey, keys, List.lookup_cons]
    by_cases same : m.1 = k
    · subst same
      simp only [if_true, beq_self_eq_true, List.cons.injEq, Option.some.injEq, List.mem_cons,
        forall_eq_or_imp, map_eq_self_iff]
      constructor
      · rintro ⟨head, rest⟩
        refine ⟨congrArg Prod.snd head.symm, ?_, rest⟩
        rw [← head, fixed]
      · rintro ⟨rfl, -, rest⟩
        exact ⟨rfl, rest⟩
    · have other : (k == m.1) = false := by simpa using fun h => same h.symm
      simp only [if_neg same, other, List.cons.injEq, List.mem_cons, forall_eq_or_imp, ih]
      exact and_left_comm

/-- Without generated keys every member is kept. -/
theorem below_eq_map (h : keep = false → members.lookup "title" = none) :
    setObjectSchemaExtraMembers allowExtra
        (stripKeysMembers generatedMetadataKeys nameMappingKeys keep members) =
      members.map fun m => (m.1, emit allowExtra (m.1 == "properties") m.2) := by
  induction members with
  | nil => rfl
  | cons m members ih =>
    obtain ⟨key, item⟩ := m
    have kept : (!keep && generatedMetadataKeys.contains key) = false := by
      cases keep with
      | true => rfl
      | false =>
        have := h rfl
        rw [List.lookup_cons] at this
        split at this
        · cases this
        · rename_i other
          cases hc : generatedMetadataKeys.contains key with
          | false => rfl
          | true =>
            obtain rfl := List.mem_singleton.mp (List.contains_iff_mem.mp hc)
            cases other
    have rest : keep = false → members.lookup "title" = none := by
      intro hk
      have := h hk
      rw [List.lookup_cons] at this
      split at this
      · cases this
      · exact this
    have mapping : nameMappingKeys.contains key = (key == "properties") := by
      rw [Bool.eq_iff_iff]
      simp [nameMappingKeys]
    rw [stripKeysMembers, kept, if_neg (by decide), setObjectSchemaExtraMembers, ih rest, mapping]
    rfl

theorem emit_eq_self_iff {v : Json} :
    emit allowExtra keep v = v ↔ Settled allowExtra keep v := by
  induction v using Json.induction generalizing keep with
  | scalar v hv =>
    rw [emit_scalar hv]
    cases v with
    | arr => cases hv
    | obj => cases hv
    | _ => simp [Settled]
  | arr items ih =>
    rw [emit_arr, Json.arr.injEq, map_eq_self_iff, Settled, settledItems_iff]
    exact forall₂_congr fun v hv => ih v hv
  | obj members ih =>
    have each : (∀ m ∈ members, (m.1, emit allowExtra (m.1 == "properties") m.2) = m) ↔
        SettledMembers allowExtra members := by
      rw [settledMembers_iff]
      refine forall₂_congr fun m hm => ?_
      rw [← ih m hm, Prod.ext_iff]
      simp
    rw [emit_obj, Json.obj.injEq, Settled]
    by_cases title : keep = false → members.lookup "title" = none
    · rw [emitMembers_eq, below_eq_map title]
      by_cases object : isObjectSchema members = true
      · rw [if_pos object, setKey_map_eq_self_iff
          (f := fun m => (m.1, emit allowExtra (m.1 == "properties") m.2)) (fun _ => rfl) rfl, each]
        exact ⟨fun h => ⟨title, fun _ => h.1, h.2⟩, fun h => ⟨h.2.1 object, h.2.2⟩⟩
      · rw [if_neg object, map_eq_self_iff, each]
        exact ⟨fun h => ⟨title, fun ho => absurd ho object, h⟩, fun h => h.2.2⟩
    · refine iff_of_false (fun same => ?_) fun h => title h.1
      refine title fun hkeep => ?_
      have this : (emitMembers allowExtra keep members).lookup "title" = _ := lookup_emitMembers
      rw [same] at this
      simpa [hkeep] using this

theorem mem_setKey {item : Json} {m : String × Json} (h : m ∈ setKey k item members) :
    m = (k, item) ∨ m ∈ members := by
  induction members with
  | nil => exact .inl (List.mem_singleton.mp h)
  | cons m' members ih => grind [setKey]

theorem mem_below {m : String × Json} (h : m ∈ setObjectSchemaExtraMembers allowExtra
    (stripKeysMembers generatedMetadataKeys nameMappingKeys keep members)) :
    ∃ m' ∈ members, ∃ keep', m.2 = emit allowExtra keep' m'.2 := by
  induction members with
  | nil => cases h
  | cons m' members ih =>
    obtain ⟨key, item⟩ := m'
    rw [stripKeysMembers] at h
    split at h
    · obtain ⟨m', hm', same⟩ := ih h
      exact ⟨m', List.mem_cons_of_mem _ hm', same⟩
    · obtain rfl | h := List.mem_cons.mp h
      · exact ⟨_, List.mem_cons_self, _, rfl⟩
      · obtain ⟨m', hm', same⟩ := ih h
        exact ⟨m', List.mem_cons_of_mem _ hm', same⟩

theorem mem_emitMembers {m : String × Json} (h : m ∈ emitMembers allowExtra keep members) :
    m = ("additionalProperties", .bool allowExtra) ∨
      ∃ m' ∈ members, ∃ keep', m.2 = emit allowExtra keep' m'.2 := by
  rw [emitMembers_eq] at h
  split at h
  · exact (mem_setKey h).imp id mem_below
  · exact .inr (mem_below h)

theorem emit_eq_str {v : Json} {s : String} (h : emit allowExtra keep v = .str s) :
    v = .str s := by
  cases v with
  | obj members =>
    rw [emit_obj] at h
    cases h
  | arr items =>
    rw [emit_arr] at h
    cases h
  | _ => exact h

/-- The rewrites make no references. -/
theorem RefFree.emit {v : Json} (h : RefFree v) : RefFree (emit allowExtra keep v) := by
  induction v using Json.induction generalizing keep with
  | scalar v hv => rwa [emit_scalar hv]
  | arr items ih =>
    rw [emit_arr, refFree_arr]
    intro o ho
    obtain ⟨v, hv, rfl⟩ := List.mem_map.mp ho
    exact ih v hv (refFree_arr.mp h v hv)
  | obj members ih =>
    obtain ⟨plain, below⟩ := refSites_eq_nil_obj.mp h
    rw [emit_obj, refSites_eq_nil_obj]
    constructor
    · have ref : (emitMembers allowExtra keep members).lookup "$ref" =
          (members.lookup "$ref").map (Perago.emit allowExtra false) := by
        rw [lookup_emitMembers, if_neg (by simp), if_neg (by simp)]
        rfl
      rw [refName, ref]
      cases found : members.lookup "$ref" with
      | none => rfl
      | some v =>
        rw [Option.map_some]
        cases emitted : Perago.emit allowExtra false v with
        | str s =>
          rw [refName, found, emit_eq_str emitted] at plain
          exact plain
        | _ => rfl
    · intro m hm
      obtain rfl | ⟨m', hm', keep', same⟩ := mem_emitMembers hm
      · rfl
      · rw [same]
        exact ih m' hm' (below m' hm')

/-- An inlined value is emitted as it was exactly when it had no references and the rewrites
leave it. -/
theorem emit_inlined_eq_iff {defs : Members} {v t : Json} (h : Inlines defs v t) :
    emit allowExtra keep t = v ↔ RefFree v ∧ Settled allowExtra keep v := by
  constructor
  · intro same
    have free : RefFree v := same ▸ h.refFree.emit
    refine ⟨free, emit_eq_self_iff.mp ?_⟩
    rwa [h.eq_of_refFree free] at same
  · rintro ⟨free, settled⟩
    rw [h.eq_of_refFree free, emit_eq_self_iff.mpr settled]

end Perago
