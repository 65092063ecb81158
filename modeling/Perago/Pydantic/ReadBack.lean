import Perago.Pydantic.Models

/-!
# Reading back

When the data that a value is dumped to is validated to a value with the same
data. Field names are written and aliases are read, so the names have to agree
at every instance in the value.
-/

namespace Perago

section

variable {T L : Type} (records : List (String × RecordDef T L)) (py : Pydantic T L)

/-- The dumped value is validated to one with the same data. -/
def Revalidates (ty : Ty T) (x : PyData L) : Prop :=
  ∃ d y json, py.dump ty x = some d ∧ py.validate ty d = some y ∧
    py.dumpJson ty y = some json ∧ py.dumpJson ty x = some json

/-- A field that is dumped is read under its own name, and a field that is not gets a default
that is not dumped either. -/
structure FieldDef.ReadsItself (m : RecordDef T L) (fields : List (String × PyData L))
    (f : FieldDef T L) : Prop where
  key : f.name ∈ (m.kept fields).map (·.name) → f.key = f.name
  absent : f.name ∉ (m.kept fields).map (·.name) → f.required = false ∧
    (∀ y, f.default = some y → f.excludes y) ∧ ∀ k ∈ f.keys, k ∉ (m.kept fields).map (·.name)
  stays : ∀ x d y, fields.lookup f.name = some x → f.excludes x = false →
    py.dump f.ty x = some d → py.validate f.ty d = some y → f.excludes y = false

/-- At every instance in the data nothing is computed and every field reads itself; at every
union the dumped and the validated data are taken for the member that the value is dumped as;
at every leaf the value revalidates. -/
inductive ReadsBack : Ty T → PyData L → Prop
  | leaf {t : T} {x : PyData L} (h : Revalidates py (.leaf t) x) : ReadsBack (.leaf t) x
  | record {base name : String} {m : RecordDef T L} {fields : List (String × PyData L)}
      (found : records.lookup base = some m) (isA : IsA records name base)
      (computed : m.computed = []) (aligned : ∀ f ∈ m.fields, f.ReadsItself py m fields)
      (each : ∀ k ∈ m.kept fields, ReadsBack k.ty k.value) :
      ReadsBack (.record base) (.record name fields)
  | list {firsts tys : List (Ty T)} {rest : Option (Ty T)} {bounds : Nat → Bool}
      {xs : List (PyData L)} (typed : itemTys firsts rest xs.length = some tys)
      (bounded : bounds xs.length) (each : ∀ p ∈ tys.zip xs, ReadsBack p.1 p.2) :
      ReadsBack (.list firsts rest bounds) (.list xs)
  | dict {ty : Ty T} {bounds : Nat → Bool} {xs : List (String × PyData L)}
      (bounded : bounds xs.length) (each : ∀ x ∈ xs, ReadsBack ty x.2) :
      ReadsBack (.dict ty bounds) (.dict xs)
  | union {tys : List (Ty T)} {ty : Ty T} {x : PyData L} (mem : ty ∈ tys)
      (serialized : py.serializedAs tys x = some ty)
      (chosen : ∀ d, py.dump ty x = some d → py.validatedAs tys d = some ty ∧
        ∀ y, py.validate ty d = some y → py.serializedAs tys y = some ty)
      (h : ReadsBack ty x) : ReadsBack (.union tys) x

/-! ## Side conditions -/

/-- A field of `m` has one key, and no other field or computed field of `m'` is written under
it. -/
def KeysApart (m m' : RecordDef T L) : Prop :=
  ∀ f ∈ m.fields, f.keys = [f.key] ∧ (∀ g ∈ m'.fields, f.key = g.name → f.name = g.name) ∧
    ∀ p ∈ m'.computed, f.key ≠ p.name

/-- The keys of a class are apart from what a class that is derived from it writes. -/
def Unambiguous : Prop :=
  ∀ name base m m', records.lookup base = some m → records.lookup name = some m' →
    IsA records name base → KeysApart m m'

/-- A derived class declares no field again. -/
def Inherits : Prop :=
  ∀ name base m m', records.lookup base = some m → records.lookup name = some m' →
    IsA records name base → m.fields.Sublist m'.fields

/-- What a value of a union is dumped to is validated by the member that it is dumped as. -/
def ChoosesOwn : Prop :=
  ∀ tys x ty d ty' y, Valid py records (.union tys) x → py.serializedAs tys x = some ty →
    py.dump ty x = some d → py.validatedAs tys d = some ty' → py.validate ty' d = some y →
      ty' = ty ∧ py.serializedAs tys y = some ty

end

/-! ## Validating what was dumped -/

section

variable {T L : Type} {records : List (String × RecordDef T L)} {py : Pydantic T L}
  {m : RecordDef T L} {f : FieldDef T L} {base name : String}
  {fields data : List (String × PyData L)} {ty : Ty T} {x : PyData L}

theorem FieldDef.ReadsItself.readKey_kept (h : f.ReadsItself py m fields) (hf : f ∈ m.fields)
    {k : Kept T L} (kept : f.kept fields = some k)
    (keys : data.map (·.1) = (m.kept fields).map (·.name)) : f.readKey data = some f.name := by
  have named := (RecordDef.name_mem_kept hf).mpr ⟨k, kept⟩
  refine FieldDef.readKey_of_key (h.key named) ?_
  rwa [lookup_isSome_iff_mem_map, keys]

theorem FieldDef.ReadsItself.readKey_absent (h : f.ReadsItself py m fields) (hf : f ∈ m.fields)
    (gone : f.kept fields = none) (keys : data.map (·.1) = (m.kept fields).map (·.name)) :
    f.readKey data = none ∧ f.required = false ∧ ∀ y, f.default = some y → f.excludes y := by
  have unnamed : f.name ∉ (m.kept fields).map (·.name) := by
    rw [RecordDef.name_mem_kept hf, gone]
    simp
  obtain ⟨optional, default, others⟩ := h.absent unnamed
  exact ⟨FieldDef.readKey_eq_none (keys ▸ others), optional, default⟩

variable (laws : py.Documented records)

include laws

/-- A class whose fields round-trip and read themselves reads what it wrote. -/
theorem revalidates_record (found : records.lookup base = some m) (isA : IsA records name base)
    (computed : m.computed = []) (aligned : ∀ f ∈ m.fields, f.ReadsItself py m fields)
    (each : ∀ k ∈ m.kept fields, Revalidates py k.ty k.value) :
    Revalidates py (.record base) (.record name fields) := by
  choose! d y json dumped validated emitted same using each
  have keys : ((m.kept fields).map fun k => (k.name, d k)).map (·.1) =
      (m.kept fields).map (·.name) := RecordDef.names_kept d
  have readKept : ∀ f ∈ m.fields, ∀ k, f.kept fields = some k →
      f.readKey ((m.kept fields).map fun k => (k.name, d k)) = some f.name :=
    fun f hf k kept => (aligned f hf).readKey_kept hf kept keys
  have readAbsent : ∀ f ∈ m.fields, f.kept fields = none →
      f.readKey ((m.kept fields).map fun k => (k.name, d k)) = none ∧ f.required = false ∧
        ∀ y, f.default = some y → f.excludes y :=
    fun f hf gone => (aligned f hf).readKey_absent hf gone keys
  have lookup : ∀ f ∈ m.fields, ∀ k, f.kept fields = some k →
      ((m.kept fields).map fun k => (k.name, d k)).lookup f.name = some (d k) := by
    intro f hf k kept
    obtain ⟨x, -, -, rfl⟩ := FieldDef.kept_eq_some_iff.mp kept
    exact RecordDef.lookup_kept d (RecordDef.mem_kept.mpr ⟨f, hf, kept⟩)
  have accepted : (py.validate (.record base)
      (.dict ((m.kept fields).map fun k => (k.name, d k)))).isSome := by
    refine laws.validate.accepts base m _ found ?_ ?_ ?_
    · intro k hk
      rw [keys] at hk
      obtain ⟨k', hk', rfl⟩ := List.mem_map.mp hk
      obtain ⟨f, hf, kept⟩ := RecordDef.mem_kept.mp hk'
      obtain ⟨x, -, -, rfl⟩ := FieldDef.kept_eq_some_iff.mp kept
      exact ⟨f, hf, readKept f hf _ kept⟩
    · intro f hf k v read hv
      cases kept : f.kept fields with
      | none =>
        rw [(readAbsent f hf kept).1] at read
        cases read
      | some k' =>
        rw [readKept f hf k' kept, Option.some.injEq] at read
        subst read
        rw [lookup f hf k' kept, Option.some.injEq] at hv
        subst hv
        have hk' := RecordDef.mem_kept.mpr ⟨f, hf, kept⟩
        obtain ⟨x, -, -, rfl⟩ := FieldDef.kept_eq_some_iff.mp kept
        rw [validated _ hk']
        rfl
    · intro f hf unread
      cases kept : f.kept fields with
      | none => exact (readAbsent f hf kept).2.1
      | some k =>
        rw [readKept f hf k kept] at unread
        cases unread
  obtain ⟨out, accepted⟩ := Option.isSome_iff_exists.mp accepted
  obtain ⟨outs, rfl, reads⟩ := laws.validate.record base m _ out found accepted
  refine ⟨_, _, _, laws.dump.of_kept found isA computed dumped, accepted, ?_,
    laws.dumpJson.of_kept found isA computed same⟩
  have again : List.Forall₂ (fun a k => (py.dumpJson a.ty a.value).map (a.name, ·) =
      some (k.name, json k)) (m.kept outs) (m.kept fields) := by
    refine forall₂_filterMap fun f hf => ?_
    cases kept : f.kept fields with
    | some k =>
      have hk := RecordDef.mem_kept.mpr ⟨f, hf, kept⟩
      obtain ⟨y', hy, found'⟩ := reads.read f hf f.name (d k) (readKept f hf k kept)
        (lookup f hf k kept)
      obtain ⟨x, hx, included, rfl⟩ := FieldDef.kept_eq_some_iff.mp kept
      obtain rfl := Option.some.inj ((validated _ hk).symm.trans hy)
      have stays := (aligned f hf).stays x _ _ hx included (dumped _ hk) hy
      rw [FieldDef.kept_eq_some_iff.mpr ⟨_, found', stays, rfl⟩]
      exact .some (by rw [emitted _ hk]; rfl)
    | none =>
      obtain ⟨unread, -, default⟩ := readAbsent f hf kept
      have missing := (reads.missing f hf unread).2
      have gone : f.kept outs = none := by
        rw [FieldDef.kept, missing]
        cases hd : f.default with
        | none => rfl
        | some y => simp [default y hd]
      rw [gone]
      exact .none
  have parts : (m.kept outs).mapM (fun a => (py.dumpJson a.ty a.value).map (a.name, ·)) =
      some ((m.kept fields).map fun k => (k.name, json k)) := by
    rwa [mapM_eq_some_iff, List.forall₂_map_right_iff]
  rw [laws.dumpJson.record base m base outs found (.inl rfl), computed, parts]
  simp

/-- A value that reads back is validated, and its data stays the same. -/
theorem ReadsBack.revalidates (back : ReadsBack records py ty x) : Revalidates py ty x := by
  induction back with
  | leaf h => exact h
  | record found isA computed aligned _ ih =>
    exact revalidates_record laws found isA computed aligned ih
  | @list firsts tys rest bounds xs typed bounded _ ih =>
    choose! d y json dumped validated emitted same using ih
    have length := length_itemTys typed
    have zipped : tys.length = xs.length := length
    have size : ((tys.zip xs).map d).length = xs.length := by simp [zipped]
    have size' : ((tys.zip xs).map y).length = xs.length := by simp [zipped]
    refine ⟨.list ((tys.zip xs).map d), .list ((tys.zip xs).map y), .arr ((tys.zip xs).map json),
      ?_, ?_, ?_, ?_⟩
    · rw [laws.dump.list, typed, Option.bind_some, mapM_eq_map dumped]
      rfl
    · rw [laws.validate.list, size, if_pos bounded, typed, Option.bind_some, zip_map_zip d zipped,
        mapM_map, mapM_eq_map validated]
      rfl
    · rw [laws.dumpJson.list, size', typed, Option.bind_some, zip_map_zip y zipped, mapM_map,
        mapM_eq_map emitted]
      rfl
    · rw [laws.dumpJson.list, typed, Option.bind_some, mapM_eq_map same]
      rfl
  | @dict ty bounds xs bounded _ ih =>
    choose! d y json dumped validated emitted same using ih
    refine ⟨.dict (xs.map fun x => (x.1, d x)), .dict (xs.map fun x => (x.1, y x)),
      .obj (xs.map fun x => (x.1, json x)), ?_, ?_, ?_, ?_⟩
    · rw [laws.dump.dict, mapM_eq_map fun x hx => by rw [dumped x hx]; rfl]
      rfl
    · rw [laws.validate.dict, List.length_map, if_pos bounded, mapM_map,
        mapM_eq_map fun x hx => by rw [validated x hx]; rfl]
      rfl
    · rw [laws.dumpJson.dict, mapM_map, mapM_eq_map fun x hx => by rw [emitted x hx]; rfl]
      rfl
    · rw [laws.dumpJson.dict, mapM_eq_map fun x hx => by rw [same x hx]; rfl]
      rfl
  | @union tys ty x mem serialized chosen _ ih =>
    obtain ⟨d, y, json, dumped, validated, emitted, same⟩ := ih
    obtain ⟨validatedAs, again⟩ := chosen d dumped
    refine ⟨d, y, json, ?_, ?_, ?_, ?_⟩
    · rw [laws.dump.union, serialized, Option.bind_some, dumped]
    · rw [laws.validate.union, validatedAs, Option.bind_some, validated]
    · rw [laws.dumpJson.union, again y validated, Option.bind_some, emitted]
    · rw [laws.dumpJson.union, serialized, Option.bind_some, same]

end

/-! ## What was validated reads back -/

section

variable {T L : Type} {records : List (String × RecordDef T L)} {py : Pydantic T L}
  {m m' : RecordDef T L} {base name : String} {fields outs : List (String × PyData L)} {ty : Ty T}
  {x : PyData L}

theorem FieldDef.readKey_eq_key {f : FieldDef T L} {key : String}
    {data : List (String × PyData L)} (single : f.keys = [f.key]) (h : f.readKey data = some key) :
    key = f.key := by
  have mem := (FieldDef.mem_of_readKey h).1
  rw [single] at mem
  exact List.mem_singleton.mp mem

section

variable {d : Kept T L → PyData L} {more : List (String × PyData L)}
  (apart : KeysApart m m') (inherits : m.fields.Sublist m'.fields)
  (reads : m.Reads py.validate (((m'.kept fields).map fun k => (k.name, d k)) ++ more) outs)

include apart reads

/-- Nothing computed is written where all keys are read. -/
theorem computed_eq_nil (names : more.map (·.1) = m'.computed.map (·.name)) :
    m'.computed = [] := by
  by_contra some
  obtain ⟨p, hp⟩ := List.exists_mem_of_ne_nil _ some
  have written : p.name ∈ more.map (·.1) := names ▸ List.mem_map_of_mem hp
  obtain ⟨f, hf, read⟩ := reads.known p.name (by
    rw [List.map_append]
    exact List.mem_append_right _ written)
  obtain ⟨single, -, other⟩ := apart f hf
  exact other p hp (FieldDef.readKey_eq_key single read).symm

include inherits

/-- All that is written is of fields that the reading class has, under their keys. -/
theorem field_of_kept {k : Kept T L} (hk : k ∈ m'.kept fields) :
    ∃ f ∈ m.fields, f.kept fields = some k ∧ f.key = k.name := by
  obtain ⟨g, hg, kept⟩ := RecordDef.mem_kept.mp hk
  obtain ⟨x, -, -, rfl⟩ := FieldDef.kept_eq_some_iff.mp kept
  obtain ⟨f, hf, read⟩ := reads.known g.name (by
    rw [List.map_append, List.map_map]
    exact List.mem_append_left _ (List.mem_map.mpr ⟨_, hk, rfl⟩))
  obtain ⟨single, own, -⟩ := apart f hf
  have key := FieldDef.readKey_eq_key single read
  obtain rfl := m'.field_eq (inherits.subset hf) hg (own g hg key.symm)
  exact ⟨f, hf, kept, key.symm⟩

theorem kept_eq_kept : m'.kept fields = m.kept fields := by
  refine filterMap_of_sublist inherits (m'.nodup.of_append_left.of_map _) fun g hg other => ?_
  by_contra some
  obtain ⟨k, kept⟩ := Option.ne_none_iff_exists'.mp some
  obtain ⟨f, hf, keptF, -⟩ := field_of_kept apart inherits reads
    (RecordDef.mem_kept.mpr ⟨g, hg, kept⟩)
  obtain ⟨x, -, -, rfl⟩ := FieldDef.kept_eq_some_iff.mp kept
  obtain ⟨y, -, -, same⟩ := FieldDef.kept_eq_some_iff.mp keptF
  obtain rfl := m'.field_eq (inherits.subset hf) hg (Kept.mk.inj same).1.symm
  exact other hf

end

/-- What is read and validated to the same data is written as by the model itself, and reads
itself there. -/
theorem aligned_of_validated (laws : py.Documented records) {cls : String}
    {written out : PyData L} {json : Json} (found : records.lookup base = some m)
    (found' : records.lookup cls = some m') (isA : IsA records name cls)
    (apart : KeysApart m m') (inherits : m.fields.Sublist m'.fields)
    (dumped : py.dump (.record cls) (.record name fields) = some written)
    (validated : py.validate (.record base) written = some out)
    (emitted : py.dumpJson (.record base) out = some json)
    (data : py.dumpJson (.record cls) (.record name fields) = some json) :
    m'.computed = [] ∧ m'.kept fields = m.kept fields ∧ m.computed = [] ∧
      (∀ f ∈ m.fields, f.ReadsItself py m fields) ∧
        ∀ k ∈ m.kept fields, Revalidates py k.ty k.value := by
  obtain ⟨d, g, dumpedAt, rfl⟩ := laws.dump.record_inv found' isA dumped
  obtain ⟨outs, rfl, reads⟩ := laws.validate.record base m _ out found validated
  have names : (m'.computed.map fun p => (p.name, g p)).map (·.1) = m'.computed.map (·.name) := by
    rw [List.map_map]
    rfl
  have computed := computed_eq_nil apart reads names
  have kept := kept_eq_kept apart inherits reads
  have fieldOf : ∀ k ∈ m.kept fields, ∃ f ∈ m.fields, f.kept fields = some k ∧ f.key = k.name :=
    fun k hk => field_of_kept apart inherits reads (kept ▸ hk)
  rw [computed, kept, List.map_nil, List.append_nil] at reads
  rw [kept] at dumpedAt
  obtain ⟨js, _, dataAt, rfl⟩ := laws.dumpJson.record_inv found' isA data
  rw [computed, kept, List.map_nil, List.append_nil] at emitted
  rw [kept] at dataAt
  obtain ⟨j, g, emittedAt, same⟩ := laws.dumpJson.record_inv found (.inl rfl) emitted
  replace same := (Json.obj.inj same).symm
  have nothing : m.computed = [] := by
    by_contra some
    obtain ⟨p, hp⟩ := List.exists_mem_of_ne_nil _ some
    have there : (p.name, g p) ∈ (m.kept fields).map fun k => (k.name, js k) := by
      rw [← same]
      exact List.mem_append_right _ (List.mem_map.mpr ⟨p, hp, rfl⟩)
    obtain ⟨k, hk, sameName⟩ := List.mem_map.mp there
    obtain ⟨f, hf, keptF, -⟩ := fieldOf k hk
    obtain ⟨x, -, -, rfl⟩ := FieldDef.kept_eq_some_iff.mp keptF
    have disjoint := (List.nodup_append.mp m.nodup).2.2
    exact disjoint f.name (List.mem_map_of_mem hf) p.name (List.mem_map_of_mem hp)
      (congrArg Prod.fst sameName)
  rw [nothing, List.map_nil, List.append_nil] at same
  have sameNames : (m.kept outs).map (·.name) = (m.kept fields).map (·.name) := by
    have := congrArg (List.map Prod.fst) same
    simpa only [List.map_map, Function.comp_def] using this
  have keys : ((m.kept fields).map fun k => (k.name, d k)).map (·.1) =
      (m.kept fields).map (·.name) := RecordDef.names_kept d
  -- a kept field is validated from its own value, and stays
  have read : ∀ f ∈ m.fields, ∀ k, f.kept fields = some k → f.key = f.name ∧ ∃ y,
      py.validate f.ty (d k) = some y ∧ f.kept outs = some ⟨f.name, f.ty, y⟩ := by
    intro f hf k keptF
    have hk := RecordDef.mem_kept.mpr ⟨f, hf, keptF⟩
    obtain ⟨f', hf', keptF', key⟩ := fieldOf k hk
    obtain ⟨x, hx, -, rfl⟩ := FieldDef.kept_eq_some_iff.mp keptF
    obtain ⟨x', -, -, same'⟩ := FieldDef.kept_eq_some_iff.mp keptF'
    obtain rfl := m.field_eq hf hf' (Kept.mk.inj same').1
    have present := RecordDef.lookup_kept d hk
    obtain ⟨y, hy, found⟩ := reads.read f hf f.name _
      (FieldDef.readKey_of_key key (by rw [present]; rfl)) present
    obtain ⟨k', keptOut⟩ := (RecordDef.name_mem_kept hf).mp
      (sameNames ▸ (RecordDef.name_mem_kept hf).mpr ⟨_, keptF⟩)
    obtain ⟨y', hy', -, rfl⟩ := FieldDef.kept_eq_some_iff.mp keptOut
    obtain rfl := Option.some.inj (found.symm.trans hy')
    exact ⟨key, y, hy, keptOut⟩
  refine ⟨computed, kept, nothing, fun f hf => ⟨?_, ?_, ?_⟩, ?_⟩
  · intro named
    obtain ⟨k, keptF⟩ := (RecordDef.name_mem_kept hf).mp named
    exact (read f hf k keptF).1
  · intro unnamed
    obtain ⟨single, own, -⟩ := apart f hf
    have others : ∀ key ∈ f.keys, key ∉ (m.kept fields).map (·.name) := by
      rw [single]
      intro key hkey named
      obtain rfl := List.mem_singleton.mp hkey
      obtain ⟨k, hk, same⟩ := List.mem_map.mp named
      obtain ⟨f', hf', keptF', -⟩ := fieldOf k hk
      obtain ⟨x, -, -, rfl⟩ := FieldDef.kept_eq_some_iff.mp keptF'
      rw [own f' (inherits.subset hf') same.symm] at unnamed
      exact unnamed ((RecordDef.name_mem_kept hf').mpr ⟨_, keptF'⟩)
    obtain ⟨optional, missing⟩ := reads.missing f hf (FieldDef.readKey_eq_none (keys ▸ others))
    refine ⟨optional, fun y hy => ?_, others⟩
    have gone : f.kept outs = none := by
      by_contra some
      exact unnamed (sameNames ▸ (RecordDef.name_mem_kept hf).mpr
        (Option.ne_none_iff_exists'.mp some))
    rw [FieldDef.kept, missing, hy] at gone
    simpa using gone
  · intro x w y hx included hw hy
    have keptF : f.kept fields = some ⟨f.name, f.ty, x⟩ :=
      FieldDef.kept_eq_some_iff.mpr ⟨x, hx, included, rfl⟩
    have hd := dumpedAt _ (RecordDef.mem_kept.mpr ⟨f, hf, keptF⟩)
    obtain rfl := Option.some.inj (hw.symm.trans hd)
    obtain ⟨-, y', hy', keptOut⟩ := read f hf _ keptF
    obtain rfl := Option.some.inj (hy.symm.trans hy')
    obtain ⟨z, -, stays, sameKept⟩ := FieldDef.kept_eq_some_iff.mp keptOut
    rwa [(Kept.mk.inj sameKept).2.2]
  · intro k hk
    obtain ⟨f, hf, keptF, -⟩ := fieldOf k hk
    obtain ⟨-, y, hy, keptOut⟩ := read f hf k keptF
    obtain ⟨x, -, -, rfl⟩ := FieldDef.kept_eq_some_iff.mp keptF
    refine ⟨_, y, js _, dumpedAt _ hk, hy, ?_, dataAt _ hk⟩
    have hk' := RecordDef.mem_kept.mpr ⟨f, hf, keptOut⟩
    rw [emittedAt _ hk']
    have left := RecordDef.lookup_kept j hk'
    have right := RecordDef.lookup_kept js hk
    rw [same] at left
    exact left.symm.trans right

/-- A valid value that revalidates reads back, where keys are apart and unions choose their own
member. -/
theorem readsBack_of_revalidates (laws : py.Documented records) (unambiguous : Unambiguous records)
    (own : ChoosesOwn records py) (valid : Valid py records ty x) (trip : Revalidates py ty x) :
    ReadsBack records py ty x := by
  induction valid with
  | leaf => exact .leaf trip
  | @list firsts tys rest bounds xs typed bounded _ ih =>
    obtain ⟨w, y, json, dumped, validated, emitted, data⟩ := trip
    have zipped := length_itemTys typed
    rw [laws.dump.list, typed] at dumped
    obtain ⟨ds, hds, rfl⟩ := Option.map_eq_some_iff.mp dumped
    obtain ⟨d, dumpedAt, rfl⟩ := exists_of_mapM hds
    have size : ((tys.zip xs).map d).length = xs.length := by simp [zipped]
    rw [laws.validate.list, size, if_pos bounded, typed, Option.bind_some, zip_map_zip d zipped,
      mapM_map] at validated
    obtain ⟨ys, hys, rfl⟩ := Option.map_eq_some_iff.mp validated
    obtain ⟨y, validatedAt, rfl⟩ := exists_of_mapM hys
    have size' : ((tys.zip xs).map y).length = xs.length := by simp [zipped]
    rw [laws.dumpJson.list, size', typed, Option.bind_some, zip_map_zip y zipped,
      mapM_map] at emitted
    obtain ⟨js, hjs, rfl⟩ := Option.map_eq_some_iff.mp emitted
    obtain ⟨j, emittedAt, rfl⟩ := exists_of_mapM hjs
    rw [laws.dumpJson.list, typed, Option.bind_some] at data
    obtain ⟨js, hjs, same⟩ := Option.map_eq_some_iff.mp data
    obtain ⟨j', dataAt, rfl⟩ := exists_of_mapM hjs
    have sameAt := List.map_inj_left.mp (Json.arr.inj same)
    exact .list typed bounded fun p hp => ih p hp ⟨d p, y p, j p, dumpedAt p hp,
      validatedAt p hp, emittedAt p hp, sameAt p hp ▸ dataAt p hp⟩
  | @dict ty bounds xs bounded _ ih =>
    obtain ⟨w, y, json, dumped, validated, emitted, data⟩ := trip
    rw [laws.dump.dict] at dumped
    obtain ⟨ds, hds, rfl⟩ := Option.map_eq_some_iff.mp dumped
    obtain ⟨d, dumpedAt, rfl⟩ := exists_of_mapM_named hds
    rw [laws.validate.dict, List.length_map, if_pos bounded, mapM_map] at validated
    obtain ⟨ys, hys, rfl⟩ := Option.map_eq_some_iff.mp validated
    obtain ⟨y, validatedAt, rfl⟩ := exists_of_mapM_named hys
    rw [laws.dumpJson.dict, mapM_map] at emitted
    obtain ⟨js, hjs, rfl⟩ := Option.map_eq_some_iff.mp emitted
    obtain ⟨j, emittedAt, rfl⟩ := exists_of_mapM_named hjs
    rw [laws.dumpJson.dict] at data
    obtain ⟨js, hjs, same⟩ := Option.map_eq_some_iff.mp data
    obtain ⟨j', dataAt, rfl⟩ := exists_of_mapM_named hjs
    have sameAt := List.map_inj_left.mp (Json.obj.inj same)
    refine .dict bounded fun p hp => ih p hp ⟨d p, y p, j p, dumpedAt p hp, validatedAt p hp,
      emittedAt p hp, ?_⟩
    rw [dataAt p hp, (Prod.mk.inj (sameAt p hp)).2]
  | @union tys ty x serialized mem valid ih =>
    obtain ⟨d, y, json, dumped, validated, emitted, data⟩ := trip
    rw [laws.dump.union, serialized, Option.bind_some] at dumped
    rw [laws.validate.union] at validated
    obtain ⟨ty', chosen, validated⟩ := Option.bind_eq_some_iff.mp validated
    obtain ⟨rfl, again⟩ := own tys x ty d ty' y (.union serialized mem valid) serialized dumped
      chosen validated
    rw [laws.dumpJson.union, again, Option.bind_some] at emitted
    rw [laws.dumpJson.union, serialized, Option.bind_some] at data
    refine .union mem serialized (fun d' hd => ?_)
      (ih ⟨d, y, json, dumped, validated, emitted, data⟩)
    obtain rfl := Option.some.inj (dumped.symm.trans hd)
    refine ⟨chosen, fun y' hy => ?_⟩
    obtain rfl := Option.some.inj (validated.symm.trans hy)
    exact again
  | @record base name m fields found isA _ each ih =>
    obtain ⟨w, y, json, dumped, validated, emitted, data⟩ := trip
    have apart : KeysApart m m := unambiguous base base m m found found (.inl rfl)
    obtain ⟨-, -, computed, aligned, trips⟩ := aligned_of_validated laws found found isA apart
      (.refl _) dumped validated emitted data
    refine .record found isA computed aligned fun k hk => ?_
    obtain ⟨f, hf, kept⟩ := RecordDef.mem_kept.mp hk
    obtain ⟨x, hx, -, rfl⟩ := FieldDef.kept_eq_some_iff.mp kept
    exact ih f hf x hx (trips _ hk)

end

end Perago
