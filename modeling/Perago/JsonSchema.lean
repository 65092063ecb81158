import Mathlib.Data.Finset.Card
import Mathlib.Data.Option.Basic
import Perago.Json

/-!
# Acceptance of a JSON Schema

Which values a schema accepts: most keywords are read from their own argument,
and five depend on their neighbours. What a reference means, how patterns are
searched and at which mappings `additionalProperties` is set from outside are
parameters. Schemas whose arguments agree keyword by keyword accept the same
values.
-/

namespace Perago

/-! ## Keywords -/

def nameMapKeywords : List String := ["properties", "patternProperties"]

def subschemaKeywords : List String :=
  ["items", "additionalProperties", "propertyNames", "contentSchema", "not"]

def schemaListKeywords : List String := ["prefixItems", "anyOf", "oneOf", "allOf"]

def comparedKeywords : List String := ["const", "enum"]

/-- Keywords that are read from their own argument. -/
def separateKeywords : List String :=
  ["$ref", "type", "const", "enum", "required", "minProperties", "maxProperties", "minItems",
    "maxItems", "uniqueItems", "minLength", "maxLength", "pattern", "minimum", "maximum",
    "exclusiveMinimum", "exclusiveMaximum", "multipleOf", "propertyNames", "not", "anyOf", "oneOf",
    "allOf"]

/-- Keywords of objects that are read together. -/
def memberKeywords : List String := ["properties", "patternProperties", "additionalProperties"]

/-- Keywords of arrays that are read together. -/
def itemKeywords : List String := ["prefixItems", "items"]

/-- All keywords that a value can fail; the others are annotations. -/
def acceptanceKeywords : List String := memberKeywords ++ itemKeywords ++ separateKeywords

/-! ## Values -/

/-- Equality of values, in which the order of members does not count. -/
inductive Json.Same : Json → Json → Prop
  | scalar {v : Json} (scalar : v.IsScalar) : Same v v
  | arr {xs ys : List Json} (length : xs.length = ys.length)
      (each : ∀ (i : Nat) x y, xs[i]? = some x → ys[i]? = some y → Same x y) :
      Same (.arr xs) (.arr ys)
  | obj {xs ys : Members} (keys : ∀ k, (xs.lookup k).isSome = (ys.lookup k).isSome)
      (each : ∀ k x y, xs.lookup k = some x → ys.lookup k = some y → Same x y) :
      Same (.obj xs) (.obj ys)

def hasType : String → Json → Bool
  | "null", .null | "boolean", .bool _ | "number", .num _ | "string", .str _ | "array", .arr _
  | "object", .obj _ => true
  | "integer", .num n => n.den == 1
  | _, _ => false

/-- The texts among the items. -/
def textsOf : List Json → List String
  | [] => []
  | .str s :: items => s :: textsOf items
  | _ :: items => textsOf items

/-! ## Assertions -/

/-- A keyword with a number. -/
def boundHolds : String → Rat → Json → Prop
  | "minimum", n, .num x => n ≤ x
  | "maximum", n, .num x => x ≤ n
  | "exclusiveMinimum", n, .num x => n < x
  | "exclusiveMaximum", n, .num x => x < n
  | "multipleOf", n, .num x => ∃ i : Int, x = i * n
  | "minLength", n, .str s => n ≤ s.length
  | "maxLength", n, .str s => s.length ≤ n
  | "minItems", n, .arr xs => n ≤ xs.length
  | "maxItems", n, .arr xs => xs.length ≤ n
  | "minProperties", n, .obj xs => n ≤ (keysOf xs).toFinset.card
  | "maxProperties", n, .obj xs => (keysOf xs).toFinset.card ≤ n
  | _, _, _ => True

/-- A keyword with a list of texts. -/
def textsHold : String → List String → Json → Prop
  | "type", ts, v => ∃ t ∈ ts, hasType t v
  | "required", names, .obj xs => ∀ name ∈ names, (xs.lookup name).isSome
  | _, _, _ => True

section

variable (search : String → String → Prop)

/-- A keyword with a text. -/
def textHolds : String → String → Json → Prop
  | "type", t, v => hasType t v
  | "pattern", p, .str s => search p s
  | _, _, _ => True

/-- The keyword `k` with its argument, where `A` is acceptance by the schemas in it. -/
structure KeywordHolds (ref : String → Json → Prop) (A : Json → Json → Prop) (k : String)
    (arg v : Json) : Prop where
  bound : ∀ n, arg = .num n → boundHolds k n v
  text : ∀ s, arg = .str s → textHolds search k s v
  texts : ∀ items, arg = .arr items → textsHold k (textsOf items) v
  uniqueItems : k = "uniqueItems" → arg = .bool true → ∀ xs, v = .arr xs →
    xs.Pairwise fun x y => ¬ x.Same y
  const : k = "const" → arg.Same v
  enum : k = "enum" → ∀ items, arg = .arr items → ∃ item ∈ items, item.Same v
  ref : k = "$ref" → ∀ uri, arg = .str uri → ref uri v
  propertyNames : k = "propertyNames" → ∀ xs, v = .obj xs → ∀ name ∈ keysOf xs, A arg (.str name)
  not : k = "not" → ¬ A arg v
  anyOf : k = "anyOf" → ∀ items, arg = .arr items → ∃ p ∈ items, A p v
  oneOf : k = "oneOf" → ∀ items, arg = .arr items → ∃! i : Nat, ∃ p, items[i]? = some p ∧ A p v
  allOf : k = "allOf" → ∀ items, arg = .arr items → ∀ p ∈ items, A p v

end

/-! ## Schemas in a schema -/

def schemaUnder (members : Members) (k name : String) : Option Json :=
  match members.lookup k with
  | some (.obj ps) => ps.lookup name
  | _ => none

def schemaItem (members : Members) (k : String) (i : Nat) : Option Json :=
  match members.lookup k with
  | some (.arr ps) => ps[i]?
  | _ => none

/-- `additionalProperties`, where it is not set by `extra`. -/
def AdditionalHolds (extra : Members → Option Bool) (A : Json → Json → Prop) (members : Members)
    (x : Json) : Prop :=
  match extra members with
  | some b => b = true
  | none => ∀ s, members.lookup "additionalProperties" = some s → A s x

section

variable (search : String → String → Prop) (extra : Members → Option Bool)
  (ref : String → Json → Prop)

/-- The name is one of `properties` or is matched by one of `patternProperties`. -/
def Declared (members : Members) (name : String) : Prop :=
  (schemaUnder members "properties" name).isSome ∨
    ∃ pattern, (schemaUnder members "patternProperties" pattern).isSome ∧ search pattern name

/-- The value meets every keyword of the mapping. -/
structure Conforms (A : Json → Json → Prop) (members : Members) (v : Json) : Prop where
  alone : ∀ k arg, members.lookup k = some arg → KeywordHolds search ref A k arg v
  properties : ∀ xs, v = .obj xs → ∀ name p x, schemaUnder members "properties" name = some p →
    xs.lookup name = some x → A p x
  patternProperties : ∀ xs, v = .obj xs → ∀ pattern p name x,
    schemaUnder members "patternProperties" pattern = some p → xs.lookup name = some x →
      search pattern name → A p x
  additionalProperties : ∀ xs, v = .obj xs → ∀ name x, xs.lookup name = some x →
    ¬ Declared search members name → AdditionalHolds extra A members x
  prefixItems : ∀ xs, v = .arr xs → ∀ i p x, schemaItem members "prefixItems" i = some p →
    xs[i]? = some x → A p x
  items : ∀ s, members.lookup "items" = some s → ∀ xs, v = .arr xs → ∀ i x,
    schemaItem members "prefixItems" i = none → xs[i]? = some x → A s x

/-- The schema accepts the value. -/
def accepts (schema v : Json) : Prop :=
  match schema with
  | .bool b => b = true
  | .obj members =>
    Conforms search extra ref (fun p x => ∃ _ : sizeOf p < sizeOf members, accepts p x) members v
  | _ => False
termination_by schema

end

/-! ## Annotations -/

section

variable {search : String → String → Prop} {ref : String → Json → Prop}
  {A : Json → Json → Prop} {k : String} {arg v : Json}

theorem boundHolds_of_not_mem (h : k ∉ separateKeywords) (n : Rat) : boundHolds k n v := by
  unfold boundHolds
  split <;> trivial

theorem textHolds_of_not_mem (h : k ∉ separateKeywords) (s : String) :
    textHolds search k s v := by
  unfold textHolds
  split <;> trivial

theorem textsHold_of_not_mem (h : k ∉ separateKeywords) (ts : List String) :
    textsHold k ts v := by
  unfold textsHold
  split <;> trivial

/-- A keyword that is not one of them asserts nothing. -/
theorem keywordHolds_of_not_mem (h : k ∉ separateKeywords) :
    KeywordHolds search ref A k arg v := by
  have other : ∀ k' ∈ separateKeywords, k ≠ k' := by
    rintro k' hk' rfl
    exact h hk'
  refine ⟨fun n _ => boundHolds_of_not_mem h n, fun s _ => textHolds_of_not_mem h s,
    fun items _ => textsHold_of_not_mem h _, ?_, ?_, ?_, ?_, ?_, ?_, ?_, ?_, ?_⟩ <;>
    exact fun same => absurd same (other _ (by decide))

end

/-! ## Agreement of arguments -/

/-- Two arguments of the keyword `k` say the same when `R` relates the schemas in them. -/
inductive ArgAgrees (R : Json → Json → Prop) (k : String) : Json → Json → Prop
  | scalar {v : Json} (scalar : v.IsScalar) (sub : k ∈ subschemaKeywords → R v v) :
      ArgAgrees R k v v
  | arr {items outs : List Json} (texts : textsOf items = textsOf outs)
      (compared : k ∈ comparedKeywords → items = outs)
      (schemas : k ∈ schemaListKeywords → List.Forall₂ R items outs)
      (sub : k ∈ subschemaKeywords → R (.arr items) (.arr outs)) :
      ArgAgrees R k (.arr items) (.arr outs)
  | obj {members outs : Members} (compared : k ∈ comparedKeywords → members = outs)
      (names : k ∈ nameMapKeywords →
        ∀ name, Option.Rel R (members.lookup name) (outs.lookup name))
      (sub : k ∈ subschemaKeywords → R (.obj members) (.obj outs)) :
      ArgAgrees R k (.obj members) (.obj outs)

theorem optionRel_flip {α β : Type} {R : α → β → Prop} {a : Option α} {b : Option β}
    (h : Option.Rel R a b) : Option.Rel (fun y x => R x y) b a := by
  cases h with
  | some h => exact .some h
  | none => exact .none

section

variable {R : Json → Json → Prop} {k : String} {a o : Json}

theorem ArgAgrees.flip (h : ArgAgrees R k a o) : ArgAgrees (fun y x => R x y) k o a := by
  cases h with
  | scalar scalar sub => exact .scalar scalar sub
  | arr texts compared schemas sub =>
    exact .arr texts.symm (fun hk => (compared hk).symm) (fun hk => (schemas hk).flip) sub
  | obj compared names sub =>
    exact .obj (fun hk => (compared hk).symm) (fun hk name => optionRel_flip (names hk name)) sub

theorem ArgAgrees.sub (h : ArgAgrees R k a o) (hk : k ∈ subschemaKeywords) : R a o := by
  cases h with
  | scalar _ sub | arr _ _ _ sub | obj _ _ sub => exact sub hk

theorem ArgAgrees.compared (h : ArgAgrees R k a o) (hk : k ∈ comparedKeywords) : a = o := by
  cases h with
  | scalar => rfl
  | arr _ compared => exact congrArg Json.arr (compared hk)
  | obj compared => exact congrArg Json.obj (compared hk)

theorem ArgAgrees.eq_of_scalar (h : ArgAgrees R k a o) (ho : o.IsScalar) : a = o := by
  cases h with
  | scalar => rfl
  | arr | obj => cases ho

theorem ArgAgrees.arr_right {outs : List Json} (h : ArgAgrees R k a (.arr outs)) :
    ∃ items, a = .arr items ∧ textsOf items = textsOf outs ∧
      (k ∈ comparedKeywords → items = outs) ∧
      (k ∈ schemaListKeywords → List.Forall₂ R items outs) := by
  cases h with
  | scalar scalar => cases scalar
  | arr texts compared schemas => exact ⟨_, rfl, texts, compared, schemas⟩

/-- An argument agrees with itself when `R` holds of what is in it. -/
theorem ArgAgrees.refl (self : R a a) (items : ∀ items, a = .arr items → ∀ p ∈ items, R p p)
    (names : ∀ members, a = .obj members → ∀ name p, members.lookup name = some p → R p p) :
    ArgAgrees R k a a := by
  cases a with
  | arr ps =>
    exact .arr rfl (fun _ => rfl) (fun _ => List.forall₂_same.mpr (items ps rfl)) fun _ => self
  | obj ps =>
    refine .obj (fun _ => rfl) (fun _ name => ?_) fun _ => self
    cases hp : ps.lookup name with
    | none => exact .none
    | some p => exact .some (names ps rfl name p hp)
  | _ => exact .scalar trivial fun _ => self

end

section

variable {search : String → String → Prop} {ref₁ ref₂ : String → Json → Prop}
  {A B R : Json → Json → Prop} {k : String} {a o v : Json}

/-- The index of an accepted schema is the same on both sides. -/
theorem accepted_at_iff {items outs : List Json} (hR : ∀ p o, R p o → ∀ x, A p x ↔ B o x)
    (h : List.Forall₂ R items outs) (i : Nat) :
    (∃ p, items[i]? = some p ∧ A p v) ↔ ∃ o, outs[i]? = some o ∧ B o v := by
  constructor
  · rintro ⟨p, hp, accepted⟩
    have hi : i < outs.length := by
      rw [← h.length_eq]
      exact (List.getElem?_eq_some_iff.mp hp).1
    have ho := List.getElem?_eq_getElem hi
    exact ⟨_, ho, (hR _ _ (get_of_forall₂ h hp ho) v).mp accepted⟩
  · rintro ⟨o, ho, accepted⟩
    have hi : i < items.length := by
      rw [h.length_eq]
      exact (List.getElem?_eq_some_iff.mp ho).1
    have hp := List.getElem?_eq_getElem hi
    exact ⟨_, hp, (hR _ _ (get_of_forall₂ h hp ho) v).mpr accepted⟩

theorem KeywordHolds.of_agrees (hR : ∀ p o, R p o → ∀ x, A p x ↔ B o x)
    (href : k = "$ref" → ∀ uri, a = .str uri → ∀ x, ref₁ uri x ↔ ref₂ uri x)
    (agree : ArgAgrees R k a o) (h : KeywordHolds search ref₁ A k a v) :
    KeywordHolds search ref₂ B k o v where
  bound n ho := h.bound n (ho ▸ agree.eq_of_scalar (ho ▸ trivial))
  text s ho := h.text s (ho ▸ agree.eq_of_scalar (ho ▸ trivial))
  texts outs ho := by
    subst ho
    obtain ⟨items, rfl, texts, -⟩ := agree.arr_right
    exact texts ▸ h.texts items rfl
  uniqueItems hk ho := h.uniqueItems hk (ho ▸ agree.eq_of_scalar (ho ▸ trivial))
  const hk := by
    subst hk
    exact agree.compared (by decide) ▸ h.const rfl
  enum hk outs ho := by
    subst hk ho
    obtain ⟨items, rfl, -, compared, -⟩ := agree.arr_right
    exact compared (by decide) ▸ h.enum rfl items rfl
  ref hk uri ho := by
    have ha : a = .str uri := ho ▸ agree.eq_of_scalar (ho ▸ trivial)
    exact (href hk uri ha v).mp (h.ref hk uri ha)
  propertyNames hk xs hv name hname := by
    subst hk
    exact (hR a o (agree.sub (by decide)) _).mp (h.propertyNames rfl xs hv name hname)
  not hk accepted := by
    subst hk
    exact h.not rfl ((hR a o (agree.sub (by decide)) v).mpr accepted)
  anyOf hk outs ho := by
    subst hk ho
    obtain ⟨items, rfl, -, -, schemas⟩ := agree.arr_right
    obtain ⟨p, hp, accepted⟩ := h.anyOf rfl items rfl
    obtain ⟨o, ho, related⟩ := exists_right_of_forall₂ (schemas (by decide)) hp
    exact ⟨o, ho, (hR p o related v).mp accepted⟩
  oneOf hk outs ho := by
    subst hk ho
    obtain ⟨items, rfl, -, -, schemas⟩ := agree.arr_right
    exact (existsUnique_congr fun i => accepted_at_iff hR (schemas (by decide)) i).mp
      (h.oneOf rfl items rfl)
  allOf hk outs ho o hmem := by
    subst hk ho
    obtain ⟨items, rfl, -, -, schemas⟩ := agree.arr_right
    obtain ⟨p, hp, related⟩ := exists_left_of_forall₂ (schemas (by decide)) hmem
    exact (hR p o related v).mp (h.allOf rfl items rfl p hp)

end

/-! ## Agreement of mappings -/

/-- The arguments of two mappings agree keyword by keyword. -/
structure Agrees (A B R : Json → Json → Prop) (extra₁ extra₂ : Members → Option Bool)
    (m₁ m₂ : Members) : Prop where
  args : ∀ k ∈ acceptanceKeywords, k ≠ "additionalProperties" →
    Option.Rel (ArgAgrees R k) (m₁.lookup k) (m₂.lookup k)
  additional : ∀ x, AdditionalHolds extra₁ A m₁ x ↔ AdditionalHolds extra₂ B m₂ x

section

variable {search : String → String → Prop} {extra₁ extra₂ : Members → Option Bool}
  {ref₁ ref₂ : String → Json → Prop} {A B R : Json → Json → Prop} {m₁ m₂ : Members} {v : Json}

theorem optionRel_right {α β : Type} {S : α → β → Prop} {x : Option α} {y : Option β} {b : β}
    (h : Option.Rel S x y) (hy : y = some b) : ∃ a, x = some a ∧ S a b := by
  subst hy
  cases h with
  | some h => exact ⟨_, rfl, h⟩

theorem optionRel_isSome {α β : Type} {S : α → β → Prop} {x : Option α} {y : Option β}
    (h : Option.Rel S x y) : x.isSome = y.isSome := by
  cases h <;> rfl

theorem Agrees.flip (h : Agrees A B R extra₁ extra₂ m₁ m₂) :
    Agrees B A (fun y x => R x y) extra₂ extra₁ m₂ m₁ where
  args k hk other := by
    have rel := h.args k hk other
    revert rel
    generalize m₁.lookup k = x, m₂.lookup k = y
    rintro (@⟨v, o, agree⟩ | _)
    · exact .some agree.flip
    · exact .none
  additional x := (h.additional x).symm

theorem nameMap_acceptance :
    ∀ k ∈ nameMapKeywords, k ∈ acceptanceKeywords ∧ k ≠ "additionalProperties" := by
  decide

theorem schemaList_acceptance :
    ∀ k ∈ schemaListKeywords, k ∈ acceptanceKeywords ∧ k ≠ "additionalProperties" := by
  decide

theorem Agrees.under (h : Agrees A B R extra₁ extra₂ m₁ m₂) {k : String} (hk : k ∈ nameMapKeywords)
    (name : String) : Option.Rel R (schemaUnder m₁ k name) (schemaUnder m₂ k name) := by
  obtain ⟨mem, other⟩ := nameMap_acceptance k hk
  have rel := h.args k mem other
  unfold schemaUnder
  revert rel
  generalize m₁.lookup k = x, m₂.lookup k = y
  rintro (@⟨v, o, agree⟩ | _)
  · cases agree with
    | obj _ names => exact names hk name
    | arr => exact .none
    | scalar scalar => cases v <;> first | exact .none | cases scalar
  · exact .none

theorem Agrees.item (h : Agrees A B R extra₁ extra₂ m₁ m₂) {k : String}
    (hk : k ∈ schemaListKeywords) (i : Nat) :
    Option.Rel R (schemaItem m₁ k i) (schemaItem m₂ k i) := by
  obtain ⟨mem, other⟩ := schemaList_acceptance k hk
  have rel := h.args k mem other
  unfold schemaItem
  revert rel
  generalize m₁.lookup k = x, m₂.lookup k = y
  rintro (@⟨v, o, agree⟩ | _)
  · cases agree with
    | @arr items outs _ _ schemas =>
      have related := schemas hk
      show Option.Rel R items[i]? outs[i]?
      by_cases hi : i < items.length
      · have ho : i < outs.length := related.length_eq ▸ hi
        rw [List.getElem?_eq_getElem hi, List.getElem?_eq_getElem ho]
        exact .some (get_of_forall₂ related (List.getElem?_eq_getElem hi)
          (List.getElem?_eq_getElem ho))
      · have ho : ¬ i < outs.length := related.length_eq ▸ hi
        rw [List.getElem?_eq_none (by omega), List.getElem?_eq_none (by omega)]
        exact .none
    | obj => exact .none
    | scalar scalar => cases v <;> first | exact .none | cases scalar
  · exact .none

theorem Agrees.declared_iff (h : Agrees A B R extra₁ extra₂ m₁ m₂) {name : String} :
    Declared search m₁ name ↔ Declared search m₂ name := by
  unfold Declared
  rw [optionRel_isSome (h.under (by decide) name)]
  refine or_congr Iff.rfl (exists_congr fun pattern => ?_)
  rw [optionRel_isSome (h.under (by decide) pattern)]

theorem Conforms.of_agrees (hR : ∀ p o, R p o → ∀ x, A p x ↔ B o x)
    (href : ∀ uri, m₁.lookup "$ref" = some (.str uri) → ∀ x, ref₁ uri x ↔ ref₂ uri x)
    (agree : Agrees A B R extra₁ extra₂ m₁ m₂) (h : Conforms search extra₁ ref₁ A m₁ v) :
    Conforms search extra₂ ref₂ B m₂ v where
  alone k arg harg := by
    by_cases hk : k ∈ separateKeywords
    · obtain ⟨a, ha, related⟩ := optionRel_right
        (agree.args k (List.mem_append_right _ hk) (by rintro rfl; simp [separateKeywords] at hk))
        harg
      refine (h.alone k a ha).of_agrees hR ?_ related
      rintro rfl uri rfl
      exact href uri ha
    · exact keywordHolds_of_not_mem hk
  properties xs hv name o x ho hx := by
    obtain ⟨p, hp, related⟩ := optionRel_right (agree.under (by decide) name) ho
    exact (hR p o related x).mp (h.properties xs hv name p x hp hx)
  patternProperties xs hv pattern o name x ho hx found := by
    obtain ⟨p, hp, related⟩ := optionRel_right (agree.under (by decide) pattern) ho
    exact (hR p o related x).mp (h.patternProperties xs hv pattern p name x hp hx found)
  additionalProperties xs hv name x hx undeclared :=
    (agree.additional x).mp (h.additionalProperties xs hv name x hx
      fun declared => undeclared (agree.declared_iff.mp declared))
  prefixItems xs hv i o x ho hx := by
    obtain ⟨p, hp, related⟩ := optionRel_right (agree.item (by decide) i) ho
    exact (hR p o related x).mp (h.prefixItems xs hv i p x hp hx)
  items o ho xs hv i x later hx := by
    obtain ⟨p, hp, related⟩ := optionRel_right (agree.args "items" (by decide) (by decide)) ho
    refine (hR p o (related.sub (by decide)) x).mp (h.items p hp xs hv i x ?_ hx)
    have := optionRel_isSome (agree.item (k := "prefixItems") (by decide) i)
    rw [later] at this
    simpa using this

/-- Mappings that agree accept the same values. -/
theorem conforms_congr (hR : ∀ p o, R p o → ∀ x, A p x ↔ B o x)
    (href : ∀ uri, m₁.lookup "$ref" = some (.str uri) → ∀ x, ref₁ uri x ↔ ref₂ uri x)
    (agree : Agrees A B R extra₁ extra₂ m₁ m₂) :
    Conforms search extra₁ ref₁ A m₁ v ↔ Conforms search extra₂ ref₂ B m₂ v := by
  refine ⟨fun h => h.of_agrees hR href agree, fun h => ?_⟩
  refine h.of_agrees (fun p o related x => (hR o p related x).symm) ?_ agree.flip
  intro uri huri x
  obtain ⟨a, ha, related⟩ := optionRel_right (agree.args "$ref" (by decide) (by decide)) huri
  obtain rfl := related.eq_of_scalar trivial
  exact (href uri ha x).symm

end

/-! ## Acceptance -/

section

variable {search : String → String → Prop} {extra : Members → Option Bool}
  {ref : String → Json → Prop} {members : Members} {v : Json}

@[simp] theorem accepts_bool {b : Bool} : accepts search extra ref (.bool b) v ↔ b = true := by
  rw [accepts]

theorem accepts_obj : accepts search extra ref (.obj members) v ↔
    Conforms search extra ref (accepts search extra ref) members v := by
  rw [accepts]
  refine conforms_congr (R := fun p o => p = o ∧ sizeOf p < sizeOf members) ?_ (fun _ _ _ => .rfl)
    ⟨fun k _ _ => ?_, ?_⟩
  · rintro p _ ⟨rfl, smaller⟩ x
    exact ⟨fun ⟨_, h⟩ => h, fun h => ⟨smaller, h⟩⟩
  · cases ha : members.lookup k with
    | none => exact .none
    | some a =>
      have smaller := sizeOf_lt_of_lookup ha
      refine .some (.refl ⟨rfl, smaller⟩ ?_ ?_)
      · rintro items rfl p hp
        have := List.sizeOf_lt_of_mem hp
        exact ⟨rfl, by simp at smaller; omega⟩
      · rintro inner rfl name p hp
        have := sizeOf_lt_of_lookup hp
        exact ⟨rfl, by simp at smaller; omega⟩
  · intro x
    unfold AdditionalHolds
    split
    · rfl
    · refine forall₂_congr fun s hs => ?_
      exact ⟨fun ⟨_, h⟩ => h, fun h => ⟨sizeOf_lt_of_lookup hs, h⟩⟩

end

/-! ## One mapping over another -/

section

variable {search : String → String → Prop} {extra : Members → Option Bool}
  {ref : String → Json → Prop} {A : Json → Json → Prop} {members definition siblings : Members}
  {v : Json}

/-- A mapping meets what is read together where mappings with the same keywords do. -/
theorem conforms_of_groups {m : Members}
    (alone : ∀ k arg, m.lookup k = some arg → k ∈ separateKeywords →
      KeywordHolds search ref A k arg v)
    (likeMembers : ∃ m₁, Conforms search extra ref A m₁ v ∧ extra m = extra m₁ ∧
      ∀ k ∈ memberKeywords, m.lookup k = m₁.lookup k)
    (likeItems : ∃ m₂, Conforms search extra ref A m₂ v ∧
      ∀ k ∈ itemKeywords, m.lookup k = m₂.lookup k) :
    Conforms search extra ref A m v := by
  obtain ⟨m₁, h₁, same, ofMembers⟩ := likeMembers
  obtain ⟨m₂, h₂, ofItems⟩ := likeItems
  have properties := ofMembers "properties" (by decide)
  have patterns := ofMembers "patternProperties" (by decide)
  have rest := ofMembers "additionalProperties" (by decide)
  have prefixes := ofItems "prefixItems" (by decide)
  have items := ofItems "items" (by decide)
  have additional : ∀ x, AdditionalHolds extra A m x ↔ AdditionalHolds extra A m₁ x := by
    intro x
    rw [AdditionalHolds, AdditionalHolds, same, rest]
  have declared : ∀ name, Declared search m name ↔ Declared search m₁ name := by
    intro name
    simp only [Declared, schemaUnder, properties, patterns]
  refine ⟨fun k arg harg => ?_, ?_, ?_, ?_, ?_, ?_⟩
  · by_cases hk : k ∈ separateKeywords
    · exact alone k arg harg hk
    · exact keywordHolds_of_not_mem hk
  · simpa only [schemaUnder, properties] using h₁.properties
  · simpa only [schemaUnder, patterns] using h₁.patternProperties
  · simpa only [additional, declared] using h₁.additionalProperties
  · simpa only [schemaItem, prefixes] using h₂.prefixItems
  · simpa only [schemaItem, prefixes, items] using h₂.items

theorem member_acceptance : ∀ k ∈ memberKeywords, k ∈ acceptanceKeywords := by
  decide

theorem item_acceptance : ∀ k ∈ itemKeywords, k ∈ acceptanceKeywords := by
  decide

theorem separate_acceptance : ∀ k ∈ separateKeywords, k ∈ acceptanceKeywords :=
  fun _ => List.mem_append_right _

/-- Only the keywords that are no annotations are read. -/
theorem conforms_of_lookup {m₁ m₂ : Members}
    (agree : ∀ k ∈ acceptanceKeywords, m₂.lookup k = m₁.lookup k) (same : extra m₂ = extra m₁) :
    Conforms search extra ref A m₁ v ↔ Conforms search extra ref A m₂ v := by
  have one : ∀ {m m' : Members}, (∀ k ∈ acceptanceKeywords, m'.lookup k = m.lookup k) →
      extra m' = extra m → Conforms search extra ref A m v →
        Conforms search extra ref A m' v := by
    intro m m' agree same h
    refine conforms_of_groups ?_
      ⟨m, h, same, fun k hk => agree k (member_acceptance k hk)⟩
      ⟨m, h, fun k hk => agree k (item_acceptance k hk)⟩
    intro k arg harg hk
    rw [agree k (separate_acceptance k hk)] at harg
    exact h.alone k arg harg
  exact ⟨one agree same, one (fun k hk => (agree k hk).symm) same.symm⟩

theorem conforms_nil (unset : extra [] = none) : Conforms search extra ref A [] v := by
  refine ⟨nofun, ?_, ?_, ?_, ?_, nofun⟩
  · rintro xs - name p x ⟨⟩
  · rintro xs - pattern p name x ⟨⟩
  · rintro xs - name x - -
    simp [AdditionalHolds, unset]
  · rintro xs - i p x ⟨⟩

/-- One of the mappings has none of the keywords that are read together. -/
def KeywordsApart (keywords : List String) (m₁ m₂ : Members) : Prop :=
  (∀ k ∈ keywords, m₂.lookup k = none) ∨ ∀ k ∈ keywords, m₁.lookup k = none

/-- Siblings that do not contradict the definition, and share with it no keywords that are read
together, are asserted beside it. -/
theorem conforms_updateKeys (unset : extra [] = none)
    (fits : ∀ k ∈ acceptanceKeywords, ∀ arg, siblings.lookup k = some arg →
      definition.lookup k = none ∨ definition.lookup k = some arg)
    (ofMembers : KeywordsApart memberKeywords definition siblings)
    (ofItems : KeywordsApart itemKeywords definition siblings)
    (left : (∀ k ∈ memberKeywords, siblings.lookup k = none) →
      extra siblings = none ∧ extra (updateKeys definition siblings) = extra definition)
    (right : (∀ k ∈ memberKeywords, definition.lookup k = none) →
      extra definition = none ∧ extra (updateKeys definition siblings) = extra siblings) :
    Conforms search extra ref A (updateKeys definition siblings) v ↔
      Conforms search extra ref A definition v ∧ Conforms search extra ref A siblings v := by
  have nil : Conforms search extra ref A [] v := conforms_nil unset
  have of_none : ∀ k, siblings.lookup k = none →
      (updateKeys definition siblings).lookup k = definition.lookup k := by
    intro k h
    simp [h]
  have of_none' : ∀ k, definition.lookup k = none →
      (updateKeys definition siblings).lookup k = siblings.lookup k := by
    intro k h
    simp [h]
  constructor
  · intro h
    have ofDefinition : ∀ k arg, definition.lookup k = some arg → k ∈ separateKeywords →
        KeywordHolds search ref A k arg v := by
      intro k arg harg hk
      apply h.alone
      cases hsib : siblings.lookup k with
      | none => simp [hsib, harg]
      | some arg' =>
        obtain gone | found := fits k (separate_acceptance k hk) arg' hsib
        · simp [gone] at harg
        · rw [lookup_updateKeys, hsib, ← harg, found]
          rfl
    have ofSiblings : ∀ k arg, siblings.lookup k = some arg → k ∈ separateKeywords →
        KeywordHolds search ref A k arg v := fun k arg harg _ => h.alone k arg (by simp [harg])
    constructor
    · apply conforms_of_groups ofDefinition
      · obtain absent | absent := ofMembers
        · exact ⟨_, h, (left absent).2.symm, fun k hk => (of_none k (absent k hk)).symm⟩
        · exact ⟨[], nil, (right absent).1.trans unset.symm, absent⟩
      · obtain absent | absent := ofItems
        · exact ⟨_, h, fun k hk => (of_none k (absent k hk)).symm⟩
        · exact ⟨[], nil, absent⟩
    · apply conforms_of_groups ofSiblings
      · obtain absent | absent := ofMembers
        · exact ⟨[], nil, (left absent).1.trans unset.symm, absent⟩
        · exact ⟨_, h, (right absent).2.symm, fun k hk => (of_none' k (absent k hk)).symm⟩
      · obtain absent | absent := ofItems
        · exact ⟨[], nil, absent⟩
        · exact ⟨_, h, fun k hk => (of_none' k (absent k hk)).symm⟩
  · rintro ⟨h, beside⟩
    have alone : ∀ k arg, (updateKeys definition siblings).lookup k = some arg →
        k ∈ separateKeywords → KeywordHolds search ref A k arg v := by
      intro k arg harg _
      rw [lookup_updateKeys] at harg
      cases hsib : siblings.lookup k with
      | none => exact h.alone k arg (by simpa [hsib] using harg)
      | some arg' => exact beside.alone k arg (by simpa [hsib] using harg)
    apply conforms_of_groups alone
    · obtain absent | absent := ofMembers
      · exact ⟨_, h, (left absent).2, fun k hk => of_none k (absent k hk)⟩
      · exact ⟨_, beside, (right absent).2, fun k hk => of_none' k (absent k hk)⟩
    · obtain absent | absent := ofItems
      · exact ⟨_, h, fun k hk => of_none k (absent k hk)⟩
      · exact ⟨_, beside, fun k hk => of_none' k (absent k hk)⟩

end

/-! ## Schemas of few keywords -/

/-- The mapping has no keywords but these. -/
def OnlyKeywords (keywords : List String) (members : Members) : Prop :=
  ∀ k ∈ acceptanceKeywords, k ∉ keywords → members.lookup k = none

section

variable {search : String → String → Prop} {extra : Members → Option Bool}
  {ref : String → Json → Prop} {members : Members} {s v : Json}

theorem keywordHolds_type {A : Json → Json → Prop} {t : String} (h : hasType t v) :
    KeywordHolds search ref A "type" (.str t) v := by
  constructor
  case text =>
    rintro _ ⟨⟩
    exact h
  all_goals nofun

theorem alone_of_only {A : Json → Json → Prop} {keywords : List String}
    (only : OnlyKeywords keywords members)
    (holds : ∀ k ∈ keywords, k ∈ separateKeywords → ∀ arg, members.lookup k = some arg →
      KeywordHolds search ref A k arg v) :
    ∀ k arg, members.lookup k = some arg → KeywordHolds search ref A k arg v := by
  intro k arg harg
  by_cases separate : k ∈ separateKeywords
  · by_cases hk : k ∈ keywords
    · exact holds k hk separate arg harg
    · rw [only k (separate_acceptance k separate) hk] at harg
      cases harg
  · exact keywordHolds_of_not_mem separate

/-- A mapping of keywords that are read from their own arguments. -/
theorem accepts_separate {keywords : List String} (only : OnlyKeywords keywords members)
    (separate : keywords ⊆ separateKeywords) (unset : extra members = none)
    (holds : ∀ k ∈ keywords, ∀ arg, members.lookup k = some arg →
      KeywordHolds search ref (accepts search extra ref) k arg v) :
    accepts search extra ref (.obj members) v := by
  have absent : ∀ k ∈ acceptanceKeywords, k ∉ separateKeywords → members.lookup k = none :=
    fun k hk dependent => only k hk fun h => dependent (separate h)
  rw [accepts_obj]
  refine ⟨alone_of_only only fun k hk _ => holds k hk, ?_, ?_, ?_, ?_, ?_⟩
  · simp [schemaUnder, absent "properties" (by decide) (by decide)]
  · simp [schemaUnder, absent "patternProperties" (by decide) (by decide)]
  · simp [AdditionalHolds, unset, absent "additionalProperties" (by decide) (by decide)]
  · simp [schemaItem, absent "prefixItems" (by decide) (by decide)]
  · simp [absent "items" (by decide) (by decide)]

/-- An object whose keys are all among the properties. -/
theorem accepts_object {xs ps : Members} {names : List Json}
    (only : OnlyKeywords ["type", "properties", "required", "additionalProperties"] members)
    (type : members.lookup "type" = some (.str "object"))
    (properties : members.lookup "properties" = some (.obj ps))
    (required : members.lookup "required" = some (.arr names))
    (present : ∀ name ∈ textsOf names, (xs.lookup name).isSome)
    (each : ∀ name x, xs.lookup name = some x →
      ∃ p, ps.lookup name = some p ∧ accepts search extra ref p x) :
    accepts search extra ref (.obj members) (.obj xs) := by
  rw [accepts_obj]
  refine ⟨alone_of_only only ?_, ?_, ?_, ?_, nofun, nofun⟩
  · intro k hk separate arg harg
    obtain rfl | rfl | rfl | rfl : k = "type" ∨ k = "properties" ∨ k = "required" ∨
      k = "additionalProperties" := by simpa using hk
    · obtain rfl := Option.some.inj (type.symm.trans harg)
      exact keywordHolds_type rfl
    · exact absurd separate (by decide)
    · obtain rfl := Option.some.inj (required.symm.trans harg)
      constructor
      case texts =>
        rintro _ ⟨⟩
        exact present
      all_goals simp
    · exact absurd separate (by decide)
  · rintro _ ⟨⟩ name p x hp hx
    obtain ⟨p', hp', accepted⟩ := each name x hx
    rw [schemaUnder, properties] at hp
    obtain rfl := Option.some.inj (hp'.symm.trans hp)
    exact accepted
  · simp [schemaUnder, only "patternProperties" (by decide) (by decide)]
  · rintro _ ⟨⟩ name x hx undeclared
    obtain ⟨p, hp, -⟩ := each name x hx
    refine absurd (.inl ?_) undeclared
    rw [schemaUnder, properties]
    exact Option.isSome_of_eq_some hp

end

end Perago
