import Mathlib.Data.List.Basic
import Mathlib.Data.List.Forall2
import Mathlib.Data.Rat.Defs

/-!
# JSON values

A value is a tree; the members of an object are a list, read by the first
member of a name. The operations are those of a dictionary, each with the law
that says what it leaves under a name.
-/

namespace Perago

inductive Json where
  | null
  | bool (b : Bool)
  | num (n : Rat)
  | str (s : String)
  | arr (items : List Json)
  | obj (members : List (String × Json))

abbrev Members := List (String × Json)

namespace Json

def IsScalar : Json → Prop
  | arr _ | obj _ => False
  | _ => True

/-- Induction over the subvalues of a value. -/
@[elab_as_elim]
theorem induction {motive : Json → Prop} (scalar : ∀ v, v.IsScalar → motive v)
    (arr : ∀ items, (∀ v ∈ items, motive v) → motive (.arr items))
    (obj : ∀ members, (∀ m ∈ members, motive m.2) → motive (.obj members)) (v : Json) :
    motive v :=
  @Json.rec motive (fun items => ∀ v ∈ items, motive v)
    (fun members => ∀ m ∈ members, motive m.2) (fun m => motive m.2)
    (scalar .null trivial) (fun b => scalar (.bool b) trivial) (fun n => scalar (.num n) trivial)
    (fun s => scalar (.str s) trivial) arr obj (by simp) (by simp_all) (by simp) (by simp_all)
    (fun _ _ h => h) v

end Json

/-! ## Members -/

/-- `value.pop(key, None)`. -/
def eraseKey (key : String) (members : Members) : Members :=
  members.filter fun m => m.1 != key

/-- `value[key] = item`. -/
def setKey (key : String) (item : Json) : Members → Members
  | [] => [(key, item)]
  | m :: members => if m.1 = key then (key, item) :: members else m :: setKey key item members

/-- `value.update(other)`. -/
def updateKeys (members other : Members) : Members :=
  members.map (fun m => (m.1, (other.lookup m.1).getD m.2)) ++
    other.filter fun m => (members.lookup m.1).isNone

def keysOf (members : Members) : List String := members.map (·.1)

variable {members other : Members} {key k : String} {item : Json}

theorem mem_of_lookup {α : Type} {xs : List (String × α)} {x : α}
    (h : xs.lookup key = some x) : (key, x) ∈ xs := by
  induction xs with
  | nil => cases h
  | cons m xs ih =>
    rw [List.lookup_cons] at h
    split at h
    · rename_i same
      obtain rfl := Option.some.inj h
      rw [eq_of_beq same]
      exact List.mem_cons_self
    · exact List.mem_cons_of_mem _ (ih h)

theorem sizeOf_lt_of_lookup (h : members.lookup key = some item) :
    sizeOf item < sizeOf members := by
  have := List.sizeOf_lt_of_mem (mem_of_lookup h)
  simp only [Prod.mk.sizeOf_spec] at this
  omega

theorem lookup_isSome_iff_mem_keys : (members.lookup key).isSome ↔ key ∈ keysOf members := by
  induction members with
  | nil => simp [keysOf]
  | cons m members ih => grind [keysOf]

@[simp] theorem lookup_eraseKey :
    (eraseKey key members).lookup k = if k = key then none else members.lookup k := by
  induction members with
  | nil => simp [eraseKey]
  | cons m members ih => grind [eraseKey]

@[simp] theorem lookup_setKey :
    (setKey key item members).lookup k = if k = key then some item else members.lookup k := by
  induction members with
  | nil => grind [setKey]
  | cons m members ih => grind [setKey]

theorem lookup_map {α β : Type} {xs : List (String × α)} (f : String → α → β) :
    (xs.map fun m => (m.1, f m.1 m.2)).lookup k = (xs.lookup k).map (f k) := by
  induction xs with
  | nil => rfl
  | cons m xs ih => grind

theorem lookup_filter {α : Type} {xs : List (String × α)} (p : String → Bool) :
    (xs.filter fun m => p m.1).lookup k = if p k then xs.lookup k else none := by
  induction xs with
  | nil => simp
  | cons m xs ih => grind

theorem lookup_of_mem {α : Type} {xs : List (String × α)} {x : α} (nodup : (xs.map (·.1)).Nodup)
    (h : (k, x) ∈ xs) : xs.lookup k = some x := by
  induction xs with
  | nil => cases h
  | cons m xs ih => grind

theorem lookup_eq_none_of_not_mem {α : Type} {xs : List (String × α)}
    (h : k ∉ xs.map (·.1)) : xs.lookup k = none := by
  induction xs with
  | nil => rfl
  | cons m xs ih => grind

theorem lookup_map_of_unique {α β : Type} {xs : List α} {key : α → String} (val : α → β) {x : α}
    (h : x ∈ xs) (unique : ∀ y ∈ xs, key y = key x → y = x) :
    (xs.map fun y => (key y, val y)).lookup (key x) = some (val x) := by
  induction xs with
  | nil => cases h
  | cons y xs ih =>
    by_cases same : key y = key x
    · obtain rfl := unique y List.mem_cons_self same
      simp
    · have := ih (by grind) fun y hy => unique y (List.mem_cons_of_mem _ hy)
      grind

@[simp] theorem lookup_updateKeys :
    (updateKeys members other).lookup k = (other.lookup k).or (members.lookup k) := by
  rw [updateKeys, List.lookup_append, lookup_map fun k v => (other.lookup k).getD v,
    lookup_filter fun k => (members.lookup k).isNone]
  cases members.lookup k <;> cases other.lookup k <;> simp

/-! ## Lists side by side -/

theorem exists_left_of_forall₂ {α β : Type} {R : α → β → Prop} {xs : List α} {ys : List β}
    (h : List.Forall₂ R xs ys) {y : β} (hy : y ∈ ys) : ∃ x ∈ xs, R x y := by
  induction h with
  | nil => cases hy
  | cons head _ ih =>
    obtain rfl | hy := List.mem_cons.mp hy
    · exact ⟨_, List.mem_cons_self, head⟩
    · obtain ⟨x, hx, hR⟩ := ih hy
      exact ⟨x, List.mem_cons_of_mem _ hx, hR⟩

theorem exists_right_of_forall₂ {α β : Type} {R : α → β → Prop} {xs : List α} {ys : List β}
    (h : List.Forall₂ R xs ys) {x : α} (hx : x ∈ xs) : ∃ y ∈ ys, R x y :=
  (exists_left_of_forall₂ h.flip hx).imp fun _ => id

theorem forall₂_of_length {α β : Type} {R : α → β → Prop} {xs : List α} {ys : List β}
    (length : ys.length = xs.length)
    (each : ∀ (i : Nat) x y, xs[i]? = some x → ys[i]? = some y → R x y) : List.Forall₂ R xs ys := by
  refine List.forall₂_iff_get.mpr ⟨length.symm, fun i hx hy => ?_⟩
  exact each i _ _ (List.getElem?_eq_getElem hx) (List.getElem?_eq_getElem hy)

theorem get_of_forall₂ {α β : Type} {R : α → β → Prop} {xs : List α} {ys : List β}
    (h : List.Forall₂ R xs ys) {i : Nat} {x : α} {y : β} (hx : xs[i]? = some x)
    (hy : ys[i]? = some y) : R x y := by
  induction h generalizing i with
  | nil => cases hx
  | cons head _ ih =>
    cases i with
    | zero =>
      obtain rfl := Option.some.inj hx
      obtain rfl := Option.some.inj hy
      exact head
    | succ i => exact ih hx hy

theorem forall₂_imp_of_get {α β : Type} {R S : α → β → Prop} {xs : List α} {ys : List β}
    (h : List.Forall₂ R xs ys)
    (imp : ∀ (i : Nat) x y, xs[i]? = some x → R x y → S x y) : List.Forall₂ S xs ys :=
  forall₂_of_length h.length_eq.symm fun i x y hx hy => imp i x y hx (get_of_forall₂ h hx hy)

end Perago
