import Mathlib.Data.Finset.Prod
import Mathlib.Data.Finset.Powerset
import Mathlib.Logic.Relation
import Mathlib.Order.WellFounded
import Mathlib.Data.Fintype.Order
import Perago.Taskdef.Schema

/-!
# Inlining references

A reference is expanded to its definition with the keys of its siblings put over
it, and what is below those keys is not read. A site is therefore a name with
the keys that are overridden there. Inlining ends exactly when every site that
the schema reaches has a definition and none of them reaches itself.
-/

namespace Perago

/-! ## Visiting the parts -/

section

variable {ε : Type} {f g : Json → Except ε Json} {members out : Members}
  {items outs : List Json}

theorem visitMembers_ok_iff :
    visitMembers f members = .ok out ↔
      List.Forall₂ (fun m o => o.1 = m.1 ∧ f m.2 = .ok o.2) members out := by
  induction members generalizing out with
  | nil => cases out <;> simp [visitMembers]
  | cons m members ih =>
    rw [visitMembers]
    constructor
    · intro h
      obtain ⟨item, hitem, h⟩ := ok_of_bind h
      obtain ⟨rest, hrest, h⟩ := ok_of_bind h
      obtain rfl := Except.ok.inj h
      exact .cons ⟨rfl, hitem⟩ (ih.mp hrest)
    · rintro (_ | ⟨⟨hkey, hitem⟩, hrest⟩)
      rw [hitem, ih.mpr hrest, ← hkey]
      rfl

theorem visitItems_ok_iff :
    visitItems f items = .ok outs ↔ List.Forall₂ (fun v o => f v = .ok o) items outs := by
  induction items generalizing outs with
  | nil => cases outs <;> simp [visitItems]
  | cons v items ih =>
    rw [visitItems]
    constructor
    · intro h
      obtain ⟨item, hitem, h⟩ := ok_of_bind h
      obtain ⟨rest, hrest, h⟩ := ok_of_bind h
      obtain rfl := Except.ok.inj h
      exact .cons hitem (ih.mp hrest)
    · rintro (_ | ⟨hitem, hrest⟩)
      rw [hitem, ih.mpr hrest]
      rfl

theorem error_of_visitMembers {e : ε} (h : visitMembers f members = .error e) :
    ∃ m ∈ members, f m.2 = .error e := by
  induction members with
  | nil => cases h
  | cons m members ih =>
    rw [visitMembers] at h
    obtain head | ⟨_, -, h⟩ := error_of_bind h
    · exact ⟨m, List.mem_cons_self, head⟩
    · obtain rest | ⟨_, -, h⟩ := error_of_bind h
      · obtain ⟨m, hm, raised⟩ := ih rest
        exact ⟨m, List.mem_cons_of_mem _ hm, raised⟩
      · cases h

theorem error_of_visitItems {e : ε} (h : visitItems f items = .error e) :
    ∃ v ∈ items, f v = .error e := by
  induction items with
  | nil => cases h
  | cons v items ih =>
    rw [visitItems] at h
    obtain head | ⟨_, -, h⟩ := error_of_bind h
    · exact ⟨v, List.mem_cons_self, head⟩
    · obtain rest | ⟨_, -, h⟩ := error_of_bind h
      · obtain ⟨v, hv, raised⟩ := ih rest
        exact ⟨v, List.mem_cons_of_mem _ hv, raised⟩
      · cases h

theorem keysOf_of_forall₂ {P : Json → Json → Prop}
    (h : List.Forall₂ (fun m o : String × Json => o.1 = m.1 ∧ P m.2 o.2) members out) :
    keysOf out = keysOf members := by
  induction h with
  | nil => rfl
  | cons head _ ih => simpa [keysOf] using ⟨head.1, ih⟩

theorem lookup_of_forall₂ {P : Json → Json → Prop} (key : String)
    (h : List.Forall₂ (fun m o : String × Json => o.1 = m.1 ∧ P m.2 o.2) members out) :
    (members.lookup key = none ∧ out.lookup key = none) ∨
      ∃ v o, members.lookup key = some v ∧ out.lookup key = some o ∧ P v o := by
  induction h with
  | nil => exact .inl ⟨rfl, rfl⟩
  | @cons m o _ _ head _ ih =>
    rw [List.lookup_cons, List.lookup_cons, head.1]
    cases key == m.1 with
    | true => exact .inr ⟨m.2, o.2, rfl, rfl, head.2⟩
    | false => exact ih

end

/-! ## Sites -/

/-- A reference to `name` whose siblings have the keys `overridden`. -/
structure RefSite where
  name : String
  overridden : Finset String
  deriving DecidableEq

/-- The reference that the members themselves are. -/
def siteOf (members : Members) : Option RefSite :=
  (refName members).map fun name => ⟨name, (keysOf (eraseKey "$ref" members)).toFinset⟩

mutual

/-- The references in a value. -/
def refSites : Json → List RefSite
  | .obj members => (siteOf members).toList ++ refSitesMembers (refName members).isSome members
  | .arr items => refSitesItems items
  | _ => []

/-- Of a reference only the siblings are read. -/
def refSitesMembers (isRef : Bool) : Members → List RefSite
  | [] => []
  | (key, item) :: members =>
    if isRef && key == "$ref" then refSitesMembers isRef members
    else refSites item ++ refSitesMembers isRef members

def refSitesItems : List Json → List RefSite
  | [] => []
  | item :: items => refSites item ++ refSitesItems items

end

/-- No mapping in the value is a reference. -/
def RefFree (value : Json) : Prop := refSites value = []

variable {defs members : Members} {s t : RefSite}

/-- The part of a definition that is read at the site. -/
def RefSite.body (s : RefSite) (definition : Members) : Members :=
  definition.filter fun m => m.1 ∉ s.overridden

/-- The references that the expansion of a site contains. -/
def RefSite.next (defs : Members) (s : RefSite) : List RefSite :=
  match defs.lookup s.name with
  | some (.obj definition) =>
    ((siteOf (s.body definition)).map fun t =>
      { t with overridden := s.overridden ∪ t.overridden }).toList ++
      refSitesMembers (refName (s.body definition)).isSome (s.body definition)
  | _ => []

def RefSite.Resolves (defs : Members) (s : RefSite) : Prop :=
  ∃ definition, defs.lookup s.name = some (.obj definition)

/-- The member is read below the mapping. -/
def IsRead (members : Members) (m : String × Json) : Prop :=
  m ∈ members ∧ ((refName members).isSome → m.1 ≠ "$ref")

theorem mem_refSitesMembers {isRef : Bool} : s ∈ refSitesMembers isRef members ↔
    ∃ m ∈ members, (isRef → m.1 ≠ "$ref") ∧ s ∈ refSites m.2 := by
  induction members with
  | nil => simp [refSitesMembers]
  | cons m members ih =>
    rw [refSitesMembers]
    split <;> simp_all

theorem mem_refSitesItems {items : List Json} :
    s ∈ refSitesItems items ↔ ∃ v ∈ items, s ∈ refSites v := by
  induction items with
  | nil => simp [refSitesItems]
  | cons v items ih => simp [refSitesItems, ih]

theorem mem_refSites_obj : s ∈ refSites (.obj members) ↔
    siteOf members = some s ∨ ∃ m, IsRead members m ∧ s ∈ refSites m.2 := by
  rw [refSites, List.mem_append, mem_refSitesMembers, Option.mem_toList]
  simp only [IsRead, and_assoc]

theorem lookup_ref_of_refName {name : String} (h : refName members = some name) :
    ∃ ref, members.lookup "$ref" = some (.str ref) := by
  unfold refName at h
  split at h
  · exact ⟨_, ‹_›⟩
  · cases h

/-! ## One visit -/

/-- A visit that returns, where `f` visits the parts. -/
inductive VisitStep (defs : Members) (f : Json → Except InlineStop Json) : Json → Json → Prop
  | scalar {v : Json} (scalar : v.IsScalar) : VisitStep defs f v v
  | arr {items outs : List Json} (parts : List.Forall₂ (fun v o => f v = .ok o) items outs) :
      VisitStep defs f (.arr items) (.arr outs)
  | obj {members outs : Members} (plain : refName members = none)
      (parts : List.Forall₂ (fun m o => o.1 = m.1 ∧ f m.2 = .ok o.2) members outs) :
      VisitStep defs f (.obj members) (.obj outs)
  | ref {members definition siblings : Members} {name : String} {out : Json}
      (isRef : refName members = some name) (found : defs.lookup name = some (.obj definition))
      (parts : List.Forall₂ (fun m o => o.1 = m.1 ∧ f m.2 = .ok o.2) (eraseKey "$ref" members)
        siblings)
      (expanded : f (.obj (updateKeys definition siblings)) = .ok out) :
      VisitStep defs f (.obj members) out

theorem visit_ok_iff {n : Nat} {v w : Json} :
    visit defs (n + 1) v = .ok w ↔ VisitStep defs (visit defs n) v w := by
  constructor
  · intro h
    cases v with
    | obj value =>
      rw [visit] at h
      split at h
      · rename_i name isRef
        split at h
        · cases h
        · rename_i found
          obtain ⟨siblings, hs, h⟩ := ok_of_bind h
          split at h
          · exact .ref isRef found (visitMembers_ok_iff.mp hs) h
          · cases h
      · rename_i plain
        obtain ⟨outs, houts, rfl⟩ := ok_of_map h
        exact .obj plain (visitMembers_ok_iff.mp houts)
    | arr items =>
      rw [visit] at h
      obtain ⟨outs, houts, rfl⟩ := ok_of_map h
      exact .arr (visitItems_ok_iff.mp houts)
    | _ =>
      obtain rfl := Except.ok.inj h
      exact .scalar trivial
  · intro h
    cases h with
    | scalar scalar => cases v <;> first | rfl | cases scalar
    | arr parts =>
      rw [visit, visitItems_ok_iff.mpr parts]
      rfl
    | obj plain parts =>
      simp only [visit, plain, visitMembers_ok_iff.mpr parts]
      rfl
    | ref isRef found parts expanded =>
      simp only [visit, isRef, found, visitMembers_ok_iff.mpr parts]
      exact expanded

theorem VisitStep.mono {f g : Json → Except InlineStop Json} {v w : Json}
    (h : VisitStep defs f v w) (hfg : ∀ {v w : Json}, f v = .ok w → g v = .ok w) :
    VisitStep defs g v w := by
  cases h with
  | scalar scalar => exact .scalar scalar
  | arr parts => exact .arr (parts.imp fun _ _ h => hfg h)
  | obj plain parts => exact .obj plain (parts.imp fun _ _ h => ⟨h.1, hfg h.2⟩)
  | ref isRef found parts expanded =>
    exact .ref isRef found (parts.imp fun _ _ h => ⟨h.1, hfg h.2⟩) (hfg expanded)

/-! ## More stack -/

theorem visit_mono {n : Nat} {v w : Json} (h : visit defs n v = .ok w) :
    visit defs (n + 1) v = .ok w := by
  induction n generalizing v w with
  | zero => cases h
  | succ n ih => exact visit_ok_iff.mpr ((visit_ok_iff.mp h).mono ih)

theorem visit_mono_le {n k : Nat} {v w : Json} (hnk : n ≤ k) (h : visit defs n v = .ok w) :
    visit defs k v = .ok w := by
  induction hnk with
  | refl => exact h
  | step _ ih => exact visit_mono ih

/-- The visit returns on some stack. -/
def VisitEnds (defs : Members) (v : Json) : Prop := ∃ n w, visit defs n v = .ok w

theorem visitMembers_of_ends (h : ∀ m ∈ members, VisitEnds defs m.2) :
    ∃ n out, List.Forall₂ (fun m o : String × Json => o.1 = m.1 ∧ visit defs n m.2 = .ok o.2)
      members out := by
  induction members with
  | nil => exact ⟨0, [], .nil⟩
  | cons m members ih =>
    obtain ⟨n, w, hw⟩ := h m List.mem_cons_self
    obtain ⟨k, out, hout⟩ := ih fun m hm => h m (List.mem_cons_of_mem _ hm)
    refine ⟨max n k, (m.1, w) :: out, .cons ⟨rfl, ?_⟩ ?_⟩
    · exact visit_mono_le (Nat.le_max_left n k) hw
    · exact hout.imp fun _ _ hm => ⟨hm.1, visit_mono_le (Nat.le_max_right n k) hm.2⟩

theorem visitItems_of_ends {items : List Json} (h : ∀ v ∈ items, VisitEnds defs v) :
    ∃ n out, List.Forall₂ (fun v o => visit defs n v = .ok o) items out := by
  induction items with
  | nil => exact ⟨0, [], .nil⟩
  | cons v items ih =>
    obtain ⟨n, w, hw⟩ := h v List.mem_cons_self
    obtain ⟨k, out, hout⟩ := ih fun v hv => h v (List.mem_cons_of_mem _ hv)
    refine ⟨max n k, w :: out, .cons ?_ ?_⟩
    · exact visit_mono_le (Nat.le_max_left n k) hw
    · exact hout.imp fun _ _ hm => visit_mono_le (Nat.le_max_right n k) hm

/-! ## What is returned is free of references -/

theorem refSites_eq_nil_obj :
    RefFree (.obj members) ↔ refName members = none ∧ ∀ m ∈ members, RefFree m.2 := by
  unfold RefFree
  rw [refSites, List.append_eq_nil_iff, siteOf]
  have below : refSitesMembers false members = [] ↔ ∀ m ∈ members, refSites m.2 = [] := by
    induction members with
    | nil => simp [refSitesMembers]
    | cons m members ih => simp [refSitesMembers, ih]
  cases refName members <;> simp [below]

theorem refFree_arr {items : List Json} : RefFree (.arr items) ↔ ∀ v ∈ items, RefFree v := by
  unfold RefFree
  rw [refSites]
  induction items with
  | nil => simp [refSitesItems]
  | cons v items ih => simp [refSitesItems, ih]

theorem refFree_of_isScalar {v : Json} (h : v.IsScalar) : RefFree v := by
  cases v <;> first | rfl | cases h

theorem visit_str_of_ne {n : Nat} {v : Json} {ref : String} (h : visit defs n v = .ok (.str ref))
    (hv : ∀ members, v ≠ .obj members) : v = .str ref := by
  cases n with
  | zero => cases h
  | succ n =>
    cases visit_ok_iff.mp h with
    | scalar => rfl
    | ref => exact absurd rfl (hv _)

/-- A visited mapping is a mapping. -/
theorem obj_of_visit_obj {n : Nat} {w : Json} (h : visit defs n (.obj members) = .ok w) :
    ∃ out, w = .obj out := by
  induction n generalizing members w with
  | zero => cases h
  | succ n ih =>
    cases visit_ok_iff.mp h with
    | scalar scalar => exact scalar.elim
    | obj => exact ⟨_, rfl⟩
    | ref _ _ _ expanded => exact ih expanded

theorem refName_of_visitMembers {n : Nat} {out : Members} (hr : refName members = none)
    (parts : List.Forall₂ (fun m o => o.1 = m.1 ∧ visit defs n m.2 = .ok o.2) members out) :
    refName out = none := by
  obtain ⟨-, gone⟩ | ⟨v, o, hv, ho, hvo⟩ := lookup_of_forall₂
    (P := fun v o => visit defs n v = .ok o) "$ref" parts
  · simp [refName, gone]
  · cases o with
    | str ref =>
      have same : v = .str ref := by
        refine visit_str_of_ne hvo fun members hobj => ?_
        subst hobj
        obtain ⟨_, h⟩ := obj_of_visit_obj hvo
        cases h
      rw [refName, hv, same] at hr
      rw [refName, ho]
      exact hr
    | _ => simp [refName, ho]

theorem refFree_of_visit {n : Nat} {v w : Json} (h : visit defs n v = .ok w) : RefFree w := by
  induction n generalizing v w with
  | zero => cases h
  | succ n ih =>
    cases visit_ok_iff.mp h with
    | scalar scalar => exact refFree_of_isScalar scalar
    | arr parts =>
      refine refFree_arr.mpr fun o ho => ?_
      obtain ⟨v, -, hvisit⟩ := exists_left_of_forall₂ parts ho
      exact ih hvisit
    | obj plain parts =>
      refine refSites_eq_nil_obj.mpr ⟨refName_of_visitMembers plain parts, fun o ho => ?_⟩
      obtain ⟨m, -, -, hvisit⟩ := exists_left_of_forall₂ parts ho
      exact ih hvisit
    | ref _ _ _ expanded => exact ih expanded

/-! ## Sites that end -/

/-- Visited siblings that a site of these keys can have. -/
structure RefSite.Siblings (s : RefSite) (siblings : Members) : Prop where
  keys : (keysOf siblings).toFinset = s.overridden
  plain : siblings.lookup "$ref" = none
  free : ∀ m ∈ siblings, RefFree m.2

section

variable {siblings definition : Members}

theorem RefSite.Siblings.lookup_iff (h : s.Siblings siblings) {key : String} :
    siblings.lookup key = none ↔ key ∉ s.overridden := by
  rw [← h.keys, List.mem_toFinset, ← lookup_isSome_iff_mem_keys]
  cases siblings.lookup key <;> simp

theorem lookup_body {key : String} :
    (s.body definition).lookup key =
      if key ∈ s.overridden then none else definition.lookup key := by
  rw [RefSite.body, lookup_filter fun key => decide (key ∉ s.overridden)]
  split <;> split <;> simp_all

theorem RefSite.Siblings.refName_update (h : s.Siblings siblings) :
    refName (updateKeys definition siblings) = refName (s.body definition) := by
  have outside := h.lookup_iff.mp h.plain
  simp [refName, h.plain, lookup_body, outside]

theorem RefSite.Siblings.siteOf_update (h : s.Siblings siblings) :
    siteOf (updateKeys definition siblings) = (siteOf (s.body definition)).map fun t =>
      { t with overridden := s.overridden ∪ t.overridden } := by
  have outside := h.lookup_iff.mp h.plain
  rw [siteOf, siteOf, h.refName_update]
  cases refName (s.body definition) with
  | none => rfl
  | some name =>
    simp only [Option.map_some, Option.some.injEq, RefSite.mk.injEq, true_and]
    ext key
    have overridden : key ∈ s.overridden ↔ (siblings.lookup key).isSome := by
      rw [← not_iff_not, ← h.lookup_iff]
      cases siblings.lookup key <;> simp only [Option.isSome_none, Option.isSome_some] <;> simp
    rw [List.mem_toFinset, ← lookup_isSome_iff_mem_keys, Finset.mem_union, List.mem_toFinset,
      ← lookup_isSome_iff_mem_keys, lookup_eraseKey, lookup_eraseKey, lookup_updateKeys,
      lookup_body]
    by_cases href : key = "$ref"
    · subst href
      simp [outside]
    · cases hs : siblings.lookup key <;> simp [href, overridden, hs]

/-- The references of an expanded site do not depend on what its siblings are. -/
theorem RefSite.Siblings.mem_refSites_update (h : s.Siblings siblings)
    (hd : defs.lookup s.name = some (.obj definition)) :
    t ∈ refSites (.obj (updateKeys definition siblings)) ↔ t ∈ s.next defs := by
  rw [mem_refSites_obj, h.siteOf_update, RefSite.next, hd]
  simp only [List.mem_append, Option.mem_toList, mem_refSitesMembers, IsRead, h.refName_update]
  refine or_congr_right ?_
  constructor
  · rintro ⟨m, ⟨hm, hread⟩, ht⟩
    obtain hm | hm := List.mem_append.mp hm
    · obtain ⟨d, hd, rfl⟩ := List.mem_map.mp hm
      cases hs : siblings.lookup d.1 with
      | some x =>
        have free : refSites x = [] := h.free _ (mem_of_lookup hs)
        simp [hs, free] at ht
      | none =>
        refine ⟨d, List.mem_filter.mpr ⟨hd, ?_⟩, hread, by simpa [hs] using ht⟩
        simpa using h.lookup_iff.mp hs
    · have free : refSites m.2 = [] := h.free _ (List.mem_of_mem_filter hm)
      simp [free] at ht
  · rintro ⟨m, hm, hread, ht⟩
    obtain ⟨hmem, hkey⟩ := List.mem_filter.mp hm
    have absent := h.lookup_iff.mpr (by simpa using hkey)
    refine ⟨m, ⟨List.mem_append_left _ (List.mem_map.mpr ⟨m, hmem, ?_⟩), hread⟩, ht⟩
    simp [absent]

/-- The visited siblings of a reference are siblings of its site. -/
theorem siblings_of_visit {n : Nat} {name : String}
    (parts : List.Forall₂ (fun m o => o.1 = m.1 ∧ visit defs n m.2 = .ok o.2)
      (eraseKey "$ref" members) siblings) :
    (⟨name, (keysOf (eraseKey "$ref" members)).toFinset⟩ : RefSite).Siblings siblings := by
  refine ⟨by rw [keysOf_of_forall₂ (P := fun v o => visit defs n v = .ok o) parts], ?_, ?_⟩
  · obtain ⟨-, gone⟩ | ⟨v, o, hv, -⟩ := lookup_of_forall₂
      (P := fun v o => visit defs n v = .ok o) "$ref" parts
    · exact gone
    · simp at hv
  · intro o ho
    obtain ⟨m, -, -, hvisit⟩ := exists_left_of_forall₂ parts ho
    exact refFree_of_visit hvisit

end

/-- Whatever the siblings, the site is expanded on some stack. -/
def SiteEnds (defs : Members) (s : RefSite) : Prop :=
  ∃ definition, defs.lookup s.name = some (.obj definition) ∧
    ∀ siblings, s.Siblings siblings → VisitEnds defs (.obj (updateKeys definition siblings))

/-- A value ends when its references do; by induction on the value. -/
theorem ends_of_sites {v : Json} (h : ∀ s ∈ refSites v, SiteEnds defs s) : VisitEnds defs v := by
  induction v using Json.induction with
  | scalar v hv => exact ⟨1, v, by cases v <;> first | rfl | cases hv⟩
  | arr items ih =>
    obtain ⟨n, out, hout⟩ := visitItems_of_ends fun v hv =>
      ih v hv fun s hs => h s (by rw [refSites, mem_refSitesItems]; exact ⟨v, hv, hs⟩)
    exact ⟨n + 1, .arr out, visit_ok_iff.mpr (.arr hout)⟩
  | obj members ih =>
    have below : ∀ m, IsRead members m → VisitEnds defs m.2 := fun m hm =>
      ih m hm.1 fun s hs => h s (mem_refSites_obj.mpr (.inr ⟨m, hm, hs⟩))
    cases hr : refName members with
    | none =>
      obtain ⟨n, out, hout⟩ := visitMembers_of_ends fun m hm =>
        below m ⟨hm, by simp [hr]⟩
      exact ⟨n + 1, .obj out, visit_ok_iff.mpr (.obj hr hout)⟩
    | some name =>
      have siblings_end : ∀ m ∈ eraseKey "$ref" members, VisitEnds defs m.2 := by
        intro m hm
        obtain ⟨hmem, hkey⟩ := List.mem_filter.mp hm
        exact below m ⟨hmem, fun _ => by simpa using hkey⟩
      obtain ⟨n, siblings, hs⟩ := visitMembers_of_ends siblings_end
      obtain ⟨definition, hd, ends⟩ := h _ (mem_refSites_obj.mpr (.inl (by rw [siteOf, hr]; rfl)))
      obtain ⟨k, w, hw⟩ := ends siblings (siblings_of_visit hs)
      have hs' : List.Forall₂ (fun m o => o.1 = m.1 ∧ visit defs (max n k) m.2 = .ok o.2)
          (eraseKey "$ref" members) siblings :=
        hs.imp fun _ _ hm => ⟨hm.1, visit_mono_le (Nat.le_max_left n k) hm.2⟩
      refine ⟨max n k + 1, w, visit_ok_iff.mpr (.ref hr hd hs' ?_)⟩
      exact visit_mono_le (Nat.le_max_right n k) hw

theorem siteEnds_of_next (hs : s.Resolves defs) (h : ∀ t ∈ s.next defs, SiteEnds defs t) :
    SiteEnds defs s := by
  obtain ⟨definition, hd⟩ := hs
  refine ⟨definition, hd, fun siblings hsib => ends_of_sites fun t ht => ?_⟩
  exact h t ((hsib.mem_refSites_update hd).mp ht)

/-! ## Cycles -/

/-- One reference leads to another. -/
def RefSite.LeadsTo (defs : Members) (s t : RefSite) : Prop := t ∈ s.next defs

/-- The site is expanded on a stack of `n` frames, for some siblings. -/
def EndsWithin (defs : Members) (n : Nat) (s : RefSite) : Prop :=
  ∃ definition siblings w, defs.lookup s.name = some (.obj definition) ∧ s.Siblings siblings ∧
    visit defs n (.obj (updateKeys definition siblings)) = .ok w

/-- A visit that returns has expanded the references of its value on a smaller stack. -/
theorem endsWithin_of_visit {n : Nat} {v w : Json} (h : visit defs n v = .ok w) :
    ∀ s ∈ refSites v, ∃ k < n, EndsWithin defs k s := by
  induction n generalizing v w with
  | zero => cases h
  | succ n ih =>
    intro s hs
    have deeper : ∀ {v w : Json}, visit defs n v = .ok w → s ∈ refSites v →
        ∃ k < n + 1, EndsWithin defs k s := by
      intro v w hv hs
      obtain ⟨k, hk, within⟩ := ih hv s hs
      exact ⟨k, by omega, within⟩
    cases visit_ok_iff.mp h with
    | scalar scalar =>
      rw [refFree_of_isScalar scalar] at hs
      cases hs
    | arr parts =>
      rw [refSites, mem_refSitesItems] at hs
      obtain ⟨v, hv, hs⟩ := hs
      obtain ⟨o, -, hvisit⟩ := exists_right_of_forall₂ parts hv
      exact deeper hvisit hs
    | obj plain parts =>
      obtain hs | ⟨m, ⟨hm, -⟩, hs⟩ := mem_refSites_obj.mp hs
      · rw [siteOf, plain] at hs
        cases hs
      · obtain ⟨o, -, -, hvisit⟩ := exists_right_of_forall₂ parts hm
        exact deeper hvisit hs
    | ref isRef found parts expanded =>
      obtain hs | ⟨m, ⟨hm, hread⟩, hs⟩ := mem_refSites_obj.mp hs
      · rw [siteOf, isRef] at hs
        obtain rfl := Option.some.inj hs
        exact ⟨n, by omega, _, _, w, found, siblings_of_visit parts, expanded⟩
      · have other : m.1 ≠ "$ref" := hread (by simp [isRef])
        obtain ⟨o, -, -, hvisit⟩ := exists_right_of_forall₂ parts
          (List.mem_filter.mpr ⟨hm, by simpa using other⟩)
        exact deeper hvisit hs

theorem EndsWithin.next {n : Nat} (h : EndsWithin defs n s) (ht : s.LeadsTo defs t) :
    ∃ k < n, EndsWithin defs k t := by
  obtain ⟨definition, siblings, w, hd, hsib, hw⟩ := h
  exact endsWithin_of_visit hw t ((hsib.mem_refSites_update hd).mpr ht)

theorem EndsWithin.reaches {n : Nat} (h : EndsWithin defs n s)
    (ht : Relation.TransGen (RefSite.LeadsTo defs) s t) : ∃ k < n, EndsWithin defs k t := by
  induction ht with
  | single step => exact h.next step
  | tail _ step ih =>
    obtain ⟨k, hk, within⟩ := ih
    obtain ⟨j, hj, within⟩ := within.next step
    exact ⟨j, by omega, within⟩

/-- On a cycle each expansion would need a larger stack than the next round. -/
theorem EndsWithin.not_cycle {n : Nat} (h : EndsWithin defs n s) :
    ¬ Relation.TransGen (RefSite.LeadsTo defs) s s := by
  intro cycle
  induction n using Nat.strong_induction_on with
  | _ n ih =>
    obtain ⟨k, hk, within⟩ := h.reaches cycle
    exact ih k hk within

/-! ## Without cycles -/

/-- Induction along a relation on a finite set that it neither leaves nor goes round in. -/
theorem acyclic_induction {α : Type} {r : α → α → Prop} {S : Set α} (finite : S.Finite)
    (closed : ∀ a ∈ S, ∀ b, r a b → b ∈ S) (acyclic : ∀ a ∈ S, ¬ Relation.TransGen r a a)
    {P : α → Prop} (step : ∀ a ∈ S, (∀ b, r a b → P b) → P a) : ∀ a ∈ S, P a := by
  have : Finite S := finite
  let after : S → S → Prop := fun b a => Relation.TransGen r a b
  have : IsTrans S after := ⟨fun _ _ _ hab hbc => hbc.trans hab⟩
  have : Std.Irrefl after := ⟨fun a => acyclic a a.2⟩
  have wf : WellFounded after := Finite.wellFounded_of_trans_of_irrefl after
  have all : ∀ a : S, P a := by
    intro a
    induction a using wf.induction with
    | _ a ih => exact step a a.2 fun b hb => ih ⟨b, closed a a.2 b hb⟩ (.single hb)
  exact fun a ha => all ⟨a, ha⟩

/-- The references of the schema and of its definitions. -/
def allSites (root : Json) (defs : Members) : List RefSite :=
  refSites root ++ defs.flatMap fun m => refSites m.2

/-- The keys that a chain of references can override. -/
def overridableKeys (root : Json) (defs : Members) : Finset String :=
  (allSites root defs).toFinset.biUnion RefSite.overridden ∪
    (defs.flatMap fun m => match m.2 with | .obj d => keysOf d | _ => []).toFinset

/-- The sites that a chain of references can visit. -/
def siteBound (root : Json) (defs : Members) : Set RefSite :=
  {s | s.name ∈ (allSites root defs).map RefSite.name ∧ s.overridden ⊆ overridableKeys root defs}

variable {root : Json}

theorem siteBound_finite : (siteBound root defs).Finite := by
  have product := (((allSites root defs).map RefSite.name).toFinset ×ˢ
    (overridableKeys root defs).powerset).finite_toSet
  refine (product.image fun p => (⟨p.1, p.2⟩ : RefSite)).subset fun s hs => ?_
  refine ⟨(s.name, s.overridden), ?_, rfl⟩
  rw [Finset.mem_coe, Finset.mem_product, List.mem_toFinset, Finset.mem_powerset]
  exact hs

theorem mem_siteBound_of_mem (h : s ∈ allSites root defs) : s ∈ siteBound root defs := by
  refine ⟨List.mem_map_of_mem h, fun key hkey => Finset.mem_union_left _ ?_⟩
  exact Finset.mem_biUnion.mpr ⟨s, List.mem_toFinset.mpr h, hkey⟩

/-- A reference that a site leads to stands in its definition, whose keys are all that it
adds to what is overridden. -/
theorem RefSite.LeadsTo.mentioned (h : s.LeadsTo defs t) :
    ∃ definition, defs.lookup s.name = some (.obj definition) ∧
      ∃ r ∈ refSites (.obj definition), r.name = t.name ∧
        t.overridden ⊆ s.overridden ∪ r.overridden := by
  rw [RefSite.LeadsTo, RefSite.next] at h
  split at h
  · rename_i definition hd
    refine ⟨definition, hd, ?_⟩
    obtain h | h := List.mem_append.mp h
    · obtain ⟨r, hr, rfl⟩ := Option.map_eq_some_iff.mp (Option.mem_toList.mp h)
      obtain ⟨name, hname, rfl⟩ := Option.map_eq_some_iff.mp hr
      have kept : refName definition = some name := by
        obtain ⟨ref, href⟩ := lookup_ref_of_refName hname
        rw [lookup_body] at href
        split at href
        · cases href
        · rename_i outside
          rw [← hname, refName, refName, lookup_body, if_neg outside]
      have whole : siteOf definition =
          some ⟨name, (keysOf (eraseKey "$ref" definition)).toFinset⟩ := by
        rw [siteOf, kept]
        rfl
      refine ⟨_, mem_refSites_obj.mpr (.inl whole), rfl, ?_⟩
      refine Finset.union_subset_union_right fun key hkey => ?_
      simp only [List.mem_toFinset, keysOf, List.mem_map] at hkey ⊢
      obtain ⟨m, hm, rfl⟩ := hkey
      obtain ⟨hm, other⟩ := List.mem_filter.mp hm
      exact ⟨m, List.mem_filter.mpr ⟨List.mem_of_mem_filter hm, other⟩, rfl⟩
    · obtain ⟨m, hm, hread, hr⟩ := mem_refSitesMembers.mp h
      obtain ⟨hmem, hkey⟩ := List.mem_filter.mp hm
      have read : (refName definition).isSome → m.1 ≠ "$ref" := by
        intro isRef href
        refine hread ?_ href
        have outside : "$ref" ∉ s.overridden := by simpa [href] using hkey
        rwa [refName, lookup_body, if_neg outside]
      exact ⟨t, mem_refSites_obj.mpr (.inr ⟨m, ⟨hmem, read⟩, hr⟩), rfl,
        Finset.subset_union_right⟩
  · cases h

theorem mem_allSites_of_lookup {name : String} {definition : Json}
    (hd : defs.lookup name = some definition) (hs : s ∈ refSites definition) :
    s ∈ allSites root defs :=
  List.mem_append_right _ (List.mem_flatMap.mpr ⟨_, mem_of_lookup hd, hs⟩)

theorem siteBound_next (hs : s ∈ siteBound root defs) (ht : s.LeadsTo defs t) :
    t ∈ siteBound root defs := by
  obtain ⟨definition, hd, r, hr, name, added⟩ := ht.mentioned
  have inside : r ∈ allSites root defs := mem_allSites_of_lookup hd hr
  have bound := mem_siteBound_of_mem inside
  exact ⟨name ▸ bound.1, added.trans (Finset.union_subset hs.2 bound.2)⟩

/-- The schema without its definitions. -/
def rootOf (schema : Members) : Json := .obj (eraseKey "$defs" schema)

/-- A chain of references from the schema comes to the site. -/
def ReachedSite (schema : Members) (s : RefSite) : Prop :=
  ∃ r ∈ refSites (rootOf schema),
    Relation.ReflTransGen (RefSite.LeadsTo (definitionsOf schema)) r s

theorem ReachedSite.mem_siteBound {schema : Members} (h : ReachedSite schema s) :
    s ∈ siteBound (rootOf schema) (definitionsOf schema) := by
  obtain ⟨r, hr, path⟩ := h
  induction path with
  | refl => exact mem_siteBound_of_mem (List.mem_append_left _ hr)
  | tail _ step ih => exact siteBound_next ih step

theorem reachedSite_finite (schema : Members) : {s | ReachedSite schema s}.Finite :=
  siteBound_finite.subset fun _ h => h.mem_siteBound

/-- Inlining returns a schema without references, or raises a `TaskDefinitionError`. -/
def InliningEnds (schema : Members) : Prop :=
  ∃ stack, match inlineRefs stack schema with
    | .ok out => RefFree out
    | .error (.raised e) => e.cls = .taskDefinitionError
    | .error .recursion => False

theorem visit_not_taskDefinitionError {n : Nat} {v : Json} {e : PyException}
    (h : visit defs n v = .error (.raised e)) : e.cls ≠ .taskDefinitionError := by
  induction n generalizing v with
  | zero => cases h
  | succ n ih =>
    cases v with
    | obj value =>
      rw [visit] at h
      split at h
      · split at h
        · cases h
          simp [PyException.mk']
        · obtain hs | ⟨siblings, -, h⟩ := error_of_bind h
          · obtain ⟨m, -, raised⟩ := error_of_visitMembers hs
            exact ih raised
          · split at h
            · exact ih h
            · cases h
              simp [PyException.mk']
      · obtain ⟨m, -, raised⟩ := error_of_visitMembers (error_of_map h)
        exact ih raised
    | arr items =>
      rw [visit] at h
      obtain ⟨v, -, raised⟩ := error_of_visitItems (error_of_map h)
      exact ih raised
    | _ => cases h

/-- Where inlining ends, what the schema reaches is defined and leads nowhere back. -/
theorem InliningEnds.acyclic {schema : Members} (h : InliningEnds schema) {s : RefSite}
    (reached : ReachedSite schema s) : s.Resolves (definitionsOf schema) ∧
      ¬ Relation.TransGen (RefSite.LeadsTo (definitionsOf schema)) s s := by
  obtain ⟨stack, h⟩ := h
  obtain ⟨r, hr, path⟩ := reached
  cases visited : inlineRefs stack schema with
  | error stop =>
    rw [visited] at h
    cases stop with
    | recursion => exact h.elim
    | raised e => exact absurd h (visit_not_taskDefinitionError visited)
  | ok out =>
    obtain ⟨n, -, within⟩ := endsWithin_of_visit visited r hr
    have reached : ∃ k, EndsWithin (definitionsOf schema) k s := by
      induction path with
      | refl => exact ⟨n, within⟩
      | tail _ step ih =>
        obtain ⟨k, ends⟩ := ih
        obtain ⟨j, -, ends⟩ := ends.next step
        exact ⟨j, ends⟩
    obtain ⟨k, ends⟩ := reached
    have acyclic := ends.not_cycle
    obtain ⟨definition, -, -, hd, -⟩ := ends
    exact ⟨⟨definition, hd⟩, acyclic⟩

/-- Inlining returns where what the schema reaches is defined and leads nowhere back. -/
theorem inlineRefs_returns {schema : Members} (h : ∀ s, ReachedSite schema s →
    s.Resolves (definitionsOf schema) ∧
      ¬ Relation.TransGen (RefSite.LeadsTo (definitionsOf schema)) s s) :
    ∃ stack out, inlineRefs stack schema = .ok out ∧ RefFree out := by
  have ends : ∀ s, ReachedSite schema s → SiteEnds (definitionsOf schema) s := by
    refine acyclic_induction (reachedSite_finite schema) ?_ (fun s hs => (h s hs).2) ?_
    · rintro s ⟨r, hr, path⟩ t step
      exact ⟨r, hr, path.tail step⟩
    · intro s hs next
      exact siteEnds_of_next (h s hs).1 next
  obtain ⟨n, out, hout⟩ := ends_of_sites fun s hs => ends s ⟨s, hs, .refl⟩
  exact ⟨n, out, hout, refFree_of_visit hout⟩

/-- Inlining ends exactly when each reference that the schema reaches has a definition and
does not lead back to itself. -/
theorem inlineRefs_ends_iff (schema : Members) :
    InliningEnds schema ↔ ∀ s, ReachedSite schema s →
      s.Resolves (definitionsOf schema) ∧
        ¬ Relation.TransGen (RefSite.LeadsTo (definitionsOf schema)) s s := by
  constructor
  · exact fun h s reached => h.acyclic reached
  · intro h
    obtain ⟨n, out, visited, free⟩ := inlineRefs_returns h
    refine ⟨n, ?_⟩
    rw [visited]
    exact free

/-- The schema of a model with a field of the type `class Node: children: list[Node]`. -/
def nodeSchema : Members :=
  [("$defs", .obj [("Node", .obj
      [("properties", .obj [("children", .obj
          [("items", .obj [("$ref", .str "#/$defs/Node")]), ("title", .str "Children"),
            ("type", .str "array")])]),
        ("required", .arr [.str "children"]), ("title", .str "Node"), ("type", .str "object")])]),
    ("properties", .obj [("root", .obj [("$ref", .str "#/$defs/Node")])]),
    ("required", .arr [.str "root"]), ("title", .str "Params"), ("type", .str "object")]

theorem recursive_model_never_inlined :
    ¬ InliningEnds (stripModelSchemaMetadata nodeSchema) := by
  intro h
  have itself : (⟨"Node", ∅⟩ : RefSite).LeadsTo
      (definitionsOf (stripModelSchemaMetadata nodeSchema)) ⟨"Node", ∅⟩ := by
    rw [RefSite.LeadsTo]
    decide +kernel
  refine (h.acyclic (s := ⟨"Node", ∅⟩) ⟨⟨"Node", ∅⟩, ?_, .refl⟩).2 (.single itself)
  decide +kernel

end Perago
