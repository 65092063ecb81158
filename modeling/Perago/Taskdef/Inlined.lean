import Perago.Taskdef.InlineRefs

/-!
# What inlining computes

The big-step reading of `visit`: a reference is its definition under the
siblings as they were written, whatever the order in which they are visited.
-/

namespace Perago

/-- `value` is inlined to the last argument. -/
inductive Inlines (defs : Members) : Json → Json → Prop
  | scalar {v : Json} (scalar : v.IsScalar) : Inlines defs v v
  | arr {items outs : List Json} (length : outs.length = items.length)
      (each : ∀ (i : Nat) v o, items[i]? = some v → outs[i]? = some o → Inlines defs v o) :
      Inlines defs (.arr items) (.arr outs)
  | obj {members outs : Members} (plain : refName members = none)
      (keys : keysOf outs = keysOf members)
      (each : ∀ (i : Nat) m o, members[i]? = some m → outs[i]? = some o →
        Inlines defs m.2 o.2) :
      Inlines defs (.obj members) (.obj outs)
  | ref {members definition : Members} {name : String} {out : Json}
      (isRef : refName members = some name) (found : defs.lookup name = some (.obj definition))
      (expanded : Inlines defs
        (.obj (updateKeys definition (eraseKey "$ref" members))) out) :
      Inlines defs (.obj members) out

variable {defs members outs : Members}

/-! ## Members by position and by key -/

theorem forall₂_of_keys {P : Json → Json → Prop} (keys : keysOf outs = keysOf members)
    (each : ∀ (i : Nat) m o, members[i]? = some m → outs[i]? = some o → P m.2 o.2) :
    List.Forall₂ (fun m o : String × Json => o.1 = m.1 ∧ P m.2 o.2) members outs := by
  induction members generalizing outs with
  | nil =>
    cases outs with
    | nil => exact .nil
    | cons o outs => cases keys
  | cons m members ih =>
    cases outs with
    | nil => cases keys
    | cons o outs =>
      obtain ⟨key, keys⟩ := List.cons.inj keys
      exact .cons ⟨key, each 0 m o rfl rfl⟩ (ih keys fun i => each (i + 1))

/-- Under each key a plain mapping and its inlined form agree. -/
theorem Inlines.lookup (keys : keysOf outs = keysOf members)
    (each : ∀ (i : Nat) m o, members[i]? = some m → outs[i]? = some o → Inlines defs m.2 o.2)
    (key : String) :
    (members.lookup key = none ∧ outs.lookup key = none) ∨
      ∃ v o, members.lookup key = some v ∧ outs.lookup key = some o ∧ Inlines defs v o :=
  lookup_of_forall₂ key (forall₂_of_keys keys each)

/-! ## The shape of the result -/

theorem Inlines.obj_of_obj {v o : Json} (h : Inlines defs v o) (hv : ∃ members, v = .obj members) :
    ∃ outs, o = .obj outs := by
  induction h with
  | scalar scalar =>
    obtain ⟨members, rfl⟩ := hv
    cases scalar
  | arr => cases hv.choose_spec
  | obj => exact ⟨_, rfl⟩
  | ref _ _ _ ih => exact ih ⟨_, rfl⟩

theorem Inlines.eq_str {v : Json} {s : String} (h : Inlines defs v (.str s)) : v = .str s := by
  cases h with
  | scalar => rfl
  | ref isRef found expanded =>
    obtain ⟨outs, h⟩ := expanded.obj_of_obj ⟨_, rfl⟩
    cases h

theorem Inlines.refName_eq_none (plain : refName members = none)
    (keys : keysOf outs = keysOf members)
    (each : ∀ (i : Nat) m o, members[i]? = some m → outs[i]? = some o → Inlines defs m.2 o.2) :
    refName outs = none := by
  obtain ⟨-, gone⟩ | ⟨v, o, hv, ho, hvo⟩ := Inlines.lookup keys each "$ref"
  · simp [refName, gone]
  · cases o with
    | str s =>
      rw [refName, hv, hvo.eq_str] at plain
      rw [refName, ho]
      exact plain
    | _ => simp [refName, ho]

theorem getElem?_of_length {α β : Type} {xs : List α} {ys : List β} (h : ys.length = xs.length)
    {y : β} (hy : y ∈ ys) : ∃ (i : Nat) (x : α), xs[i]? = some x ∧ ys[i]? = some y := by
  obtain ⟨i, hi, rfl⟩ := List.getElem_of_mem hy
  exact ⟨i, xs[i], List.getElem?_eq_getElem (h ▸ hi), List.getElem?_eq_getElem hi⟩

theorem length_of_keys (keys : keysOf outs = keysOf members) : outs.length = members.length := by
  simpa [keysOf] using congrArg List.length keys

theorem Inlines.refFree {v o : Json} (h : Inlines defs v o) : RefFree o := by
  induction h with
  | @scalar v scalar => cases v <;> first | rfl | cases scalar
  | arr length each ih =>
    refine refFree_arr.mpr fun o ho => ?_
    obtain ⟨i, v, hv, ho⟩ := getElem?_of_length length ho
    exact ih i v o hv ho
  | obj plain keys each ih =>
    refine refSites_eq_nil_obj.mpr ⟨Inlines.refName_eq_none plain keys each, fun o ho => ?_⟩
    obtain ⟨i, m, hm, ho⟩ := getElem?_of_length (length_of_keys keys) ho
    exact ih i m o hm ho
  | ref isRef found expanded ih => exact ih

theorem ext_of_length {α : Type} {xs ys : List α} (h : ys.length = xs.length)
    (each : ∀ (i : Nat) x y, xs[i]? = some x → ys[i]? = some y → y = x) : ys = xs := by
  refine List.ext_getElem h fun i hy hx => ?_
  exact each i _ _ (List.getElem?_eq_getElem hx) (List.getElem?_eq_getElem hy)

theorem Inlines.eq_of_refFree {v o : Json} (h : Inlines defs v o) (free : RefFree v) : o = v := by
  induction h with
  | scalar => rfl
  | arr length each ih =>
    refine congrArg Json.arr (ext_of_length length fun i v o hv ho => ?_)
    exact ih i v o hv ho (refFree_arr.mp free v (List.mem_of_getElem? hv))
  | @obj members outs plain keys each ih =>
    refine congrArg Json.obj (ext_of_length (length_of_keys keys) fun i m o hm ho => ?_)
    have key : o.1 = m.1 := by
      have := congrArg (·[i]?) keys
      simpa [keysOf, hm, ho] using this
    have value := ih i m o hm ho ((refSites_eq_nil_obj.mp free).2 m (List.mem_of_getElem? hm))
    exact Prod.ext key value
  | ref isRef found expanded ih =>
    rw [(refSites_eq_nil_obj.mp free).1] at isRef
    cases isRef

/-! ## The visit inlines -/

/-- Members of which some may be visited already. -/
def Resumes (defs members later : Members) : Prop :=
  List.Forall₂ (fun m l : String × Json => l.1 = m.1 ∧ (l.2 = m.2 ∨ Inlines defs m.2 l.2))
    members later

variable {later : Members}

theorem Resumes.refl (members : Members) : Resumes defs members members := by
  induction members with
  | nil => exact .nil
  | cons m members ih => exact .cons ⟨rfl, .inl rfl⟩ ih

theorem Resumes.refName_eq (h : Resumes defs members later) : refName later = refName members := by
  obtain ⟨hm, hl⟩ | ⟨v, o, hv, ho, hvo⟩ := lookup_of_forall₂
    (P := fun v o => o = v ∨ Inlines defs v o) "$ref" h
  · simp [refName, hm, hl]
  · rw [refName, refName, hv, ho]
    obtain rfl | hvo := hvo
    · rfl
    · cases hvo with
      | ref isRef found expanded =>
        obtain ⟨outs, rfl⟩ := expanded.obj_of_obj ⟨_, rfl⟩
        rfl
      | _ => rfl

theorem Resumes.filter (h : Resumes defs members later) (p : String → Bool) :
    Resumes defs (members.filter fun m => p m.1) (later.filter fun m => p m.1) := by
  induction h with
  | nil => exact .nil
  | @cons m l _ _ head _ ih =>
    rw [List.filter_cons, List.filter_cons, head.1]
    split
    · exact .cons head ih
    · exact ih

theorem Resumes.updateKeys (h : Resumes defs members later) (definition : Members) :
    Resumes defs (updateKeys definition members) (updateKeys definition later) := by
  refine List.rel_append ?_ (h.filter fun key => (definition.lookup key).isNone)
  refine List.forall₂_map_right_iff.mpr (List.forall₂_map_left_iff.mpr ?_)
  refine List.forall₂_same.mpr fun m _ => ⟨rfl, ?_⟩
  obtain ⟨hm, hl⟩ | ⟨v, o, hv, ho, hvo⟩ := lookup_of_forall₂
    (P := fun v o => o = v ∨ Inlines defs v o) m.1 h
  · simp [hm, hl]
  · simpa [hv, ho] using hvo

/-- Members visited after they were visited in part are inlined. -/
theorem Resumes.inlines {n : Nat} (h : Resumes defs members later)
    (ih : ∀ {v t : Json}, visit defs n v = .ok t → Inlines defs v t)
    (steps : List.Forall₂ (fun m o => o.1 = m.1 ∧ visit defs n m.2 = .ok o.2) later outs) :
    List.Forall₂ (fun m o : String × Json => o.1 = m.1 ∧ Inlines defs m.2 o.2) members outs := by
  induction h generalizing outs with
  | nil =>
    cases steps
    exact .nil
  | cons head _ ih' =>
    cases steps with
    | cons step steps =>
      refine .cons ⟨step.1.trans head.1, ?_⟩ (ih' steps)
      obtain same | inlined := head.2
      · exact same ▸ ih step.2
      · exact ((ih step.2).eq_of_refFree inlined.refFree).symm ▸ inlined

theorem inlines_of_visit {n : Nat} :
    (∀ {v t : Json}, visit defs n v = .ok t → Inlines defs v t) ∧
      ∀ {members later : Members} {t : Json}, Resumes defs members later →
        visit defs n (.obj later) = .ok t → Inlines defs (.obj members) t := by
  induction n with
  | zero => exact ⟨nofun, nofun⟩
  | succ n ih =>
    have mapping : ∀ {members later : Members} {t : Json}, Resumes defs members later →
        visit defs (n + 1) (.obj later) = .ok t → Inlines defs (.obj members) t := by
      intro members later t h visited
      cases visit_ok_iff.mp visited with
      | scalar scalar => exact scalar.elim
      | obj plain steps =>
        have parts := h.inlines ih.1 steps
        refine .obj (h.refName_eq ▸ plain) (keysOf_of_forall₂ parts) fun i m o hm ho => ?_
        exact (get_of_forall₂ parts hm ho).2
      | ref isRef found steps expanded =>
        have resumed : Resumes defs (eraseKey "$ref" members) _ :=
          ((h.filter fun key => key != "$ref").inlines ih.1 steps).imp fun _ _ hm =>
            ⟨hm.1, .inr hm.2⟩
        exact .ref (h.refName_eq ▸ isRef) found (ih.2 (resumed.updateKeys _) expanded)
    refine ⟨fun {v t} visited => ?_, mapping⟩
    cases v with
    | obj members => exact mapping (.refl members) visited
    | arr items =>
      cases visit_ok_iff.mp visited with
      | scalar scalar => exact scalar.elim
      | arr parts =>
        exact .arr parts.length_eq.symm fun i v o hv ho => ih.1 (get_of_forall₂ parts hv ho)
    | _ =>
      obtain rfl := Except.ok.inj visited
      exact .scalar trivial

end Perago
