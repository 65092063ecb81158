import Mathlib.Logic.Relation

/-!
# Machines, guarded runs and invariants

A machine is a set of initial states with a partial step function on labelled
actions; an action that is not enabled has no successor. Every interleaving of
the parties of a system is a run of one machine. A guard restricts the steps a
run may take, by a condition on the state before the step and the action.
-/

namespace Perago.Transition

universe u v w x

structure Machine (σ : Type u) (α : Type v) where
  init : σ → Prop
  step : σ → α → Option σ

namespace Machine

variable {σ : Type u} {α : Type v} {τ : Type w} {β : Type x}
variable {M : Machine σ α} {ok ok' : σ → α → Prop} {s t : σ}

/-- States reached by runs whose every step meets `ok`. -/
inductive Guarded (M : Machine σ α) (ok : σ → α → Prop) : σ → Prop where
  | init {s : σ} : M.init s → Guarded M ok s
  | step {s t : σ} (a : α) : Guarded M ok s → ok s a → M.step s a = some t → Guarded M ok t

/-- States reached by any run. -/
def Reachable (M : Machine σ α) : σ → Prop := M.Guarded fun _ _ => True

/-- Continuations of a run, again with every step meeting `ok`. -/
def Steps (M : Machine σ α) (ok : σ → α → Prop) : σ → σ → Prop :=
  Relation.ReflTransGen fun s t => ∃ a, ok s a ∧ M.step s a = some t

theorem Guarded.mono (h : M.Guarded ok s) (weaker : ∀ s a, ok s a → ok' s a) :
    M.Guarded ok' s := by
  induction h with
  | init h => exact .init h
  | step a _ hok hs ih => exact .step a ih (weaker _ _ hok) hs

theorem Guarded.reachable (h : M.Guarded ok s) : M.Reachable s :=
  h.mono fun _ _ _ => trivial

/-- An invariant of a guarded run: true initially and kept by every step that the
guard allows, in a state the run has reached. -/
theorem Guarded.invariant {P : σ → Prop} (h : M.Guarded ok s)
    (start : ∀ s, M.init s → P s)
    (keep : ∀ s a t, M.Guarded ok s → P s → ok s a → M.step s a = some t → P t) : P s := by
  induction h with
  | init h => exact start _ h
  | step a hs hok hst ih => exact keep _ a _ hs ih hok hst

theorem Guarded.steps (h : M.Guarded ok s) (hs : M.Steps ok s t) : M.Guarded ok t := by
  induction hs with
  | refl => exact h
  | tail _ last ih =>
    obtain ⟨a, hok, hstep⟩ := last
    exact .step a ih hok hstep

/-- A relation between the two ends of a continuation, from one step. -/
theorem Steps.invariant {R : σ → σ → Prop} (h : M.Steps ok s t) (hs : M.Guarded ok s)
    (refl : ∀ s, R s s) (trans : ∀ s t u, R s t → R t u → R s u)
    (keep : ∀ s a t, M.Guarded ok s → ok s a → M.step s a = some t → R s t) :
    R s t := by
  induction h with
  | refl => exact refl s
  | tail before last ih =>
    obtain ⟨a, hok, hstep⟩ := last
    exact trans _ _ _ ih (keep _ a _ (hs.steps before) hok hstep)

/-- Where every state short of `Q` has a step that lowers a rank or comes to `Q`, some
continuation comes to `Q`. -/
theorem Steps.by_rank {P : Nat → σ → Prop} {Q : σ → Prop} {n : Nat} (h : P n s)
    (next : ∀ n s, P n s → Q s ∨ ∃ a t, ok s a ∧ M.step s a = some t ∧ (Q t ∨ ∃ m < n, P m t)) :
    ∃ t, M.Steps ok s t ∧ Q t := by
  induction n using Nat.strongRecOn generalizing s with
  | _ n ih =>
    obtain here | ⟨a, t, hok, hst, there | ⟨m, lower, ht⟩⟩ := next n s h
    · exact ⟨s, .refl, here⟩
    · exact ⟨t, .single ⟨a, hok, hst⟩, there⟩
    · obtain ⟨u, steps, hu⟩ := ih m lower ht
      exact ⟨u, .head ⟨a, hok, hst⟩ steps, hu⟩

/-! ## Following a schedule -/

/-- The state after a schedule of actions; an action that is not enabled is skipped. -/
def follow (M : Machine σ α) (s : σ) (l : List α) : σ :=
  l.foldl (fun s a => (M.step s a).getD s) s

/-- A schedule whose actions meet the guard wherever `P` holds, and keep `P`, is a
guarded run. -/
theorem Guarded.follow_of {P : σ → Prop} (h : M.Guarded ok s) (hs : P s) (l : List α)
    (all : ∀ a ∈ l, ∀ s, P s → ok s a) (keep : ∀ a ∈ l, ∀ s t, P s → M.step s a = some t → P t) :
    M.Guarded ok (M.follow s l) := by
  induction l generalizing s with
  | nil => exact h
  | cons a l ih =>
    have first : M.Guarded ok ((M.step s a).getD s) ∧ P ((M.step s a).getD s) := by
      cases hst : M.step s a with
      | none => exact ⟨h, hs⟩
      | some t =>
        have mem : a ∈ a :: l := List.mem_cons_self
        exact ⟨.step a h (all a mem s hs) hst, keep a mem s t hs hst⟩
    exact ih first.1 first.2 (fun b hb => all b (List.mem_cons_of_mem a hb))
      fun b hb => keep b (List.mem_cons_of_mem a hb)

theorem Guarded.follow (h : M.Guarded ok s) (l : List α) (all : ∀ a ∈ l, ∀ s, ok s a) :
    M.Guarded ok (M.follow s l) :=
  h.follow_of (P := fun _ => True) trivial l (fun a ha s _ => all a ha s) fun _ _ _ _ _ _ => trivial

theorem Reachable.follow {l : List α} (h : M.init s) : M.Reachable (M.follow s l) :=
  Guarded.follow (.init h) l fun _ _ _ => trivial

theorem forall_follow_cons {P : σ → Prop} {a : α} {l : List α} :
    (∀ p, p <+: a :: l → P (M.follow s p)) ↔
      P s ∧ ∀ p, p <+: l → P (M.follow ((M.step s a).getD s) p) := by
  constructor
  · intro h
    refine ⟨h [] List.nil_prefix, fun p hp => ?_⟩
    exact h (a :: p) (List.cons_prefix_cons.mpr ⟨rfl, hp⟩)
  · intro h p hp
    obtain rfl | ⟨q, rfl, hq⟩ := List.prefix_cons_iff.mp hp
    · exact h.1
    · exact h.2 q hq

/-- Every action of the schedule meets the guard in the state it is tried in. -/
def Meets (M : Machine σ α) (ok : σ → α → Prop) : σ → List α → Prop
  | _, [] => True
  | s, a :: l => ok s a ∧ M.Meets ok ((M.step s a).getD s) l

instance Meets.decidable [∀ s a, Decidable (ok s a)] :
    ∀ (s : σ) (l : List α), Decidable (M.Meets ok s l)
  | _, [] => .isTrue trivial
  | s, a :: l => @instDecidableAnd _ _ _ (Meets.decidable ((M.step s a).getD s) l)

theorem steps_follow {l : List α} (hl : M.Meets ok s l) : M.Steps ok s (M.follow s l) := by
  induction l generalizing s with
  | nil => exact .refl
  | cons a l ih =>
    have rest : M.Steps ok ((M.step s a).getD s) (M.follow s (a :: l)) := ih hl.2
    cases hst : M.step s a with
    | none =>
      rw [hst] at rest
      exact rest
    | some t =>
      rw [hst] at rest
      exact .head ⟨a, hl.1, hst⟩ rest

theorem Guarded.follow_meets {l : List α} (h : M.Guarded ok s) (hl : M.Meets ok s l) :
    M.Guarded ok (M.follow s l) :=
  h.steps (steps_follow hl)

/-! ## Refinement -/

/-- Every guarded step of `M` is, seen through `abs`, a guarded step of `N` or no
step at all. `reach` may be used: the step starts in a state `M` has reached. -/
structure Refines (M : Machine σ α) (ok : σ → α → Prop) (N : Machine τ β)
    (ok' : τ → β → Prop) (abs : σ → τ) : Prop where
  init : ∀ s, M.init s → N.init (abs s)
  step : ∀ s a t, M.Guarded ok s → ok s a → M.step s a = some t →
    abs t = abs s ∨ ∃ b, ok' (abs s) b ∧ N.step (abs s) b = some (abs t)

variable {N : Machine τ β} {okN : τ → β → Prop} {abs : σ → τ}

theorem Refines.guarded (r : M.Refines ok N okN abs) (h : M.Guarded ok s) :
    N.Guarded okN (abs s) := by
  induction h with
  | init h => exact .init (r.init _ h)
  | step a hs hok hst ih =>
    obtain same | ⟨b, hb, hstep⟩ := r.step _ a _ hs hok hst
    · exact same ▸ ih
    · exact .step b ih hb hstep

end Machine

/-! ## Parties in a list -/

variable {π : Type u} {parties : List π} {i : Nat} {x : π}

/-- One party is replaced, and the others stay. -/
theorem getElem?_set_iff (hi : parties[i]? = some x) (y : π) (j : Nat) (z : π) :
    (parties.set i y)[j]? = some z ↔ j = i ∧ z = y ∨ j ≠ i ∧ parties[j]? = some z := by
  obtain ⟨hlt, -⟩ := List.getElem?_eq_some_iff.mp hi
  by_cases hj : j = i
  · simp [hj, hlt, eq_comm]
  · simp [hj, Ne.symm hj]

/-- One party is new. -/
theorem getElem?_concat_iff (parties : List π) (y : π) (j : Nat) (z : π) :
    (parties ++ [y])[j]? = some z ↔
      j = parties.length ∧ z = y ∨ j ≠ parties.length ∧ parties[j]? = some z := by
  grind

/-- A replaced party leaves the number of parties of a kind, but for its own kind. -/
theorem countP_set (p : π → Bool) (hi : parties[i]? = some x) (y : π) :
    (parties.set i y).countP p + (p x).toNat = parties.countP p + (p y).toNat := by
  induction parties generalizing i with
  | nil => simp at hi
  | cons z rest ih =>
    cases i with
    | zero =>
      obtain rfl : z = x := by simpa using hi
      simp only [List.set_cons_zero, List.countP_cons]
      cases p z <;> cases p y <;> simp
    | succ i =>
      have shorter := ih (by simpa using hi)
      simp only [List.set_cons_succ, List.countP_cons]
      omega

/-- Replacing a party replaces what it holds. -/
theorem filterMap_set_perm {β : Type v} (f : π → Option β) (hi : parties[i]? = some x) (y : π) :
    ((parties.set i y).filterMap f ++ (f x).toList).Perm
      (parties.filterMap f ++ (f y).toList) := by
  induction parties generalizing i with
  | nil => simp at hi
  | cons z rest ih =>
    cases i with
    | zero =>
      obtain rfl : z = x := by simpa using hi
      rw [List.set_cons_zero, ← List.singleton_append, List.filterMap_append,
        ← List.singleton_append (l := rest), List.filterMap_append]
      have alone : ∀ w, [w].filterMap f = (f w).toList := by
        intro w
        cases h : f w <;> simp [h]
      rw [alone, alone, List.append_assoc (f z).toList]
      exact List.perm_append_comm.trans (List.perm_append_comm.append_left _)
    | succ i =>
      have shorter := ih (by simpa using hi)
      rw [List.set_cons_succ]
      cases h : f z with
      | none => simpa [h] using shorter
      | some w => simpa [h] using shorter.cons w

end Perago.Transition
