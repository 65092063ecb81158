import Mathlib.Logic.Basic

/-!
# Procedures that raise and crash

A procedure changes a state and then returns, raises an exception, or dies with the
process it runs in. A handler and a finaliser see the first two ends only. `Ends`
says how one call ends, with a postcondition for each end.
-/

namespace Perago.Effect

inductive Outcome (ε α : Type) where
  | ok (a : α)
  | error (e : ε)
  | crashed

def Proc (ε σ α : Type) : Type := σ → Outcome ε α × σ

variable {ε σ τ α β : Type}

namespace Proc

protected def pure (a : α) : Proc ε σ α := fun s => (.ok a, s)

protected def bind (f : Proc ε σ α) (g : α → Proc ε σ β) : Proc ε σ β := fun s =>
  match f s with
  | (.ok a, t) => g a t
  | (.error e, t) => (.error e, t)
  | (.crashed, t) => (.crashed, t)

instance : Monad (Proc ε σ) where
  pure := Proc.pure
  bind := Proc.bind

def raise (e : ε) : Proc ε σ α := fun s => (.error e, s)

def ofExcept : Except ε α → Proc ε σ α
  | .ok a => pure a
  | .error e => raise e

def modify (f : σ → σ) : Proc ε σ Unit := fun s => (.ok (), f s)

def get (f : σ → α) : Proc ε σ α := fun s => (.ok (f s), s)

/-- `try: f` with a handler for every exception. -/
def tryExcept (f : Proc ε σ α) (handler : ε → Proc ε σ α) : Proc ε σ α := fun s =>
  match f s with
  | (.error e, t) => handler e t
  | done => done

/-- `try: f` with a finaliser; an exception of the finaliser replaces the end of `f`. -/
def tryFinally (f : Proc ε σ α) (finaliser : Proc ε σ Unit) : Proc ε σ α := fun s =>
  match f s with
  | (.crashed, t) => (.crashed, t)
  | (o, t) => match finaliser t with
    | (.ok (), u) => (o, u)
    | (.error e, u) => (.error e, u)
    | (.crashed, u) => (.crashed, u)

/-- A loop over a list. -/
def each (f : β → Proc ε σ Unit) : List β → Proc ε σ Unit
  | [] => pure ()
  | x :: xs => do
    f x
    each f xs

/-- A loop over a list that appends what some of its items give. -/
def gather (f : β → Proc ε σ (Option α)) : List β → Proc ε σ (List α)
  | [] => pure []
  | x :: xs => do
    let y ← f x
    let ys ← gather f xs
    return y.toList ++ ys

/-- A procedure on a part of a larger state. -/
def zoom (view : τ → σ) (update : σ → τ → τ) (f : Proc ε σ α) : Proc ε τ α := fun t =>
  let (o, s) := f (view t)
  (o, update s t)

end Proc

/-! ## How a call ends -/

variable {Q A : α → σ → Prop} {R : β → σ → Prop} {E D : ε → σ → Prop} {C B : σ → Prop}
variable {f : Proc ε σ α} {g : α → Proc ε σ β} {s : σ}

/-- One call ended, in its three ways: with a value, an exception, or the process. -/
def Ends (Q : α → σ → Prop) (E : ε → σ → Prop) (C : σ → Prop) : Outcome ε α × σ → Prop
  | (.ok a, s) => Q a s
  | (.error e, s) => E e s
  | (.crashed, s) => C s

/-- A postcondition on the state that holds however a call ends. -/
abbrev Always (I : σ → Prop) (call : Outcome ε α × σ) : Prop :=
  Ends (fun _ => I) (fun _ => I) I call

theorem always_iff {I : σ → Prop} {call : Outcome ε α × σ} : Always I call ↔ I call.2 := by
  obtain ⟨o, s⟩ := call
  cases o <;> rfl

/-- A sequence returns when both its parts do. -/
theorem Proc.bind_ok_iff {b : β} {t : σ} : (f >>= g) s = (.ok b, t) ↔
    ∃ a u, f s = (.ok a, u) ∧ g a u = (.ok b, t) := by
  change Proc.bind f g s = _ ↔ _
  unfold Proc.bind
  constructor
  · intro h
    split at h
    · rename_i a u hf
      exact ⟨a, u, hf, h⟩
    · cases h
    · cases h
  · rintro ⟨a, u, hf, hg⟩
    rw [hf]
    exact hg

theorem Proc.bind_of_ok {a : α} {t : σ} (h : f s = (.ok a, t)) : (f >>= g) s = g a t := by
  change Proc.bind f g s = _
  rw [Proc.bind, h]

theorem Proc.bind_of_error {e : ε} {t : σ} (h : f s = (.error e, t)) :
    (f >>= g) s = (.error e, t) := by
  change Proc.bind f g s = _
  rw [Proc.bind, h]

theorem Proc.ofExcept_ok_iff {x : Except ε α} {a : α} {t : σ} :
    Proc.ofExcept x s = (.ok a, t) ↔ x = .ok a ∧ t = s := by
  cases x with
  | ok b =>
    constructor
    · rintro ⟨⟩
      exact ⟨rfl, rfl⟩
    · rintro ⟨⟨⟩, rfl⟩
      rfl
  | error e => exact ⟨nofun, nofun⟩

theorem Proc.zoom_ok_iff {view : τ → σ} {update : σ → τ → τ} {a : α} {t u : τ} :
    Proc.zoom view update f t = (.ok a, u) ↔
      ∃ s, f (view t) = (.ok a, s) ∧ u = update s t := by
  unfold Proc.zoom
  generalize f (view t) = call
  obtain ⟨o, s⟩ := call
  constructor
  · rintro ⟨⟩
    exact ⟨s, rfl, rfl⟩
  · rintro ⟨s', ⟨⟩, rfl⟩
    rfl

theorem Proc.tryExcept_ok_iff {handler : ε → Proc ε σ α} {a : α} {t : σ} :
    f.tryExcept handler s = (.ok a, t) ↔
      f s = (.ok a, t) ∨ ∃ e u, f s = (.error e, u) ∧ handler e u = (.ok a, t) := by
  unfold Proc.tryExcept
  constructor
  · intro h
    split at h
    · rename_i e u hf
      exact .inr ⟨e, u, hf, h⟩
    · exact .inl h
  · rintro (hf | ⟨e, u, hf, hh⟩)
    · rw [hf]
    · rw [hf]
      exact hh

theorem Proc.tryFinally_ok_iff {finaliser : Proc ε σ Unit} {a : α} {t : σ} :
    f.tryFinally finaliser s = (.ok a, t) ↔
      ∃ u, f s = (.ok a, u) ∧ finaliser u = (.ok (), t) := by
  unfold Proc.tryFinally
  constructor
  · intro h
    split at h
    · cases h
    · rename_i o u _ hf
      split at h
      · rename_i v hlast
        cases h
        exact ⟨u, hf, hlast⟩
      · cases h
      · cases h
  · rintro ⟨u, hf, hlast⟩
    rw [hf]
    dsimp only
    rw [hlast]

namespace Ends

/-- Any call ends as it does. -/
theorem self : Ends (fun a t => f s = (.ok a, t)) (fun e t => f s = (.error e, t))
    (fun t => f s = (.crashed, t)) (f s) := by
  generalize f s = call
  obtain ⟨o, t⟩ := call
  cases o <;> rfl

theorem and {call : Outcome ε α × σ} (h : Ends Q E C call) (h' : Ends A D B call) :
    Ends (fun a s => Q a s ∧ A a s) (fun e s => E e s ∧ D e s) (fun s => C s ∧ B s) call := by
  obtain ⟨o, s⟩ := call
  cases o with
  | ok a => exact ⟨h, h'⟩
  | error e => exact ⟨h, h'⟩
  | crashed => exact ⟨h, h'⟩

theorem mono {call : Outcome ε α × σ} (h : Ends Q E C call) (hq : ∀ a s, Q a s → A a s)
    (he : ∀ e s, E e s → D e s) (hc : ∀ s, C s → B s) : Ends A D B call := by
  obtain ⟨o, s⟩ := call
  cases o with
  | ok a => exact hq a s h
  | error e => exact he e s h
  | crashed => exact hc s h

/-- A call that neither raises nor dies returns. -/
theorem returns {call : Outcome ε α × σ} (h : Ends Q (fun _ _ => False) (fun _ => False) call) :
    ∃ a t, call = (.ok a, t) ∧ Q a t := by
  obtain ⟨o, t⟩ := call
  cases o with
  | ok a => exact ⟨a, t, rfl, h⟩
  | error e => exact h.elim
  | crashed => exact h.elim

theorem pure {a : α} (h : Q a s) : Ends Q E C ((Pure.pure a : Proc ε σ α) s) := h

theorem raise {e : ε} (h : E e s) : Ends Q E C ((Proc.raise e : Proc ε σ α) s) := h

theorem bind (hf : Ends Q E C (f s)) (hg : ∀ a t, Q a t → Ends R E C (g a t)) :
    Ends R E C ((f >>= g) s) := by
  change Ends R E C (Proc.bind f g s)
  unfold Proc.bind
  generalize f s = call at hf
  obtain ⟨o, t⟩ := call
  cases o with
  | ok a => exact hg a t hf
  | error e => exact hf
  | crashed => exact hf

theorem ofExcept {x : Except ε α} (hok : ∀ a, x = .ok a → Q a s)
    (herror : ∀ e, x = .error e → E e s) : Ends Q E C (Proc.ofExcept x s) := by
  cases x with
  | ok a => exact hok a rfl
  | error e => exact herror e rfl

theorem tryExcept {handler : ε → Proc ε σ α} (hf : Ends Q D C (f s))
    (hh : ∀ e t, D e t → Ends Q E C (handler e t)) : Ends Q E C (f.tryExcept handler s) := by
  unfold Proc.tryExcept
  generalize f s = call at hf
  obtain ⟨o, t⟩ := call
  cases o with
  | ok a => exact hf
  | error e => exact hh e t hf
  | crashed => exact hf

theorem tryFinally {finaliser : Proc ε σ Unit} (hf : Ends A D C (f s))
    (hok : ∀ a t, A a t → Ends (fun _ => Q a) E C (finaliser t))
    (herror : ∀ e t, D e t → Ends (fun _ => E e) E C (finaliser t)) :
    Ends Q E C (f.tryFinally finaliser s) := by
  unfold Proc.tryFinally
  generalize f s = call at hf
  obtain ⟨o, t⟩ := call
  cases o with
  | ok a =>
    have last := hok a t hf
    dsimp only
    generalize finaliser t = call at last
    obtain ⟨o, u⟩ := call
    cases o <;> exact last
  | error e =>
    have last := herror e t hf
    dsimp only
    generalize finaliser t = call at last
    obtain ⟨o, u⟩ := call
    cases o <;> exact last
  | crashed => exact hf

/-- The loop rule: an invariant that every iteration keeps. -/
theorem each {I : σ → Prop} {body : β → Proc ε σ Unit} {xs : List β} (hs : I s)
    (step : ∀ x ∈ xs, ∀ t, I t → Ends (fun _ => I) E C (body x t)) :
    Ends (fun _ => I) E C (Proc.each body xs s) := by
  induction xs generalizing s with
  | nil => exact hs
  | cons x xs ih =>
    refine bind (step x List.mem_cons_self s hs) fun _ t ht => ?_
    exact ih ht fun y hy => step y (List.mem_cons_of_mem x hy)

theorem gather {I : σ → Prop} {body : β → Proc ε σ (Option α)} {xs : List β} (hs : I s)
    (step : ∀ x ∈ xs, ∀ t, I t → Ends (fun _ => I) E C (body x t)) :
    Ends (fun _ => I) E C (Proc.gather body xs s) := by
  induction xs generalizing s with
  | nil => exact hs
  | cons x xs ih =>
    refine bind (step x List.mem_cons_self s hs) fun y t ht => ?_
    refine bind (ih ht fun y hy => step y (List.mem_cons_of_mem x hy)) fun ys u hu => ?_
    exact hu

theorem zoom {view : τ → σ} {update : σ → τ → τ} {QT : α → τ → Prop} {ET : ε → τ → Prop}
    {CT : τ → Prop} {t : τ}
    (h : Ends (fun a s => QT a (update s t)) (fun e s => ET e (update s t))
      (fun s => CT (update s t)) (f (view t))) :
    Ends QT ET CT (Proc.zoom view update f t) := by
  unfold Proc.zoom
  generalize f (view t) = call at h
  obtain ⟨o, s⟩ := call
  cases o <;> exact h

end Ends

/-! ## Procedures that keep an invariant -/

/-- Every call keeps `I` and raises only exceptions of which `W` holds; where it dies,
`C` holds. -/
def Keeps (I : σ → Prop) (W : ε → Prop) (C : σ → Prop) (f : Proc ε σ α) : Prop :=
  ∀ s, I s → Ends (fun _ => I) (fun e t => W e ∧ I t) C (f s)

/-- Every call returns, or raises an exception of which `W` holds. -/
abbrev Survives (W : ε → Prop) (f : Proc ε σ α) : Prop :=
  Keeps (fun _ => True) W (fun _ => False) f

namespace Keeps

variable {I : σ → Prop} {W V : ε → Prop}

theorem mono (h : Keeps I V C f) (weaker : ∀ e, V e → W e) : Keeps I W C f :=
  fun s hs => (h s hs).mono (fun _ _ h => h) (fun e _ he => ⟨weaker e he.1, he.2⟩) fun _ h => h

theorem ends (hf : Keeps I W C f) (hs : I s) : Ends (fun _ => I) (fun _ => I) C (f s) :=
  (hf s hs).mono (fun _ _ h => h) (fun _ _ h => h.2) fun _ h => h

theorem pure {a : α} : Keeps I W C (Pure.pure a : Proc ε σ α) := fun _ hs => hs

theorem raise {e : ε} (h : W e) : Keeps I W C (Proc.raise e : Proc ε σ α) := fun _ hs => ⟨h, hs⟩

theorem bind (hf : Keeps I W C f) (hg : ∀ a, Keeps I W C (g a)) : Keeps I W C (f >>= g) :=
  fun s hs => (hf s hs).bind fun a t ht => hg a t ht

theorem map {g : α → β} (hf : Keeps I W C f) : Keeps I W C (g <$> f) :=
  hf.bind fun _ => pure

theorem ofExcept {x : Except ε α} (h : ∀ e, x = .error e → W e) :
    Keeps I W C (Proc.ofExcept x : Proc ε σ α) :=
  fun _ hs => .ofExcept (fun _ _ => hs) fun e he => ⟨h e he, hs⟩

theorem tryExcept {handler : ε → Proc ε σ α} (hf : Keeps I V C f)
    (hh : ∀ e, V e → Keeps I W C (handler e)) : Keeps I W C (f.tryExcept handler) :=
  fun s hs => (hf s hs).tryExcept fun e t he => hh e he.1 t he.2

theorem tryFinally {finaliser : Proc ε σ Unit} (hf : Keeps I W C f) (hh : Keeps I W C finaliser) :
    Keeps I W C (f.tryFinally finaliser) :=
  fun s hs => .tryFinally (hf s hs) (fun _ t ht => hh t ht) fun _ t ht =>
    (hh t ht.2).mono (fun _ _ h => ⟨ht.1, h⟩) (fun _ _ h => h) fun _ h => h

theorem each {body : β → Proc ε σ Unit} {xs : List β} (h : ∀ x, Keeps I W C (body x)) :
    Keeps I W C (Proc.each body xs) :=
  fun _ hs => .each hs fun x _ t ht => h x t ht

theorem gather {body : β → Proc ε σ (Option α)} {xs : List β} (h : ∀ x, Keeps I W C (body x)) :
    Keeps I W C (Proc.gather body xs) :=
  fun _ hs => .gather hs fun x _ t ht => h x t ht

end Keeps

end Perago.Effect
