import Perago.Effect.Process

/-!
# Procedures that end alike

Two procedures on two states agree when, from related states, they end in the same way
in related states. What only one of them does goes unseen when it returns and leaves the
states related.
-/

namespace Perago.Effect

variable {ε σ τ σ' τ' α β : Type} {R : σ → τ → Prop}

/-- The same end, in related states. -/
structure Alike (R : σ → τ → Prop) (call : Outcome ε α × σ) (call' : Outcome ε α × τ) : Prop where
  outcome : call.1 = call'.1
  state : R call.2 call'.2

def Agree (R : σ → τ → Prop) (f : Proc ε σ α) (g : Proc ε τ α) : Prop :=
  ∀ s t, R s t → Alike R (f s) (g t)

/-- A call that returns `a`, with nothing that the other side sees. -/
def Unseen (R : σ → τ → Prop) (a : α) (t : τ) (call : Outcome ε α × σ) : Prop :=
  ∃ u, call = (.ok a, u) ∧ R u t

namespace Alike

variable {f : Proc ε σ α} {g : Proc ε τ α} {k : α → Proc ε σ β} {l : α → Proc ε τ β}
variable {s : σ} {t : τ}

theorem of_ok {call : Outcome ε α × σ} {a : α} (h : Alike R call (.ok a, t)) :
    Unseen R a t call :=
  ⟨call.2, Prod.ext h.outcome rfl, h.state⟩

theorem bind (h : Alike R (f s) (g t))
    (rest : ∀ a u v, f s = (.ok a, u) → g t = (.ok a, v) → R u v → Alike R (k a u) (l a v)) :
    Alike R ((f >>= k) s) ((g >>= l) t) := by
  change Alike R (Proc.bind f k s) (Proc.bind g l t)
  unfold Proc.bind
  generalize hf : f s = call at h rest
  generalize hg : g t = call' at h rest
  obtain ⟨o, u⟩ := call
  obtain ⟨o', v⟩ := call'
  obtain rfl : o = o' := h.outcome
  cases o with
  | ok a => exact rest a u v rfl rfl h.state
  | error e => exact ⟨rfl, h.state⟩
  | crashed => exact ⟨rfl, h.state⟩

/-- Only the left side goes on, unseen, with the value that it has. -/
theorem then_unseen {k : α → Proc ε σ α} (h : Alike R (f s) (g t))
    (rest : ∀ a u v, g t = (.ok a, v) → R u v → Unseen R a v (k a u)) :
    Alike R ((f >>= k) s) (g t) := by
  change Alike R (Proc.bind f k s) (g t)
  unfold Proc.bind
  generalize f s = call at h
  generalize hg : g t = call' at h rest
  obtain ⟨o, u⟩ := call
  obtain ⟨o', v⟩ := call'
  obtain rfl : o = o' := h.outcome
  cases o with
  | ok a =>
    obtain ⟨w, hk, hw⟩ := rest a u v rfl h.state
    dsimp only
    rw [hk]
    exact ⟨rfl, hw⟩
  | error e => exact ⟨rfl, h.state⟩
  | crashed => exact ⟨rfl, h.state⟩

/-- Only the left side begins, unseen. -/
theorem unseen_then {f : Proc ε σ β} {k : β → Proc ε σ α} {b : β} (h : Unseen R b t (f s))
    (rest : ∀ u, R u t → Alike R (k b u) (g t)) : Alike R ((f >>= k) s) (g t) := by
  obtain ⟨u, hf, hu⟩ := h
  rw [Proc.bind_of_ok hf]
  exact rest u hu

/-- Only the left side has a finaliser, unseen. -/
theorem finally_unseen {finaliser : Proc ε σ Unit} (h : Alike R (f s) (g t))
    (last : ∀ u v, R u v → Unseen R () v (finaliser u)) :
    Alike R (f.tryFinally finaliser s) (g t) := by
  unfold Proc.tryFinally
  generalize f s = call at h
  generalize g t = call' at h
  obtain ⟨o, u⟩ := call
  obtain ⟨o', v⟩ := call'
  obtain rfl : o = o' := h.outcome
  obtain ⟨w, hlast, hw⟩ := last u v h.state
  cases o with
  | ok a | error e =>
    dsimp only
    rw [hlast]
    exact ⟨rfl, hw⟩
  | crashed => exact ⟨rfl, h.state⟩

end Alike

theorem Unseen.bind {f : Proc ε σ β} {k : β → Proc ε σ α} {b : β} {a : α} {s : σ} {t : τ}
    (h : Unseen R b t (f s)) (rest : ∀ u, R u t → Unseen R a t (k b u)) :
    Unseen R a t ((f >>= k) s) := by
  obtain ⟨u, hf, hu⟩ := h
  rw [Proc.bind_of_ok hf]
  exact rest u hu

namespace Agree

variable {f : Proc ε σ α} {g : Proc ε τ α} {k : α → Proc ε σ β} {l : α → Proc ε τ β}

theorem pure {a : α} : Agree R (Pure.pure a : Proc ε σ α) (Pure.pure a) :=
  fun _ _ h => ⟨rfl, h⟩

theorem raise {e : ε} : Agree R (Proc.raise e : Proc ε σ α) (Proc.raise e) :=
  fun _ _ h => ⟨rfl, h⟩

theorem ofExcept {x : Except ε α} : Agree R (Proc.ofExcept x) (Proc.ofExcept x) := by
  cases x with
  | ok a => exact pure
  | error e => exact raise

theorem modify {m : σ → σ} {n : τ → τ} (h : ∀ s t, R s t → R (m s) (n t)) :
    Agree R (Proc.modify m : Proc ε σ Unit) (Proc.modify n) :=
  fun s t hst => ⟨rfl, h s t hst⟩

theorem get {m : σ → α} {n : τ → α} (h : ∀ s t, R s t → m s = n t) :
    Agree R (Proc.get m : Proc ε σ α) (Proc.get n) :=
  fun s t hst => ⟨congrArg _ (h s t hst), hst⟩

theorem bind (hf : Agree R f g) (hk : ∀ a, Agree R (k a) (l a)) :
    Agree R (f >>= k) (g >>= l) :=
  fun s t h => (hf s t h).bind fun a u v _ _ huv => hk a u v huv

theorem map {m : α → β} (hf : Agree R f g) : Agree R (m <$> f) (m <$> g) :=
  hf.bind fun _ => pure

theorem tryExcept {handler : ε → Proc ε σ α} {handler' : ε → Proc ε τ α} (hf : Agree R f g)
    (hh : ∀ e, Agree R (handler e) (handler' e)) :
    Agree R (f.tryExcept handler) (g.tryExcept handler') := by
  intro s t hst
  have h := hf s t hst
  unfold Proc.tryExcept
  generalize f s = call at h
  generalize g t = call' at h
  obtain ⟨o, u⟩ := call
  obtain ⟨o', v⟩ := call'
  obtain rfl : o = o' := h.outcome
  cases o with
  | ok a => exact h
  | error e => exact hh e u v h.state
  | crashed => exact h

theorem tryFinally {last : Proc ε σ Unit} {last' : Proc ε τ Unit} (hf : Agree R f g)
    (hh : Agree R last last') : Agree R (f.tryFinally last) (g.tryFinally last') := by
  intro s t hst
  have h := hf s t hst
  unfold Proc.tryFinally
  generalize f s = call at h
  generalize g t = call' at h
  obtain ⟨o, u⟩ := call
  obtain ⟨o', v⟩ := call'
  obtain rfl : o = o' := h.outcome
  have end' := hh u v h.state
  cases o with
  | ok a | error e =>
    dsimp only
    generalize last u = call at end'
    generalize last' v = call' at end'
    obtain ⟨o, x⟩ := call
    obtain ⟨o', y⟩ := call'
    obtain rfl : o = o' := end'.outcome
    cases o <;> exact ⟨rfl, end'.state⟩
  | crashed => exact h

theorem each {body : β → Proc ε σ Unit} {body' : β → Proc ε τ Unit} {xs : List β}
    (h : ∀ x, Agree R (body x) (body' x)) : Agree R (Proc.each body xs) (Proc.each body' xs) := by
  induction xs with
  | nil => exact pure
  | cons x xs ih => exact (h x).bind fun _ => ih

theorem gather {body : β → Proc ε σ (Option α)} {body' : β → Proc ε τ (Option α)} {xs : List β}
    (h : ∀ x, Agree R (body x) (body' x)) :
    Agree R (Proc.gather body xs) (Proc.gather body' xs) := by
  induction xs with
  | nil => exact pure
  | cons x xs ih => exact (h x).bind fun _ => ih.bind fun _ => pure

/-- Agreement on parts of two states is agreement on the whole. -/
theorem zoom {P : σ' → τ' → Prop} {view : σ' → σ} {update : σ → σ' → σ'} {view' : τ' → τ}
    {update' : τ → τ' → τ'} (hf : Agree R f g) (down : ∀ s t, P s t → R (view s) (view' t))
    (up : ∀ s t u v, P s t → R u v → P (update u s) (update' v t)) :
    Agree P (Proc.zoom view update f) (Proc.zoom view' update' g) :=
  fun s t h => ⟨(hf _ _ (down s t h)).outcome, up s t _ _ h (hf _ _ (down s t h)).state⟩

end Agree

end Perago.Effect
