import Mathlib.Algebra.BigOperators.Group.Finset.Basic
import Mathlib.Data.Fintype.Basic
import Mathlib.Logic.Relation

/-!
# Traversals with a stack

The loop that takes the top of a stack, skips it when it was visited before, and
otherwise visits it and pushes its successors. Over a finite type it ends, having
visited exactly what is reachable, everything once.
-/

namespace Perago.Traversal

universe u

/-- What is still to be visited, with the top of the stack first, and what was visited,
in order. -/
structure Worklist (α : Type u) where
  pending : List α
  visited : List α

variable {α : Type u} (next : α → List α)

def Reaches : α → α → Prop := Relation.ReflTransGen fun x y => y ∈ next x

/-- The successors of what was visited are visited or pending, and everything met so far is
reachable. -/
structure Explored (start : α) (w : Worklist α) : Prop where
  nodup : w.visited.Nodup
  started : start ∈ w.visited ∨ start ∈ w.pending
  closed : ∀ x ∈ w.visited, ∀ y ∈ next x, y ∈ w.visited ∨ y ∈ w.pending
  reached : ∀ x, x ∈ w.visited ∨ x ∈ w.pending → Reaches next start x

variable {next} {w w' : Worklist α} {start : α} {visited : List α}

theorem Explored.init : Explored next start ⟨[start], []⟩ where
  nodup := List.nodup_nil
  started := .inr (List.mem_singleton.mpr rfl)
  closed := by simp
  reached := by
    intro x hx
    obtain rfl : x = start := by simpa using hx
    exact .refl

/-- Once the stack is empty the visited elements are closed under successors. -/
theorem Explored.mem_iff (h : Explored next start ⟨[], visited⟩) {x : α} :
    x ∈ visited ↔ Reaches next start x := by
  constructor
  · intro hx
    exact h.reached x (.inl hx)
  · intro hx
    induction hx with
    | refl => simpa using h.started
    | tail _ hy ih => simpa using h.closed _ ih _ hy

/-! ## One turn -/

variable [DecidableEq α]

variable (next) in
/-- One turn of the loop; there is none once the stack is empty. The last of the successors
is on top afterwards. -/
def turn (w : Worklist α) : Option (Worklist α) :=
  match w.pending with
  | [] => none
  | x :: rest =>
    if x ∈ w.visited then some { w with pending := rest }
    else some { pending := (next x).reverse ++ rest, visited := w.visited ++ [x] }

theorem pending_of_turn_eq_none (h : turn next w = none) : w.pending = [] := by
  obtain ⟨pending, visited⟩ := w
  cases pending with
  | nil => rfl
  | cons x rest => by_cases hx : x ∈ visited <;> simp [turn, hx] at h

/-- A turn either skips the top of the stack or visits it. -/
theorem turn_cases (h : turn next w = some w') : ∃ x rest, w.pending = x :: rest ∧
    (x ∈ w.visited ∧ w' = ⟨rest, w.visited⟩ ∨
      x ∉ w.visited ∧ w' = ⟨(next x).reverse ++ rest, w.visited ++ [x]⟩) := by
  obtain ⟨pending, visited⟩ := w
  cases pending with
  | nil => simp [turn] at h
  | cons x rest =>
    refine ⟨x, rest, rfl, ?_⟩
    by_cases hx : x ∈ visited <;> simp_all [turn]

theorem Explored.turn (h : Explored next start w) (ht : turn next w = some w') :
    Explored next start w' := by
  obtain ⟨pending, visited⟩ := w
  obtain ⟨x, rest, rfl, ⟨hx, rfl⟩ | ⟨hx, rfl⟩⟩ := turn_cases ht
  · -- The top was visited before, so nothing is lost with it.
    have kept : ∀ y, y ∈ visited ∨ y ∈ x :: rest → y ∈ visited ∨ y ∈ rest := by grind
    exact { nodup := h.nodup
            started := kept _ h.started
            closed := fun z hz y hy => kept y (h.closed z hz y hy)
            reached := fun y hy => h.reached y (hy.imp_right (List.mem_cons_of_mem x)) }
  · have kept : ∀ y, y ∈ visited ∨ y ∈ x :: rest →
        y ∈ visited ++ [x] ∨ y ∈ (next x).reverse ++ rest := by grind
    have reachedTop : Reaches next start x := h.reached x (.inr List.mem_cons_self)
    refine { nodup := ?_, started := kept _ h.started, closed := ?_, reached := ?_ }
    · exact h.nodup.append (List.nodup_singleton x) (List.disjoint_singleton.mpr hx)
    · intro z hz y hy
      rcases List.mem_append.mp hz with hz | hz
      · exact kept y (h.closed z hz y hy)
      · obtain rfl := List.mem_singleton.mp hz
        exact .inr (List.mem_append_left _ (List.mem_reverse.mpr hy))
    · intro y hy
      have met : y ∈ visited ∨ y = x ∨ y ∈ next x ∨ y ∈ rest := by grind
      rcases met with hy | rfl | hy | hy
      · exact h.reached y (.inl hy)
      · exact reachedTop
      · exact reachedTop.tail hy
      · exact h.reached y (.inr (List.mem_cons_of_mem x hy))

/-! ## The loop -/

variable [Fintype α]

variable (next) in
/-- Every turn pays for itself: a visit pushes no more than the successors that no later
turn pushes again. -/
def potential (w : Worklist α) : Nat :=
  w.pending.length + ∑ x ∈ Finset.univ \ w.visited.toFinset, (next x).length

theorem potential_turn (ht : turn next w = some w') : potential next w' < potential next w := by
  obtain ⟨pending, visited⟩ := w
  obtain ⟨x, rest, rfl, ⟨hx, rfl⟩ | ⟨hx, rfl⟩⟩ := turn_cases ht
  · simp only [potential, List.length_cons]
    omega
  · have fresh : x ∈ Finset.univ \ visited.toFinset := by simpa using hx
    have erased : Finset.univ \ (visited ++ [x]).toFinset =
        (Finset.univ \ visited.toFinset).erase x := by
      ext y
      simp only [List.toFinset_append, Finset.mem_sdiff, Finset.mem_univ, Finset.mem_union,
        List.mem_toFinset, List.mem_singleton, Finset.mem_erase]
      tauto
    have paid := Finset.sum_erase_add _ (fun y => (next y).length) fresh
    simp only [potential, erased, List.length_append, List.length_reverse, List.length_cons]
    omega

/-- What the loop has visited when it ends. -/
def run {α : Type u} [DecidableEq α] [Fintype α] (next : α → List α) (w : Worklist α) : List α :=
  match _ : turn next w with
  | none => w.visited
  | some w' => run next w'
termination_by potential next w
decreasing_by exact potential_turn ‹_›

theorem Explored.run (h : Explored next start w) : Explored next start ⟨[], run next w⟩ := by
  fun_induction Traversal.run next w with
  | case1 w ht =>
    obtain ⟨pending, visited⟩ := w
    obtain rfl : pending = [] := pending_of_turn_eq_none ht
    exact h
  | case2 w w' ht ih => exact ih (h.turn ht)

theorem mem_run {x : α} : x ∈ run next ⟨[start], []⟩ ↔ Reaches next start x :=
  Explored.init.run.mem_iff

end Perago.Traversal
