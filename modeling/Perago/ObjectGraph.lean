import Perago.FailureOutput
import Mathlib.Data.List.Forall2
import Mathlib.Data.List.Infix

/-!
# Objects in memory

Dictionaries and lists are nodes with an address, so that they can be shared and changed;
every other object is taken as a value. `read` follows references down to a given depth,
and gives the tree that a finite structure unfolds to.
-/

namespace Perago

/-- An object that is neither a dictionary nor a list. `other` is an object of any class
but the five exact ones. -/
inductive Scalar where
  | none
  | bool (b : Bool)
  | int (i : Int)
  | float (isfinite : Bool) (repr : String)
  | str (s : String)
  | other (repr : String)
  deriving DecidableEq

def Scalar.value : Scalar → PyValue
  | .none => .none
  | .bool b => .bool b
  | .int i => .int i
  | .float isfinite repr => .float isfinite repr
  | .str s => .str s
  | .other repr => .other repr

inductive Ref where
  | scalar (x : Scalar)
  | node (address : Nat)
  deriving DecidableEq

/-- An instance of `dict` or of `list`, their subclasses included. -/
inductive Node where
  | dict (items : List (PyKey × Ref))
  | list (items : List Ref)
  deriving DecidableEq

namespace Node

def refs : Node → List Ref
  | dict items => items.map (·.2)
  | list items => items

/-- A plain node with the same keys over other references. -/
def withRefs : Node → List Ref → Node
  | dict items, refs => dict ((items.map (·.1)).zip refs)
  | list _, refs => list refs

/-- The tree over the trees of the references. -/
def value : Node → List PyValue → PyValue
  | dict items, values => .dict ((items.map (·.1)).zip values)
  | list _, values => .list values

/-- `all(isinstance(key, str) for key in value)`, for a dictionary. -/
def keysOk : Node → Bool
  | dict items => items.all (·.1.isStr)
  | list _ => true

variable {node : Node} {refs : List Ref} {values : List PyValue}

theorem refs_withRefs (h : refs.length = node.refs.length) : (node.withRefs refs).refs = refs := by
  cases node with
  | dict items =>
    have hlen : refs.length = items.length := by simpa [Node.refs] using h
    simp [Node.refs, withRefs, List.map_snd_zip, hlen]
  | list items => rfl

theorem value_withRefs (h : refs.length = node.refs.length) :
    (node.withRefs refs).value values = node.value values := by
  cases node with
  | dict items =>
    have hlen : refs.length = items.length := by simpa [Node.refs] using h
    simp [value, withRefs, List.map_fst_zip, hlen]
  | list items => rfl

end Node

/-- The containers in memory, by address. -/
abbrev Heap := List Node

namespace Heap

/-- The tree below a reference, if it is finite and not deeper than `n`. -/
def read (h : Heap) : Nat → Ref → Option PyValue
  | 0, _ => none
  | _ + 1, .scalar x => some x.value
  | n + 1, .node a => do
    let node ← h[a]?
    let values ← node.refs.mapM (h.read n)
    return node.value values

/-- Every node within `n` references satisfies `P`. -/
def Within (h : Heap) (P : Nat → Prop) : Nat → Ref → Prop
  | 0, _ => True
  | _ + 1, .scalar _ => True
  | n + 1, .node a => P a ∧ ∀ node, h[a]? = some node → ∀ ref ∈ node.refs, h.Within P n ref

variable {h h' : Heap} {P Q : Nat → Prop} {n m a : Nat} {ref : Ref} {refs : List Ref}
variable {v : PyValue} {values : List PyValue} {node : Node}

theorem read_node : h.read (n + 1) (.node a) = some v ↔
    ∃ node values, h[a]? = some node ∧ node.refs.mapM (h.read n) = some values ∧
      v = node.value values := by
  simp only [read, Option.bind_eq_bind, Option.bind_eq_some_iff, pure, Option.some.injEq]
  grind

/-- Reading references one after the other. -/
theorem mapM_eq_some_iff {f : Ref → Option PyValue} : refs.mapM f = some values ↔
    List.Forall₂ (fun ref v => f ref = some v) refs values := by
  induction refs generalizing values with
  | nil => simp [List.forall₂_nil_left_iff, eq_comm]
  | cons ref refs ih =>
    simp only [List.mapM_cons, List.forall₂_cons_left_iff, Option.bind_eq_bind,
      Option.bind_eq_some_iff, ih]
    simp [eq_comm]

theorem exists_of_mem {f : Ref → Option PyValue}
    (h : List.Forall₂ (fun ref v => f ref = some v) refs values) (href : ref ∈ refs) :
    ∃ v ∈ values, f ref = some v := by
  induction h with
  | nil => cases href
  | cons hv _ ih =>
    rw [List.mem_cons] at href
    obtain rfl | href := href
    · exact ⟨_, List.mem_cons_self, hv⟩
    · obtain ⟨v, hmem, hv⟩ := ih href
      exact ⟨v, List.mem_cons_of_mem _ hmem, hv⟩

theorem exists_read_of_mem {f : Ref → Option PyValue}
    (h : List.Forall₂ (fun ref v => f ref = some v) refs values) (hv : v ∈ values) :
    ∃ ref ∈ refs, f ref = some v := by
  induction h with
  | nil => cases hv
  | cons hfirst _ ih =>
    rw [List.mem_cons] at hv
    obtain rfl | hv := hv
    · exact ⟨_, List.mem_cons_self, hfirst⟩
    · obtain ⟨ref, href, hread⟩ := ih hv
      exact ⟨ref, List.mem_cons_of_mem _ href, hread⟩

theorem mapM_congr {f g : Ref → Option PyValue} (h : ∀ ref ∈ refs, f ref = g ref) :
    refs.mapM f = refs.mapM g := by
  induction refs with
  | nil => rfl
  | cons ref refs ih =>
    rw [List.forall_mem_cons] at h
    simp [h.1, ih h.2]

/-! ## Other heaps -/

/-- Reading looks at the nodes within reach only. -/
theorem read_congr (same : ∀ a, P a → h'[a]? = h[a]?) (within : h.Within P n ref) :
    h'.read n ref = h.read n ref := by
  induction n generalizing ref with
  | zero => rfl
  | succ n ih =>
    cases ref with
    | scalar x => rfl
    | node a =>
      obtain ⟨ha, below⟩ := within
      simp only [read, same a ha]
      cases hnode : h[a]? with
      | none => rfl
      | some node =>
        have all : node.refs.mapM (h'.read n) = node.refs.mapM (h.read n) :=
          mapM_congr fun ref href => ih (below node hnode ref href)
        simp [all]

theorem within_congr (same : ∀ a, P a → h'[a]? = h[a]?) (within : h.Within P n ref) :
    h'.Within P n ref := by
  induction n generalizing ref with
  | zero => trivial
  | succ n ih =>
    cases ref with
    | scalar x => trivial
    | node a =>
      obtain ⟨ha, below⟩ := within
      refine ⟨ha, fun node hnode ref href => ih (below node ?_ ref href)⟩
      rwa [same a ha] at hnode

theorem Within.mono (within : h.Within P n ref) (weaker : ∀ a, P a → Q a) : h.Within Q n ref := by
  induction n generalizing ref with
  | zero => trivial
  | succ n ih =>
    cases ref with
    | scalar x => trivial
    | node a =>
      obtain ⟨ha, below⟩ := within
      exact ⟨weaker a ha, fun node hnode ref href => ih (below node hnode ref href)⟩

/-- What can be read lies in the heap. -/
theorem Within.and_read (within : h.Within P n ref) (hread : h.read n ref = some v) :
    h.Within (fun a => P a ∧ a < h.length) n ref := by
  induction n generalizing ref v with
  | zero => trivial
  | succ n ih =>
    cases ref with
    | scalar x => trivial
    | node a =>
      obtain ⟨ha, below⟩ := within
      obtain ⟨node, values, hnode, hvalues, -⟩ := read_node.mp hread
      refine ⟨⟨ha, (List.getElem?_eq_some_iff.mp hnode).1⟩, fun node' hnode' ref href => ?_⟩
      obtain rfl : node = node' := by simpa [hnode] using hnode'
      obtain ⟨v, -, hv⟩ := exists_of_mem (mapM_eq_some_iff.mp hvalues) href
      exact ih (below node hnode ref href) hv

theorem within_true : h.Within (fun _ => True) n ref := by
  induction n generalizing ref with
  | zero => trivial
  | succ n ih =>
    cases ref with
    | scalar x => trivial
    | node a => exact ⟨trivial, fun _ _ _ _ => ih⟩

theorem within_of_read (hread : h.read n ref = some v) : h.Within (· < h.length) n ref :=
  (within_true.and_read hread).mono fun _ ha => ha.2

/-- A heap that has grown. -/
theorem read_of_grown (grown : h <+: h') (hread : h.read n ref = some v) :
    h'.read n ref = some v := by
  rw [← hread]
  refine read_congr (P := (· < h.length)) (fun a ha => ?_) (within_of_read hread)
  obtain ⟨rest, rfl⟩ := grown
  exact List.getElem?_append_left ha

theorem readAll_of_grown (grown : h <+: h') (hread : refs.mapM (h.read n) = some values) :
    refs.mapM (h'.read n) = some values := by
  rw [mapM_eq_some_iff] at hread ⊢
  exact hread.imp fun ref v hv => read_of_grown grown hv

theorem Within.of_grown (grown : h <+: h') (within : h.Within P n ref)
    (bound : ∀ a, P a → a < h.length) : h'.Within P n ref := by
  refine within_congr (fun a ha => ?_) within
  obtain ⟨rest, rfl⟩ := grown
  exact List.getElem?_append_left (bound a ha)

end Heap

end Perago
