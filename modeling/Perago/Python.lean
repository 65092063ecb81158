import Mathlib.Data.List.Basic
import Mathlib.Data.String.Basic

/-!
# Python values, exceptions and strings

The part of the language and its standard library that the modelled functions
use. An exception keeps what the runtime reads of it: its class for
`isinstance`, the text of `str(exc)`, and the attributes that
`TaskExecutionError.__init__` sets.
-/

namespace Perago

/-! ## Values -/

/-- A dictionary key: a string, or any other hashable object. -/
inductive PyKey where
  | str (s : String)
  | other (repr : String)
  deriving DecidableEq

/-- `float` keeps `math.isfinite`; `other` is any object that is not a JSON value. -/
inductive PyValue where
  | none
  | bool (b : Bool)
  | int (i : Int)
  | float (isfinite : Bool) (repr : String)
  | str (s : String)
  | list (items : List PyValue)
  | dict (items : List (PyKey × PyValue))
  | other (repr : String)

/-- `value.get(key)` on a dictionary with string keys. -/
def PyValue.get? : PyValue → String → Option PyValue
  | .dict items, key => items.lookup (.str key)
  | _, _ => .none

/-! ## Exceptions -/

inductive ExceptionClass where
  | taskTerminalError
  | taskFailed
  | preGuardrailViolation
  | postGuardrailViolation
  | guardrailViolation
  | taskInputError
  | taskDefinitionError
  | staleAttemptError
  | publishFenceError
  | validationError
  | typeError
  | valueError
  | attributeError
  | osError
  | fileExistsError
  | fileNotFoundError
  | other (name : String)
  deriving DecidableEq

/-- `isinstance(exc, OSError)`. -/
def ExceptionClass.isOSError : ExceptionClass → Bool
  | .osError | .fileExistsError | .fileNotFoundError => true
  | _ => false

/-- `isinstance(exc, GuardrailViolation)`. -/
def ExceptionClass.isGuardrailViolation : ExceptionClass → Bool
  | .guardrailViolation | .preGuardrailViolation | .postGuardrailViolation => true
  | _ => false

/-- `text` is `str(exc)`, absent when `__str__` raises. On a task exception `reason` is
`str(exc.reason)`, absent when it raises or when one of the attributes `reason` and
`output_data` cannot be read, as where the base constructor was not called.
`outputPickles` says whether `pickle` can write `output_data`: not if a key or a container
in it has a class that cannot be imported, or if it is nested too deeply. -/
structure PyException where
  cls : ExceptionClass
  text : Option String
  reason : Option String := none
  outputData : Option PyValue := none
  outputPickles : Bool := true

/-- An exception whose `str` is the given text. -/
def PyException.mk' (cls : ExceptionClass) (text : String) : PyException :=
  { cls := cls, text := some text }

theorem error_of_bind {ε α β : Type} {x : Except ε α} {f : α → Except ε β} {e : ε}
    (h : x >>= f = .error e) : x = .error e ∨ ∃ a, x = .ok a ∧ f a = .error e := by
  cases x with
  | error e' => exact .inl (congrArg _ (Except.error.inj h))
  | ok a => exact .inr ⟨a, rfl, h⟩

theorem ok_of_bind {ε α β : Type} {x : Except ε α} {f : α → Except ε β} {b : β}
    (h : x >>= f = .ok b) : ∃ a, x = .ok a ∧ f a = .ok b := by
  cases x with
  | error e => cases h
  | ok a => exact ⟨a, rfl, h⟩

theorem ok_of_map {ε α β : Type} {x : Except ε α} {f : α → β} {b : β} (h : f <$> x = .ok b) :
    ∃ a, x = .ok a ∧ f a = b := by
  cases x with
  | error e => cases h
  | ok a => exact ⟨a, rfl, Except.ok.inj h⟩

theorem error_of_map {ε α β : Type} {x : Except ε α} {f : α → β} {e : ε}
    (h : f <$> x = .error e) : x = .error e := by
  cases x with
  | error e' => exact congrArg _ (Except.error.inj h)
  | ok a => cases h

/-! ## Strings

A `str` is a list of code points, lone surrogates included: the names of a file
system need them. Texts of messages, which are never taken apart, are `String`s. -/

abbrev CodePoint := Fin 0x110000

abbrev Text := List CodePoint

instance CodePoint.neZero : @NeZero Nat Zero.ofOfNat0 0x110000 := ⟨by decide⟩
instance CodePoint.lawfulBEq : LawfulBEq CodePoint := inferInstance
instance Text.lawfulBEq : LawfulBEq Text := inferInstance
instance Text.list_lawfulBEq : LawfulBEq (List Text) := inferInstance

/-- A literal. -/
def text (s : String) : Text := s.toList.map fun c => Fin.ofNat 0x110000 c.toNat

/-- A text in a message; a lone surrogate cannot stand in a `String`. -/
def Text.render (t : Text) : String := String.ofList (t.map fun c => Char.ofNat c)

/-- `str.isspace` for one code point, the set that `str.strip()` removes. -/
def isspace (c : CodePoint) : Bool :=
  let n := c.val
  (0x09 ≤ n && n ≤ 0x0D) || (0x1C ≤ n && n ≤ 0x20) || n == 0x85 || n == 0xA0 || n == 0x1680 ||
    (0x2000 ≤ n && n ≤ 0x200A) || n == 0x2028 || n == 0x2029 || n == 0x202F || n == 0x205F ||
    n == 0x3000

/-- `t.strip()`. -/
def strip (t : Text) : Text :=
  ((t.dropWhile isspace).reverse.dropWhile isspace).reverse

/-- `text[:length]`. -/
def truncate (text : String) (length : Nat) : String :=
  String.ofList (text.toList.take length)

theorem mem_of_mem_strip {t : Text} {c : CodePoint} (h : c ∈ strip t) : c ∈ t := by
  simp only [strip, List.mem_reverse] at h
  exact (List.dropWhile_sublist _).subset
    (List.mem_reverse.mp ((List.dropWhile_sublist _).subset h))

/-! ## Loops that append -/

/-- `for x in xs: ...` around an `append` that some items skip; the first exception
ends the loop. -/
def collect {ε α β : Type} (f : α → Except ε (Option β)) : List α → Except ε (List β)
  | [] => .ok []
  | x :: xs => match f x with
    | .error e => .error e
    | .ok y => match collect f xs with
      | .error e => .error e
      | .ok ys => .ok (y.toList ++ ys)

variable {ε α β : Type} {f : α → Except ε (Option β)}

theorem collect_ok {g : α → Option β} {xs : List α} (h : ∀ x ∈ xs, f x = .ok (g x)) :
    collect f xs = .ok (xs.filterMap g) := by
  induction xs with
  | nil => rfl
  | cons x xs ih =>
    rw [collect, h x List.mem_cons_self, ih fun y hy => h y (List.mem_cons_of_mem x hy)]
    cases hg : g x <;> simp [hg]

theorem ok_of_collect {xs : List α} {ys : List β} (h : collect f xs = .ok ys) :
    ∀ x ∈ xs, ∃ y, f x = .ok y := by
  induction xs generalizing ys with
  | nil => simp
  | cons x xs ih =>
    rw [collect] at h
    split at h
    · cases h
    · rename_i y hy
      split at h
      · cases h
      · rename_i rest hrest
        intro z hz
        obtain rfl | hz := List.mem_cons.mp hz
        · exact ⟨y, hy⟩
        · exact ih hrest z hz

/-- A loop that ends appends what each of its items gives. -/
theorem filterMap_of_collect {xs : List α} {ys : List β} (h : collect f xs = .ok ys) :
    ys = xs.filterMap fun x => (f x).toOption.join := by
  have all : collect f xs = .ok (xs.filterMap fun x => (f x).toOption.join) := by
    refine collect_ok fun x hx => ?_
    obtain ⟨y, hy⟩ := ok_of_collect h x hx
    simp [hy, Except.toOption]
  exact Except.ok.inj (h.symm.trans all)

theorem mem_of_collect {xs : List α} {ys : List β} (h : collect f xs = .ok ys) {y : β} :
    y ∈ ys ↔ ∃ x ∈ xs, f x = .ok (some y) := by
  rw [filterMap_of_collect h, List.mem_filterMap]
  refine exists_congr fun x => and_congr_right fun _ => ?_
  cases f x <;> simp [Except.toOption]

/-- Mapping what the loop gives is mapping what it appends. -/
theorem collect_map {γ : Type} (g : β → γ) (xs : List α) :
    (collect f xs).map (List.map g) = collect (fun x => (f x).map (Option.map g)) xs := by
  induction xs with
  | nil => rfl
  | cons x xs ih =>
    rw [collect, collect, ← ih]
    cases f x with
    | error e => rfl
    | ok y => cases collect f xs <;> cases y <;> rfl

end Perago
