import Perago.Config

/-!
# Reading a setting

A reader fails closed when what it returns is what was written and what it
raises is a `RuntimeConfigError`. The written unit is the letter that the pattern
of the reader takes for it. For each reader the texts on which it fails closed
are given exactly, and a configuration of such texts is loaded or refused.
-/

namespace Perago

/-! ## Failing closed -/

/-- What `x` returns is right, and what it raises is a `RuntimeConfigError`. -/
def FailsClosed {α : Type} (right : α → Prop) : Except PyException α → Prop
  | .ok a => right a
  | .error e => e.cls = .other "RuntimeConfigError"

variable {α β : Type}

@[simp] theorem failsClosed_ok {right : α → Prop} {a : α} :
    FailsClosed right (.ok a) ↔ right a := .rfl

@[simp] theorem failsClosed_error {right : α → Prop} {e : PyException} :
    FailsClosed right (.error e) ↔ e.cls = .other "RuntimeConfigError" := .rfl

@[simp] theorem runtimeConfigError_cls (message : String) :
    (runtimeConfigError message).cls = .other "RuntimeConfigError" := rfl

theorem FailsClosed.bind {right : α → Prop} {right' : β → Prop} {x : Except PyException α}
    {f : α → Except PyException β} (hx : FailsClosed right x)
    (hf : ∀ a, right a → FailsClosed right' (f a)) : FailsClosed right' (x >>= f) := by
  cases x with
  | error e => exact hx
  | ok a => exact hf a hx

theorem FailsClosed.mono {right right' : α → Prop} {x : Except PyException α}
    (hx : FailsClosed right x) (h : ∀ a, right a → right' a) : FailsClosed right' x := by
  cases x with
  | error e => exact hx
  | ok a => exact h a hx

/-- `x` raises a `RuntimeConfigError`. -/
def Refuses (x : Except PyException α) : Prop :=
  ∃ e, x = .error e ∧ e.cls = .other "RuntimeConfigError"

/-- `x` raises anything else. -/
def Escapes (x : Except PyException α) : Prop :=
  ∃ e, x = .error e ∧ e.cls ≠ .other "RuntimeConfigError"

@[simp] theorem refuses_ok {a : α} : ¬ Refuses (.ok a : Except PyException α) := nofun

@[simp] theorem refuses_error {e : PyException} :
    Refuses (.error e : Except PyException α) ↔ e.cls = .other "RuntimeConfigError" := by
  simp [Refuses]

@[simp] theorem escapes_ok {a : α} : ¬ Escapes (.ok a : Except PyException α) := nofun

@[simp] theorem escapes_error {e : PyException} :
    Escapes (.error e : Except PyException α) ↔ e.cls ≠ .other "RuntimeConfigError" := by
  simp [Escapes]

/-! ## Written units -/

/-- The factor of the unit whose letter the pattern takes `c` for. -/
def writtenUnit (units : List (Char × Nat)) (c : CodePoint) : Option Nat :=
  (units.find? fun unit => matchesLetter unit.1 c).map (·.2)

def durationUnits : List (Char × Nat) := [('s', 1), ('m', 60), ('h', 3600), ('d', 86400)]

def sizeUnits : List (Char × Nat) := [('k', 1024), ('m', 1024 ^ 2), ('g', 1024 ^ 3)]

/-- `ſ`, a case of s that `str.lower` leaves alone. -/
def longS : CodePoint := 0x17F

/-- A case of k that `str.upper` leaves alone. -/
def kelvinSign : CodePoint := 0x212A

/-- The product as an exact decimal number. -/
def SizeMatch.product (size : SizeMatch) (factor : Nat) : DecimalNumber :=
  { size.amount with coefficient := size.amount.coefficient * factor }

/-! ## What the readers are to return -/

/-- A blank setting reads as the default, any other as its amount times its unit. -/
def DurationRight (letters : List Char) (default : Nat) (value : Option Text) (seconds : Nat) :
    Prop :=
  match configured value with
  | none => seconds = default
  | some t => ∃ amount unit factor, matchAmount letters t = some (amount, unit) ∧
      writtenUnit durationUnits unit = some factor ∧
      seconds = digitsValue amount * factor ∧ 0 < seconds

/-- The number of bytes is rounded up to a whole one. -/
def SizeRight (value : Option Text) (bytes : Nat) : Prop :=
  match configured value with
  | none => bytes = defaultLogFileMaxSize
  | some t => ∃ size letter factor, matchSize t = some size ∧ size.unit.head? = some letter ∧
      writtenUnit sizeUnits letter = some factor ∧
      bytes = (size.product factor).coefficient ⌈/⌉ 10 ^ (size.product factor).scale ∧ 0 < bytes

def CountRight (default : α) (result : Nat → α) (value : Option Text) (a : α) : Prop :=
  match configured value with
  | none => a = default
  | some t => t.all isDigit ∧ 0 < digitsValue t ∧ a = result (digitsValue t)

def OptionalDurationRight (value : Option Text) (seconds : Option Nat) : Prop :=
  match configured value with
  | none => seconds = none
  | some _ => ∃ s, seconds = some s ∧ DurationRight ['s', 'm', 'h', 'd'] 1 value s

/-! ## What they can read -/

/-- `int` converts the amount, its unit is not written `ſ`, and a `timedelta` holds it. -/
def DurationReadable (letters : List Char) (value : Option Text) : Prop :=
  ∀ t amount unit, configured value = some t → matchAmount letters t = some (amount, unit) →
    unit ≠ longS ∧ amount.length ≤ maxStrDigits ∧
      ∀ factor, writtenUnit durationUnits unit = some factor →
        digitsValue amount * factor / 86400 ≤ 999999999

/-- The unit is not written with the Kelvin sign, and the product fits the decimal context
and keeps its number of whole bytes there. -/
def SizeReadable (value : Option Text) : Prop :=
  ∀ t size letter factor, configured value = some t → matchSize t = some size →
    size.unit.head? = some letter → writtenUnit sizeUnits letter = some factor →
    size.amount.coefficient ≠ 0 →
    letter ≠ kelvinSign ∧ defaultContext.Holds (size.product factor) ∧
      KeepsCeiling (size.product factor).coefficient
        (defaultContext.lastPlace (size.product factor)) (10 ^ (size.product factor).scale)

def CountReadable (value : Option Text) : Prop :=
  ∀ t, configured value = some t → t.all isDigit → t.length ≤ maxStrDigits

/-! ## What they refuse, and what else they raise -/

def DurationMalformed (letters : List Char) (value : Option Text) : Prop :=
  ∃ t, configured value = some t ∧ matchAmount letters t = none

/-- The amount is too long for `int`, or the product too large for a `timedelta`. A unit
written `ſ` is read as days. -/
def DurationEscapes (letters : List Char) (value : Option Text) : Prop :=
  ∃ t amount unit factor, configured value = some t ∧ matchAmount letters t = some (amount, unit) ∧
    writtenUnit durationUnits unit = some factor ∧
    (maxStrDigits < amount.length ∨
      999999999 < digitsValue amount * (if unit = longS then 86400 else factor) / 86400)

def SizeMalformed (value : Option Text) : Prop :=
  ∃ t, configured value = some t ∧ ∀ size, matchSize t = some size → size.amount.coefficient = 0

/-- The table lacks the unit, or the decimal context does not hold the product. -/
def SizeEscapes (value : Option Text) : Prop :=
  ∃ t size letter factor, configured value = some t ∧ matchSize t = some size ∧
    size.unit.head? = some letter ∧ writtenUnit sizeUnits letter = some factor ∧
    size.amount.coefficient ≠ 0 ∧
    (letter = kelvinSign ∨ ¬ defaultContext.Holds (size.product factor))

def CountMalformed (value : Option Text) : Prop :=
  ∃ t, configured value = some t ∧
    (t.all isDigit → t.length ≤ maxStrDigits ∧ digitsValue t = 0)

def CountEscapes (value : Option Text) : Prop :=
  ∃ t, configured value = some t ∧ t.all isDigit ∧ maxStrDigits < t.length

/-! ## Scanned texts -/

theorem digitsValue_pos {t : Text} (h : isPositiveNumeral t) : 0 < digitsValue t := by
  have grows : ∀ (n : Nat) (t : Text), n ≤ t.foldl (fun n c => 10 * n + (c.val - 0x30)) n := by
    intro n t
    induction t generalizing n with
    | nil => rfl
    | cons c t ih =>
      have := ih (10 * n + (c.val - 0x30))
      simp only [List.foldl_cons]
      omega
  cases t with
  | nil => simp [isPositiveNumeral] at h
  | cons c t =>
    simp only [isPositiveNumeral, isDigit, Bool.and_eq_true, decide_eq_true_eq, bne_iff_ne] at h
    have := grows (10 * 0 + (c.val - 0x30)) t
    simp only [digitsValue, List.foldl_cons]
    omega

theorem all_isDigit_of_numeral {t : Text} (h : isPositiveNumeral t) : t.all isDigit := by
  cases t <;> simp_all [isPositiveNumeral]

theorem not_isDigit_of_letter {letter : Char} {c : CodePoint} (hl : 0x60 < letter.toNat)
    (h : matchesLetter letter c) : isDigit c = false := by
  simp only [matchesLetter, isDigit, Bool.or_eq_true, Bool.and_eq_true, beq_iff_eq,
    Bool.and_eq_false_iff, decide_eq_false_iff_not] at *
  omega

theorem takeWhile_append_of_all {p : CodePoint → Bool} {s t : Text} (hs : s.all p)
    (ht : ∀ c ∈ t.head?, p c = false) :
    (s ++ t).takeWhile p = s ∧ (s ++ t).dropWhile p = t := by
  induction s with
  | nil => cases t <;> simp_all
  | cons c s ih => simp_all

/-- The texts of the pattern are a numeral followed by one of its letters. -/
theorem matchAmount_eq_some_iff {letters : List Char} (hl : ∀ l ∈ letters, 0x60 < l.toNat)
    {t amount : Text} {unit : CodePoint} :
    matchAmount letters t = some (amount, unit) ↔
      t = amount ++ [unit] ∧ isPositiveNumeral amount ∧ letters.any (matchesLetter · unit) := by
  constructor
  · intro h
    unfold matchAmount at h
    split at h
    · rename_i u hu
      split at h
      · rename_i hm
        obtain ⟨rfl, rfl⟩ := Prod.mk.inj (Option.some.inj h)
        refine ⟨?_, by simpa using hm⟩
        rw [← hu, List.takeWhile_append_dropWhile]
      · cases h
    · cases h
  · rintro ⟨rfl, hn, hu⟩
    obtain ⟨letter, hmem, hletter⟩ := List.any_eq_true.mp hu
    have parts := takeWhile_append_of_all (t := [unit]) (all_isDigit_of_numeral hn)
      (by simpa using not_isDigit_of_letter (hl letter hmem) hletter)
    simp [matchAmount, parts, hn, hu]

/-! ## Durations -/

theorem mem_of_writtenUnit {units : List (Char × Nat)} {c : CodePoint} {factor : Nat}
    (h : writtenUnit units c = some factor) :
    ∃ letter, (letter, factor) ∈ units ∧ matchesLetter letter c := by
  obtain ⟨unit, found, rfl⟩ := Option.map_eq_some_iff.mp h
  exact ⟨unit.1, List.mem_of_find?_eq_some found, by simpa using List.find?_some found⟩

theorem durationUnit_cases {c : CodePoint} {factor : Nat}
    (h : writtenUnit durationUnits c = some factor) :
    (c, factor) ∈ [(0x73, 1), (0x53, 1), (longS, 1), (0x6D, 60), (0x4D, 60), (0x68, 3600),
      (0x48, 3600), (0x64, 86400), (0x44, 86400)] := by
  obtain ⟨letter, hmem, hm⟩ := mem_of_writtenUnit h
  simp only [durationUnits, List.mem_cons, Prod.mk.injEq, List.not_mem_nil, or_false] at hmem
  obtain ⟨rfl, rfl⟩ | ⟨rfl, rfl⟩ | ⟨rfl, rfl⟩ | ⟨rfl, rfl⟩ := hmem <;>
    simp [matchesLetter] at hm <;> simp [Fin.ext_iff, longS] <;> omega

/-- A letter of the pattern has a unit. -/
theorem writtenUnit_of_letters {units : List (Char × Nat)} {c : CodePoint}
    (h : (units.map (·.1)).any (matchesLetter · c)) :
    ∃ factor, writtenUnit units c = some factor := by
  obtain ⟨letter, hmem, hletter⟩ := List.any_eq_true.mp h
  obtain ⟨unit, hunit, rfl⟩ := List.mem_map.mp hmem
  obtain ⟨found, hfound⟩ := Option.isSome_iff_exists.mp
    (List.find?_isSome.mpr ⟨unit, hunit, hletter⟩ :
      (units.find? fun unit => matchesLetter unit.1 c).isSome)
  exact ⟨found.2, by rw [writtenUnit, hfound]; rfl⟩

theorem timedelta_of_le {seconds : Nat} (h : seconds / 86400 ≤ 999999999) :
    timedelta seconds = .ok seconds := if_pos h

theorem timedelta_failsClosed {seconds : Nat} {right : Nat → Prop}
    (h : FailsClosed right (timedelta seconds)) :
    seconds / 86400 ≤ 999999999 ∧ right seconds := by
  unfold timedelta at h
  simp only at h
  split at h
  · exact ⟨‹_›, h⟩
  · split at h <;> simp [PyException.mk'] at h

/-- But for `ſ`, which ends in the last return, the unit is the one written. -/
theorem durationOf_lower {c : CodePoint} {factor : Nat} (amount : Nat)
    (h : writtenUnit durationUnits c = some factor) :
    durationOf amount (lower [c]) =
      timedelta (amount * if c = longS then 86400 else factor) := by
  have cases := durationUnit_cases h
  simp only [List.mem_cons, Prod.mk.injEq, List.not_mem_nil, or_false] at cases
  obtain ⟨rfl, rfl⟩ | ⟨rfl, rfl⟩ | ⟨rfl, rfl⟩ | ⟨rfl, rfl⟩ | ⟨rfl, rfl⟩ | ⟨rfl, rfl⟩ | ⟨rfl, rfl⟩ |
    ⟨rfl, rfl⟩ | ⟨rfl, rfl⟩ := cases <;> simp [durationOf, lower, longS, text]

section

variable {letters : List Char} {value : Option Text} {t amount : Text} {unit : CodePoint}
  {factor : Nat}

theorem durationRight_iff (default seconds : Nat) (ht : configured value = some t)
    (hm : matchAmount letters t = some (amount, unit))
    (hf : writtenUnit durationUnits unit = some factor) :
    DurationRight letters default value seconds ↔
      seconds = digitsValue amount * factor ∧ 0 < seconds := by
  simp only [DurationRight, ht, hm, Option.some.injEq, Prod.mk.injEq]
  constructor
  · rintro ⟨amount', unit', factor', ⟨rfl, rfl⟩, hf', h⟩
    obtain rfl := Option.some.inj (hf.symm.trans hf')
    exact h
  · intro h
    exact ⟨amount, unit, factor, ⟨rfl, rfl⟩, hf, h⟩

theorem durationReadable_iff (ht : configured value = some t)
    (hm : matchAmount letters t = some (amount, unit))
    (hf : writtenUnit durationUnits unit = some factor) :
    DurationReadable letters value ↔ unit ≠ longS ∧ amount.length ≤ maxStrDigits ∧
      digitsValue amount * factor / 86400 ≤ 999999999 := by
  simp only [DurationReadable, ht, Option.some.injEq]
  constructor
  · intro h
    simpa [hf] using h t amount unit rfl hm
  · rintro ⟨h1, h2, h3⟩ _ _ _ rfl hm'
    obtain ⟨rfl, rfl⟩ := Prod.mk.inj (Option.some.inj (hm.symm.trans hm'))
    exact ⟨h1, h2, by simpa [hf] using h3⟩

theorem durationReadable_of_refused (ht : configured value = some t)
    (hm : matchAmount letters t = none) : DurationReadable letters value := by
  intro t' amount unit ht' hm'
  obtain rfl := Option.some.inj (ht.symm.trans ht')
  rw [hm] at hm'
  cases hm'

/-- A reader that multiplies the amount by `read` fails closed when that is the written
factor, `int` takes the amount and a `timedelta` the product. -/
theorem amount_failsClosed_iff (default read : Nat) (ht : configured value = some t)
    (hm : matchAmount letters t = some (amount, unit)) (hn : isPositiveNumeral amount)
    (hf : writtenUnit durationUnits unit = some factor) (hfactor : 0 < factor) :
    FailsClosed (DurationRight letters default value)
        (int amount >>= fun amount => timedelta (amount * read)) ↔
      read = factor ∧ amount.length ≤ maxStrDigits ∧
        digitsValue amount * factor / 86400 ≤ 999999999 := by
  have positive := digitsValue_pos hn
  unfold int
  split
  · rename_i short
    change FailsClosed _ (timedelta (digitsValue amount * read)) ↔ _
    constructor
    · intro h
      obtain ⟨fits, right⟩ := timedelta_failsClosed h
      obtain ⟨same, -⟩ := (durationRight_iff default _ ht hm hf).mp right
      obtain rfl := Nat.eq_of_mul_eq_mul_left positive same
      exact ⟨rfl, short, fits⟩
    · rintro ⟨rfl, -, fits⟩
      rw [timedelta_of_le fits, failsClosed_ok, durationRight_iff default _ ht hm hf]
      exact ⟨rfl, Nat.mul_pos positive hfactor⟩
  · rename_i long
    simp [bind, Except.bind, PyException.mk', long]

end

theorem durationUnits_pos {c : CodePoint} {factor : Nat}
    (h : writtenUnit durationUnits c = some factor) : 0 < factor := by
  obtain ⟨letter, hmem, -⟩ := mem_of_writtenUnit h
  simp only [durationUnits, List.mem_cons, Prod.mk.injEq, List.not_mem_nil, or_false] at hmem
  omega

theorem parseDuration_failsClosed_iff (value : Option Text) (default : Nat) (name : String) :
    FailsClosed (DurationRight ['s', 'm', 'h', 'd'] default value)
        (parseDuration value default name) ↔
      DurationReadable ['s', 'm', 'h', 'd'] value := by
  unfold parseDuration
  split
  · rename_i blank
    simp [DurationRight, DurationReadable, blank]
  · rename_i t ht
    split
    · rename_i hm
      simp [durationReadable_of_refused ht hm]
    · rename_i amount unit hm
      obtain ⟨-, hn, hu⟩ := (matchAmount_eq_some_iff (by simp)).mp hm
      obtain ⟨factor, hf⟩ : ∃ factor, writtenUnit durationUnits unit = some factor :=
        writtenUnit_of_letters hu
      have read := amount_failsClosed_iff default (if unit = longS then 86400 else factor) ht hm hn
        hf (durationUnits_pos hf)
      have wrong : (if unit = longS then 86400 else factor) = factor ↔ unit ≠ longS := by
        split
        · rename_i hlong
          subst hlong
          obtain rfl := Option.some.inj ((rfl : some 1 = _).trans hf)
          simp
        · simp [*]
      rw [durationReadable_iff ht hm hf, ← wrong, ← read]
      simp only [durationOf_lower _ hf]

/-- The unit of a log retention is the day. -/
theorem dayUnit_of_match {t amount : Text} {unit : CodePoint}
    (hm : matchAmount ['d'] t = some (amount, unit)) :
    writtenUnit durationUnits unit = some 86400 ∧ unit ≠ longS := by
  obtain ⟨-, -, hu⟩ := (matchAmount_eq_some_iff (by simp)).mp hm
  have letter : unit = 0x64 ∨ unit = 0x44 := by
    simp [matchesLetter] at hu
    simp [Fin.ext_iff]
    omega
  obtain rfl | rfl := letter <;> exact ⟨rfl, by decide⟩

theorem parseLogRetention_failsClosed_iff (value : Option Text) :
    FailsClosed (DurationRight ['d'] defaultLogRetention value) (parseLogRetention value) ↔
      DurationReadable ['d'] value := by
  unfold parseLogRetention
  split
  · rename_i blank
    simp [DurationRight, DurationReadable, blank]
  · rename_i t ht
    split
    · rename_i hm
      simp [durationReadable_of_refused ht hm]
    · rename_i amount unit hm
      obtain ⟨-, hn, -⟩ := (matchAmount_eq_some_iff (by simp)).mp hm
      have day := dayUnit_of_match hm
      have read := amount_failsClosed_iff defaultLogRetention 86400 ht hm hn day.1 (by decide)
      rw [durationReadable_iff ht hm day.1, read]
      simp [day.2]

theorem parseOptionalDuration_failsClosed_iff (value : Option Text) (name : String) :
    FailsClosed (OptionalDurationRight value) (parseOptionalDuration value name) ↔
      DurationReadable ['s', 'm', 'h', 'd'] value := by
  unfold parseOptionalDuration
  split
  · rename_i blank
    simp [OptionalDurationRight, DurationReadable, blank]
  · rename_i t ht
    rw [← parseDuration_failsClosed_iff value 1 name]
    cases parseDuration value 1 name <;>
      simp [Functor.map, Except.map, OptionalDurationRight, ht]

theorem timedelta_escapes_iff {seconds : Nat} :
    Escapes (timedelta seconds) ↔ 999999999 < seconds / 86400 := by
  unfold timedelta
  simp only
  split
  · simp; omega
  · split <;> simp [PyException.mk'] <;> omega

theorem timedelta_not_refuses {seconds : Nat} : ¬ Refuses (timedelta seconds) := by
  unfold timedelta
  simp only
  split
  · simp
  · split <;> simp [PyException.mk']

theorem amount_raises_iff (amount : Text) (read : Nat) :
    ¬ Refuses (int amount >>= fun amount => timedelta (amount * read)) ∧
      (Escapes (int amount >>= fun amount => timedelta (amount * read)) ↔
        maxStrDigits < amount.length ∨ 999999999 < digitsValue amount * read / 86400) := by
  unfold int
  split
  · rename_i short
    change ¬ Refuses (timedelta (digitsValue amount * read)) ∧
      (Escapes (timedelta (digitsValue amount * read)) ↔ _)
    refine ⟨timedelta_not_refuses, ?_⟩
    rw [timedelta_escapes_iff]
    omega
  · rename_i long
    simp [bind, Except.bind, PyException.mk']
    omega

section

variable {letters : List Char} {value : Option Text} {t amount : Text} {unit : CodePoint}
  {factor : Nat}

theorem duration_raises_of_blank (ht : configured value = none) :
    ¬ DurationMalformed letters value ∧ ¬ DurationEscapes letters value := by
  simp [DurationMalformed, DurationEscapes, ht]

theorem duration_raises_of_refused (ht : configured value = some t)
    (hm : matchAmount letters t = none) :
    DurationMalformed letters value ∧ ¬ DurationEscapes letters value := by
  simp [DurationMalformed, DurationEscapes, ht, hm]

theorem duration_raises_of_match (ht : configured value = some t)
    (hm : matchAmount letters t = some (amount, unit))
    (hf : writtenUnit durationUnits unit = some factor) :
    ¬ DurationMalformed letters value ∧ (DurationEscapes letters value ↔
      maxStrDigits < amount.length ∨
        999999999 < digitsValue amount * (if unit = longS then 86400 else factor) / 86400) := by
  simp [DurationMalformed, DurationEscapes, ht, hm, hf]

end

theorem parseDuration_raises_iff (value : Option Text) (default : Nat) (name : String) :
    (Refuses (parseDuration value default name) ↔
        DurationMalformed ['s', 'm', 'h', 'd'] value) ∧
      (Escapes (parseDuration value default name) ↔
        DurationEscapes ['s', 'm', 'h', 'd'] value) := by
  unfold parseDuration
  split
  · rename_i blank
    simp [duration_raises_of_blank blank]
  · rename_i t ht
    split
    · rename_i hm
      simp [duration_raises_of_refused ht hm]
    · rename_i amount unit hm
      obtain ⟨-, -, hu⟩ := (matchAmount_eq_some_iff (by simp)).mp hm
      obtain ⟨factor, hf⟩ : ∃ factor, writtenUnit durationUnits unit = some factor :=
        writtenUnit_of_letters hu
      obtain ⟨matched, escapes⟩ := duration_raises_of_match ht hm hf
      obtain ⟨refuses, raises⟩ :=
        amount_raises_iff amount (if unit = longS then 86400 else factor)
      simp only [durationOf_lower _ hf, refuses, matched, escapes, raises, and_self]

theorem parseLogRetention_raises_iff (value : Option Text) :
    (Refuses (parseLogRetention value) ↔ DurationMalformed ['d'] value) ∧
      (Escapes (parseLogRetention value) ↔ DurationEscapes ['d'] value) := by
  unfold parseLogRetention
  split
  · rename_i blank
    simp [duration_raises_of_blank blank]
  · rename_i t ht
    split
    · rename_i hm
      simp [duration_raises_of_refused ht hm]
    · rename_i amount unit hm
      obtain ⟨hf, short⟩ := dayUnit_of_match hm
      obtain ⟨matched, escapes⟩ := duration_raises_of_match ht hm hf
      obtain ⟨refuses, raises⟩ := amount_raises_iff amount 86400
      simp only [refuses, matched, escapes, raises, short, if_false, and_self]

theorem parseOptionalDuration_raises_iff (value : Option Text) (name : String) :
    (Refuses (parseOptionalDuration value name) ↔
        DurationMalformed ['s', 'm', 'h', 'd'] value) ∧
      (Escapes (parseOptionalDuration value name) ↔
        DurationEscapes ['s', 'm', 'h', 'd'] value) := by
  unfold parseOptionalDuration
  split
  · rename_i blank
    simp [duration_raises_of_blank blank]
  · rw [← (parseDuration_raises_iff value 1 name).1, ← (parseDuration_raises_iff value 1 name).2]
    cases parseDuration value 1 name <;> simp [Functor.map, Except.map]

/-! ## Counts -/

theorem parsePositive_raises_iff (default : α) (result : Nat → α) (malformed zero : String)
    (value : Option Text) :
    (Refuses (parsePositive default result malformed zero value) ↔ CountMalformed value) ∧
      (Escapes (parsePositive default result malformed zero value) ↔ CountEscapes value) := by
  unfold parsePositive
  split
  · rename_i blank
    simp [CountMalformed, CountEscapes, blank]
  · rename_i t ht
    simp only [CountMalformed, CountEscapes, ht, Option.some.injEq, exists_eq_left']
    split
    · rename_i digits
      unfold int
      split
      · rename_i short
        change (Refuses (if digitsValue t = 0 then _ else _) ↔ _) ∧
          (Escapes (if digitsValue t = 0 then _ else _) ↔ _)
        split <;> simp [*]
      · rename_i long
        simp [bind, Except.bind, PyException.mk', digits, long]
        omega
    · rename_i other
      simp [other]

theorem parsePositive_failsClosed_iff (default : α) (result : Nat → α) (malformed zero : String)
    (value : Option Text) :
    FailsClosed (CountRight default result value)
        (parsePositive default result malformed zero value) ↔ CountReadable value := by
  unfold parsePositive
  split
  · rename_i blank
    simp [CountRight, CountReadable, blank]
  · rename_i t ht
    have readable : CountReadable value ↔ (t.all isDigit → t.length ≤ maxStrDigits) := by
      simp [CountReadable, ht]
    rw [readable]
    split
    · rename_i digits
      unfold int
      split
      · rename_i short
        refine iff_of_true ?_ fun _ => short
        change FailsClosed _ (if digitsValue t = 0 then _ else _)
        split
        · simp
        · simp only [failsClosed_ok, CountRight, ht]
          exact ⟨digits, by omega, trivial⟩
      · rename_i long
        simp [bind, Except.bind, PyException.mk', digits, long]
    · simp [*]

/-! ## Sizes -/

theorem sizeUnit_cases {c : CodePoint} {factor : Nat}
    (h : writtenUnit sizeUnits c = some factor) :
    (c, factor) ∈ [(0x6B, 1024), (0x4B, 1024), (kelvinSign, 1024), (0x6D, 1024 ^ 2),
      (0x4D, 1024 ^ 2), (0x67, 1024 ^ 3), (0x47, 1024 ^ 3)] := by
  obtain ⟨letter, hmem, hm⟩ := mem_of_writtenUnit h
  simp only [sizeUnits, List.mem_cons, Prod.mk.injEq, List.not_mem_nil, or_false] at hmem
  obtain ⟨rfl, rfl⟩ | ⟨rfl, rfl⟩ | ⟨rfl, rfl⟩ := hmem <;>
    simp [matchesLetter] at hm <;> simp [Fin.ext_iff, kelvinSign] <;> omega

/-- The table knows the written unit but for the Kelvin sign. -/
theorem lookup_upper {k b : CodePoint} {factor : Nat} (h : writtenUnit sizeUnits k = some factor)
    (hb : matchesLetter 'b' b) :
    logSizeUnits.lookup (upper [k, b]) = if k = kelvinSign then none else some factor := by
  have second : b = 0x62 ∨ b = 0x42 := by
    simp [matchesLetter] at hb
    simp [Fin.ext_iff]
    omega
  have cases := sizeUnit_cases h
  simp only [List.mem_cons, Prod.mk.injEq, List.not_mem_nil, or_false] at cases
  obtain rfl | rfl := second <;>
    obtain ⟨rfl, rfl⟩ | ⟨rfl, rfl⟩ | ⟨rfl, rfl⟩ | ⟨rfl, rfl⟩ | ⟨rfl, rfl⟩ | ⟨rfl, rfl⟩ |
      ⟨rfl, rfl⟩ := cases <;> rfl

theorem unit_of_matchSize {t : Text} {size : SizeMatch} (h : matchSize t = some size) :
    ∃ k b factor, size.unit = [k, b] ∧ writtenUnit sizeUnits k = some factor ∧
      matchesLetter 'b' b := by
  simp only [matchSize] at h
  split at h
  · split at h
    · cases h
    · split at h
      · rename_i k b _
        split at h
        · rename_i letters
          obtain rfl := Option.some.inj h
          obtain ⟨hk, hb⟩ := Bool.and_eq_true_iff.mp letters
          obtain ⟨factor, hf⟩ : ∃ factor, writtenUnit sizeUnits k = some factor :=
            writtenUnit_of_letters hk
          exact ⟨k, b, factor, rfl, hf, hb⟩
        · cases h
      · cases h
  · cases h

section

variable {value : Option Text} {t : Text} {size : SizeMatch} {k b : CodePoint} {factor : Nat}

theorem sizeRight_iff (bytes : Nat) (ht : configured value = some t)
    (hm : matchSize t = some size) (hu : size.unit = [k, b])
    (hf : writtenUnit sizeUnits k = some factor) :
    SizeRight value bytes ↔
      bytes = (size.product factor).coefficient ⌈/⌉ 10 ^ (size.product factor).scale ∧
        0 < bytes := by
  simp only [SizeRight, ht]
  constructor
  · rintro ⟨size', letter, factor', hm', hu', hf', h⟩
    obtain rfl := Option.some.inj (hm.symm.trans hm')
    rw [hu] at hu'
    obtain rfl := Option.some.inj hu'
    obtain rfl := Option.some.inj (hf.symm.trans hf')
    exact h
  · intro h
    exact ⟨size, k, factor, hm, by rw [hu]; rfl, hf, h⟩

theorem sizeReadable_iff (ht : configured value = some t) (hm : matchSize t = some size)
    (hu : size.unit = [k, b]) (hf : writtenUnit sizeUnits k = some factor) :
    SizeReadable value ↔ (size.amount.coefficient ≠ 0 →
      k ≠ kelvinSign ∧ defaultContext.Holds (size.product factor) ∧
        KeepsCeiling (size.product factor).coefficient
          (defaultContext.lastPlace (size.product factor))
          (10 ^ (size.product factor).scale)) := by
  constructor
  · intro h
    exact h t size k factor ht hm (by rw [hu]; rfl) hf
  · intro h t' size' letter factor' ht' hm' hu' hf'
    obtain rfl := Option.some.inj (ht.symm.trans ht')
    obtain rfl := Option.some.inj (hm.symm.trans hm')
    rw [hu] at hu'
    obtain rfl := Option.some.inj hu'
    obtain rfl := Option.some.inj (hf.symm.trans hf')
    exact h

/-- What the reader does with a text of the right form. -/
theorem parseLogFileMaxSize_of_match (ht : configured value = some t)
    (hm : matchSize t = some size) (hu : size.unit = [k, b])
    (hf : writtenUnit sizeUnits k = some factor) (hb : matchesLetter 'b' b) :
    parseLogFileMaxSize value =
      if size.amount.coefficient = 0 then
        .error (runtimeConfigError "PERAGO_LOG_FILE_MAX_SIZE must be greater than zero")
      else if k = kelvinSign then
        .error (.mk' (.other "KeyError") ("'" ++ (upper size.unit).render ++ "'"))
      else (defaultContext.round (size.product factor)).elim
        (.error (.mk' (.other "decimal.Overflow") "[<class 'decimal.Overflow'>]"))
        fun product => .ok (product.coefficient ⌈/⌉ 10 ^ product.scale) := by
  simp only [parseLogFileMaxSize, ht, hm]
  have known : logSizeUnits.lookup (upper size.unit) =
      if k = kelvinSign then none else some factor := hu ▸ lookup_upper hf hb
  rw [known]
  by_cases kelvin : k = kelvinSign
  · simp only [if_pos kelvin]
  · simp only [if_neg kelvin]
    rw [← SizeMatch.product]
    cases defaultContext.round (size.product factor) <;> rfl

end

theorem sizeUnits_pos {c : CodePoint} {factor : Nat}
    (h : writtenUnit sizeUnits c = some factor) : 0 < factor := by
  obtain ⟨letter, hmem, -⟩ := mem_of_writtenUnit h
  simp only [sizeUnits, List.mem_cons, Prod.mk.injEq, List.not_mem_nil, or_false] at hmem
  omega

theorem product_ne_zero {size : SizeMatch} {k : CodePoint} {factor : Nat}
    (positive : size.amount.coefficient ≠ 0) (hf : writtenUnit sizeUnits k = some factor) :
    (size.product factor).coefficient ≠ 0 :=
  Nat.mul_ne_zero positive (sizeUnits_pos hf).ne'

theorem round_isSome_iff_of_unit {size : SizeMatch} {k : CodePoint} {factor : Nat}
    (positive : size.amount.coefficient ≠ 0) (hf : writtenUnit sizeUnits k = some factor) :
    (defaultContext.round (size.product factor)).isSome ↔
      defaultContext.Holds (size.product factor) :=
  DecimalContext.round_isSome_iff (by decide) (by decide) (product_ne_zero positive hf)

theorem ceilDiv_pos {n d : Nat} (hn : n ≠ 0) (hd : 0 < d) : 0 < n ⌈/⌉ d := by
  rw [Nat.pos_iff_ne_zero]
  intro zero
  have := (ceilDiv_le_iff_le_mul hd).mp zero.le
  omega

theorem parseLogFileMaxSize_failsClosed_iff (value : Option Text) :
    FailsClosed (SizeRight value) (parseLogFileMaxSize value) ↔ SizeReadable value := by
  cases ht : configured value with
  | none => simp [parseLogFileMaxSize, SizeRight, SizeReadable, ht]
  | some t =>
    cases hm : matchSize t with
    | none =>
      have refused : FailsClosed (SizeRight value) (parseLogFileMaxSize value) := by
        simp [parseLogFileMaxSize, ht, hm]
      refine iff_of_true refused ?_
      intro t' size letter factor ht' hm'
      obtain rfl := Option.some.inj (ht.symm.trans ht')
      rw [hm] at hm'
      cases hm'
    | some size =>
      obtain ⟨k, b, factor, hu, hf, hb⟩ := unit_of_matchSize hm
      rw [sizeReadable_iff ht hm hu hf, parseLogFileMaxSize_of_match ht hm hu hf hb]
      by_cases zero : size.amount.coefficient = 0
      · simp [zero]
      by_cases kelvin : k = kelvinSign
      · simp [zero, kelvin, PyException.mk']
      have refused := round_isSome_iff_of_unit zero hf
      simp only [if_neg zero, if_neg kelvin]
      cases rounded : defaultContext.round (size.product factor) with
      | none =>
        rw [rounded] at refused
        refine iff_of_false (by simp [PyException.mk']) fun h => ?_
        simpa using refused.mpr (h zero).2.1
      | some y =>
        rw [rounded] at refused
        have holds := refused.mp rfl
        have scale := DecimalContext.round_ceilDiv_iff rounded
        simp only [Option.elim_some, failsClosed_ok]
        rw [sizeRight_iff _ ht hm hu hf, ← scale]
        constructor
        · rintro ⟨same, -⟩ -
          exact ⟨kelvin, holds, same⟩
        · intro h
          obtain ⟨-, -, same⟩ := h zero
          refine ⟨same, ?_⟩
          rw [same]
          exact ceilDiv_pos (product_ne_zero zero hf) (Nat.pow_pos (by decide))

theorem sizeEscapes_iff {value : Option Text} {t : Text} {size : SizeMatch} {k b : CodePoint}
    {factor : Nat} (ht : configured value = some t) (hm : matchSize t = some size)
    (hu : size.unit = [k, b]) (hf : writtenUnit sizeUnits k = some factor) :
    SizeEscapes value ↔ size.amount.coefficient ≠ 0 ∧
      (k = kelvinSign ∨ ¬ defaultContext.Holds (size.product factor)) := by
  simp [SizeEscapes, ht, hm, hu, hf]

theorem parseLogFileMaxSize_raises_iff (value : Option Text) :
    (Refuses (parseLogFileMaxSize value) ↔ SizeMalformed value) ∧
      (Escapes (parseLogFileMaxSize value) ↔ SizeEscapes value) := by
  cases ht : configured value with
  | none => simp [parseLogFileMaxSize, SizeMalformed, SizeEscapes, ht]
  | some t =>
    cases hm : matchSize t with
    | none => simp [parseLogFileMaxSize, SizeMalformed, SizeEscapes, ht, hm]
    | some size =>
      obtain ⟨k, b, factor, hu, hf, hb⟩ := unit_of_matchSize hm
      have malformed : SizeMalformed value ↔ size.amount.coefficient = 0 := by
        simp [SizeMalformed, ht, hm]
      rw [malformed, sizeEscapes_iff ht hm hu hf, parseLogFileMaxSize_of_match ht hm hu hf hb]
      by_cases zero : size.amount.coefficient = 0
      · simp [zero]
      by_cases kelvin : k = kelvinSign
      · simp [zero, kelvin, PyException.mk']
      have refused := round_isSome_iff_of_unit zero hf
      simp only [if_neg zero, if_neg kelvin]
      cases rounded : defaultContext.round (size.product factor) <;> rw [rounded] at refused <;>
        simp [← refused, zero, kelvin, PyException.mk']

example : (parseLogFileMaxSize (some (text " 1.5 mb"))).toOption = some 1572864 := by
  decide +kernel

end Perago
