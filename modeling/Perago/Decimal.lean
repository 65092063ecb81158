import Mathlib.Algebra.Order.Floor.Div
import Mathlib.Algebra.Order.Ring.Nat
import Mathlib.Data.Nat.Log

/-!
# Decimal arithmetic

A number is a coefficient over a power of ten. A context rounds a result to its
precision, a tie going to the even neighbour, and refuses what its largest
exponent cannot hold. The results say when rounding moves the ceiling of a
number, and which numbers a context refuses.
-/

namespace Perago

/-- `coefficient / 10 ^ scale`. -/
structure DecimalNumber where
  coefficient : Nat
  scale : Nat

/-- What the context keeps: significant digits, the exponent of the largest numbers, and
the fraction digits of the smallest. -/
structure DecimalContext where
  prec : Nat
  emax : Nat
  etiny : Nat

/-! ## Rounding a quotient -/

/-- `n / unit` lies above the middle of its two neighbours, or on it next to an odd one. -/
def RoundsUp (n unit : Nat) : Prop :=
  unit < 2 * (n % unit) ∨ 2 * (n % unit) = unit ∧ n / unit % 2 = 1

instance (n unit : Nat) : Decidable (RoundsUp n unit) :=
  inferInstanceAs (Decidable (_ ∨ _))

def roundHalfEven (n unit : Nat) : Nat :=
  if RoundsUp n unit then n / unit + 1 else n / unit

/-- Rounding `n` to a multiple of `unit` keeps the number of whole `one`s it takes. -/
def KeepsCeiling (n unit one : Nat) : Prop :=
  n % unit = 0 ∨
    unit ≤ one ∧ (RoundsUp n unit ∨ n % one ≠ n % unit) ∨
    one < unit ∧ RoundsUp n unit ∧ unit < n % unit + one

variable {n unit one : Nat}

theorem ceilDiv_mul_left {k : Nat} (hu : 0 < unit) : n * unit ⌈/⌉ (unit * k) = n ⌈/⌉ k := by
  obtain rfl | hk := Nat.eq_zero_or_pos k
  · simp
  · apply eq_of_forall_ge_iff
    intro c
    rw [ceilDiv_le_iff_le_mul (Nat.mul_pos hu hk), ceilDiv_le_iff_le_mul hk, Nat.mul_comm n,
      Nat.mul_assoc, Nat.mul_le_mul_left_iff hu]

theorem mul_ceilDiv_self (hu : 0 < unit) : n * unit ⌈/⌉ unit = n := by
  simpa [Nat.mul_comm] using smul_ceilDiv hu n

theorem ceilDiv_of_remainder (hu : 0 < unit) (hr : n % unit ≠ 0) :
    n ⌈/⌉ unit = n / unit + 1 := by
  apply eq_of_forall_ge_iff
  intro c
  have split := Nat.div_add_mod n unit
  have below := Nat.mod_lt n hu
  rw [ceilDiv_le_iff_le_mul hu, Nat.add_one_le_iff]
  constructor
  · intro hle
    apply Nat.lt_of_mul_lt_mul_left (a := unit)
    omega
  · intro hlt
    have := Nat.mul_le_mul_left unit (Nat.succ_le_of_lt hlt)
    rw [Nat.mul_succ] at this
    omega

theorem not_roundsUp_of_exact (hr : n % unit = 0) (hu : 0 < unit) : ¬ RoundsUp n unit := by
  unfold RoundsUp
  omega

/-- Rounding to a part of `one`. -/
theorem ceilDiv_round_fine (hu : 0 < unit) (hd : unit ∣ one) (ho : 0 < one) :
    roundHalfEven n unit * unit ⌈/⌉ one = n ⌈/⌉ one ↔
      n % unit = 0 ∨ RoundsUp n unit ∨ n % one ≠ n % unit := by
  obtain ⟨k, rfl⟩ := hd
  have hk : 0 < k := Nat.pos_of_mul_pos_left ho
  have whole : n ⌈/⌉ (unit * k) = (n ⌈/⌉ unit) ⌈/⌉ k := by
    apply eq_of_forall_ge_iff
    intro c
    rw [ceilDiv_le_iff_le_mul ho, ceilDiv_le_iff_le_mul hk, ceilDiv_le_iff_le_mul hu,
      Nat.mul_assoc]
  have rest : n % (unit * k) = n % unit + unit * (n / unit % k) := Nat.mod_mul
  rw [ceilDiv_mul_left hu, whole, rest]
  obtain hr | hr := Nat.eq_zero_or_pos (n % unit)
  · have exact' : n ⌈/⌉ unit = n / unit := by
      conv_lhs => rw [← Nat.div_mul_cancel (Nat.dvd_of_mod_eq_zero hr)]
      exact mul_ceilDiv_self hu
    simp [roundHalfEven, not_roundsUp_of_exact hr hu, exact', hr]
  · rw [ceilDiv_of_remainder hu (by omega)]
    by_cases up : RoundsUp n unit
    · simp [roundHalfEven, up]
    · have carry : n / unit ⌈/⌉ k = (n / unit + 1) ⌈/⌉ k ↔ n / unit % k ≠ 0 := by
        obtain hz | hz := Nat.eq_zero_or_pos (n / unit % k)
        · obtain ⟨m, hm⟩ := Nat.dvd_of_mod_eq_zero hz
          rw [hm]
          simp only [Nat.mul_mod_right, ne_eq, not_true_eq_false, iff_false]
          intro same
          have low : k * m ⌈/⌉ k ≤ m := (ceilDiv_le_iff_le_mul hk).mpr le_rfl
          have high := (ceilDiv_le_iff_le_mul hk).mp (same ▸ low)
          omega
        · rw [ceilDiv_of_remainder hk (by omega)]
          refine iff_of_true ?_ (by omega)
          apply le_antisymm
          · have above := (ceilDiv_le_iff_le_mul hk).mp (le_refl ((n / unit + 1) ⌈/⌉ k))
            have split := Nat.div_add_mod (n / unit) k
            apply Nat.lt_of_mul_lt_mul_left (a := k)
            omega
          · rw [ceilDiv_le_iff_le_mul hk, Nat.mul_add]
            have split := Nat.div_add_mod (n / unit) k
            have below := Nat.mod_lt (n / unit) hk
            omega
      rw [roundHalfEven, if_neg up, carry]
      have scaled : unit * (n / unit % k) = 0 ↔ n / unit % k = 0 := by
        simp only [Nat.mul_eq_zero, hu.ne', false_or]
      constructor
      · intro h
        exact .inr (.inr (by omega))
      · rintro (h | h | h)
        · omega
        · exact absurd h up
        · omega

/-- Rounding to a multiple of `one`. -/
theorem ceilDiv_round_coarse (ho : 0 < one) (hd : one ∣ unit) (hu : 0 < unit) :
    roundHalfEven n unit * unit ⌈/⌉ one = n ⌈/⌉ one ↔
      n % unit = 0 ∨ RoundsUp n unit ∧ unit < n % unit + one := by
  obtain ⟨m, rfl⟩ := hd
  have hm : 0 < m := Nat.pos_of_mul_pos_left hu
  have whole : roundHalfEven n (one * m) * (one * m) ⌈/⌉ one = roundHalfEven n (one * m) * m := by
    rw [Nat.mul_comm one m, ← Nat.mul_assoc]
    exact mul_ceilDiv_self ho
  have split := Nat.div_add_mod n (one * m)
  have below := Nat.mod_lt n hu
  have parts : n ⌈/⌉ one = n / (one * m) * m + (n % (one * m)) ⌈/⌉ one := by
    conv_lhs => rw [← split]
    rw [Nat.ceilDiv_eq_add_pred_div, Nat.ceilDiv_eq_add_pred_div, Nat.add_assoc,
      Nat.add_sub_assoc (by omega), Nat.mul_assoc, Nat.mul_add_div ho, Nat.mul_comm m]
  rw [whole, parts]
  have most : n % (one * m) ⌈/⌉ one ≤ m := (ceilDiv_le_iff_le_mul ho).mpr below.le
  have none' : n % (one * m) ⌈/⌉ one = 0 ↔ n % (one * m) = 0 := by
    rw [← Nat.le_zero, ceilDiv_le_iff_le_mul ho]
    omega
  have all : n % (one * m) ⌈/⌉ one = m ↔ one * m < n % (one * m) + one := by
    obtain ⟨j, rfl⟩ := Nat.exists_eq_succ_of_ne_zero hm.ne'
    have step : n % (one * (j + 1)) ⌈/⌉ one ≤ j ↔ n % (one * (j + 1)) ≤ one * j :=
      ceilDiv_le_iff_le_mul ho
    rw [Nat.mul_succ] at *
    omega
  obtain hr | hr := Nat.eq_zero_or_pos (n % (one * m))
  · have down := not_roundsUp_of_exact hr hu
    rw [roundHalfEven, if_neg down, none'.mpr hr]
    simp [hr]
  · by_cases up : RoundsUp n (one * m)
    · rw [roundHalfEven, if_pos up, Nat.add_mul, Nat.one_mul]
      constructor
      · intro h
        exact .inr ⟨up, all.mp (by omega)⟩
      · rintro (h | ⟨-, h⟩)
        · omega
        · rw [all.mpr h]
    · rw [roundHalfEven, if_neg up]
      constructor
      · intro h
        exact .inl (none'.mp (by omega))
      · rintro (h | ⟨h, -⟩)
        · omega
        · exact absurd h up

theorem ceilDiv_round_iff (hu : 0 < unit) (ho : 0 < one) (hd : unit ∣ one ∨ one ∣ unit) :
    roundHalfEven n unit * unit ⌈/⌉ one = n ⌈/⌉ one ↔ KeepsCeiling n unit one := by
  obtain hle | hlt := le_or_gt unit one
  · have divides : unit ∣ one := hd.elim id fun h => by
      rw [Nat.le_antisymm hle (Nat.le_of_dvd hu h)]
    rw [ceilDiv_round_fine hu divides ho, KeepsCeiling]
    grind
  · have divides : one ∣ unit := hd.elim (fun h => absurd (Nat.le_of_dvd ho h) (by omega)) id
    rw [ceilDiv_round_coarse ho divides hu, KeepsCeiling]
    grind

/-! ## Rounding to a context -/

namespace DecimalContext

/-- What a unit of the last digit that the context keeps is in units of the coefficient. -/
def lastPlace (ctx : DecimalContext) (x : DecimalNumber) : Nat :=
  10 ^ max (Nat.log 10 x.coefficient + 1 - ctx.prec) (x.scale - ctx.etiny)

def rounded (ctx : DecimalContext) (x : DecimalNumber) : DecimalNumber :=
  { x with coefficient := roundHalfEven x.coefficient (ctx.lastPlace x) * ctx.lastPlace x }

/-- The rounded number; `none` where it overflows. -/
def round (ctx : DecimalContext) (x : DecimalNumber) : Option DecimalNumber :=
  if 10 ^ (ctx.emax + 1 + x.scale) ≤ (ctx.rounded x).coefficient then none
  else some (ctx.rounded x)

/-- Rounded to the precision of the context, the number stays below its bound. -/
def Holds (ctx : DecimalContext) (x : DecimalNumber) : Prop :=
  2 * x.coefficient + 10 ^ (ctx.emax + 1 + x.scale - ctx.prec) <
    2 * 10 ^ (ctx.emax + 1 + x.scale)

variable {ctx : DecimalContext} {x : DecimalNumber}

theorem lastPlace_pos : 0 < ctx.lastPlace x := Nat.pow_pos (by decide)

theorem lastPlace_dvd_or (ctx : DecimalContext) (x : DecimalNumber) :
    ctx.lastPlace x ∣ 10 ^ x.scale ∨ 10 ^ x.scale ∣ ctx.lastPlace x :=
  (Nat.le_total _ _).imp (Nat.pow_dvd_pow 10) (Nat.pow_dvd_pow 10)

end DecimalContext

theorem le_roundHalfEven_mul_of_dvd {bound : Nat} (hu : 0 < unit) (hd : unit ∣ bound)
    (h : bound ≤ n) : bound ≤ roundHalfEven n unit * unit := by
  obtain ⟨k, rfl⟩ := hd
  have low : k ≤ n / unit := (Nat.le_div_iff_mul_le hu).mpr (by rwa [Nat.mul_comm])
  have up : k ≤ roundHalfEven n unit := by
    unfold roundHalfEven
    split <;> omega
  rw [Nat.mul_comm]
  exact Nat.mul_le_mul_right unit up

/-- Below a multiple of an even unit with an even quotient, rounding reaches it from the
middle of the last step on. -/
theorem le_roundHalfEven_mul_iff {k : Nat} (hu : 0 < unit) (hk : k % 2 = 0)
    (h : n < k * unit) :
    k * unit ≤ roundHalfEven n unit * unit ↔ 2 * (k * unit) ≤ 2 * n + unit := by
  have split := Nat.div_add_mod n unit
  have below := Nat.mod_lt n hu
  have low : n / unit < k := (Nat.div_lt_iff_lt_mul hu).mpr h
  rw [Nat.mul_le_mul_right_iff hu]
  obtain rfl | far := Nat.eq_or_lt_of_le (Nat.succ_le_of_lt low)
  · have next : (n / unit).succ * unit = unit * (n / unit) + unit := by
      rw [Nat.succ_mul, Nat.mul_comm]
    rw [next]
    unfold roundHalfEven
    split <;> rename_i up <;> unfold RoundsUp at up <;> omega
  · have gap : (n / unit + 2) * unit ≤ k * unit := Nat.mul_le_mul_right unit far
    rw [Nat.add_mul, Nat.mul_comm (n / unit)] at gap
    unfold roundHalfEven
    split <;> omega

namespace DecimalContext

variable {ctx : DecimalContext} {x : DecimalNumber}

theorem not_holds_of_le (h : 10 ^ (ctx.emax + 1 + x.scale) ≤ x.coefficient) : ¬ ctx.Holds x := by
  rw [Holds, Nat.not_lt]
  exact (Nat.mul_le_mul_left 2 h).trans (Nat.le_add_right _ _)

theorem holds_of_lt (hp : 0 < ctx.prec)
    (h : x.coefficient < 10 ^ (ctx.emax + x.scale)) : ctx.Holds x := by
  have step : 10 ^ (ctx.emax + x.scale + 1 - ctx.prec) ≤ 10 ^ (ctx.emax + x.scale) :=
    Nat.pow_le_pow_right (by decide) (by omega)
  have next : 10 ^ (ctx.emax + x.scale + 1) = 10 ^ (ctx.emax + x.scale) * 10 := Nat.pow_succ ..
  unfold Holds
  rw [show ctx.emax + 1 + x.scale = ctx.emax + x.scale + 1 by omega]
  omega

/-- A context refuses the numbers that round to its bound or lie above it. -/
theorem round_isSome_iff (hp : 0 < ctx.prec) (hm : ctx.prec ≤ ctx.emax + 1)
    (hx : x.coefficient ≠ 0) : (ctx.round x).isSome ↔ ctx.Holds x := by
  have refused : (ctx.round x).isSome ↔ ¬ 10 ^ (ctx.emax + 1 + x.scale) ≤
      roundHalfEven x.coefficient (ctx.lastPlace x) * ctx.lastPlace x := by
    unfold round
    split <;> simp_all [rounded]
  rw [refused]
  have lower := Nat.pow_log_le_self 10 hx
  obtain above | under := le_or_gt (10 ^ (ctx.emax + 1 + x.scale)) x.coefficient
  · -- The leading digit alone is past the bound, and rounding keeps it.
    have log := (Nat.le_log_iff_pow_le (by decide) hx).mpr above
    have divides : ctx.lastPlace x ∣ 10 ^ Nat.log 10 x.coefficient :=
      Nat.pow_dvd_pow 10 (Nat.max_le.mpr ⟨by omega, by omega⟩)
    have kept := le_roundHalfEven_mul_of_dvd lastPlace_pos divides lower
    have bound : 10 ^ (ctx.emax + 1 + x.scale) ≤ 10 ^ Nat.log 10 x.coefficient :=
      Nat.pow_le_pow_right (by decide) log
    exact iff_of_false (by omega) (not_holds_of_le above)
  · have log := (Nat.log_lt_iff_lt_pow (by decide) hx).mpr under
    have place : max (Nat.log 10 x.coefficient + 1 - ctx.prec) (x.scale - ctx.etiny) <
        ctx.emax + 1 + x.scale := Nat.max_lt.mpr ⟨by omega, by omega⟩
    obtain ⟨k, hk⟩ := Nat.exists_eq_add_of_lt place
    have bound : 10 ^ (ctx.emax + 1 + x.scale) = 10 ^ (k + 1) * ctx.lastPlace x := by
      rw [lastPlace, ← Nat.pow_add, hk]
      congr 1
      omega
    have even : 10 ^ (k + 1) % 2 = 0 := by
      rw [Nat.pow_succ]
      omega
    have reached := le_roundHalfEven_mul_iff lastPlace_pos even (bound ▸ under)
    rw [← bound] at reached
    rw [reached, not_le]
    obtain small | large := Nat.lt_or_ge (Nat.log 10 x.coefficient) (ctx.emax + x.scale)
    · refine iff_of_true ?_ (holds_of_lt hp ((Nat.log_lt_iff_lt_pow (by decide) hx).mp small))
      have below := (Nat.log_lt_iff_lt_pow (by decide) hx).mp small
      have last : ctx.lastPlace x ≤ 10 ^ (ctx.emax + x.scale) :=
        Nat.pow_le_pow_right (by decide) (by omega)
      have next : 10 ^ (ctx.emax + 1 + x.scale) = 10 ^ (ctx.emax + x.scale) * 10 := by
        rw [← Nat.pow_succ]
        congr 1
        omega
      omega
    · have last : ctx.lastPlace x = 10 ^ (ctx.emax + 1 + x.scale - ctx.prec) := by
        rw [lastPlace]
        congr 1
        omega
      rw [last, Holds]

theorem round_ceilDiv_iff {y : DecimalNumber} (h : ctx.round x = some y) :
    y.coefficient ⌈/⌉ 10 ^ y.scale = x.coefficient ⌈/⌉ 10 ^ x.scale ↔
      KeepsCeiling x.coefficient (ctx.lastPlace x) (10 ^ x.scale) := by
  unfold round at h
  split at h
  · cases h
  · obtain rfl := Option.some.inj h
    exact ceilDiv_round_iff lastPlace_pos (Nat.pow_pos (by decide)) (ctx.lastPlace_dvd_or x)

end DecimalContext

end Perago
