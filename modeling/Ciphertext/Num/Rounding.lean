import Mathlib.Data.Int.Log
import Mathlib.Data.Rat.Floor
import Mathlib.Algebra.Order.Floor.Ring
import Mathlib.Algebra.Order.Field.Power
import Mathlib.Tactic.Linarith
import Mathlib.Tactic.Positivity
import Mathlib.Tactic.FieldSimp
import Mathlib.Tactic.Ring

/-!
# Rounding to a binary floating-point format

A format is a precision and a least exponent. Its numbers are the multiples of powers
of two with a significand of that many bits, and `round` takes a number to the nearest
one of them, to the even one where there are two. Overflow is left out: there is no
largest number here.

Two facts are what a bound needs. A number of the format is not moved (`round_fixed`),
and nothing overtakes anything (`round_mono`). So a bound that is itself a number of the
format survives rounding, whichever way that goes.
-/

namespace Ciphertext

/-- The integer nearest to `x`, the even one if two are. -/
def roundEven (x : ℚ) : ℤ :=
  if Int.fract x < 1 / 2 then ⌊x⌋
  else if 1 / 2 < Int.fract x then ⌊x⌋ + 1
  else if Even ⌊x⌋ then ⌊x⌋ else ⌊x⌋ + 1

theorem roundEven_intCast (n : ℤ) : roundEven (n : ℚ) = n := by
  unfold roundEven
  rw [Int.fract_intCast, if_pos (by norm_num), Int.floor_intCast]

/-- It is at most one half away. -/
theorem roundEven_near (x : ℚ) : x - 1 / 2 ≤ roundEven x ∧ (roundEven x : ℚ) ≤ x + 1 / 2 := by
  have hx : (⌊x⌋ : ℚ) + Int.fract x = x := Int.floor_add_fract x
  have hlow : 0 ≤ Int.fract x := Int.fract_nonneg x
  have hhigh : Int.fract x < 1 := Int.fract_lt_one x
  unfold roundEven
  split
  · constructor <;> linarith
  · split
    · push_cast
      constructor <;> linarith
    · have hhalf : Int.fract x = 1 / 2 := by linarith
      split
      · constructor <;> linarith
      · push_cast
        constructor <;> linarith

theorem roundEven_mono {x y : ℚ} (h : x ≤ y) : roundEven x ≤ roundEven y := by
  by_contra hlt
  have hgap : (roundEven y : ℚ) + 1 ≤ roundEven x := by exact_mod_cast not_le.mp hlt
  have hx := (roundEven_near x).2
  have hy := (roundEven_near y).1
  have heq : x = y := by linarith
  rw [heq] at hlt
  exact hlt le_rfl

structure FloatFormat where
  /-- bits of the significand -/
  precision : ℕ
  /-- exponent of the least positive number -/
  least : ℤ
  precision_pos : 0 < precision

namespace FloatFormat

variable (fmt : FloatFormat) {x y : ℚ}

/-- The numbers of the format. -/
def Representable (x : ℚ) : Prop :=
  ∃ (m : ℕ) (e : ℤ), x = m * 2 ^ e ∧ m < 2 ^ fmt.precision ∧ fmt.least ≤ e

/-- The exponent of the last bit of a number of that size. -/
def exponent (x : ℚ) : ℤ := max (Int.log 2 |x| + 1 - fmt.precision) fmt.least

/-- The nearest number of the format. -/
def round (x : ℚ) : ℚ := roundEven (x / 2 ^ fmt.exponent x) * 2 ^ fmt.exponent x

variable {fmt}

theorem exponent_mono (hx : 0 < x) (h : x ≤ y) : fmt.exponent x ≤ fmt.exponent y := by
  have hlog : Int.log 2 |x| ≤ Int.log 2 |y| := by
    rw [abs_of_pos hx, abs_of_pos (hx.trans_le h)]
    exact Int.log_mono_right hx h
  unfold exponent
  omega

/-- The last bit of a number of the format is its own, or further to the left. -/
theorem exponent_le_of_representable {m : ℕ} {e : ℤ} (hpos : 0 < m) (hm : m < 2 ^ fmt.precision)
    (he : fmt.least ≤ e) : fmt.exponent (m * 2 ^ e) ≤ e := by
  have hx : (0 : ℚ) < m * 2 ^ e := by positivity
  have hlt : (m * 2 ^ e : ℚ) < (2 : ℕ) ^ (fmt.precision + e) := by
    have hcast : (m : ℚ) < 2 ^ fmt.precision := by exact_mod_cast hm
    calc (m * 2 ^ e : ℚ) < 2 ^ fmt.precision * 2 ^ e := mul_lt_mul_of_pos_right hcast (by positivity)
      _ = (2 : ℕ) ^ (fmt.precision + e : ℤ) := by
        rw [Nat.cast_ofNat, zpow_add₀ (by norm_num), zpow_natCast]
  have hlog : Int.log 2 |(m * 2 ^ e : ℚ)| < fmt.precision + e := by
    rw [abs_of_pos hx]
    exact (Int.lt_zpow_iff_log_lt (by norm_num) hx).mp hlt
  unfold exponent
  omega

/-- A number of the format is not moved. -/
theorem round_fixed (h : fmt.Representable x) : fmt.round x = x := by
  obtain ⟨m, e, rfl, hm, he⟩ := h
  rcases Nat.eq_zero_or_pos m with rfl | hpos
  · simp [round, roundEven]
  · have hle := exponent_le_of_representable hpos hm he
    obtain ⟨k, hk⟩ : ∃ k : ℕ, e = fmt.exponent (m * 2 ^ e) + k :=
      ⟨(e - fmt.exponent (m * 2 ^ e)).toNat, by omega⟩
    have hwhole : (m * 2 ^ e : ℚ) / 2 ^ fmt.exponent (m * 2 ^ e) = ((m * 2 ^ k : ℤ) : ℚ) := by
      rw [div_eq_iff (by positivity)]
      conv_lhs => rw [hk]
      rw [zpow_add₀ (by norm_num), zpow_natCast]
      push_cast
      ring
    unfold round
    rw [hwhole, roundEven_intCast, ← hwhole, div_mul_cancel₀ _ (by positivity)]

/-- The last bit of a number goes into a larger power of two. -/
theorem zpow_div_zpow {a k : ℤ} (h : a ≤ k) : ∃ n : ℕ, (2 : ℚ) ^ k / 2 ^ a = ((2 ^ n : ℤ) : ℚ) := by
  obtain ⟨n, rfl⟩ : ∃ n : ℕ, k = a + n := ⟨(k - a).toNat, by omega⟩
  refine ⟨n, ?_⟩
  rw [div_eq_iff (by positivity), zpow_add₀ (by norm_num), zpow_natCast]
  push_cast
  ring

/-- A power of two below `y` is not passed on the way down to the format. -/
theorem zpow_le_round {k : ℤ} (hk : fmt.exponent y ≤ k) (h : (2 : ℚ) ^ k ≤ y) : 2 ^ k ≤ fmt.round y := by
  obtain ⟨n, hwhole⟩ := zpow_div_zpow hk
  have hle : ((2 ^ n : ℤ) : ℚ) ≤ y / 2 ^ fmt.exponent y := by
    rw [← hwhole]
    exact div_le_div_of_nonneg_right h (by positivity)
  have hround : (2 ^ n : ℤ) ≤ roundEven (y / 2 ^ fmt.exponent y) := by
    rw [← roundEven_intCast (2 ^ n)]
    exact roundEven_mono hle
  calc (2 : ℚ) ^ k = ((2 ^ n : ℤ) : ℚ) * 2 ^ fmt.exponent y := by
        rw [← hwhole, div_mul_cancel₀ _ (by positivity)]
    _ ≤ roundEven (y / 2 ^ fmt.exponent y) * 2 ^ fmt.exponent y :=
        mul_le_mul_of_nonneg_right (by exact_mod_cast hround) (by positivity)

/-- Nor one above `x` on the way up. -/
theorem round_le_zpow {k : ℤ} (hk : fmt.exponent x ≤ k) (h : x ≤ (2 : ℚ) ^ k) : fmt.round x ≤ 2 ^ k := by
  obtain ⟨n, hwhole⟩ := zpow_div_zpow hk
  have hle : x / 2 ^ fmt.exponent x ≤ ((2 ^ n : ℤ) : ℚ) := by
    rw [← hwhole]
    exact div_le_div_of_nonneg_right h (by positivity)
  have hround : roundEven (x / 2 ^ fmt.exponent x) ≤ (2 ^ n : ℤ) := by
    rw [← roundEven_intCast (2 ^ n)]
    exact roundEven_mono hle
  calc (roundEven (x / 2 ^ fmt.exponent x) * 2 ^ fmt.exponent x : ℚ)
      ≤ ((2 ^ n : ℤ) : ℚ) * 2 ^ fmt.exponent x :=
        mul_le_mul_of_nonneg_right (by exact_mod_cast hround) (by positivity)
    _ = 2 ^ k := by rw [← hwhole, div_mul_cancel₀ _ (by positivity)]

/-- Nothing overtakes anything: within one exponent the significands are in order, and
between two a power of two stands. -/
theorem round_mono (hx : 0 < x) (h : x ≤ y) : fmt.round x ≤ fmt.round y := by
  have hy : 0 < y := hx.trans_le h
  have hexponent : fmt.exponent x ≤ fmt.exponent y := exponent_mono hx h
  rcases hexponent.eq_or_lt with heq | hlt
  · -- one grid for both
    unfold round
    rw [heq]
    refine mul_le_mul_of_nonneg_right ?_ (by positivity)
    exact_mod_cast roundEven_mono (div_le_div_of_nonneg_right h (by positivity))
  · -- the power of two at the top of `y` is a number of both grids
    have hlog : Int.log 2 x < Int.log 2 y := by
      unfold exponent at hlt
      rw [abs_of_pos hx, abs_of_pos hy] at hlt
      omega
    have hbelow : x ≤ (2 : ℚ) ^ Int.log 2 y := by
      have hsucc : x < ((2 : ℕ) : ℚ) ^ (Int.log 2 x + 1) := Int.lt_zpow_succ_log_self (by norm_num) x
      have hmore : (2 : ℚ) ^ (Int.log 2 x + 1) ≤ 2 ^ Int.log 2 y := zpow_le_zpow_right₀ (by norm_num) hlog
      rw [Nat.cast_ofNat] at hsucc
      linarith
    have habove : (2 : ℚ) ^ Int.log 2 y ≤ y := by
      have hself := Int.zpow_log_le_self (b := 2) (by norm_num) hy
      rwa [Nat.cast_ofNat] at hself
    have hprecision := fmt.precision_pos
    have hyk : fmt.exponent y ≤ Int.log 2 y := by
      unfold exponent at hlt ⊢
      rw [abs_of_pos hx, abs_of_pos hy] at *
      omega
    exact (round_le_zpow (hlt.le.trans hyk) hbelow).trans (zpow_le_round hyk habove)

/-- **A bound that is a number of the format survives rounding.** -/
theorem round_le (hx : 0 < x) (h : x ≤ y) (hy : fmt.Representable y) : fmt.round x ≤ y :=
  (round_mono hx h).trans_eq (round_fixed hy)

theorem le_round (hx : 0 < x) (h : x ≤ y) (hrep : fmt.Representable x) : x ≤ fmt.round y :=
  (round_fixed hrep).symm.trans_le (round_mono hx h)

theorem round_nonneg (h : 0 ≤ x) : 0 ≤ fmt.round x := by
  have hround : (0 : ℤ) ≤ roundEven (x / 2 ^ fmt.exponent x) := by
    rw [← roundEven_intCast 0]
    refine roundEven_mono ?_
    rw [Int.cast_zero]
    positivity
  exact mul_nonneg (by exact_mod_cast hround) (by positivity)

end FloatFormat

end Ciphertext
