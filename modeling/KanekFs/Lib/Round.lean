import Mathlib.Algebra.Order.Field.Power
import Mathlib.Data.Int.Log
import Mathlib.Data.Rat.Floor
import Mathlib.Tactic.Lemma
import Mathlib.Tactic.Linarith
import Mathlib.Tactic.Positivity
import Mathlib.Tactic.FieldSimp

/-!
# Binary floating point, as rounding of rationals

A binary float is the rational it stands for. `roundTo prec q` is the nearest number with
`prec` significant bits, ties to even: what an operation of a `prec`-bit format returns when
its exact result is `q` and the exponent is in range. `roundTo_sub_le` bounds the relative
error of one operation; a chain of operations multiplies the bounds.
-/

namespace Round

/-- The nearest integer, ties to even. -/
def roundEven (q : ℚ) : ℤ :=
  let k := ⌊q⌋
  if q - k < 1 / 2 then k
  else if 1 / 2 < q - k then k + 1
  else k + k % 2

/-- The distance of two neighbouring `prec`-bit numbers around `q`. -/
def ulp (prec : ℕ) (q : ℚ) : ℚ := 2 ^ (Int.log 2 q - (prec - 1))

/-- The nearest number with `prec` significant bits. -/
def roundTo (prec : ℕ) (q : ℚ) : ℚ := roundEven (q / ulp prec q) * ulp prec q

theorem abs_roundEven_sub_le (q : ℚ) : |(roundEven q : ℚ) - q| ≤ 1 / 2 := by
  have hlo := Int.floor_le q
  have hhi := Int.lt_floor_add_one q
  simp only [roundEven]
  by_cases hdown : q - ⌊q⌋ < 1 / 2
  · rw [if_pos hdown, abs_le]
    constructor <;> linarith
  · rw [if_neg hdown]
    by_cases hup : 1 / 2 < q - ⌊q⌋
    · rw [if_pos hup, abs_le]
      push_cast
      constructor <;> linarith
    · -- a tie: both neighbours are half a unit away
      have htie : q - ⌊q⌋ = 1 / 2 := by linarith
      rw [if_neg hup, abs_le]
      rcases Int.emod_two_eq_zero_or_one ⌊q⌋ with heven | hodd
      · rw [heven]
        push_cast
        constructor <;> linarith
      · rw [hodd]
        push_cast
        constructor <;> linarith

theorem roundEven_nonneg {q : ℚ} (hq : 0 ≤ q) : 0 ≤ roundEven q := by
  have hfloor : 0 ≤ ⌊q⌋ := Int.floor_nonneg.mpr hq
  have hmod : 0 ≤ ⌊q⌋ % 2 := Int.emod_nonneg _ (by decide)
  simp only [roundEven]
  split_ifs <;> omega

theorem ulp_pos (prec : ℕ) (q : ℚ) : 0 < ulp prec q := by
  unfold ulp
  positivity

/-- The leading bit of a positive number is `2 ^ (prec - 1)` units in the last place. -/
theorem ulp_mul_le (prec : ℕ) {q : ℚ} (hq : 0 < q) : ulp prec q * 2 ^ (prec : ℤ) ≤ 2 * q := by
  have hlog : (2 : ℚ) ^ Int.log 2 q ≤ q := by
    exact_mod_cast Int.zpow_log_le_self (by decide : 1 < 2) hq
  calc ulp prec q * 2 ^ (prec : ℤ)
      = 2 ^ (Int.log 2 q + 1) := by
        rw [ulp, ← zpow_add₀ (by norm_num)]
        congr 1
        ring
    _ = 2 * 2 ^ Int.log 2 q := by rw [zpow_add₀ (by norm_num), zpow_one, mul_comm]
    _ ≤ 2 * q := by linarith

theorem roundTo_nonneg (prec : ℕ) {q : ℚ} (hq : 0 ≤ q) : 0 ≤ roundTo prec q := by
  have hulp := ulp_pos prec q
  have hround : 0 ≤ roundEven (q / ulp prec q) := roundEven_nonneg (by positivity)
  unfold roundTo
  positivity

/-- **Relative error of one rounding.** -/
theorem roundTo_sub_le (prec : ℕ) {q : ℚ} (hq : 0 ≤ q) :
    |roundTo prec q - q| ≤ q * (2 ^ (prec : ℤ))⁻¹ := by
  rcases hq.eq_or_lt with hzero | hpos
  · rw [← hzero]
    simp [roundTo, roundEven]
  · have hulp := ulp_pos prec q
    have hpow : (0 : ℚ) < 2 ^ (prec : ℤ) := by positivity
    have hnear := abs_roundEven_sub_le (q / ulp prec q)
    have hsplit : roundTo prec q - q =
        (roundEven (q / ulp prec q) - q / ulp prec q) * ulp prec q := by
      rw [sub_mul, div_mul_cancel₀ _ hulp.ne']
      rfl
    have hhalf : ulp prec q / 2 ≤ q * (2 ^ (prec : ℤ))⁻¹ := by
      rw [le_mul_inv_iff₀ hpow]
      have hle := ulp_mul_le prec hpos
      linarith
    calc |roundTo prec q - q|
        = |roundEven (q / ulp prec q) - q / ulp prec q| * ulp prec q := by
          rw [hsplit, abs_mul, abs_of_pos hulp]
      _ ≤ 1 / 2 * ulp prec q := by gcongr
      _ ≤ q * (2 ^ (prec : ℤ))⁻¹ := by linarith

/-- A rounded value exceeds the exact one by the relative error at most. -/
theorem roundTo_le (prec : ℕ) {q r : ℚ} (hq : 0 ≤ q) (hr : q ≤ r) :
    roundTo prec q ≤ r * (1 + (2 ^ (prec : ℤ))⁻¹) := by
  have herr := (abs_le.mp (roundTo_sub_le prec hq)).2
  have hinv : (0 : ℚ) ≤ (2 ^ (prec : ℤ))⁻¹ := by positivity
  have hscale := mul_le_mul_of_nonneg_right hr hinv
  linarith

/-- A rounded value falls below the exact one by the relative error at most. -/
theorem le_roundTo (prec : ℕ) {q r : ℚ} (hq : 0 ≤ q) (hr : r ≤ q) :
    r * (1 - (2 ^ (prec : ℤ))⁻¹) ≤ roundTo prec q := by
  have herr := (abs_le.mp (roundTo_sub_le prec hq)).1
  have hinv : (2 ^ (prec : ℤ) : ℚ)⁻¹ ≤ 1 := by
    rw [zpow_natCast]
    exact inv_le_one_of_one_le₀ (one_le_pow₀ (by norm_num))
  have hscale := mul_le_mul_of_nonneg_right hr (sub_nonneg.mpr hinv)
  linarith

end Round
