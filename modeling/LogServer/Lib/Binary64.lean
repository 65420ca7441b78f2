import Mathlib

/-!
# Rounding to double precision

The nearest number of 53 significant binary digits, ties to even, for positive rationals in the range of
the normal numbers.  An operation of floating-point arithmetic is the exact operation, rounded.

Rounding is off by at most one part in 2 ^ 53 (`abs_round_sub_le`), and keeps small integers as they are
(`round_natCast`).
-/

namespace Binary64

/-- The nearest integer, ties to even. -/
def roundHalfEven (q : ℚ) : ℤ :=
  if Int.fract q < 1 / 2 then ⌊q⌋
  else if 1 / 2 < Int.fract q then ⌊q⌋ + 1
  else if ⌊q⌋ % 2 = 0 then ⌊q⌋ else ⌊q⌋ + 1

/-- The unit in the last place. -/
def ulp (x : ℚ) : ℚ := 2 ^ (Int.log 2 x - 52)

/-- The nearest number of 53 significant digits. -/
def round (x : ℚ) : ℚ := roundHalfEven (x / ulp x) * ulp x

variable {x : ℚ}

theorem ulp_pos : 0 < ulp x := zpow_pos (by norm_num) _

theorem ulp_le (hx : 0 < x) : ulp x ≤ x / 2 ^ 52 := by
  have hlog : (2 : ℚ) ^ Int.log 2 x ≤ x := by
    have h := Int.zpow_log_le_self (b := 2) Nat.one_lt_two hx
    exact_mod_cast h
  rw [ulp, zpow_sub₀ (by norm_num)]
  exact div_le_div_of_nonneg_right hlog (by norm_num)

theorem abs_roundHalfEven_sub_le (q : ℚ) : |(roundHalfEven q : ℚ) - q| ≤ 1 / 2 := by
  have hfloor : q = ⌊q⌋ + Int.fract q := (Int.floor_add_fract q).symm
  have hnonneg := Int.fract_nonneg q
  have hlt := Int.fract_lt_one q
  have hdown : 1 / 2 ≥ Int.fract q → |((⌊q⌋ : ℤ) : ℚ) - q| ≤ 1 / 2 := fun h ↦
    abs_le.mpr ⟨by linarith, by linarith⟩
  have hup : 1 / 2 ≤ Int.fract q → |((⌊q⌋ + 1 : ℤ) : ℚ) - q| ≤ 1 / 2 := fun h ↦ by
    push_cast
    exact abs_le.mpr ⟨by linarith, by linarith⟩
  unfold roundHalfEven
  split
  · exact hdown (le_of_lt ‹_›)
  · rename_i hhalf
    split
    · exact hup (le_of_lt ‹_›)
    · rename_i hhalf'
      split
      · exact hdown (not_lt.mp hhalf')
      · exact hup (not_lt.mp hhalf)

/-- **The error of rounding** is relative. -/
theorem abs_round_sub_le (hx : 0 < x) : |round x - x| ≤ x / 2 ^ 53 := by
  have hne : ulp x ≠ 0 := ulp_pos.ne'
  have hround : round x - x = ((roundHalfEven (x / ulp x) : ℚ) - x / ulp x) * ulp x := by
    rw [round, sub_mul, div_mul_cancel₀ _ hne]
  rw [hround, abs_mul, abs_of_pos ulp_pos]
  calc |(roundHalfEven (x / ulp x) : ℚ) - x / ulp x| * ulp x
      ≤ 1 / 2 * (x / 2 ^ 52) := mul_le_mul (abs_roundHalfEven_sub_le _) (ulp_le hx) ulp_pos.le
        (by norm_num)
    _ = x / 2 ^ 53 := by ring

/-- Rounding up is by at most one part in 2 ^ 53. -/
theorem round_le (hx : 0 < x) : round x ≤ x * (1 + 1 / 2 ^ 53) := by
  have h := (abs_le.mp (abs_round_sub_le hx)).2
  linarith

/-- Rounding down is by at most one part in 2 ^ 53. -/
theorem le_round (hx : 0 < x) : x * (1 - 1 / 2 ^ 53) ≤ round x := by
  have h := (abs_le.mp (abs_round_sub_le hx)).1
  linarith

theorem roundHalfEven_intCast (n : ℤ) : roundHalfEven n = n := by
  rw [roundHalfEven, Int.fract_intCast, if_pos (by norm_num), Int.floor_intCast]

/-- **An integer of at most 53 digits** is not rounded. -/
theorem round_natCast {n : ℕ} (hpos : 0 < n) (h : n < 2 ^ 53) : round n = n := by
  have hlog : Int.log 2 (n : ℚ) ≤ 52 := by
    rw [Int.log_natCast]
    exact_mod_cast Nat.lt_succ_iff.mp (Nat.log_lt_of_lt_pow hpos.ne' h)
  obtain ⟨k, hk⟩ := Int.eq_ofNat_of_zero_le (sub_nonneg.mpr hlog)
  have hulp : ulp (n : ℚ) = ((2 : ℚ) ^ k)⁻¹ := by
    rw [ulp, ← neg_sub, hk, zpow_neg]
    rfl
  have hint : (n : ℚ) / ulp n = ((n * 2 ^ k : ℤ) : ℚ) := by
    rw [hulp, div_inv_eq_mul]
    push_cast
    rfl
  rw [round, hint, roundHalfEven_intCast, ← hint, div_mul_cancel₀ _ ulp_pos.ne']

end Binary64
