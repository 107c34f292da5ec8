import Mathlib.Data.Int.Log
import Mathlib.Data.Rat.Floor
import Mathlib.Tactic.Linarith
import Mathlib.Tactic.FieldSimp

/-!
# Rounding to a double

An operation on doubles gives the double nearest to the exact result, the one
with an even significand where there are two.  `roundDouble` is that rounding
for positive rationals within the range of normal numbers; the exponent is not
bounded.

* `abs_roundDouble_sub_le`: the relative error is at most `2 ^ -53`;
* `roundDouble_natCast`: whole numbers below `2 ^ 53` are doubles.
-/

namespace DoubleRounding

/-- The nearest integer, the even one of two. -/
def roundEven (x : ℚ) : ℤ :=
  if x - ⌊x⌋ < 1 / 2 then ⌊x⌋
  else if 1 / 2 < x - ⌊x⌋ then ⌊x⌋ + 1
  else if ⌊x⌋ % 2 = 0 then ⌊x⌋
  else ⌊x⌋ + 1

/-- The distance of neighbouring doubles around `q`: the significand has 53 bits. -/
def ulp (q : ℚ) : ℚ := 2 ^ (Int.log 2 q - 52)

/-- The double nearest to `q`. -/
def roundDouble (q : ℚ) : ℚ := if q = 0 then 0 else roundEven (q / ulp q) * ulp q

theorem abs_roundEven_sub_le (x : ℚ) : |(roundEven x : ℚ) - x| ≤ 1 / 2 := by
  have h₀ := Int.floor_le x
  have h₁ := Int.lt_floor_add_one x
  rw [roundEven, abs_le]
  split_ifs with h h' h''
  · constructor <;> linarith
  · push_cast
    constructor <;> linarith
  · constructor <;> linarith
  · push_cast
    constructor <;> linarith

theorem roundEven_intCast (n : ℤ) : roundEven n = n := by
  rw [roundEven, Int.floor_intCast, if_pos (by norm_num)]

theorem ulp_pos (q : ℚ) : 0 < ulp q := zpow_pos (by norm_num) _

theorem ulp_le {q : ℚ} (h : 0 < q) : ulp q ≤ q / 2 ^ 52 := by
  have hlog : (2 : ℚ) ^ Int.log 2 q ≤ q := Int.zpow_log_le_self (by norm_num) h
  rw [ulp, zpow_sub₀ (by norm_num)]
  have h52 : (2 : ℚ) ^ (52 : ℤ) = 2 ^ 52 := by norm_num
  rw [h52]
  gcongr

/-- The relative error of a rounding. -/
theorem abs_roundDouble_sub_le {q : ℚ} (h : 0 < q) : |roundDouble q - q| ≤ q / 2 ^ 53 := by
  have hu := ulp_pos q
  have hcancel : q = q / ulp q * ulp q := (div_mul_cancel₀ q (ne_of_gt hu)).symm
  calc |roundDouble q - q|
      = |(roundEven (q / ulp q) : ℚ) - q / ulp q| * ulp q := by
        rw [roundDouble, if_neg (ne_of_gt h), ← abs_of_pos hu, ← abs_mul, abs_of_pos hu, sub_mul,
          ← hcancel]
    _ ≤ 1 / 2 * ulp q := by gcongr; exact abs_roundEven_sub_le _
    _ ≤ 1 / 2 * (q / 2 ^ 52) := by gcongr; exact ulp_le h
    _ = q / 2 ^ 53 := by ring

theorem roundDouble_zero : roundDouble 0 = 0 := if_pos rfl

/-- Whole numbers below `2 ^ 53` are doubles. -/
theorem roundDouble_natCast {n : ℕ} (h : n < 2 ^ 53) : roundDouble n = n := by
  by_cases h0 : n = 0
  · rw [h0, Nat.cast_zero, roundDouble_zero]
  · have hlog : Int.log 2 (n : ℚ) ≤ 52 := by
      rw [Int.log_natCast]
      have := Nat.log_lt_of_lt_pow h0 h
      omega
    -- the unit in the last place divides one
    obtain ⟨k, hk⟩ : ∃ k : ℕ, Int.log 2 (n : ℚ) - 52 = -k := ⟨(52 - Int.log 2 (n : ℚ)).toNat, by omega⟩
    have hulp : ulp n = ((2 : ℚ) ^ k)⁻¹ := by rw [ulp, hk, zpow_neg, zpow_natCast]
    have hint : (n : ℚ) / ulp n = ((n * 2 ^ k : ℕ) : ℤ) := by
      rw [hulp, div_inv_eq_mul]
      push_cast
      rfl
    rw [roundDouble, if_neg (by exact_mod_cast h0), hint, roundEven_intCast, hulp]
    push_cast
    exact mul_inv_cancel_right₀ (by positivity) _

end DoubleRounding
