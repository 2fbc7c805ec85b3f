import Mathlib.Data.Int.Log
import Mathlib.Algebra.Order.Floor.Ring
import Mathlib.Data.Rat.Floor
import Mathlib.Tactic.Linarith
import Mathlib.Tactic.FieldSimp
import Mathlib.Tactic.Ring

/-!
# Rounding to a `double`

A rational becomes the nearest number with 53 binary digits, the even one of two
that are as near. No number here is so large or so small that its exponent does
not fit.

* `toDouble_error`: the relative error;
* `toDouble_mono`: rounding keeps the order.
-/

namespace TiojJudge.Double

/-- The nearest integer, the even one in the middle of two. -/
def roundEven (x : ℚ) : ℤ :=
  if 2 * Int.fract x < 1 then ⌊x⌋
  else if 1 < 2 * Int.fract x then ⌊x⌋ + 1
  else ⌊x⌋ + ⌊x⌋ % 2

/-- The distance of the numbers with 53 digits around `x`. -/
def unit (x : ℚ) : ℚ := 2 ^ (Int.log 2 x - 52)

/-- For numbers that are not negative. -/
def toDouble (x : ℚ) : ℚ := roundEven (x / unit x) * unit x

variable {x y : ℚ}

theorem roundEven_intCast (n : ℤ) : roundEven n = n := by
  simp [roundEven]

theorem roundEven_error (x : ℚ) : |roundEven x - x| ≤ 1 / 2 := by
  have whole := Int.floor_add_fract x
  have low := Int.fract_nonneg x
  have high := Int.fract_lt_one x
  rw [abs_le, roundEven]
  split_ifs with below above
  · constructor <;> linarith
  · push_cast
    constructor <;> linarith
  · have half : 2 * Int.fract x = 1 := le_antisymm (not_lt.mp above) (not_lt.mp below)
    rcases Int.emod_two_eq ⌊x⌋ with even | odd
    · rw [even]
      push_cast
      constructor <;> linarith
    · rw [odd]
      push_cast
      constructor <;> linarith

theorem roundEven_mono (h : x ≤ y) : roundEven x ≤ roundEven y := by
  have bounds (x : ℚ) : ⌊x⌋ ≤ roundEven x ∧ roundEven x ≤ ⌊x⌋ + 1 := by
    unfold roundEven
    split_ifs <;> omega
  have floors : ⌊x⌋ ≤ ⌊y⌋ := Int.floor_le_floor h
  rcases floors.lt_or_eq with less | same
  · have below := (bounds x).2
    have above := (bounds y).1
    omega
  · have fracts : Int.fract x ≤ Int.fract y := by
      rw [Int.fract, Int.fract, same]
      linarith
    unfold roundEven
    rw [same]
    have parity := Int.emod_two_eq ⌊y⌋
    split_ifs <;> first | omega | (exfalso; linarith)

theorem unit_pos (x : ℚ) : 0 < unit x := zpow_pos two_pos _

theorem unit_digits (pos : 0 < x) : 2 ^ 52 * unit x ≤ x ∧ x < 2 ^ 53 * unit x := by
  have low : (2 : ℚ) ^ Int.log 2 x ≤ x := Int.zpow_log_le_self one_lt_two pos
  have high : x < (2 : ℚ) ^ (Int.log 2 x + 1) := Int.lt_zpow_succ_log_self one_lt_two x
  have shifted (n : ℕ) : (2 : ℚ) ^ n * unit x = 2 ^ (n + (Int.log 2 x - 52)) := by
    rw [zpow_add₀ two_ne_zero, zpow_natCast, unit]
  rw [shifted, shifted]
  constructor
  · convert low using 2
    push_cast
    ring
  · convert high using 2
    push_cast
    ring

theorem toDouble_zero : toDouble 0 = 0 := by
  have zero : roundEven 0 = 0 := roundEven_intCast 0
  rw [toDouble, zero_div, zero, Int.cast_zero, zero_mul]

theorem toDouble_error (pos : 0 ≤ x) : |toDouble x - x| ≤ x / 2 ^ 53 := by
  rcases pos.lt_or_eq with pos | rfl
  · have scale : toDouble x - x = (roundEven (x / unit x) - x / unit x) * unit x := by
      rw [toDouble, sub_mul, div_mul_cancel₀ _ (unit_pos x).ne']
    have near := mul_le_mul_of_nonneg_right (roundEven_error (x / unit x)) (unit_pos x).le
    have digits := (unit_digits pos).1
    rw [scale, abs_mul, abs_of_pos (unit_pos x), le_div_iff₀ (by norm_num)]
    linarith
  · rw [toDouble_zero]
    simp

theorem toDouble_nonneg (pos : 0 ≤ x) : 0 ≤ toDouble x := by
  have rounded := roundEven_mono (div_nonneg pos (unit_pos x).le)
  rw [← Int.cast_zero, roundEven_intCast] at rounded
  exact mul_nonneg (by exact_mod_cast rounded) (unit_pos x).le

theorem toDouble_mono (pos : 0 ≤ x) (h : x ≤ y) : toDouble x ≤ toDouble y := by
  rcases pos.lt_or_eq with pos | rfl
  · have logs : Int.log 2 x ≤ Int.log 2 y := Int.log_mono_right pos h
    rcases logs.lt_or_eq with less | same
    · -- a power of two lies between them
      have units : 2 * unit x ≤ unit y := by
        have shifted : 2 * unit x = (2 : ℚ) ^ (1 + (Int.log 2 x - 52)) := by
          rw [zpow_add₀ two_ne_zero, zpow_one, unit]
        rw [shifted, unit]
        exact zpow_le_zpow_right₀ one_le_two (by omega)
      have above : roundEven (x / unit x) ≤ 2 ^ 53 := by
        have quotient : x / unit x ≤ ((2 ^ 53 : ℤ) : ℚ) := by
          rw [div_le_iff₀ (unit_pos x)]
          exact_mod_cast (unit_digits pos).2.le
        exact (roundEven_mono quotient).trans (roundEven_intCast _).le
      have below : 2 ^ 52 ≤ roundEven (y / unit y) := by
        have quotient : ((2 ^ 52 : ℤ) : ℚ) ≤ y / unit y := by
          rw [le_div_iff₀ (unit_pos y)]
          exact_mod_cast (unit_digits (pos.trans_le h)).1
        exact (roundEven_intCast _).symm.le.trans (roundEven_mono quotient)
      have above : (roundEven (x / unit x) : ℚ) ≤ 2 ^ 53 := by exact_mod_cast above
      have below : (2 ^ 52 : ℚ) ≤ roundEven (y / unit y) := by exact_mod_cast below
      calc toDouble x ≤ 2 ^ 53 * unit x := mul_le_mul_of_nonneg_right above (unit_pos x).le
        _ = 2 ^ 52 * (2 * unit x) := by ring
        _ ≤ 2 ^ 52 * unit y := mul_le_mul_of_nonneg_left units (by positivity)
        _ ≤ toDouble y := mul_le_mul_of_nonneg_right below (unit_pos y).le
    · have units : unit x = unit y := by rw [unit, unit, same]
      have rounded := roundEven_mono (div_le_div_of_nonneg_right h (unit_pos y).le)
      rw [toDouble, toDouble, units]
      exact mul_le_mul_of_nonneg_right (by exact_mod_cast rounded) (unit_pos y).le
  · rw [toDouble_zero]
    exact toDouble_nonneg h

end TiojJudge.Double
