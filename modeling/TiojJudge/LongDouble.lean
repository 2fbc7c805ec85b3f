import Mathlib.Algebra.Order.Ring.Abs
import TiojJudge.Numerals

/-!
# Arithmetic of a `long double`

Exact on the rationals, with the rules of IEEE for infinities and NaN.
-/

namespace TiojJudge.LongDouble

def sub : LongDouble → LongDouble → LongDouble
  | .nan, _ | _, .nan => .nan
  | .fin a, .fin b => .fin (a - b)
  | .inf s, .inf t => if s = t then .nan else .inf s
  | .inf s, .fin _ => .inf s
  | .fin _, .inf t => .inf (!t)

def fabs : LongDouble → LongDouble
  | .nan => .nan
  | .fin a => .fin |a|
  | .inf _ => .inf false

def mul : LongDouble → LongDouble → LongDouble
  | .nan, _ | _, .nan => .nan
  | .fin a, .fin b => .fin (a * b)
  | .inf s, .inf t => .inf (s ^^ t)
  | .inf s, .fin a | .fin a, .inf s => if a = 0 then .nan else .inf (s ^^ decide (a < 0))

/-- `a <= b`, which does not hold with NaN. -/
def le : LongDouble → LongDouble → Bool
  | .nan, _ | _, .nan => false
  | .fin a, .fin b => decide (a ≤ b)
  | .inf true, _ | _, .inf false => true
  | _, _ => false

/-- `a < b` -/
def lt : LongDouble → LongDouble → Bool
  | .nan, _ | _, .nan => false
  | a, b => !le b a

/-- `std::max` -/
def max (a b : LongDouble) : LongDouble := if lt a b then b else a

def isFinite : LongDouble → Bool
  | .fin _ => true
  | _ => false

/-- A number less itself is 0, if it is finite. -/
theorem fabs_sub_self (x : LongDouble) :
    fabs (sub x x) = if x.isFinite then .fin 0 else .nan := by
  cases x with
  | fin a => simp [sub, fabs, isFinite]
  | inf s => simp [sub, fabs, isFinite]
  | nan => rfl

/-- A product with a positive bound is not negative, but for 0 times infinity. -/
theorem zero_le_mul {t : LongDouble} {a : ℚ} (ht : le (.fin 0) t = true) (ha : 0 ≤ a) :
    le (.fin 0) (mul t (.fin a)) = true ↔ ¬ (t = .inf false ∧ a = 0) := by
  cases t with
  | fin b =>
    have hb : 0 ≤ b := of_decide_eq_true ht
    simp [mul, le, mul_nonneg hb ha]
  | inf s =>
    cases s with
    | true => cases ht
    | false =>
      by_cases zero : a = 0
      · simp [mul, zero, le]
      · have sign : decide (a < 0) = false := decide_eq_false (not_lt.mpr ha)
        simp [mul, zero, sign, le]
  | nan => cases ht

/-- The greater of 1 and a magnitude. -/
theorem max_one_fabs (a : ℚ) : ∃ b, max (.fin 1) (fabs (.fin a)) = .fin b ∧ 0 < b := by
  unfold max
  split
  · rename_i above
    refine ⟨|a|, rfl, ?_⟩
    have bound : 1 < |a| := by simpa [lt, fabs, le] using above
    exact zero_lt_one.trans bound
  · exact ⟨1, rfl, zero_lt_one⟩

end TiojJudge.LongDouble
