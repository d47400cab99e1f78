import KANet.Lib.DecimalText
import Mathlib.Data.Int.Log
import Mathlib.Data.Rat.Floor
import Mathlib.Tactic.Linarith
import Mathlib.Tactic.NormNum

/-!
# Machine numbers

The double nearest to a rational, the even one where two are as near; too large a number is none.

A number with at most six digits after its point and not much more than fifteen in all keeps its
place among the integers when it is rounded, since half a unit in its last place is less than its
last digit.

* `lt_double_iff`, `double_lt_iff` — the place among the integers is kept.
-/

namespace KANet.Lib.Double

/-- The nearest integer, the even one of two. -/
def roundEven (y : ℚ) : ℤ :=
  if y - ⌊y⌋ < 1 / 2 then ⌊y⌋
  else if 1 / 2 < y - ⌊y⌋ then ⌊y⌋ + 1
  else if ⌊y⌋ % 2 = 0 then ⌊y⌋
  else ⌊y⌋ + 1

/-- The exponent, at least that of the smallest normal number. -/
def exponent (x : ℚ) : ℤ := max (Int.log 2 |x|) (-1022)

/-- A unit in the last place. -/
def ulp (x : ℚ) : ℚ := 2 ^ (exponent x - 52)

def double (x : ℚ) : ℚ := roundEven (x / ulp x) * ulp x

/-- The double, unless it is infinite. -/
def finite (x : ℚ) : Option ℚ := if |double x| < 2 ^ 1024 then some (double x) else none

theorem abs_roundEven_sub_le (y : ℚ) : |(roundEven y : ℚ) - y| ≤ 1 / 2 := by
  have hle := Int.floor_le y
  have hlt := Int.lt_floor_add_one y
  unfold roundEven
  split
  · next h =>
    rw [abs_sub_comm, abs_of_nonneg (by linarith)]
    exact h.le
  · split
    · next h =>
      push_cast
      rw [abs_of_nonneg (by linarith)]
      linarith
    · split
      · next h _ =>
        rw [abs_sub_comm, abs_of_nonneg (by linarith)]
        exact not_lt.mp h
      · next h h' _ =>
        push_cast
        rw [abs_of_nonneg (by linarith)]
        linarith [not_lt.mp h]

theorem ulp_pos (x : ℚ) : 0 < ulp x := zpow_pos (by norm_num) _

theorem abs_double_sub_le (x : ℚ) : |double x - x| ≤ ulp x / 2 := by
  have hpos := ulp_pos x
  have hx : x = x / ulp x * ulp x := (div_mul_cancel₀ x hpos.ne').symm
  have hround := abs_roundEven_sub_le (x / ulp x)
  calc |double x - x|
      = |(roundEven (x / ulp x) - x / ulp x) * ulp x| := by
        unfold double
        rw [sub_mul, ← hx]
    _ = |(roundEven (x / ulp x) : ℚ) - x / ulp x| * ulp x := by
        rw [abs_mul, abs_of_pos hpos]
    _ ≤ 1 / 2 * ulp x := mul_le_mul_of_nonneg_right hround hpos.le
    _ = ulp x / 2 := by ring

section

/-! ### Decimals -/

variable {m : ℤ} {s : ℕ}

theorem ulp_lt (hm : |m| < 2 ^ 53) (hs : s ≤ 6) (hne : m ≠ 0) :
    ulp ((m : ℚ) / 10 ^ s) < 2 / 10 ^ s := by
  have hten : (0 : ℚ) < 10 ^ s := by positivity
  have hten_le : (10 : ℚ) ^ s ≤ 10 ^ 6 := pow_le_pow_right₀ (by norm_num) hs
  have habs : (0 : ℚ) < |(m : ℚ) / 10 ^ s| := by
    rw [abs_pos]
    exact div_ne_zero (Int.cast_ne_zero.mpr hne) hten.ne'
  have hmag : |(m : ℚ) / 10 ^ s| < 2 ^ 53 / 10 ^ s := by
    rw [abs_div, abs_of_pos hten]
    refine div_lt_div_of_pos_right ?_ hten
    exact_mod_cast hm
  unfold ulp exponent
  rcases le_total (Int.log 2 |(m : ℚ) / 10 ^ s|) (-1022) with hlog | hlog
  · rw [max_eq_right hlog]
    calc (2 : ℚ) ^ (-1022 - 52 : ℤ) ≤ 2 ^ (-20 : ℤ) := by
          exact zpow_le_zpow_right₀ (by norm_num) (by norm_num)
      _ < 2 / 10 ^ 6 := by norm_num
      _ ≤ 2 / 10 ^ s := div_le_div_of_nonneg_left (by norm_num) hten hten_le
  · rw [max_eq_left hlog, zpow_sub₀ (by norm_num)]
    have hself := Int.zpow_log_le_self (b := 2) one_lt_two habs
    rw [Nat.cast_ofNat] at hself
    calc (2 : ℚ) ^ Int.log 2 |(m : ℚ) / 10 ^ s| / 2 ^ (52 : ℤ)
        ≤ |(m : ℚ) / 10 ^ s| / 2 ^ (52 : ℤ) := div_le_div_of_nonneg_right hself (by positivity)
      _ < 2 ^ 53 / 10 ^ s / 2 ^ (52 : ℤ) := div_lt_div_of_pos_right hmag (by positivity)
      _ = 2 / 10 ^ s := by
        rw [div_right_comm]
        norm_num

/-- A decimal is at least its last digit away from an integer that it is not. -/
theorem le_abs_sub {n : ℤ} (hne : (m : ℚ) / 10 ^ s ≠ n) : 1 / 10 ^ s ≤ |(m : ℚ) / 10 ^ s - n| := by
  have hten : (0 : ℚ) < 10 ^ s := by positivity
  have hdiff : m - n * 10 ^ s ≠ 0 := by
    intro h
    apply hne
    rw [div_eq_iff hten.ne']
    exact_mod_cast sub_eq_zero.mp h
  have hone : (1 : ℚ) ≤ |(m : ℚ) - n * 10 ^ s| := by
    exact_mod_cast Int.one_le_abs hdiff
  have heq : (m : ℚ) / 10 ^ s - n = (m - n * 10 ^ s) / 10 ^ s := by
    field_simp
  rw [heq, abs_div, abs_of_pos hten]
  exact div_le_div_of_nonneg_right hone hten.le

theorem abs_double_sub_lt (hm : |m| < 2 ^ 53) (hs : s ≤ 6) (hne : m ≠ 0) :
    |double ((m : ℚ) / 10 ^ s) - (m : ℚ) / 10 ^ s| < 1 / 10 ^ s := by
  have hround := abs_double_sub_le ((m : ℚ) / 10 ^ s)
  have hulp := ulp_lt hm hs hne
  have heq : (2 : ℚ) / 10 ^ s = 1 / 10 ^ s + 1 / 10 ^ s := by ring
  linarith

/-- **The place among the integers is kept**. -/
theorem lt_double_iff (hm : |m| < 2 ^ 53) (hs : s ≤ 6) (hint : ∀ n : ℤ, (m : ℚ) / 10 ^ s ≠ n)
    (n : ℤ) : (n : ℚ) < double ((m : ℚ) / 10 ^ s) ↔ (n : ℚ) < (m : ℚ) / 10 ^ s := by
  have hne : m ≠ 0 := by
    rintro rfl
    apply hint 0
    simp
  have hround := abs_lt.mp (abs_double_sub_lt hm hs hne)
  have haway := le_abs_sub (hint n)
  rcases le_abs.mp haway with h | h
  · constructor
    · intro _
      have hpos : (0 : ℚ) < 1 / 10 ^ s := by positivity
      linarith
    · intro _
      linarith [hround.1]
  · constructor
    · intro hlt
      linarith [hround.2]
    · intro hlt
      have hpos : (0 : ℚ) < 1 / 10 ^ s := by positivity
      linarith

theorem double_lt_iff (hm : |m| < 2 ^ 53) (hs : s ≤ 6) (hint : ∀ n : ℤ, (m : ℚ) / 10 ^ s ≠ n)
    (n : ℤ) : double ((m : ℚ) / 10 ^ s) < n ↔ (m : ℚ) / 10 ^ s < n := by
  have hne : m ≠ 0 := by
    rintro rfl
    apply hint 0
    simp
  have hround := abs_lt.mp (abs_double_sub_lt hm hs hne)
  rcases le_abs.mp (le_abs_sub (hint n)) with h | h
  · constructor
    · intro hlt
      linarith [hround.1]
    · intro hlt
      have hpos : (0 : ℚ) < 1 / 10 ^ s := by positivity
      linarith
  · constructor
    · intro _
      have hpos : (0 : ℚ) < 1 / 10 ^ s := by positivity
      linarith
    · intro _
      linarith [hround.2]

end

end KANet.Lib.Double
