import Mathlib.Data.Nat.Bitwise
import Mathlib.Tactic.Ring

/-!
# Setting a bit by adding its mask

A bitmap kept in integers, by code that has no bitwise operators, tests bit `b` of a
word as `(w / 2 ^ b) % 2` and sets it by adding `2 ^ b`.  Adding is setting only while
the bit is clear; then it changes that bit and no other, and no word outgrows its
width.

* `testBit_add_two_pow` — which bits are set afterwards.
* `add_two_pow_lt` — the word still fits.
-/

namespace KANet.Lib

theorem testBit_eq_false_iff {w b : Nat} : w.testBit b = false ↔ w / 2 ^ b % 2 = 0 := by
  rw [Nat.testBit_eq_decide_div_mod_eq]
  simp

theorem testBit_succ_of_even {q : Nat} (h : q % 2 = 0) (j : Nat) :
    (q + 1).testBit j = (decide (j = 0) || q.testBit j) := by
  cases j with
  | zero =>
    have : (q + 1) % 2 = 1 := by omega
    simp [this]
  | succ j =>
    have : (q + 1) / 2 = q / 2 := by omega
    rw [Nat.testBit_add_one, Nat.testBit_add_one, this]
    simp

/-- **Adding the mask of a clear bit sets that bit and changes no other.** -/
theorem testBit_add_two_pow {w b : Nat} (h : w / 2 ^ b % 2 = 0) (j : Nat) :
    (w + 2 ^ b).testBit j = (decide (j = b) || w.testBit j) := by
  have hr : w % 2 ^ b < 2 ^ b := Nat.mod_lt _ (Nat.two_pow_pos b)
  have hw : w = 2 ^ b * (w / 2 ^ b) + w % 2 ^ b := (Nat.div_add_mod _ _).symm
  have hsum : w + 2 ^ b = 2 ^ b * (w / 2 ^ b + 1) + w % 2 ^ b := by
    conv_lhs => rw [hw]
    ring
  rw [hsum, Nat.testBit_two_pow_mul_add _ hr]
  conv_rhs => rw [hw, Nat.testBit_two_pow_mul_add _ hr]
  by_cases hj : j < b
  · have hne : j ≠ b := by omega
    simp [hj, hne]
  · rw [if_neg hj, if_neg hj, testBit_succ_of_even h]
    congr 1
    simp only [decide_eq_decide]
    omega

theorem add_two_pow_lt {w b n : Nat} (hw : w < 2 ^ n) (hb : b < n) (h : w / 2 ^ b % 2 = 0) :
    w + 2 ^ b < 2 ^ n := by
  apply Nat.lt_pow_two_of_testBit
  intro i hi
  rw [testBit_add_two_pow h, Nat.testBit_lt_two_pow (lt_of_lt_of_le hw
    (Nat.pow_le_pow_right (by omega) hi))]
  have : i ≠ b := by omega
  simp [this]

end KANet.Lib
