import Mathlib.Algebra.Order.Group.Nat

/-!
# Taking as many as will do

`extend ok k m` counts on from `k`, by at most `m`, as long as the next number is `ok`.

* `ok_of_le_extend` — every number it passed was.
* `not_ok_extend` — it stops at the bound, or before a number that is not.
-/

namespace KANet.Lib

/-- The last of `k, k + 1, …, k + m` that is reached by numbers that are `ok`. -/
def extend (ok : Nat → Bool) : Nat → Nat → Nat
  | k, 0 => k
  | k, m + 1 => if ok (k + 1) then extend ok (k + 1) m else k

variable {ok : Nat → Bool}

theorem extend_le (k m : Nat) : extend ok k m ≤ k + m := by
  induction m generalizing k with
  | zero => exact le_rfl
  | succ m ih =>
    rw [extend]
    split
    · have h := ih (k + 1)
      omega
    · exact Nat.le_add_right k (m + 1)

theorem ok_of_le_extend {k m j : Nat} (hk : k < j) (hj : j ≤ extend ok k m) : ok j = true := by
  induction m generalizing k with
  | zero =>
    rw [extend] at hj
    omega
  | succ m ih =>
    rw [extend] at hj
    split at hj
    · next hok =>
      by_cases hjk : j = k + 1
      · rw [hjk]
        exact hok
      · exact ih (by omega) hj
    · omega

theorem not_ok_extend {k m : Nat} (h : extend ok k m < k + m) :
    ok (extend ok k m + 1) = false := by
  induction m generalizing k with
  | zero => exact absurd h (lt_irrefl _)
  | succ m ih =>
    rw [extend] at h ⊢
    split at h
    · next hok =>
      rw [if_pos hok]
      exact ih (by omega)
    · next hok =>
      rw [if_neg hok]
      exact eq_false_of_ne_true hok

end KANet.Lib
