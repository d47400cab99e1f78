import Mathlib.Algebra.BigOperators.Group.List.Basic
import Mathlib.Algebra.Order.BigOperators.Group.List
import Mathlib.Tactic.Linarith
import Mathlib.Tactic.Ring

/-!
# Rounded shares

An amount `d` is shared among weights, `w` of a total `t` being worth `w * d / t`, rounded
down.  Everything follows from summing the division with remainder over the weights
(`mul_sum_floors`): the shares together are worth at most the share of all the weights
together (`sum_floors_le`), and what rounding leaves of `d` is less than one for each
weight (`sub_sum_floors_lt`).
-/

namespace KANet.Lib.ProRata

/-- The share of each weight. -/
def floors (d t : Int) (ws : List Int) : List Int := ws.map fun w => w * d / t

/-- What rounding takes from each weight, in parts of `t`. -/
def remainders (d t : Int) (ws : List Int) : List Int := ws.map fun w => w * d % t

theorem mul_sum_floors (d t : Int) (ws : List Int) :
    t * (floors d t ws).sum + (remainders d t ws).sum = ws.sum * d := by
  induction ws with
  | nil => simp [floors, remainders]
  | cons w ws ih =>
    have hw := Int.mul_ediv_add_emod (w * d) t
    simp only [floors, remainders, List.map_cons, List.sum_cons] at ih ⊢
    linarith

theorem remainders_bounds {d t : Int} (ht : 0 < t) (ws : List Int) :
    0 ≤ (remainders d t ws).sum ∧ (remainders d t ws).sum ≤ ws.length * (t - 1) := by
  induction ws with
  | nil => simp [remainders]
  | cons w ws ih =>
    obtain ⟨hlo, hhi⟩ := ih
    have h₀ := Int.emod_nonneg (w * d) ht.ne'
    have h₁ := Int.emod_lt_of_pos (w * d) ht
    simp only [remainders, List.map_cons, List.sum_cons, List.length_cons, Nat.cast_add,
      Nat.cast_one] at hlo hhi ⊢
    exact ⟨by linarith, by linarith⟩

/-- **Shares rounded one by one** are worth at most the share of all the weights. -/
theorem sum_floors_le {d t : Int} (ht : 0 < t) (ws : List Int) :
    (floors d t ws).sum ≤ ws.sum * d / t := by
  have hsum := mul_sum_floors d t ws
  have hrem := (remainders_bounds (d := d) ht ws).1
  apply Int.le_ediv_of_mul_le ht
  linarith

/-- What is left of `d` is nothing that was not there. -/
theorem sum_floors_le_self {d t : Int} {ws : List Int} (ht : 0 < t) (hsum : ws.sum = t) :
    (floors d t ws).sum ≤ d := by
  have h := sum_floors_le (d := d) ht ws
  rwa [hsum, Int.mul_ediv_cancel_left d ht.ne'] at h

/-- **Rounding leaves less than one for each weight.** -/
theorem sub_sum_floors_lt {d t : Int} {ws : List Int} (ht : 0 < t) (hsum : ws.sum = t)
    (hne : ws ≠ []) : d - (floors d t ws).sum < ws.length := by
  have hfl := mul_sum_floors d t ws
  have hrem := (remainders_bounds (d := d) ht ws).2
  have hlen : (0 : Int) < ws.length := by
    exact_mod_cast List.length_pos_iff.mpr hne
  by_contra hge
  have hmul : t * (ws.length : Int) ≤ t * (d - (floors d t ws).sum) :=
    mul_le_mul_of_nonneg_left (not_lt.mp hge) ht.le
  rw [hsum] at hfl
  linarith

/-- What the others leave of `d` is something, if there is anything: a share rounded down leaves
the rest of its weight. -/
theorem sub_sum_floors_pos {d t w : Int} {ws : List Int} (hw : 0 < w) (hws : 0 ≤ ws.sum)
    (hd : 0 < d) (ht : w + ws.sum = t) : 0 < d - (floors d t ws).sum := by
  have htpos : 0 < t := by omega
  have hle := sum_floors_le (d := d) htpos ws
  have hlt : ws.sum * d / t < d := by
    apply Int.ediv_lt_of_lt_mul htpos
    rw [mul_comm d t]
    exact mul_lt_mul_of_pos_right (by omega) hd
  omega

end KANet.Lib.ProRata
