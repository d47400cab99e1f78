import Mathlib.Algebra.BigOperators.Group.Finset.Basic
import Mathlib.Algebra.Order.BigOperators.Group.Finset
import Mathlib.Tactic.Ring
import Mathlib.Tactic.Linarith

/-!
# Entries named more than once

A list of names points into a collection of values.  Added up name by name, a value is
counted as often as it is named; added up entry by entry, once.  The difference is what
is shared (`shared`), and whether a collection can pay for all the names in it is a
question of that difference and of the entries nobody names.

* `sum_map_eq` — by names is by entries, and the shared part.
* `sum_map_le_iff` — a collection covers its names when the entries not named cover
  what is shared.
* `shared_le_zero_iff` — nothing is shared when only worthless entries are.
-/

namespace KANet.Lib

universe u

variable {ι : Type u} [DecidableEq ι]

/-- What the entries named by `is` are counted for beyond the first time. -/
def shared (is : List ι) (f : ι → Int) : Int :=
  ∑ i ∈ is.toFinset, ((is.count i : Int) - 1) * f i

theorem sum_map_eq (is : List ι) (f : ι → Int) :
    (is.map f).sum = ∑ i ∈ is.toFinset, f i + shared is f := by
  rw [Finset.sum_list_map_count, shared, ← Finset.sum_add_distrib]
  refine Finset.sum_congr rfl fun i _ => ?_
  rw [nsmul_eq_mul]
  ring

/-- **A collection covers its names** when the entries nobody names cover what is shared. -/
theorem sum_map_le_iff {is : List ι} {f : ι → Int} {s : Finset ι} (h : is.toFinset ⊆ s) :
    (is.map f).sum ≤ ∑ i ∈ s, f i ↔ shared is f ≤ ∑ i ∈ s \ is.toFinset, f i := by
  have hsplit := Finset.sum_sdiff h (f := f)
  rw [sum_map_eq]
  constructor
  · intro hle
    linarith
  · intro hle
    linarith

theorem shared_term_nonneg {is : List ι} {f : ι → Int} (hf : ∀ i ∈ is, 0 ≤ f i) :
    ∀ i ∈ is.toFinset, 0 ≤ ((is.count i : Int) - 1) * f i := by
  intro i hi
  have hmem := List.mem_toFinset.mp hi
  have hcount : 0 < is.count i := List.count_pos_iff.mpr hmem
  exact mul_nonneg (by omega) (hf i hmem)

theorem shared_le_zero_iff {is : List ι} {f : ι → Int} (hf : ∀ i ∈ is, 0 ≤ f i) :
    shared is f ≤ 0 ↔ ∀ i, 2 ≤ is.count i → f i = 0 := by
  have hnn := shared_term_nonneg hf
  constructor
  · intro hle i hi
    have hmem : i ∈ is := List.count_pos_iff.mp (by omega)
    have hzero : shared is f = 0 := le_antisymm hle (Finset.sum_nonneg hnn)
    have hterm := (Finset.sum_eq_zero_iff_of_nonneg hnn).mp hzero i (List.mem_toFinset.mpr hmem)
    rcases mul_eq_zero.mp hterm with h | h
    · omega
    · exact h
  · intro hall
    refine (Finset.sum_eq_zero fun i hi => ?_).le
    by_cases h2 : 2 ≤ is.count i
    · rw [hall i h2, mul_zero]
    · have hcount : 0 < is.count i := List.count_pos_iff.mpr (List.mem_toFinset.mp hi)
      have : is.count i = 1 := by omega
      rw [this]
      ring

end KANet.Lib
