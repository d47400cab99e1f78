import Mathlib.Algebra.BigOperators.Group.List.Basic
import Mathlib.Algebra.Order.Ring.Int
import Mathlib.Data.List.Nodup
import Mathlib.Data.List.Perm.Basic

/-!
# Weighted draws

Items with integer weights are laid side by side.  A number below the total weight falls on one of
them, which is drawn and taken out before the next draw.

* `exists_hitIdx` — a number below the total falls on an item.
* `hitIdx_start` — there is a number for each item.
* `draws_spec` — as many draws as there are items leave a part of the list.
-/

namespace KANet.Lib.Sampling

variable {α : Type} (w : α → ℤ)

def total (l : List α) : ℤ := (l.map w).sum

/-- The place of the item that `hit` falls on, where the first of the list starts at `cum`. -/
def hitIdx (hit : ℤ) : ℤ → List α → Option ℕ
  | _, [] => none
  | cum, x :: l => if hit < cum + w x then some 0 else (hitIdx hit (cum + w x) l).map (· + 1)

/-- `n` draws, the `i`-th from the number `rand i`. -/
def draws (rand : ℕ → ℤ) : ℕ → ℕ → List α → Option (List α)
  | _, 0, _ => some []
  | i, n + 1, l => do
    let j ← hitIdx w (rand i % total w l) 0 l
    let x ← l[j]?
    let rest ← draws rand (i + 1) n (l.eraseIdx j)
    some (x :: rest)

variable {w}

@[simp] theorem total_nil : total w [] = 0 := rfl

@[simp] theorem total_cons (x : α) (l : List α) : total w (x :: l) = w x + total w l :=
  List.sum_cons

theorem total_append (l l' : List α) : total w (l ++ l') = total w l + total w l' := by
  unfold total
  rw [List.map_append, List.sum_append]

theorem total_nonneg {l : List α} (h : ∀ x ∈ l, 0 < w x) : 0 ≤ total w l := by
  induction l with
  | nil => exact le_refl 0
  | cons x l ih =>
    have hx := h x List.mem_cons_self
    have hl := ih fun y hy => h y (List.mem_cons_of_mem x hy)
    rw [total_cons]
    omega

theorem total_pos {l : List α} (h : ∀ x ∈ l, 0 < w x) (hne : l ≠ []) : 0 < total w l := by
  cases l with
  | nil => exact absurd rfl hne
  | cons x l =>
    have hx := h x List.mem_cons_self
    have hl := total_nonneg fun y hy => h y (List.mem_cons_of_mem x hy)
    rw [total_cons]
    omega

theorem hitIdx_lt {hit cum : ℤ} {l : List α} {j : ℕ} (h : hitIdx w hit cum l = some j) :
    j < l.length := by
  induction l generalizing cum j with
  | nil => cases h
  | cons x l ih =>
    unfold hitIdx at h
    split at h
    · obtain rfl := Option.some.inj h
      exact Nat.zero_lt_succ _
    · obtain ⟨k, hk, rfl⟩ := Option.map_eq_some_iff.mp h
      exact Nat.succ_lt_succ (ih hk)

/-- **A number below the total falls on an item.** -/
theorem exists_hitIdx {hit cum : ℤ} {l : List α} (hge : cum ≤ hit) (hlt : hit < cum + total w l) :
    ∃ j, hitIdx w hit cum l = some j := by
  induction l generalizing cum with
  | nil =>
    rw [total_nil] at hlt
    omega
  | cons x l ih =>
    unfold hitIdx
    split
    · exact ⟨0, rfl⟩
    · next hx =>
      rw [total_cons] at hlt
      obtain ⟨j, hj⟩ := ih (not_lt.mp hx) (by omega)
      exact ⟨j + 1, by rw [hj]; rfl⟩

/-- **Where an item starts, the number falls on it.** -/
theorem hitIdx_start {cum : ℤ} {pre post : List α} {x : α} (h : ∀ y ∈ pre, 0 < w y)
    (hx : 0 < w x) : hitIdx w (cum + total w pre) cum (pre ++ x :: post) = some pre.length := by
  induction pre generalizing cum with
  | nil =>
    rw [List.nil_append, hitIdx, if_pos (by rw [total_nil]; omega)]
    rfl
  | cons y pre ih =>
    have hpre : ∀ z ∈ pre, 0 < w z := fun z hz => h z (List.mem_cons_of_mem y hz)
    have hnonneg := total_nonneg hpre
    have hstart : cum + total w (y :: pre) = cum + w y + total w pre := by
      rw [total_cons]
      omega
    rw [List.cons_append, hitIdx, if_neg (by rw [total_cons]; omega), hstart, ih hpre]
    rfl

/-- The draw of an item, from the number where it starts. -/
theorem draws_start {rand : ℕ → ℤ} {i : ℕ} {pre post : List α} {x : α}
    (h : ∀ y ∈ pre ++ x :: post, 0 < w y) (hrand : rand i = total w pre) (n : ℕ) :
    draws w rand i (n + 1) (pre ++ x :: post) =
      (draws w rand (i + 1) n (pre ++ post)).map (x :: ·) := by
  have hpre : ∀ y ∈ pre, 0 < w y := fun y hy => h y (List.mem_append_left _ hy)
  have hx : 0 < w x := h x (by simp)
  have hpost : ∀ y ∈ post, 0 < w y := fun y hy => h y (by simp [hy])
  have hmod : rand i % total w (pre ++ x :: post) = 0 + total w pre := by
    have hge := total_nonneg hpre
    have hge' := total_nonneg hpost
    rw [hrand, zero_add, total_append, total_cons]
    exact Int.emod_eq_of_lt hge (by omega)
  have hget : (pre ++ x :: post)[pre.length]? = some x := by simp
  have herase : (pre ++ x :: post).eraseIdx pre.length = pre ++ post := by
    rw [List.eraseIdx_append_of_length_le (le_refl _), Nat.sub_self]
    rfl
  rw [draws, hmod, hitIdx_start hpre hx]
  simp only [Option.bind_eq_bind, Option.bind_some, hget, herase]
  cases draws w rand (i + 1) n (pre ++ post) <;> rfl

/-- **The draws leave a part of the list.** -/
theorem draws_spec (rand : ℕ → ℤ) {l : List α} (h : ∀ x ∈ l, 0 < w x) (i : ℕ) {n : ℕ}
    (hn : n ≤ l.length) :
    ∃ sel rest, draws w rand i n l = some sel ∧ sel.length = n ∧ l.Perm (sel ++ rest) := by
  induction n generalizing i l with
  | zero => exact ⟨[], l, rfl, rfl, .refl l⟩
  | succ n ih =>
    have hne : l ≠ [] := List.ne_nil_of_length_pos (by omega)
    have hpos := total_pos h hne
    obtain ⟨j, hj⟩ := exists_hitIdx (w := w) (l := l) (Int.emod_nonneg (rand i) hpos.ne')
      (by rw [zero_add]; exact Int.emod_lt_of_pos (rand i) hpos)
    have hlt := hitIdx_lt hj
    obtain ⟨sel, rest, hsel, hlen, hperm⟩ := ih (l := l.eraseIdx j)
      (fun x hx => h x (List.mem_of_mem_eraseIdx hx)) (i + 1)
      (by rw [List.length_eraseIdx_of_lt hlt]; omega)
    refine ⟨l[j] :: sel, rest, ?_, by rw [List.length_cons, hlen], ?_⟩
    · simp [draws, hj, hlt, hsel]
    · exact (List.getElem_cons_eraseIdx_perm hlt).symm.trans (hperm.cons l[j])

end KANet.Lib.Sampling
