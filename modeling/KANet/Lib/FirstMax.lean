import Mathlib

/-!
# The first of the largest

What a loop keeps that replaces its best element only by a larger one.

* `firstMax_foldl` — the loop ends with the first of the largest elements.
* `FirstMax.unique` — there is only one.
-/

namespace KANet.Lib

universe u v

variable {α : Type u} {β : Type v} [LinearOrder β] {score : α → β} {xs : List α} {x y : α}

/-- Nothing before `x` scores as much, and nothing after it more. -/
def FirstMax (score : α → β) (xs : List α) (x : α) : Prop :=
  ∃ before after, xs = before ++ x :: after ∧ (∀ y ∈ before, score y < score x) ∧
    ∀ y ∈ after, score y ≤ score x

/-- The larger of two, and the first where they tie. -/
def larger (score : α → β) (best x : α) : α := if score best < score x then x else best

namespace FirstMax

theorem mem (h : FirstMax score xs x) : x ∈ xs := by
  obtain ⟨before, after, rfl, -, -⟩ := h
  exact List.mem_append_right _ List.mem_cons_self

theorem le (h : FirstMax score xs x) (hy : y ∈ xs) : score y ≤ score x := by
  obtain ⟨before, after, rfl, hbefore, hafter⟩ := h
  rw [List.mem_append, List.mem_cons] at hy
  rcases hy with hy | rfl | hy
  · exact (hbefore y hy).le
  · exact le_rfl
  · exact hafter y hy

/-- An element in front counts when it scores as much. -/
theorem cons_iff : FirstMax score (y :: xs) x ↔
    (x = y ∧ ∀ z ∈ xs, score z ≤ score y) ∨ (score y < score x ∧ FirstMax score xs x) := by
  constructor
  · rintro ⟨before, after, heq, hbefore, hafter⟩
    cases before with
    | nil =>
      obtain ⟨rfl, rfl⟩ := List.cons.inj heq
      exact Or.inl ⟨rfl, hafter⟩
    | cons b before =>
      obtain ⟨rfl, rfl⟩ := List.cons.inj heq
      rw [List.forall_mem_cons] at hbefore
      exact Or.inr ⟨hbefore.1, before, after, rfl, hbefore.2, hafter⟩
  · rintro (⟨rfl, hle⟩ | ⟨hlt, before, after, rfl, hbefore, hafter⟩)
    · exact ⟨[], xs, rfl, fun z hz => (List.not_mem_nil hz).elim, hle⟩
    · refine ⟨y :: before, after, rfl, ?_, hafter⟩
      rw [List.forall_mem_cons]
      exact ⟨hlt, hbefore⟩

theorem unique (hx : FirstMax score xs x) (hy : FirstMax score xs y) : x = y := by
  induction xs with
  | nil => exact absurd hx.mem List.not_mem_nil
  | cons z xs ih =>
    rcases cons_iff.mp hx with ⟨rfl, hle⟩ | ⟨hlt, hx'⟩
    · rcases cons_iff.mp hy with ⟨rfl, -⟩ | ⟨hlt, hy'⟩
      · rfl
      · exact absurd (hle y hy'.mem) hlt.not_ge
    · rcases cons_iff.mp hy with ⟨rfl, hle⟩ | ⟨-, hy'⟩
      · exact absurd (hle x hx'.mem) hlt.not_ge
      · exact ih hx' hy'

end FirstMax

/-- **The loop.** -/
theorem firstMax_foldl (score : α → β) (best : α) (xs : List α) :
    FirstMax score (best :: xs) (xs.foldl (larger score) best) := by
  induction xs generalizing best with
  | nil => exact FirstMax.cons_iff.mpr (Or.inl ⟨rfl, fun z hz => (List.not_mem_nil hz).elim⟩)
  | cons x xs ih =>
    rw [List.foldl_cons, larger]
    split
    · next hlt =>
      have h := ih x
      exact FirstMax.cons_iff.mpr (Or.inr ⟨hlt.trans_le (h.le List.mem_cons_self), h⟩)
    · next hge =>
      -- `x` is no better than what is kept, and may be left out
      have hle := le_of_not_gt hge
      rcases FirstMax.cons_iff.mp (ih best) with ⟨heq, hall⟩ | ⟨hlt, h⟩
      · refine FirstMax.cons_iff.mpr (Or.inl ⟨heq, ?_⟩)
        rw [List.forall_mem_cons]
        exact ⟨hle, hall⟩
      · exact FirstMax.cons_iff.mpr (Or.inr ⟨hlt, FirstMax.cons_iff.mpr
          (Or.inr ⟨hle.trans_lt hlt, h⟩)⟩)

end KANet.Lib
