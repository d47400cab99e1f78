import Mathlib.Data.List.Basic
import Mathlib.Data.Set.Basic

/-!
# Where an insert was spliced in

A string is cut in two and an insert put between the halves.  Whoever sees the
results for enough different inserts can tell where the cut was: if two cuts of one
string give the same results for all inserts of a family that `Separates`, they are
the same cut.

* `Separates.cut_unique` — the rule.
* `separates_of_head`, `separates_of_second` — families that are free in their first
  letter, or in the second one after a fixed first.
-/

namespace KANet.Lib

universe u

variable {α : Type u}

/-- For each nonempty string some insert is not still in place when it is pushed along by it. -/
def Separates (F : Set (List α)) : Prop :=
  ∀ R : List α, R ≠ [] → ∃ X ∈ F, ¬ X <+: R ++ X

theorem Separates.not_pushed {F : Set (List α)} (hF : Separates F) {R : List α}
    (h : ∀ X ∈ F, ∃ s s', X ++ s = R ++ (X ++ s')) : R = [] := by
  by_contra hR
  obtain ⟨X, hX, hno⟩ := hF R hR
  obtain ⟨s, s', hs⟩ := h X hX
  apply hno
  have hfull : X <+: R ++ X ++ s' := ⟨s, by rw [hs, List.append_assoc]⟩
  refine List.prefix_of_prefix_length_le hfull (List.prefix_append _ _) ?_
  rw [List.length_append]
  omega

/-- **Two cuts that no insert tells apart are one.** -/
theorem Separates.cut_unique {F : Set (List α)} (hF : Separates F) {P Q P' Q' : List α}
    (h : P ++ Q = P' ++ Q') (hs : ∀ X ∈ F, ∃ s s', P ++ (X ++ s) = P' ++ (X ++ s')) :
    P = P' := by
  rcases List.append_eq_append_iff.mp h with ⟨R, rfl, -⟩ | ⟨R, rfl, -⟩
  · have hR : R = [] := by
      apply hF.not_pushed
      intro X hX
      obtain ⟨s, s', he⟩ := hs X hX
      rw [List.append_assoc] at he
      exact ⟨s, s', List.append_cancel_left he⟩
    rw [hR, List.append_nil]
  · have hR : R = [] := by
      apply hF.not_pushed
      intro X hX
      obtain ⟨s, s', he⟩ := hs X hX
      rw [List.append_assoc] at he
      exact ⟨s', s, (List.append_cancel_left he).symm⟩
    rw [hR, List.append_nil]

theorem separates_of_head {F : Set (List α)} (h : ∀ a, ∃ b X, b ≠ a ∧ b :: X ∈ F) :
    Separates F := by
  intro R hR
  cases R with
  | nil => exact absurd rfl hR
  | cons a R =>
    obtain ⟨b, X, hne, hmem⟩ := h a
    refine ⟨b :: X, hmem, fun hpre => hne ?_⟩
    exact (List.cons_prefix_cons.mp hpre).1

theorem separates_of_second {F : Set (List α)} {c : α}
    (h : ∀ a a', ∃ b X, b ≠ a ∧ b ≠ a' ∧ c :: b :: X ∈ F) : Separates F := by
  intro R hR
  match R with
  | [] => exact absurd rfl hR
  | [a] =>
    obtain ⟨b, X, hne, -, hmem⟩ := h c c
    refine ⟨c :: b :: X, hmem, fun hpre => hne ?_⟩
    exact (List.cons_prefix_cons.mp (List.cons_prefix_cons.mp hpre).2).1
  | a :: a' :: R =>
    obtain ⟨b, X, -, hne, hmem⟩ := h a a'
    refine ⟨c :: b :: X, hmem, fun hpre => hne ?_⟩
    exact (List.cons_prefix_cons.mp (List.cons_prefix_cons.mp hpre).2).1

end KANet.Lib
