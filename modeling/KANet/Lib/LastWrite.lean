import Mathlib.Data.List.Induction

/-!
# The last write

Writes to the registers of a table come in some order, with repetitions.  What a register holds is
the last write to it.

* `lastWrite` — the last write to a register.
* `lastWrite_congr` — two lists of the same writes, in the order of their stamps each, leave the
  same in every register.
-/

namespace KANet.Lib

universe u v w

variable {α : Type u} {κ : Type v} [DecidableEq κ] (key : α → κ)

def lastWrite (k : κ) (l : List α) : Option α := (l.filter fun a => key a = k).getLast?

variable {key}

theorem lastWrite_append_of_eq {k : κ} {l : List α} {a : α} (h : key a = k) :
    lastWrite key k (l ++ [a]) = some a := by
  unfold lastWrite
  rw [List.filter_append, List.filter_cons_of_pos (by simpa using h), List.filter_nil,
    List.getLast?_append, List.getLast?_singleton, Option.some_or]

theorem lastWrite_append_of_ne {k : κ} {l : List α} {a : α} (h : key a ≠ k) :
    lastWrite key k (l ++ [a]) = lastWrite key k l := by
  unfold lastWrite
  rw [List.filter_append, List.filter_cons_of_neg (by simpa using h), List.filter_nil,
    List.append_nil]

theorem mem_of_lastWrite {k : κ} {l : List α} {a : α} (h : lastWrite key k l = some a) :
    a ∈ l ∧ key a = k := by
  have hmem := List.mem_filter.mp (List.mem_of_getLast? h)
  exact ⟨hmem.1, of_decide_eq_true hmem.2⟩

variable (key) in
theorem exists_lastWrite {l : List α} {a : α} (h : a ∈ l) :
    ∃ b, lastWrite key (key a) l = some b := by
  have hne : l.filter (fun b => key b = key a) ≠ [] :=
    List.ne_nil_of_mem (List.mem_filter.mpr ⟨h, decide_eq_true rfl⟩)
  exact ⟨_, List.getLast?_eq_some_getLast hne⟩

/-- The writes to a register come in the order of their stamps. -/
def Stamped (key : α → κ) (stamp : α → ℕ) (l : List α) : Prop :=
  l.Pairwise fun a b => key a = key b → stamp a ≤ stamp b

variable {stamp : α → ℕ}

omit [DecidableEq κ] in
theorem Stamped.append_left {l m : List α} (h : Stamped key stamp (l ++ m)) :
    Stamped key stamp l :=
  (List.pairwise_append.mp h).1

/-- The last write to a register has the latest stamp. -/
theorem Stamped.le_lastWrite {l : List α} (h : Stamped key stamp l) {a b : α} (ha : a ∈ l)
    (hb : lastWrite key (key a) l = some b) : stamp a ≤ stamp b := by
  induction l using List.reverseRecOn with
  | nil => exact absurd ha List.not_mem_nil
  | append_singleton l c ih =>
    obtain ⟨hl, -, hlast⟩ := List.pairwise_append.mp h
    by_cases hc : key c = key a
    · obtain rfl : c = b := Option.some.inj ((lastWrite_append_of_eq hc).symm.trans hb)
      rcases List.mem_append.mp ha with ha | ha
      · exact hlast a ha c List.mem_cons_self hc.symm
      · obtain rfl := List.mem_singleton.mp ha
        exact Nat.le_refl _
    · rw [lastWrite_append_of_ne hc] at hb
      rcases List.mem_append.mp ha with ha | ha
      · exact ih hl ha hb
      · exact absurd (congrArg key (List.mem_singleton.mp ha).symm) hc

/-- **The last write does not depend on the order of delivery**, where it is that of the stamps. -/
theorem lastWrite_congr {β : Type w} {f : α → β} {l l' : List α} (h : Stamped key stamp l)
    (h' : Stamped key stamp l') (hmem : ∀ a, a ∈ l ↔ a ∈ l')
    (hf : ∀ a ∈ l, ∀ b ∈ l, stamp a = stamp b → f a = f b) (k : κ) :
    (lastWrite key k l).map f = (lastWrite key k l').map f := by
  cases hl : lastWrite key k l with
  | none =>
    cases hl' : lastWrite key k l' with
    | none => rfl
    | some b =>
      obtain ⟨hb, rfl⟩ := mem_of_lastWrite hl'
      obtain ⟨a, ha⟩ := exists_lastWrite key ((hmem b).mpr hb)
      rw [hl] at ha
      cases ha
  | some a =>
    obtain ⟨ha, rfl⟩ := mem_of_lastWrite hl
    obtain ⟨b, hb⟩ := exists_lastWrite key ((hmem a).mp ha)
    obtain ⟨hbl, hkey⟩ := mem_of_lastWrite hb
    rw [hb]
    have hab := h'.le_lastWrite ((hmem a).mp ha) hb
    have hba := h.le_lastWrite ((hmem b).mpr hbl) (hkey.symm ▸ hl)
    exact congrArg some (hf a ha b ((hmem b).mpr hbl) (Nat.le_antisymm hab hba))

end KANet.Lib
