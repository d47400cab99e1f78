import Mathlib.Data.List.Infix

/-!
# `LIKE`

Patterns as SQLite reads them: `%` stands for any text, `_` for any character, and a letter for
itself in either case.

* `like_containing` — a text matches what it contains, with any text around it.
-/

namespace KANet.Lib

def like : List Char → List Char → Bool
  | [], s => s.isEmpty
  | p :: ps, s =>
    if p = '%' then s.tails.any fun t => like ps t
    else s.head?.any (fun c => p = '_' || p.toLower = c.toLower) && like ps s.tail

/-- The pattern `%…%`. -/
def containing (p : List Char) : List Char := '%' :: (p ++ ['%'])

theorem like_any (s : List Char) : like ['%'] s = true := by
  rw [like, if_pos rfl, List.any_eq_true]
  exact ⟨[], by simp, rfl⟩

/-- A text matches itself as a pattern, whatever comes behind it. -/
theorem like_append (p s : List Char) : like (p ++ ['%']) (p ++ s) = true := by
  induction p with
  | nil => exact like_any s
  | cons c cs ih =>
    rw [List.cons_append, List.cons_append, like]
    split
    · rw [List.any_eq_true]
      exact ⟨cs ++ s, by simp, ih⟩
    · simp [ih]

theorem like_containing {p s : List Char} (h : p <:+: s) : like (containing p) s = true := by
  obtain ⟨a, b, rfl⟩ := h
  rw [containing, like, if_pos rfl, List.any_eq_true]
  refine ⟨p ++ b, ?_, like_append p b⟩
  rw [List.mem_tails, List.append_assoc]
  exact List.suffix_append a (p ++ b)

example : like (containing "b_d".toList) "aBcDe".toList = true := by decide

end KANet.Lib
