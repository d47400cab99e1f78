import KANet.Lib.Bitmap
import KANet.Script.Basic
import Mathlib.Logic.Function.Basic
import Mathlib.Tactic.IntervalCases

/-!
# The 17-word nullifier

A payout covenant remembers which leaves of its tree it has paid in seventeen state
words `w0 … w16` of 63 bits each: leaf `k` is bit `k % 63` of word `k / 63`.  The
scripts pick the word by a chain of seventeen branches and have no bitwise
operators, so a bit is tested by division and set by adding its mask.

`nullify_eq_some` is what all that arithmetic amounts to: the script accepts exactly
the leaves not marked yet, and marks that leaf.  `marked_mark` says that nothing else
changes, and `WordsOk.mark` that the words stay 63-bit numbers.
-/

namespace KANet.Covenant

open KANet.Lib KANet.Script

/-- The state words `w0 … w16`. -/
abbrev Words := Fin 17 → Int

def Words.zero : Words := fun _ => 0

/-- `for (b, 0, bit_in, 63) { mask = mask * 2; }` with the turns still to go. -/
def maskLoop (ar : Arith) : Nat → Int → Option Int
  | 0, mask => some mask
  | n + 1, mask => do
    let mask ← ar (mask * 2)
    maskLoop ar n mask

/-- The branch that a word index takes: one for each of `w0 … w15`, and `w16` in the `else`. -/
def branch (word_idx : Int) : Fin 17 :=
  if word_idx = 0 then 0
  else if word_idx = 1 then 1
  else if word_idx = 2 then 2
  else if word_idx = 3 then 3
  else if word_idx = 4 then 4
  else if word_idx = 5 then 5
  else if word_idx = 6 then 6
  else if word_idx = 7 then 7
  else if word_idx = 8 then 8
  else if word_idx = 9 then 9
  else if word_idx = 10 then 10
  else if word_idx = 11 then 11
  else if word_idx = 12 then 12
  else if word_idx = 13 then 13
  else if word_idx = 14 then 14
  else if word_idx = 15 then 15
  else 16

/-- Test the bit of `merkle_index` and set it: branch `i` reads `w_i` and writes `nw_i`, and every
other `nw_j` stays `w_j`. -/
def nullify (ar : Arith) (w : Words) (merkle_index : Int) : Option Words := do
  let word_idx := merkle_index.tdiv 63
  let bit_in := merkle_index.tmod 63
  let mask ← maskLoop ar (min bit_in.toNat 63) 1
  let i := branch word_idx
  require (((w i).tdiv mask).tmod 2 = 0)
  let nw ← ar (w i + mask)
  some (Function.update w i nw)

/-! ### What the words mean -/

/-- Every word is a 63-bit number. -/
def WordsOk (w : Words) : Prop := ∀ i, 0 ≤ w i ∧ w i < 2 ^ 63

/-- Leaf `k` has been paid. -/
def Marked (w : Words) (k : Nat) : Prop := (w (Fin.ofNat 17 (k / 63))).toNat.testBit (k % 63)

instance (w : Words) (k : Nat) : Decidable (Marked w k) :=
  inferInstanceAs (Decidable (_ = true))

/-- The words once leaf `k` is marked. -/
def mark (w : Words) (k : Nat) : Words :=
  Function.update w (Fin.ofNat 17 (k / 63)) (w (Fin.ofNat 17 (k / 63)) + 2 ^ (k % 63))

/-- The word of an index below seventeen. -/
abbrev wordIndex (n : Nat) : Fin 17 := Fin.ofNat 17 n

theorem wordsOk_zero : WordsOk Words.zero := fun _ => ⟨le_refl _, by norm_num [Words.zero]⟩

theorem not_marked_zero (k : Nat) : ¬ Marked Words.zero k := by
  simp [Marked, Words.zero]

theorem WordsOk.eq_cast {w : Words} (h : WordsOk w) (i : Fin 17) :
    ∃ n : Nat, w i = n ∧ n < 2 ^ 63 := by
  obtain ⟨h0, h1⟩ := h i
  exact ⟨(w i).toNat, by omega, by omega⟩

theorem not_marked_iff {w : Words} {k n : Nat} (h : w (Fin.ofNat 17 (k / 63)) = n) :
    ¬ Marked w k ↔ n / 2 ^ (k % 63) % 2 = 0 := by
  rw [Marked, h, Int.toNat_natCast, Bool.not_eq_true, testBit_eq_false_iff]

theorem WordsOk.mark {w : Words} {k : Nat} (h : WordsOk w) (hk : ¬ Marked w k) :
    WordsOk (mark w k) := by
  obtain ⟨n, hn, hlt⟩ := h.eq_cast (Fin.ofNat 17 (k / 63))
  have hbit := (not_marked_iff hn).mp hk
  have hsum := add_two_pow_lt hlt (Nat.mod_lt k (by omega)) hbit
  intro i
  unfold Covenant.mark
  by_cases hi : i = Fin.ofNat 17 (k / 63)
  · rw [hi, Function.update_self, hn]
    exact ⟨by positivity, by exact_mod_cast hsum⟩
  · rw [Function.update_of_ne hi]
    exact h i

/-- **Marking a leaf marks that leaf and no other.** -/
theorem marked_mark {w : Words} {k j : Nat} (h : WordsOk w) (hk : ¬ Marked w k) (hk' : k < 1024)
    (hj : j < 1024) : Marked (mark w k) j ↔ j = k ∨ Marked w j := by
  obtain ⟨n, hn, -⟩ := h.eq_cast (Fin.ofNat 17 (k / 63))
  have hbit := (not_marked_iff hn).mp hk
  by_cases hs : Fin.ofNat 17 (j / 63) = Fin.ofNat 17 (k / 63)
  · have hq : j / 63 = k / 63 := by
      have := congrArg Fin.val hs
      simp only [Fin.val_ofNat] at this
      omega
    have hv : mark w k (Fin.ofNat 17 (k / 63)) = ((n + 2 ^ (k % 63) : Nat) : Int) := by
      rw [mark, Function.update_self, hn]
      push_cast
      rfl
    rw [Marked, Marked, hs, hv, hn, Int.toNat_natCast, Int.toNat_natCast,
      testBit_add_two_pow hbit, Bool.or_eq_true, decide_eq_true_iff]
    have : j % 63 = k % 63 ↔ j = k := by omega
    rw [this]
  · have hne : j ≠ k := fun e => hs (by rw [e])
    rw [Marked, Marked, mark, Function.update_of_ne hs]
    simp [hne]

/-! ### The script computes exactly that -/

/-- An arithmetic that is right wherever the exact result is a 63-bit number. -/
structure Lawful (ar : Arith) : Prop where
  exact : Exact ar
  nonneg : ∀ n, 0 ≤ n → n < 2 ^ 63 → ar n = some n

theorem i64_lawful : Lawful i64 :=
  ⟨i64_exact, fun n h0 h1 => i64_of_fits (fits_eight.mpr ⟨by omega, h1⟩)⟩

theorem unbounded_lawful : Lawful unbounded := ⟨unbounded_exact, fun _ _ _ => rfl⟩

theorem maskLoop_eq {ar : Arith} (h : Lawful ar) (n : Nat) (m : Nat) (hb : m * 2 ^ n < 2 ^ 63) :
    maskLoop ar n m = some ((m * 2 ^ n : Nat) : Int) := by
  induction n generalizing m with
  | zero => simp [maskLoop]
  | succ n ih =>
    have he : m * 2 * 2 ^ n = m * 2 ^ (n + 1) := by ring
    have hpos : 1 ≤ 2 ^ n := Nat.one_le_two_pow
    have hm : m * 2 < 2 ^ 63 := by
      calc m * 2 = m * 2 * 1 := by ring
        _ ≤ m * 2 * 2 ^ n := Nat.mul_le_mul_left _ hpos
        _ < 2 ^ 63 := by rw [he]; exact hb
    have hstep : ar ((m : Int) * 2) = some ((m * 2 : Nat) : Int) := by
      rw [h.nonneg _ (by positivity) (by exact_mod_cast hm)]
      push_cast
      rfl
    rw [maskLoop, hstep]
    simp only [Option.bind_eq_bind, Option.bind_some]
    rw [ih (m * 2) (by rw [he]; exact hb), he]

theorem branch_natCast {q : Nat} (h : q < 17) : branch (q : Int) = Fin.ofNat 17 q := by
  interval_cases q <;> rfl

/-- **The nullifier.**  From words in range, and whatever arithmetic, the script accepts exactly
the leaves that are not marked, and marks them. -/
theorem nullify_eq_some {ar : Arith} (har : Lawful ar) {w w' : Words} (hw : WordsOk w) {k : Nat}
    (hk : k < 1024) : nullify ar w (k : Int) = some w' ↔ ¬ Marked w k ∧ w' = mark w k := by
  obtain ⟨n, hn, hlt⟩ := hw.eq_cast (Fin.ofNat 17 (k / 63))
  have hq : (k : Int).tdiv 63 = ((k / 63 : Nat) : Int) := rfl
  have hr : (k : Int).tmod 63 = ((k % 63 : Nat) : Int) := rfl
  have hturns : min ((k % 63 : Nat) : Int).toNat 63 = k % 63 := by omega
  have hr63 : k % 63 < 63 := Nat.mod_lt _ (by omega)
  have hmask : maskLoop ar (k % 63) 1 = some ((2 ^ (k % 63) : Nat) : Int) := by
    have hb : 1 * 2 ^ (k % 63) < 2 ^ 63 := by
      rw [one_mul]
      exact Nat.pow_lt_pow_right (by omega) hr63
    have := maskLoop_eq har (k % 63) 1 hb
    rwa [one_mul] at this
  have hbit : ((n : Int).tdiv ((2 ^ (k % 63) : Nat) : Int)).tmod 2
      = ((n / 2 ^ (k % 63) % 2 : Nat) : Int) := rfl
  unfold nullify
  rw [hq, hr]
  dsimp only
  rw [hturns, hmask, branch_natCast (by omega)]
  simp only [Option.bind_eq_bind, Option.bind_some, hn, hbit]
  rw [← Option.bind_eq_bind, require_bind_eq_some, not_marked_iff hn]
  constructor
  · rintro ⟨hclear, h⟩
    have hclear' : n / 2 ^ (k % 63) % 2 = 0 := by exact_mod_cast hclear
    have hsum := add_two_pow_lt hlt hr63 hclear'
    rw [har.nonneg _ (by positivity) (by exact_mod_cast hsum)] at h
    refine ⟨hclear', ?_⟩
    rw [mark, hn]
    simpa using (Option.some.inj h).symm
  · rintro ⟨hclear, rfl⟩
    have hsum := add_two_pow_lt hlt hr63 hclear
    refine ⟨by exact_mod_cast hclear, ?_⟩
    rw [har.nonneg _ (by positivity) (by exact_mod_cast hsum), mark, hn]
    simp

end KANet.Covenant
