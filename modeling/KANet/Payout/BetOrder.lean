import KANet.Payout.Root
import Mathlib.Data.String.Basic

/-!
# The root of the bets, and the rows it is made from

The rows of a market carry the DAA score at which their bet was locked, as an exact integer; the
sort compares it as a number of the language, which holds 53 binary digits.

* `canonicalBetOrder` — the sort as it is, with `Number`.
* `canonicalBetOrder_exact` — where the scores are small, it is that of `KANet.Payout.Root`.
* `bets_root_iff` — the root binds its bets, and the order does not depend on how the rows come
  exactly if no two of them tie.
-/

namespace KANet.Payout.BetOrder

open KANet.Lib KANet.Script KANet.Covenant

/-! ### Numbers -/

/-- The nearest number with 53 binary digits, the even one of two. -/
def roundDouble (m : ℕ) : ℕ :=
  let e := m.log2 - 52
  let q := m / 2 ^ e
  let r := m % 2 ^ e
  (if 2 ^ e < 2 * r ∨ 2 ^ e = 2 * r ∧ q % 2 = 1 then q + 1 else q) * 2 ^ e

def Infinity : ℕ := 2 ^ 1024

/-- `Number`, of an integer. -/
def Number (n : ℤ) : ℤ := n.sign * (min (roundDouble n.natAbs) Infinity : ℕ)

theorem roundDouble_small {m : ℕ} (h : m < 2 ^ 53) : roundDouble m = m := by
  have hlog : m.log2 - 52 = 0 := by
    rcases Nat.eq_zero_or_pos m with rfl | hpos
    · rfl
    · have hlt := (Nat.log2_lt hpos.ne').mpr h
      omega
  unfold roundDouble
  rw [hlog]
  have hmod : m % 1 = 0 := Nat.mod_one m
  simp [hmod]

theorem Number_small {n : ℤ} (h : n.natAbs < 2 ^ 53) : Number n = n := by
  have hpow : ∀ k, 53 ≤ k → n.natAbs ≤ 2 ^ k :=
    fun k hk => h.le.trans (Nat.pow_le_pow_right (by omega) hk)
  have hle : n.natAbs ≤ Infinity := hpow 1024 (by omega)
  unfold Number
  rw [roundDouble_small h, min_eq_left hle]
  exact Int.sign_mul_natAbs n

/-! ### The sort -/

/-- The row with its score as the sort sees it. -/
def read (r : Row) : Row := { r with side_lock_daa := r.side_lock_daa.map Number }

/-- `sort` is stable. -/
def canonicalBetOrder (coll : Collation) (rows : List Row) : Option (List Row) :=
  if ∀ r ∈ rows, r.Anchored then some (rows.mergeSort fun a b => rowLe coll (read a) (read b))
  else none

/-- Where a bet was locked. -/
def anchorOf (r : Row) : Option ℤ × Option String := (r.side_lock_daa, r.side_lock_tx)

/-- Neither row comes before the other. -/
def Tie (coll : Collation) (a b : Row) : Prop :=
  tied (fun a b => rowLe coll (read a) (read b)) a b = true

/-- What is anchored is never tied. -/
def Apart (coll : Collation) (rows : List Row) : Prop :=
  (∀ r ∈ rows, r.Anchored) → ∀ a ∈ rows, ∀ b ∈ rows, Tie coll a b → a = b

/-- **The root binds the bets, and the order is that of the set.** -/
structure Binds (e : Engine) (msgs : List Bytes) (coll : Collation) (rows : List Row) : Prop where
  root : ∀ bs bs' root, chainMessages e bs ⊆ msgs → chainMessages e bs' ⊆ msgs →
    computeBetsRoot e bs = some root → computeBetsRoot e bs' = some root → bs = bs'
  order : ∀ rows', rows'.Perm rows → canonicalBetOrder coll rows' = canonicalBetOrder coll rows

section

variable {coll : Collation} {rows : List Row}

theorem readLe_trans (coll : Collation) (a b c : Row) (h : rowLe coll (read a) (read b))
    (h' : rowLe coll (read b) (read c)) : rowLe coll (read a) (read c) :=
  rowLe_trans coll _ _ _ h h'

theorem readLe_total (coll : Collation) (a b : Row) :
    rowLe coll (read a) (read b) || rowLe coll (read b) (read a) :=
  rowLe_total coll _ _

/-- Where every score is small, nothing is rounded. -/
theorem canonicalBetOrder_exact
    (h : ∀ r ∈ rows, ∀ daa ∈ r.side_lock_daa, daa.natAbs < 2 ^ 53) :
    canonicalBetOrder coll rows = Payout.canonicalBetOrder coll rows := by
  have hread : ∀ r ∈ rows, read r = r := by
    intro r hr
    have hmap : r.side_lock_daa.map Number = r.side_lock_daa := by
      cases hdaa : r.side_lock_daa with
      | none => rfl
      | some daa => rw [Option.map_some, Number_small (h r hr daa hdaa)]
    unfold read
    rw [hmap]
  have hsort : (rows.mergeSort fun a b => rowLe coll (read a) (read b)) =
      rows.mergeSort (rowLe coll) := by
    have hmap := List.map_mergeSort (f := id) (r := fun a b => rowLe coll (read a) (read b))
      (s := rowLe coll) (l := rows) fun a ha b hb => by rw [hread a ha, hread b hb]; rfl
    rwa [List.map_id, List.map_id] at hmap
  unfold canonicalBetOrder Payout.canonicalBetOrder
  rw [hsort]

/-- The order does not depend on how the rows come exactly if no two of them tie. -/
theorem order_iff : (∀ rows', rows'.Perm rows →
    canonicalBetOrder coll rows' = canonicalBetOrder coll rows) ↔ Apart coll rows := by
  constructor
  · intro h hanchored a ha b hb htie
    by_contra hne
    -- put the two in front, either way round
    obtain ⟨rest, hrest⟩ : ∃ rest, rows.Perm (a :: b :: rest) := by
      have hab : b ∈ rows.erase a := (List.mem_erase_of_ne (Ne.symm hne)).mpr hb
      exact ⟨(rows.erase a).erase b,
        (List.perm_cons_erase ha).trans ((List.perm_cons_erase hab).cons a)⟩
    have hfirst := h _ hrest.symm
    have hsecond := h _ ((List.Perm.swap a b rest).trans hrest.symm)
    have hany : ∀ l : List Row, l.Perm rows → ∀ r ∈ l, r.Anchored :=
      fun l hl r hr => hanchored r (hl.mem_iff.mp hr)
    have heq := hfirst.trans hsecond.symm
    unfold canonicalBetOrder at heq
    rw [if_pos (hany _ hrest.symm),
      if_pos (hany _ ((List.Perm.swap a b rest).trans hrest.symm)), Option.some.injEq,
      mergeSort_eq_iff (readLe_trans coll) (readLe_total coll)] at heq
    have hclass := heq a
    have haa : tied (fun a b => rowLe coll (read a) (read b)) a a = true := by
      have hrefl := readLe_total coll a a
      simpa [tied] using hrefl
    rw [List.filter_cons_of_pos haa, List.filter_cons_of_pos htie, List.filter_cons_of_pos htie,
      List.filter_cons_of_pos haa] at hclass
    exact hne (List.cons.inj hclass).1
  · intro h rows' hp
    unfold canonicalBetOrder
    by_cases hanchored : ∀ r ∈ rows, r.Anchored
    · rw [if_pos hanchored, if_pos fun r hr => hanchored r (hp.mem_iff.mp hr)]
      have hsort := ((List.mergeSort_perm rows' fun a b => rowLe coll (read a) (read b)).trans
        hp).trans (List.mergeSort_perm rows fun a b => rowLe coll (read a) (read b)).symm
      refine congrArg some (@List.Perm.eq_of_pairwise _
        (fun a b => rowLe coll (read a) (read b) = true) _ _ (fun a b ha hb hab hba => ?_)
        (List.pairwise_mergeSort (readLe_trans coll) (readLe_total coll) rows')
        (List.pairwise_mergeSort (readLe_trans coll) (readLe_total coll) rows) hsort)
      refine h hanchored a (hp.mem_iff.mp (List.mem_mergeSort.mp ha)) b
        (List.mem_mergeSort.mp hb) ?_
      simp [Tie, tied, hab, hba]
    · rw [if_neg hanchored, if_neg fun hall => hanchored fun r hr => hall r (hp.mem_iff.mpr hr)]

end

/-- **The bets root binds its bets, and depends on the set of the rows alone, exactly if no two rows
tie.** -/
theorem bets_root_iff {e : Engine} {msgs : List Bytes} (coll : Collation) (rows : List Row)
    (hcf : CollisionFree e msgs) (hz : NoZeroDigest e msgs) :
    Binds e msgs coll rows ↔ Apart coll rows := by
  rw [← order_iff]
  refine ⟨fun h => h.order, fun h => ⟨fun bs bs' root hm hm' hroot hroot' => ?_, h⟩⟩
  exact computeBetsRoot_inj hcf.injOn (Or.inr hz) (fun m hmem => hm hmem) (fun m hmem => hm' hmem)
    hroot hroot'

section Sample

/-- The order of the code points, which is that of hex digits. -/
def sampleColl : Collation where
  localeCompare a b := if b < a then 1 else if a < b then -1 else 0
  total a b := by
    rcases le_total a b with h | h
    · left
      rw [if_neg (not_lt.mpr h)]
      split <;> omega
    · right
      rw [if_neg (not_lt.mpr h)]
      split <;> omega
  trans a b c hab hbc := by
    have hle : ∀ {x y : String},
        (if y < x then (1 : ℤ) else if x < y then -1 else 0) ≤ 0 → x ≤ y := by
      intro x y h
      by_contra hlt
      rw [if_pos (not_le.mp hlt)] at h
      omega
    rw [if_neg (not_lt.mpr ((hle hab).trans (hle hbc)))]
    split <;> omega

private def sampleBet (i : ℕ) : Bet := ⟨(samplePk i).toList, 10 + i, i % 2⟩

private def sampleRow (i : ℕ) (daa : ℤ) : Row :=
  { sampleBet i with side_lock_daa := some daa, side_lock_tx := some "t" }

private def sampleMsgs : List Bytes := chainMessages sampleEngine [sampleBet 0, sampleBet 1]

theorem bets_root_iff_two :
    Binds sampleEngine sampleMsgs sampleColl [sampleRow 0 7, sampleRow 1 8] ↔
      Apart sampleColl [sampleRow 0 7, sampleRow 1 8] :=
  bets_root_iff sampleColl _ (by decide +kernel) (by decide +kernel)

/-- Two rows with one transaction, at scores that round to one number. -/
private def roundedRows : List Row := [sampleRow 0 (2 ^ 53), sampleRow 1 (2 ^ 53 + 1)]

/-- Their places differ, and their order is that in which they come. -/
theorem two_orders :
    (roundedRows.map anchorOf).Nodup ∧ CollisionFree sampleEngine sampleMsgs ∧
      NoZeroDigest sampleEngine sampleMsgs ∧
      ¬ Binds sampleEngine sampleMsgs sampleColl roundedRows := by
  refine ⟨by decide +kernel, by decide +kernel, by decide +kernel, ?_⟩
  intro h
  have htie : Tie sampleColl (sampleRow 0 (2 ^ 53)) (sampleRow 1 (2 ^ 53 + 1)) := by
    unfold Tie
    decide +kernel
  have heq := order_iff.mp h.order (by decide +kernel) _ (by simp [roundedRows]) _
    (by simp [roundedRows]) htie
  exact absurd heq (by decide +kernel)

end Sample

end KANet.Payout.BetOrder
