import KANet.Lib.ProRata
import KANet.Payout.PariMutuel

/-!
# The pool is paid out, all of it and no more

What `computePariMutuelPayout` promises the two sides of a market: the leaves are the
winning bets, one each, and the fees; a winner gets his share rounded down; and the
rounding, less than one sompi for each winner, goes to the first of them.

A fee rate without fee leaves is skimmed off the pool and paid to nobody, so the law is
about settlements whose fees have leaves, or that have no fees.
-/

namespace KANet.Payout

open KANet.Lib KANet.Script

/-- `stake * distributable / totalWinStake`, rounded down. -/
def shareOf (bettors : List Bet) (winningDirection distributable : Int) (b : Bet) : Int :=
  b.stake * distributable / sumStakes (winnersOf bettors winningDirection)

/-- What the leaves of a settled market are. -/
structure Conserves (bettors : List Bet) (winningDirection pool : Int) (feeLeaves : List FeeLeaf)
    (pm : PariMutuel) : Prop where
  distributable : pm.distributable = pool - sumAmounts (feeLeaves.map FeeLeaf.toLeaf)
  total : sumAmounts pm.payoutLeaves = pool
  leaves : pm.payoutLeaves = pm.winners ++ feeLeaves.map FeeLeaf.toLeaf
  keys : pm.winners.map Leaf.pk = (winnersOf bettors winningDirection).map Bet.pk
  share : ∀ (i : Nat) (b : Bet) (w : Leaf), (winnersOf bettors winningDirection)[i]? = some b →
    pm.winners[i]? = some w → shareOf bettors winningDirection pm.distributable b ≤ w.amount
  exact : ∀ (i : Nat) (b : Bet) (w : Leaf), (winnersOf bettors winningDirection)[i]? = some b →
    pm.winners[i]? = some w → 0 < i →
      w.amount = shareOf bettors winningDirection pm.distributable b
  dust : ∀ (b : Bet) (w : Leaf), (winnersOf bettors winningDirection)[0]? = some b →
    pm.winners[0]? = some w → w.amount < shareOf bettors winningDirection pm.distributable b +
      (winnersOf bettors winningDirection).length

/-! ### Stakes -/

theorem sumStakes_cons (b : Bet) (bs : List Bet) :
    sumStakes (b :: bs) = b.stake + sumStakes bs := by
  rw [sumStakes, List.map_cons, List.sum_cons, sumStakes]

theorem sumStakes_pos {bs : List Bet} (hpos : ∀ b ∈ bs, 0 < b.stake) (hne : bs ≠ []) :
    0 < sumStakes bs := by
  apply List.sum_pos
  · intro x hx
    obtain ⟨b, hb, rfl⟩ := List.mem_map.mp hx
    exact hpos b hb
  · simpa using hne

theorem winnersOf_eq_nil {bettors : List Bet} {w : Int} :
    winnersOf bettors w = [] ↔ ∀ b ∈ bettors, b.direction ≠ w := by
  rw [winnersOf, List.filter_eq_nil_iff]
  simp only [decide_eq_true_eq, ne_eq]

theorem mem_winnersOf {bettors : List Bet} {w : Int} {b : Bet} (h : b ∈ winnersOf bettors w) :
    b ∈ bettors := List.mem_of_mem_filter h

/-- Positive stakes on the winning side are somebody to pay. -/
theorem nobodyWins_iff {bettors : List Bet} {w : Int} (hpos : ∀ b ∈ bettors, 0 < b.stake) :
    NobodyWins bettors w ↔ winnersOf bettors w = [] := by
  constructor
  · intro h
    rcases h with h | h
    · exact h
    · by_contra hne
      have := sumStakes_pos (fun b hb => hpos b (mem_winnersOf hb)) hne
      omega
  · exact Or.inl

theorem sumAmounts_append (ps qs : List Leaf) :
    sumAmounts (ps ++ qs) = sumAmounts ps + sumAmounts qs := by
  rw [sumAmounts, List.map_append, List.sum_append, sumAmounts, sumAmounts]

theorem sumAmounts_pos {ws : List Leaf} (hpos : ∀ w ∈ ws, 0 < w.amount) (hne : ws ≠ []) :
    0 < sumAmounts ws := by
  apply List.sum_pos
  · intro x hx
    obtain ⟨w, hw, rfl⟩ := List.mem_map.mp hx
    exact hpos w hw
  · simpa using hne

theorem sumAmounts_fees_pos {feeLeaves : List FeeLeaf} (hfee : ∀ l ∈ feeLeaves, 0 < l.amount)
    (hne : feeLeaves ≠ []) : 0 < sumAmounts (feeLeaves.map FeeLeaf.toLeaf) := by
  apply sumAmounts_pos
  · intro w hw
    obtain ⟨l, hl, rfl⟩ := List.mem_map.mp hw
    exact hfee l hl
  · simpa using hne

/-- With leaves for all the fees there are, what is taken off the pool is what they are paid. -/
theorem distributableOf_eq {pool feeBps : Int} {feeLeaves : List FeeLeaf}
    (hfee : ∀ l ∈ feeLeaves, 0 < l.amount) (hbps : feeLeaves = [] → feeBps = 0) :
    distributableOf pool feeBps feeLeaves =
      pool - sumAmounts (feeLeaves.map FeeLeaf.toLeaf) := by
  unfold distributableOf
  by_cases hne : feeLeaves = []
  · subst hne
    rw [hbps rfl]
    simp [sumAmounts, bpsAmt]
  · rw [if_pos (sumAmounts_fees_pos hfee hne)]

/-! ### Shares -/

theorem shares_amounts {d t : Int} {winners : List Bet} (hd : 0 ≤ d)
    (hpos : ∀ b ∈ winners, 0 < b.stake) :
    (shares d t winners).map Leaf.amount = ProRata.floors d t (winners.map Bet.stake) := by
  rw [shares, ProRata.floors, List.map_map, List.map_map]
  apply List.map_congr_left
  intro b hb
  exact Int.tdiv_eq_ediv_of_nonneg (mul_nonneg (hpos b hb).le hd)

theorem shares_getElem? {d t : Int} {winners : List Bet} {i : Nat} {b : Bet}
    (hb : winners[i]? = some b) :
    (shares d t winners)[i]? = some { pk := b.pk, amount := (b.stake * d).tdiv t } := by
  rw [shares, List.getElem?_map, hb]
  rfl

theorem dustTo_getElem?_pos (d : Int) (ps : List Leaf) {i : Nat} (hi : 0 < i) :
    (dustTo d ps)[i]? = ps[i]? := by
  obtain ⟨i, rfl⟩ : ∃ j, i = j + 1 := ⟨i - 1, by omega⟩
  cases ps <;> rfl

theorem dustTo_getElem?_zero (d : Int) (ps : List Leaf) :
    (dustTo d ps)[0]? =
      ps[0]?.map fun p => { p with amount := p.amount + (d - sumAmounts ps) } := by
  cases ps <;> rfl

theorem dustTo_keys (d : Int) (ps : List Leaf) :
    (dustTo d ps).map Leaf.pk = ps.map Leaf.pk := by
  cases ps <;> rfl

/-- **What rounding leaves**: nothing below zero, and less than one for each winner. -/
theorem dust_bounds {d : Int} {winners : List Bet} (hd : 0 ≤ d)
    (hpos : ∀ b ∈ winners, 0 < b.stake) (hne : winners ≠ []) :
    0 ≤ d - sumAmounts (shares d (sumStakes winners) winners) ∧
      d - sumAmounts (shares d (sumStakes winners) winners) < winners.length := by
  have ht := sumStakes_pos hpos hne
  rw [sumAmounts, shares_amounts hd hpos]
  have htotal : (winners.map Bet.stake).sum = sumStakes winners := rfl
  have hle := ProRata.sum_floors_le_self (d := d) ht htotal
  have hlt := ProRata.sub_sum_floors_lt (d := d) ht htotal (by simpa using hne)
  rw [List.length_map] at hlt
  exact ⟨by omega, hlt⟩

/-! ### Conservation -/

/-- The winners' leaves, one by one. -/
theorem winner_amount {bettors : List Bet} {w d : Int} (hd : 0 ≤ d)
    (hpos : ∀ b ∈ winnersOf bettors w, 0 < b.stake) {i : Nat} {b : Bet} {leaf : Leaf}
    (hb : (winnersOf bettors w)[i]? = some b)
    (hl : (dustTo d (winnerShares bettors w d))[i]? = some leaf) :
    leaf.amount = shareOf bettors w d b +
      if i = 0 then d - sumAmounts (winnerShares bettors w d) else 0 := by
  have hmem := List.mem_of_getElem? hb
  have hdiv : (b.stake * d).tdiv (sumStakes (winnersOf bettors w)) = shareOf bettors w d b :=
    Int.tdiv_eq_ediv_of_nonneg (mul_nonneg (hpos b hmem).le hd)
  have hshare := shares_getElem? (d := d) (t := sumStakes (winnersOf bettors w)) hb
  rw [hdiv] at hshare
  by_cases hi : i = 0
  · subst hi
    rw [dustTo_getElem?_zero, winnerShares, hshare] at hl
    obtain rfl := Option.some.inj hl
    rw [if_pos rfl, winnerShares]
  · rw [dustTo_getElem?_pos _ _ (by omega), winnerShares, hshare] at hl
    obtain rfl := Option.some.inj hl
    rw [if_neg hi, add_zero]

/-- The payout when there is somebody to pay, field by field. -/
theorem computePariMutuelPayout_fields {bettors : List Bet} {w : Int} {pool : Option Int}
    {feeBps : Int} {feeLeaves : List FeeLeaf} (hdir : w = 0 ∨ w = 1)
    (hsome : ¬ NobodyWins bettors w) :
    ∃ pm, computePariMutuelPayout bettors w pool feeBps feeLeaves = some pm ∧
      pm.degenerate = false ∧
      pm.distributable = distributableOf (pool.getD (sumStakes bettors)) feeBps feeLeaves ∧
      pm.winners = dustTo pm.distributable (winnerShares bettors w pm.distributable) ∧
      pm.payoutLeaves = payoutLeavesOf bettors w pm.distributable feeLeaves := by
  unfold computePariMutuelPayout
  rw [require, if_pos hdir]
  rw [NobodyWins] at hsome
  simp only [if_neg hsome]
  exact ⟨_, rfl, rfl, rfl, rfl, rfl⟩

/-- **Settlement conserves the pool.** -/
theorem settlement_conserves (bettors : List Bet) (winningDirection : Int)
    (poolTotalSompi : Option Int) (feeBps : Int) (feeLeaves : List FeeLeaf)
    (hdir : winningDirection = 0 ∨ winningDirection = 1)
    (hstake : ∀ b ∈ bettors, 0 < b.stake) (hfee : ∀ l ∈ feeLeaves, 0 < l.amount)
    (hbps : feeLeaves = [] → feeBps = 0)
    (hsum : sumAmounts (feeLeaves.map FeeLeaf.toLeaf) ≤
      poolTotalSompi.getD (sumStakes bettors)) :
    ∃ pm, computePariMutuelPayout bettors winningDirection poolTotalSompi feeBps feeLeaves =
        some pm ∧
      (pm.degenerate = true ↔ ∀ b ∈ bettors, b.direction ≠ winningDirection) ∧
      (pm.degenerate = false → Conserves bettors winningDirection
        (poolTotalSompi.getD (sumStakes bettors)) feeLeaves pm) := by
  have hwpos : ∀ b ∈ winnersOf bettors winningDirection, 0 < b.stake :=
    fun b hb => hstake b (mem_winnersOf hb)
  obtain ⟨pm, hpm, hdeg, -⟩ := @computePariMutuelPayout_leaves bettors winningDirection
    poolTotalSompi feeBps feeLeaves hdir
  rw [nobodyWins_iff hstake, winnersOf_eq_nil] at hdeg
  refine ⟨pm, hpm, hdeg, fun hsome => ?_⟩
  have hne : winnersOf bettors winningDirection ≠ [] := by
    intro hnil
    rw [hdeg.mpr (winnersOf_eq_nil.mp hnil)] at hsome
    cases hsome
  obtain ⟨pm', hpm', -, hd, hwin, hleaves⟩ := @computePariMutuelPayout_fields bettors
    winningDirection poolTotalSompi feeBps feeLeaves hdir ((nobodyWins_iff hstake).not.mpr hne)
  obtain rfl : pm' = pm := Option.some.inj (hpm'.symm.trans hpm)
  rw [distributableOf_eq hfee hbps] at hd
  have hd₀ : 0 ≤ pm'.distributable := by omega
  obtain ⟨hlo, hhi⟩ := dust_bounds hd₀ hwpos hne
  have hamount := fun i b w (hb : (winnersOf bettors winningDirection)[i]? = some b)
      (hw : pm'.winners[i]? = some w) => winner_amount hd₀ hwpos hb (hwin ▸ hw)
  have hshares : winnerShares bettors winningDirection pm'.distributable ≠ [] := by
    simpa [winnerShares, shares] using hne
  refine ⟨hd, ?_, ?_, ?_, ?_, ?_, ?_⟩
  · rw [hleaves, payoutLeavesOf, sumAmounts_append, sum_dustTo hshares, hd]
    ring
  · rw [hleaves, payoutLeavesOf, ← hwin]
  · rw [hwin, dustTo_keys, winnerShares, shares, List.map_map]
    rfl
  · intro i b w hb hw
    rw [hamount i b w hb hw, winnerShares]
    by_cases hi : i = 0
    · rw [if_pos hi]
      omega
    · rw [if_neg hi, add_zero]
  · intro i b w hb hw hi
    rw [hamount i b w hb hw, if_neg (by omega), add_zero]
  · intro b w hb hw
    rw [hamount 0 b w hb hw, if_pos rfl, winnerShares]
    omega

/-- Two keys on the winning side, one of them twice, and a key on the losing side. -/
def drawnBettors : List Bet :=
  [{ pk := List.replicate 32 1, stake := 500, direction := 1 },
   { pk := List.replicate 32 2, stake := 300, direction := 0 },
   { pk := List.replicate 32 3, stake := 700, direction := 1 },
   { pk := List.replicate 32 1, stake := 11, direction := 1 }]

def drawnFees : List FeeLeaf :=
  [{ pk := List.replicate 32 9, amount := 24, type := "broker" }]

theorem settlement_conserves_drawn :
    ∃ pm, computePariMutuelPayout drawnBettors 1 none 0 drawnFees = some pm ∧
      (pm.degenerate = true ↔ ∀ b ∈ drawnBettors, b.direction ≠ 1) ∧
      (pm.degenerate = false → Conserves drawnBettors 1 1511 drawnFees pm) :=
  settlement_conserves drawnBettors 1 none 0 drawnFees (Or.inr rfl) (by decide) (by decide)
    (by decide) (by decide)

end KANet.Payout
