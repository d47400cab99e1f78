import KANet.Payout.Conserve
import KANet.Zk.Distribution

/-!
# The guest against `pool-shard-settle.mjs`

The guest was ported from the console, whose integers are unbounded.  Where no sum of
its own wraps, the guest's leaves are the console's, and so are its two roots.

A sum of stakes may wrap, though each stake is an `i64`: from three winners on, the
winning stakes can add up to `2 ^ 64`.  Then the shares are those of a smaller total,
and there is a pool for which they are all payable (`wrapped_root_ne`).

* `agrees_of_exact` — sums that do not wrap give the console's roots.
* `agreement_iff` — and only winning stakes below `2 ^ 64` do so for every pool.
-/

namespace KANet.Zk.Guest

open KANet.Lib KANet.Script KANet.Covenant

/-! ### The console on the same input -/

/-- A fee leaf as the console keeps it.  Nothing reads its type. -/
def PayoutLeaf.toFee (w : PayoutLeaf) : Payout.FeeLeaf := { w.toLeaf with type := "" }

namespace GuestInput

variable (input : GuestInput)

def bets : List Payout.Bet := input.bettors.map Bet.toBet

def fees : List Payout.FeeLeaf := input.fee_leaves.map PayoutLeaf.toFee

def winner : Int := input.winning_direction.toNat

def givenPool : Option Int := input.pool_total_sompi.map fun p => (p.toNat : Int)

/-- `computePariMutuelPayout` on what the guest reads. -/
def console : Option Payout.PariMutuel :=
  Payout.computePariMutuelPayout input.bets input.winner input.givenPool input.fee_bps.toNat
    input.fees

/-- The pool less the fees, in unbounded integers. -/
def left : Int :=
  Payout.distributableOf (input.givenPool.getD (Payout.sumStakes input.bets)) input.fee_bps.toNat
    input.fees

/-- The stakes on the winning side, added up without wrapping. -/
def winStake : Nat := (input.winners.map fun b => b.stake.toNat).sum

/-- All stakes, added up without wrapping. -/
def allStake : Nat := (input.bettors.map fun b => b.stake.toNat).sum

end GuestInput

/-- A market as it comes to the guest: stakes are positive `i64`s, somebody won, the leaves
fit into a tree and the fees into the pool. -/
structure GuestInput.Settles (input : GuestInput) : Prop where
  stake : ∀ b ∈ input.bettors, 0 < b.stake.toNat ∧ b.stake.toNat < 2 ^ 63
  winner : input.winning_direction = 0 ∨ input.winning_direction = 1
  wins : input.winners ≠ []
  leaves : input.winners.length + input.fee_leaves.length ≤ 1024
  fees : 0 ≤ input.left

/-- The guest commits to the console's roots, or to nothing. -/
def Agrees (e : Engine) (input : GuestInput) : Prop :=
  ∀ j, main e input = some j →
    Payout.computeBetsRoot e input.bets = some j.bets_root ∧
      ∃ pm, input.console = some pm ∧ Payout.payoutRoot e pm.payoutLeaves = some j.payout_root

/-- No sum of stakes wraps. -/
def GuestInput.Exact (input : GuestInput) : Prop :=
  input.winStake < 2 ^ 64 ∧ (input.pool_total_sompi = none → input.allStake < 2 ^ 64)

/-! ### Sums that wrap -/

theorem toNat_sum (l : List UInt64) : (sum l).toNat = (l.map UInt64.toNat).sum % 2 ^ 64 := by
  induction l with
  | nil => rfl
  | cons a l ih =>
    have h : sum (a :: l) = a + sum l := rfl
    rw [h, UInt64.toNat_add, ih, List.map_cons, List.sum_cons, Nat.add_mod_mod]

theorem toNat_sum_of_lt {l : List UInt64} (h : (l.map UInt64.toNat).sum < 2 ^ 64) :
    (sum l).toNat = (l.map UInt64.toNat).sum := by
  rw [toNat_sum, Nat.mod_eq_of_lt h]

theorem sumStakes_toBet (bs : List Bet) :
    Payout.sumStakes (bs.map Bet.toBet) = ((bs.map fun b => b.stake.toNat).sum : Nat) := by
  induction bs with
  | nil => rfl
  | cons b bs ih =>
    rw [List.map_cons, Payout.sumStakes_cons, ih, List.map_cons, List.sum_cons, Nat.cast_add]
    rfl

theorem sumAmounts_toLeaf (ws : List PayoutLeaf) :
    Payout.sumAmounts (ws.map PayoutLeaf.toLeaf) =
      ((ws.map fun w => w.amount.toNat).sum : Nat) := by
  induction ws with
  | nil => rfl
  | cons w ws ih =>
    rw [List.map_cons, Payout.sumAmounts_cons, ih, List.map_cons, List.sum_cons, Nat.cast_add]
    rfl

theorem fees_toLeaf (input : GuestInput) :
    input.fees.map Payout.FeeLeaf.toLeaf = input.fee_leaves.map PayoutLeaf.toLeaf := by
  rw [GuestInput.fees, List.map_map]
  rfl

theorem winners_toBet (input : GuestInput) :
    Payout.winnersOf input.bets input.winner = input.winners.map Bet.toBet := by
  rw [Payout.winnersOf, GuestInput.bets, List.filter_map, GuestInput.winners]
  congr 1
  apply List.filter_congr
  intro b _
  have h : (b.toBet.direction = input.winner) ↔ b.direction = input.winning_direction := by
    rw [← UInt8.toNat_inj]
    exact Nat.cast_inj
  exact decide_eq_decide.mpr h

theorem winStake_eq (input : GuestInput) :
    Payout.sumStakes (Payout.winnersOf input.bets input.winner) = input.winStake := by
  rw [winners_toBet, sumStakes_toBet]
  rfl

/-! ### Where nothing wraps -/

section Exact

variable {input : GuestInput}

theorem pool_exact (hx : input.Exact) :
    (input.pool.toNat : Int) = input.givenPool.getD (Payout.sumStakes input.bets) := by
  unfold GuestInput.pool GuestInput.givenPool
  cases hp : input.pool_total_sompi with
  | none =>
    have hall := hx.2 hp
    have hmap : (input.bettors.map Bet.stake).map UInt64.toNat =
        input.bettors.map fun b => b.stake.toNat := List.map_map
    rw [Option.map_none, Option.getD_none, Option.getD_none, GuestInput.bets, sumStakes_toBet,
      toNat_sum_of_lt (by rw [hmap]; exact hall), hmap]
  | some p => rfl

/-- The fees, without wrapping. -/
def GuestInput.feeExact (input : GuestInput) : Nat :=
  if 0 < (input.fee_leaves.map fun w => w.amount.toNat).sum then
    (input.fee_leaves.map fun w => w.amount.toNat).sum
  else input.pool.toNat * input.fee_bps.toNat / 10000

theorem left_eq (hx : input.Exact) :
    input.left = (input.pool.toNat : Int) - (input.feeExact : Nat) := by
  have hbps : Payout.bpsAmt input.pool.toNat input.fee_bps.toNat =
      (input.pool.toNat * input.fee_bps.toNat / 10000 : Nat) := by
    rw [Payout.bpsAmt, Int.tdiv_eq_ediv_of_nonneg (by positivity)]
    norm_cast
  rw [GuestInput.left, Payout.distributableOf, fees_toLeaf, sumAmounts_toLeaf, ← pool_exact hx,
    hbps, GuestInput.feeExact]
  by_cases hpos : 0 < (input.fee_leaves.map fun w => w.amount.toNat).sum
  · rw [if_pos hpos, if_pos (by exact_mod_cast hpos)]
  · rw [if_neg hpos, if_neg (by exact_mod_cast hpos)]

theorem fee_exact (h : input.feeExact < 2 ^ 64) : input.fee_sompi.toNat = input.feeExact := by
  have hmap : (input.fee_leaves.map PayoutLeaf.amount).map UInt64.toNat =
      input.fee_leaves.map fun w => w.amount.toNat := List.map_map
  unfold GuestInput.feeExact at h ⊢
  by_cases hpos : 0 < (input.fee_leaves.map fun w => w.amount.toNat).sum
  · rw [if_pos hpos] at h ⊢
    have hsum :
        input.fee_from_leaves.toNat = (input.fee_leaves.map fun w => w.amount.toNat).sum := by
      rw [GuestInput.fee_from_leaves, toNat_sum_of_lt (by rw [hmap]; exact h), hmap]
    have hlt : 0 < input.fee_from_leaves := UInt64.lt_iff_toNat_lt.mpr (by rw [hsum]; exact hpos)
    rw [GuestInput.fee_sompi, if_pos hlt, hsum]
  · rw [if_neg hpos] at h ⊢
    have hsum : input.fee_from_leaves.toNat = 0 := by
      rw [GuestInput.fee_from_leaves, toNat_sum, hmap]
      omega
    have hlt : ¬ 0 < input.fee_from_leaves := by
      rw [UInt64.lt_iff_toNat_lt, hsum]
      exact Nat.not_lt_zero _
    rw [GuestInput.fee_sompi, if_neg hlt, UInt64.toNat_ofNat', Nat.mod_eq_of_lt h]

theorem left_exact (h : input.Settles) (hx : input.Exact) :
    (input.distributable.toNat : Int) = input.left := by
  have hfees := h.fees
  have hlt := input.pool.toNat_lt
  rw [left_eq hx] at hfees ⊢
  have hfee := fee_exact (show input.feeExact < 2 ^ 64 by omega)
  have hle : input.fee_sompi ≤ input.pool := UInt64.le_iff_toNat_le.mpr (by omega)
  rw [GuestInput.distributable, UInt64.toNat_sub_of_le _ _ hle, hfee]
  omega

theorem total_exact (hx : input.Exact) : input.total_win_stake.toNat = input.winStake := by
  have hmap : (input.winners.map Bet.stake).map UInt64.toNat =
      input.winners.map fun b => b.stake.toNat := List.map_map
  rw [GuestInput.total_win_stake, toNat_sum_of_lt (by rw [hmap]; exact hx.1), hmap]
  rfl

theorem stake_le_winStake {b : Bet} (hb : b ∈ input.winners) :
    b.stake.toNat ≤ input.winStake :=
  List.single_le_sum (by simp) _ (List.mem_map_of_mem hb)

theorem winStake_pos (h : input.Settles) : 0 < input.winStake := by
  obtain ⟨b, hb⟩ := List.exists_mem_of_ne_nil _ h.wins
  exact (h.stake b (List.mem_of_mem_filter hb)).1.trans_le (stake_le_winStake hb)

/-- The shares are the console's. -/
theorem shares_exact (h : input.Settles) (hx : input.Exact) :
    input.shares.map PayoutLeaf.toLeaf =
      Payout.winnerShares input.bets input.winner input.left := by
  have ht := total_exact hx
  rw [Payout.winnerShares, winStake_eq, winners_toBet, Payout.shares, GuestInput.shares,
    List.map_map, List.map_map]
  apply List.map_congr_left
  intro b hb
  have hle := stake_le_winStake hb
  have hlt := input.distributable.toNat_lt
  have hdiv : b.stake.toNat * input.distributable.toNat / input.winStake ≤
      input.distributable.toNat := by
    apply Nat.div_le_of_le_mul
    exact Nat.mul_le_mul_right _ hle
  have hamount : (UInt64.ofNat (b.stake.toNat * input.distributable.toNat /
      input.total_win_stake.toNat)).toNat =
        b.stake.toNat * input.distributable.toNat / input.winStake := by
    rw [UInt64.toNat_ofNat', ht, Nat.mod_eq_of_lt (by omega)]
  simp only [Function.comp_apply, PayoutLeaf.toLeaf, Bet.toBet, hamount, ← left_exact h hx]
  rw [Int.tdiv_eq_ediv_of_nonneg (by positivity)]
  norm_cast

theorem toBet_stake_pos (h : input.Settles) :
    ∀ b ∈ Payout.winnersOf input.bets input.winner, 0 < b.stake := by
  rw [winners_toBet]
  intro b hb
  obtain ⟨b', hb', rfl⟩ := List.mem_map.mp hb
  have := (h.stake b' (List.mem_of_mem_filter hb')).1
  show (0 : Int) < b'.stake.toNat
  omega

theorem winnersOf_ne_nil (h : input.Settles) :
    Payout.winnersOf input.bets input.winner ≠ [] := by
  rw [winners_toBet]
  simpa using h.wins

/-- What the shares add up to does not wrap, since it is no more than what is shared. -/
theorem assigned_exact (h : input.Settles) (hx : input.Exact) :
    (input.assigned.toNat : Int) =
        Payout.sumAmounts (Payout.winnerShares input.bets input.winner input.left) ∧
      input.assigned.toNat ≤ input.distributable.toNat := by
  have hdust := (Payout.dust_bounds h.fees (toBet_stake_pos h) (winnersOf_ne_nil h)).1
  have hleft := left_exact h hx
  have hlt := input.distributable.toNat_lt
  have hmap : (input.shares.map PayoutLeaf.amount).map UInt64.toNat =
      input.shares.map fun w => w.amount.toNat := List.map_map
  have hsum : Payout.sumAmounts (Payout.winnerShares input.bets input.winner input.left) =
      ((input.shares.map fun w => w.amount.toNat).sum : Nat) := by
    rw [← shares_exact h hx, sumAmounts_toLeaf]
  rw [← Payout.winnerShares, hsum] at hdust
  have hassigned : input.assigned.toNat = (input.shares.map fun w => w.amount.toNat).sum := by
    rw [GuestInput.assigned, toNat_sum_of_lt (by rw [hmap]; omega), hmap]
  rw [hsum, hassigned]
  exact ⟨rfl, by omega⟩

theorem payouts_exact (h : input.Settles) (hx : input.Exact) :
    input.payouts.map PayoutLeaf.toLeaf =
      Payout.dustTo input.left (Payout.winnerShares input.bets input.winner input.left) := by
  obtain ⟨hsum, hle⟩ := assigned_exact h hx
  have hlt := input.distributable.toNat_lt
  have hleft := left_exact h hx
  rw [← shares_exact h hx] at hsum ⊢
  rw [GuestInput.payouts]
  cases hs : input.shares with
  | nil => rfl
  | cons p ps =>
    have hp : (p.amount.toNat : Int) ≤ input.assigned.toNat := by
      rw [hsum, hs, List.map_cons, Payout.sumAmounts_cons, sumAmounts_toLeaf]
      simp only [PayoutLeaf.toLeaf]
      omega
    have hdust : (input.distributable - input.assigned).toNat =
        input.distributable.toNat - input.assigned.toNat :=
      UInt64.toNat_sub_of_le _ _ (UInt64.le_iff_toNat_le.mpr hle)
    have hamount : (p.amount + (input.distributable - input.assigned)).toNat =
        p.amount.toNat + (input.distributable.toNat - input.assigned.toNat) := by
      rw [UInt64.toNat_add, hdust, Nat.mod_eq_of_lt (by omega)]
    rw [hs, List.map_cons] at hsum
    rw [List.map_cons, List.map_cons, Payout.dustTo, ← hsum, ← hleft]
    congr 1
    rw [PayoutLeaf.toLeaf, hamount, Payout.Leaf.mk.injEq]
    refine ⟨rfl, ?_⟩
    simp only [PayoutLeaf.toLeaf]
    omega

/-- **The guest's leaves are the console's.** -/
theorem leaves_exact (h : input.Settles) (hx : input.Exact) :
    input.leaves.map PayoutLeaf.toLeaf =
      Payout.payoutLeavesOf input.bets input.winner input.left input.fees := by
  rw [GuestInput.leaves, List.map_append, payouts_exact h hx, Payout.payoutLeavesOf, fees_toLeaf]

/-- The console finds somebody to pay, and shares out what is left. -/
theorem console_eq (h : input.Settles) :
    ∃ pm, input.console = some pm ∧ pm.payoutLeaves =
      Payout.payoutLeavesOf input.bets input.winner input.left input.fees := by
  have hdir : input.winner = 0 ∨ input.winner = 1 := by
    rcases h.winner with hw | hw
    · exact Or.inl (by rw [GuestInput.winner, hw]; rfl)
    · exact Or.inr (by rw [GuestInput.winner, hw]; rfl)
  have hsome : ¬ Payout.NobodyWins input.bets input.winner := by
    rintro (hnil | hzero)
    · exact winnersOf_ne_nil h hnil
    · have := winStake_pos h
      rw [winStake_eq] at hzero
      omega
  obtain ⟨pm, hpm, -, hd, -, hleaves⟩ := @Payout.computePariMutuelPayout_fields _ _
    input.givenPool input.fee_bps.toNat input.fees hdir hsome
  exact ⟨pm, hpm, by rw [hleaves, hd]; rfl⟩

theorem agrees_of_exact (e : Engine) (h : input.Settles) (hx : input.Exact) :
    Agrees e input := by
  intro j hj
  obtain ⟨hbets, -, hroot⟩ := main_eq_some.mp hj
  have hdeg : ¬ input.Degenerate := by
    rintro (hnil | hzero)
    · exact h.wins hnil
    · have := winStake_pos h
      rw [← UInt64.toNat_inj, total_exact hx, UInt64.toNat_zero] at hzero
      omega
  rw [if_neg hdeg, payout_root_eq_some, leaves_exact h hx] at hroot
  obtain ⟨pm, hpm, hleaves⟩ := console_eq h
  exact ⟨hbets, pm, hpm, by rw [hleaves]; exact hroot.2⟩

end Exact

/-! ### Where the winning stakes wrap -/

/-- The pool that is the wrapped sum of the winning stakes, and no fees. -/
def atWrapped (bettors : List Bet) (w : UInt8) : GuestInput where
  bettors := bettors
  winning_direction := w
  pool_total_sompi := some (sum ((bettors.filter fun b => b.direction = w).map Bet.stake))
  fee_bps := 0
  fee_leaves := []

section Wrapped

variable {bettors : List Bet} {w : UInt8}

theorem atWrapped_distributable :
    (atWrapped bettors w).distributable = (atWrapped bettors w).total_win_stake := by
  have hfee : (atWrapped bettors w).fee_sompi = 0 := by
    have hleaves : (atWrapped bettors w).fee_from_leaves = 0 := rfl
    have hbps : (atWrapped bettors w).fee_bps = 0 := rfl
    rw [GuestInput.fee_sompi, hleaves, if_neg (UInt64.lt_irrefl 0), hbps, UInt64.toNat_zero,
      Nat.mul_zero, Nat.zero_div]
    rfl
  rw [GuestInput.distributable, hfee, UInt64.sub_zero]
  rfl

theorem atWrapped_left :
    (atWrapped bettors w).left = ((atWrapped bettors w).total_win_stake.toNat : Int) := by
  rw [GuestInput.left, Payout.distributableOf, fees_toLeaf]
  show ((atWrapped bettors w).total_win_stake.toNat : Int) - _ = _
  simp [atWrapped, Payout.sumAmounts, Payout.bpsAmt]

theorem atWrapped_settles (hstake : ∀ b ∈ bettors, 0 < b.stake.toNat ∧ b.stake.toNat < 2 ^ 63)
    (hw : w = 0 ∨ w = 1) (hwins : (bettors.filter fun b => b.direction = w) ≠ [])
    (hlen : (bettors.filter fun b => b.direction = w).length ≤ 1024) :
    (atWrapped bettors w).Settles where
  stake := hstake
  winner := hw
  wins := hwins
  leaves := hlen
  fees := by
    rw [atWrapped_left]
    omega

/-- The guest pays every winner his whole stake. -/
theorem atWrapped_leaves (hne : (atWrapped bettors w).total_win_stake ≠ 0) :
    (atWrapped bettors w).leaves =
      (bettors.filter fun b => b.direction = w).map fun b => { pk := b.pk, amount := b.stake } := by
  have hpos : 0 < (atWrapped bettors w).total_win_stake.toNat := by
    rw [← UInt64.toNat_zero, ← UInt64.lt_iff_toNat_lt]
    exact UInt64.pos_iff_ne_zero.mpr hne
  have hshares : (atWrapped bettors w).shares =
      (bettors.filter fun b => b.direction = w).map fun b => { pk := b.pk, amount := b.stake } := by
    rw [GuestInput.shares, atWrapped_distributable]
    apply List.map_congr_left
    intro b _
    rw [Nat.mul_div_cancel _ hpos, UInt64.ofNat_toNat]
  have hassigned : (atWrapped bettors w).assigned = (atWrapped bettors w).distributable := by
    rw [GuestInput.assigned, hshares, atWrapped_distributable, List.map_map]
    rfl
  have hnil : (atWrapped bettors w).fee_leaves = [] := rfl
  rw [GuestInput.leaves, hnil, List.append_nil, GuestInput.payouts, hassigned, UInt64.sub_self,
    ← hshares]
  cases (atWrapped bettors w).shares with
  | nil => rfl
  | cons p ps =>
    show { p with amount := p.amount + 0 } :: ps = p :: ps
    rw [UInt64.add_zero]

theorem bets_valid (hstake : ∀ b ∈ bettors, 0 < b.stake.toNat ∧ b.stake.toNat < 2 ^ 63)
    (hdirs : ∀ b ∈ bettors, b.direction = 0 ∨ b.direction = 1) :
    ∀ b ∈ bettors.map Bet.toBet, b.Valid := by
  intro b hb
  obtain ⟨b', hmem, rfl⟩ := List.mem_map.mp hb
  obtain ⟨hpos, hlt⟩ := hstake b' hmem
  refine ⟨b'.pk.toList_length, Int.natCast_pos.mpr hpos, fits_eight.mpr ?_, ?_⟩
  · show -2 ^ 63 < (b'.stake.toNat : Int) ∧ (b'.stake.toNat : Int) < 2 ^ 63
    omega
  · exact (hdirs b' hmem).imp (fun h => by rw [Bet.toBet, h]; rfl)
      (fun h => by rw [Bet.toBet, h]; rfl)

theorem atWrapped_buildable (hne : (atWrapped bettors w).total_win_stake ≠ 0)
    (hstake : ∀ b ∈ bettors, 0 < b.stake.toNat ∧ b.stake.toNat < 2 ^ 63)
    (hlen : (bettors.filter fun b => b.direction = w).length ≤ 1024) :
    Payout.Buildable ((atWrapped bettors w).leaves.map PayoutLeaf.toLeaf) := by
  rw [atWrapped_leaves hne, List.map_map]
  constructor
  · rw [List.length_map]
    exact hlen
  · intro leaf hleaf
    obtain ⟨b, hb, rfl⟩ := List.mem_map.mp hleaf
    obtain ⟨hpos, hlt⟩ := hstake b (List.mem_of_mem_filter hb)
    refine ⟨b.pk.toList_length, Int.natCast_pos.mpr hpos, fits_eight.mpr ?_⟩
    show -2 ^ 63 < (b.stake.toNat : Int) ∧ (b.stake.toNat : Int) < 2 ^ 63
    omega

/-- **A wrapped total pays out more than there is.**  The guest commits to leaves that add up to
the unwrapped total, or to no leaves at all, and the console does not. -/
theorem wrapped_not_agrees {e : Engine}
    (hstake : ∀ b ∈ bettors, 0 < b.stake.toNat ∧ b.stake.toNat < 2 ^ 63)
    (hdirs : ∀ b ∈ bettors, b.direction = 0 ∨ b.direction = 1) (hw : w = 0 ∨ w = 1)
    (hwins : (bettors.filter fun b => b.direction = w) ≠ [])
    (hlen : (bettors.filter fun b => b.direction = w).length ≤ 1024)
    (hcf : Payout.CollisionFree e
      (Payout.treeMessages e ((atWrapped bettors w).leaves.map PayoutLeaf.toLeaf) ++
        Payout.treeMessages e (Payout.payoutLeavesOf (atWrapped bettors w).bets
          (atWrapped bettors w).winner (atWrapped bettors w).left [])))
    (hwrap : 2 ^ 64 ≤ (atWrapped bettors w).winStake) : ¬ Agrees e (atWrapped bettors w) := by
  intro hagrees
  have hsettles := atWrapped_settles hstake hw hwins hlen
  have hshares : Payout.winnerShares (atWrapped bettors w).bets (atWrapped bettors w).winner
      (atWrapped bettors w).left ≠ [] := by
    rw [Payout.winnerShares, Payout.shares, ne_eq, List.map_eq_nil_iff]
    exact winnersOf_ne_nil hsettles
  have hsum : Payout.sumAmounts (Payout.payoutLeavesOf (atWrapped bettors w).bets
      (atWrapped bettors w).winner (atWrapped bettors w).left []) =
        ((atWrapped bettors w).total_win_stake.toNat : Int) := by
    rw [Payout.payoutLeavesOf, List.map_nil, List.append_nil, Payout.sum_dustTo hshares,
      atWrapped_left]
  have hbets : Payout.computeBetsRoot e ((atWrapped bettors w).bettors.map Bet.toBet) = some _ :=
    Payout.computeBetsRoot_eq_some.mpr ⟨bets_valid hstake hdirs, rfl⟩
  obtain ⟨pm, hpm, hleaves⟩ := console_eq hsettles
  have hroots : ∀ root, (if (atWrapped bettors w).Degenerate then root = ZERO32
      else payout_root e (atWrapped bettors w).leaves = some root) →
        Payout.payoutRoot e pm.payoutLeaves = some root := by
    intro root hroot
    obtain ⟨-, pm', hpm', hr⟩ := hagrees ⟨_, w, root⟩ (main_eq_some.mpr ⟨hbets, rfl, hroot⟩)
    rw [hpm] at hpm'
    rwa [Option.some.inj hpm']
  rw [hleaves] at hroots
  have hnil : (atWrapped bettors w).fees = [] := rfl
  rw [hnil] at hroots
  by_cases hzero : (atWrapped bettors w).total_win_stake = 0
  · -- the guest takes the market for one without winners
    have hdeg : (atWrapped bettors w).Degenerate := Or.inr hzero
    have hroot := hroots ZERO32 (by rw [if_pos hdeg])
    obtain ⟨hbuild, -⟩ := Payout.payoutRoot_eq_some.mp hroot
    have hne : Payout.payoutLeavesOf (atWrapped bettors w).bets (atWrapped bettors w).winner
        (atWrapped bettors w).left [] ≠ [] := by
      rw [Payout.payoutLeavesOf, List.map_nil, List.append_nil, ne_eq, ← List.length_eq_zero_iff,
        Payout.dustTo_length, List.length_eq_zero_iff]
      exact hshares
    have hpos := Payout.sumAmounts_pos (fun leaf hleaf => (hbuild.payable leaf hleaf).pos) hne
    rw [hsum, hzero, UInt64.toNat_zero] at hpos
    exact absurd hpos (by norm_num)
  · have hdeg : ¬ (atWrapped bettors w).Degenerate := by
      rintro (hnil | hz)
      · exact hwins hnil
      · exact hzero hz
    have hbuild := atWrapped_buildable hzero hstake hlen
    have hne : (atWrapped bettors w).leaves ≠ [] := by
      rw [atWrapped_leaves hzero]
      simpa using hwins
    have hroot := hroots _ (by
      rw [if_neg hdeg]
      exact payout_root_eq_some.mpr ⟨hne, Payout.payoutRoot_of_buildable hbuild⟩)
    obtain ⟨hbuild', heq⟩ := Payout.payoutRoot_eq_some.mp hroot
    have hlength : ((atWrapped bettors w).leaves.map PayoutLeaf.toLeaf).length =
        (Payout.payoutLeavesOf (atWrapped bettors w).bets (atWrapped bettors w).winner
          (atWrapped bettors w).left []).length := by
      rw [atWrapped_leaves hzero, Payout.payoutLeavesOf, List.map_nil, List.append_nil,
        Payout.dustTo_length, Payout.winnerShares, Payout.shares, winners_toBet]
      simp only [List.length_map]
      rfl
    have hlists := Payout.rootOf_inj hcf.injOn hbuild hbuild'
      (fun m hm => List.mem_append_left _ hm) (fun m hm => List.mem_append_right _ hm)
      (Or.inl hlength) heq.symm
    have htotal : ((atWrapped bettors w).total_win_stake.toNat : Int) =
        ((atWrapped bettors w).winStake : Nat) := by
      rw [← hsum, ← hlists, sumAmounts_toLeaf, atWrapped_leaves hzero, List.map_map]
      rfl
    have hlt := (atWrapped bettors w).total_win_stake.toNat_lt
    omega

theorem winStake_le_allStake (input : GuestInput) : input.winStake ≤ input.allStake := by
  have hsub : (input.winners.map fun b => b.stake.toNat).Sublist
      (input.bettors.map fun b => b.stake.toNat) := List.filter_sublist.map _
  exact hsub.sum_le_sum fun _ _ => Nat.zero_le _

/-- **When the guest commits to the console's roots.**  For a list of bets and a winner it does so
for every pool, fee rate and list of fee leaves exactly when the winning stakes add up to less
than `2 ^ 64`, or when it panics on the direction of a bet.  Where the pool is left to be the sum
of all stakes, these too are to stay below `2 ^ 64`. -/
theorem agreement_iff {e : Engine}
    (hstake : ∀ b ∈ bettors, 0 < b.stake.toNat ∧ b.stake.toNat < 2 ^ 63) (hw : w = 0 ∨ w = 1)
    (hwins : (bettors.filter fun b => b.direction = w) ≠ [])
    (hlen : (bettors.filter fun b => b.direction = w).length ≤ 1024)
    (hcf : Payout.CollisionFree e
      (Payout.treeMessages e ((atWrapped bettors w).leaves.map PayoutLeaf.toLeaf) ++
        Payout.treeMessages e (Payout.payoutLeavesOf (atWrapped bettors w).bets
          (atWrapped bettors w).winner (atWrapped bettors w).left []))) :
    ((∀ pool fee_bps fee_leaves, (GuestInput.mk bettors w (some pool) fee_bps fee_leaves).Settles →
        Agrees e (GuestInput.mk bettors w (some pool) fee_bps fee_leaves)) ↔
      ((bettors.filter fun b => b.direction = w).map fun b => b.stake.toNat).sum < 2 ^ 64 ∨
        ∃ b ∈ bettors, b.direction ≠ 0 ∧ b.direction ≠ 1) ∧
    ((bettors.map fun b => b.stake.toNat).sum < 2 ^ 64 → ∀ fee_bps fee_leaves,
      (GuestInput.mk bettors w none fee_bps fee_leaves).Settles →
        Agrees e (GuestInput.mk bettors w none fee_bps fee_leaves)) := by
  refine ⟨⟨fun hall => ?_, ?_⟩, ?_⟩
  · by_contra hnot
    obtain ⟨hwrap, hdirs⟩ := not_or.mp hnot
    have hdirs' : ∀ b ∈ bettors, b.direction = 0 ∨ b.direction = 1 := by
      intro b hb
      by_contra hd
      exact hdirs ⟨b, hb, not_or.mp hd⟩
    exact wrapped_not_agrees hstake hdirs' hw hwins hlen hcf (not_lt.mp hwrap)
      (hall _ _ _ (atWrapped_settles hstake hw hwins hlen))
  · rintro (hlt | ⟨b, hb, hb₀, hb₁⟩) pool fee_bps fee_leaves hsettles
    · exact agrees_of_exact e hsettles ⟨hlt, fun h => nomatch h⟩
    · intro j hj
      obtain ⟨hbets, -⟩ := main_eq_some.mp hj
      have hdir := ((Payout.computeBetsRoot_eq_some.mp hbets).1 _ (List.mem_map_of_mem hb)).dir
      rcases hdir with h | h
      · exact absurd (UInt8.toNat_inj.mp (Nat.cast_inj.mp h)) hb₀
      · exact absurd (UInt8.toNat_inj.mp (Nat.cast_inj.mp h)) hb₁
  · intro hlt fee_bps fee_leaves hsettles
    exact agrees_of_exact e hsettles
      ⟨(winStake_le_allStake _).trans_lt hlt, fun _ => hlt⟩

end Wrapped

/-! ### Three stakes too many -/

/-- Three winners who staked all that an `i64` holds. -/
def wrapBets : List Bet :=
  [{ pk := samplePk 1, stake := 0x7fffffffffffffff, direction := 1 },
    { pk := samplePk 2, stake := 0x7fffffffffffffff, direction := 1 },
    { pk := samplePk 3, stake := 0x7fffffffffffffff, direction := 1 }]

theorem agreement_wraps :
    (atWrapped wrapBets 1).Settles ∧ ¬ Agrees sampleEngine (atWrapped wrapBets 1) :=
  ⟨atWrapped_settles (by decide) (by decide) (by decide) (by decide),
    wrapped_not_agrees (by decide) (by decide) (by decide) (by decide) (by decide)
      (by decide +kernel) (by decide)⟩

theorem agreement_iff_wrapBets :
    ((∀ pool fee_bps fee_leaves,
        (GuestInput.mk wrapBets 1 (some pool) fee_bps fee_leaves).Settles →
          Agrees sampleEngine (GuestInput.mk wrapBets 1 (some pool) fee_bps fee_leaves)) ↔
      ((wrapBets.filter fun b => b.direction = 1).map fun b => b.stake.toNat).sum < 2 ^ 64 ∨
        ∃ b ∈ wrapBets, b.direction ≠ 0 ∧ b.direction ≠ 1) ∧
    ((wrapBets.map fun b => b.stake.toNat).sum < 2 ^ 64 → ∀ fee_bps fee_leaves,
      (GuestInput.mk wrapBets 1 none fee_bps fee_leaves).Settles →
        Agrees sampleEngine (GuestInput.mk wrapBets 1 none fee_bps fee_leaves)) :=
  agreement_iff (by decide) (by decide) (by decide) (by decide) (by decide +kernel)

end KANet.Zk.Guest
