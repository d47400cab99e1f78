import KANet.Payout.Conserve
import KANet.Payout.FeeRulesText
import KANet.Settle.CloseEnforce
import Mathlib.Data.Nat.Log

/-!
# `pool-payout-parimutuel.mjs`

A pool split among winners that are named by their keys: in the order of the keys, rounded
down, what is left over going to the first.  Two winners of one key are refused.  The tree
over the payouts is as deep as their number asks for.

* `computeParimutuelPayouts_perm` — the order in which the winners come does not matter.
* `computeParimutuelPayouts_eq_some` — when there are payouts, and which.
* `depthFor_eq` — the depth is a rounded logarithm, as far as `1 << d` goes.
* `climb_payoutMerkleProof` — a proof climbs to the root.
-/

namespace KANet.Settle

open KANet.Lib KANet.Script KANet.Covenant KANet.Payout

/-- A winner, as `computeParimutuelPayouts` is given it. -/
structure KeyedStake where
  pk : String
  stake : Int
deriving DecidableEq

structure KeyedPayout where
  pk : String
  payout : Int
deriving DecidableEq

/-! ### The payouts -/

/-- The comparison of the keys, as strings. -/
def byKey (a b : KeyedStake) : Bool := keyLe a.pk b.pk

def keyedPayout (poolToSplit winnerPool : Int) (w : KeyedStake) : Option KeyedPayout := do
  require (0 < w.stake)
  some { pk := w.pk, payout := (w.stake * poolToSplit).tdiv winnerPool }

def distributed (payouts : List KeyedPayout) : Int := (payouts.map KeyedPayout.payout).sum

/-- `payouts[0].payout += dust` -/
def addDust (dust : Int) : List KeyedPayout → List KeyedPayout
  | [] => []
  | p :: ps => { p with payout := p.payout + dust } :: ps

def computeParimutuelPayouts (winners : List KeyedStake)
    (poolToSplitSompi winnerPoolSompi : Int) : Option (List KeyedPayout) := do
  require (0 < winnerPoolSompi)
  require (0 < poolToSplitSompi)
  require (winners ≠ [])
  let sorted := winners.mergeSort byKey
  -- no key equals the one before it
  require ((sorted.map KeyedStake.pk).IsChain (· ≠ ·))
  let payouts ← sorted.mapM (keyedPayout poolToSplitSompi winnerPoolSompi)
  let dust := poolToSplitSompi - distributed payouts
  require (0 ≤ dust)
  some (addDust dust payouts)

def winnerPool (winners : List KeyedStake) : Int := (winners.map KeyedStake.stake).sum

theorem byKey_trans (a b c : KeyedStake) : byKey a b → byKey b c → byKey a c :=
  keyLe_trans a.pk b.pk c.pk

theorem byKey_total (a b : KeyedStake) : byKey a b || byKey b a := keyLe_total a.pk b.pk

/-- In the order of the keys, keys that repeat stand side by side. -/
theorem isChain_ne_iff {l : List KeyedStake} (hs : l.Pairwise fun a b => byKey a b) :
    (l.map KeyedStake.pk).IsChain (· ≠ ·) ↔ (l.map KeyedStake.pk).Nodup := by
  constructor
  · intro h
    induction l with
    | nil => exact List.nodup_nil
    | cons a l ih =>
      obtain ⟨ha, hl⟩ := List.pairwise_cons.mp hs
      rw [List.map_cons] at h ⊢
      refine List.nodup_cons.mpr ⟨fun hmem => ?_, ih hl h.of_cons⟩
      obtain ⟨b, hb, hpk⟩ := List.mem_map.mp hmem
      cases l with
      | nil => cases hb
      | cons c l =>
        -- the next key lies between two that are equal
        have hac := ha c List.mem_cons_self
        have hcb : keyLe c.pk b.pk := by
          rcases List.mem_cons.mp hb with rfl | hb
          · simpa using keyLe_total b.pk b.pk
          · exact (List.pairwise_cons.mp hl).1 b hb
        rw [hpk] at hcb
        exact (List.isChain_cons_cons.mp h).1 (keyLe_antisymm _ _ hac hcb)
  · exact fun h => List.Pairwise.isChain h

/-- Winners of different keys are sorted in one way. -/
theorem mergeSort_byKey_perm {l l' : List KeyedStake} (hp : l.Perm l')
    (hnd : (l.map KeyedStake.pk).Nodup) : l.mergeSort byKey = l'.mergeSort byKey := by
  refine List.Perm.eq_of_pairwise ?_ (List.pairwise_mergeSort byKey_trans byKey_total l)
    (List.pairwise_mergeSort byKey_trans byKey_total l') ?_
  · intro a b ha hb hab hba
    exact List.inj_on_of_nodup_map hnd (List.mem_mergeSort.mp ha)
      (hp.mem_iff.mpr (List.mem_mergeSort.mp hb)) (keyLe_antisymm _ _ hab hba)
  · exact (List.mergeSort_perm l byKey).trans (hp.trans (List.mergeSort_perm l' byKey).symm)

theorem distinct_iff (winners : List KeyedStake) :
    ((winners.mergeSort byKey).map KeyedStake.pk).IsChain (· ≠ ·) ↔
      (winners.map KeyedStake.pk).Nodup := by
  rw [isChain_ne_iff (List.pairwise_mergeSort byKey_trans byKey_total winners)]
  exact ((List.mergeSort_perm winners byKey).map _).nodup_iff

/-- **The order in which the winners come does not matter.** -/
theorem computeParimutuelPayouts_perm {winners winners' : List KeyedStake}
    (hp : winners.Perm winners') (pool wp : Int) :
    computeParimutuelPayouts winners pool wp = computeParimutuelPayouts winners' pool wp := by
  have hnil : winners = [] ↔ winners' = [] := by
    rw [← List.length_eq_zero_iff, hp.length_eq, List.length_eq_zero_iff]
  have hkeys : (winners.map KeyedStake.pk).Nodup ↔ (winners'.map KeyedStake.pk).Nodup :=
    (hp.map _).nodup_iff
  unfold computeParimutuelPayouts
  simp only [ne_eq, hnil, require, distinct_iff, hkeys]
  by_cases h : (winners'.map KeyedStake.pk).Nodup
  · rw [mergeSort_byKey_perm hp (hkeys.mpr h)]
  · simp only [if_neg h, Option.bind_eq_bind, Option.bind_none]

/-- The payouts before what is left over is added. -/
def keyedShares (pool wp : Int) (winners : List KeyedStake) : List KeyedPayout :=
  winners.map fun w => { pk := w.pk, payout := (w.stake * pool).tdiv wp }

theorem mapM_keyedPayout {pool wp : Int} {ws : List KeyedStake} {ps : List KeyedPayout} :
    ws.mapM (keyedPayout pool wp) = some ps ↔
      (∀ w ∈ ws, 0 < w.stake) ∧ keyedShares pool wp ws = ps := by
  induction ws generalizing ps with
  | nil => simp [keyedShares]
  | cons w ws ih =>
    simp only [List.mapM_cons, Option.pure_def, Option.bind_eq_bind, Option.bind_eq_some_iff, ih,
      Option.some.injEq, keyedPayout, require_eq_some, exists_const, List.forall_mem_cons,
      keyedShares, List.map_cons]
    constructor
    · rintro ⟨_, ⟨hw, rfl⟩, _, ⟨hws, rfl⟩, rfl⟩
      exact ⟨⟨hw, hws⟩, rfl⟩
    · rintro ⟨⟨hw, hws⟩, rfl⟩
      exact ⟨_, ⟨hw, rfl⟩, _, ⟨hws, rfl⟩, rfl⟩

/-- **When there are payouts, and which.** -/
theorem computeParimutuelPayouts_eq_some {winners : List KeyedStake} {pool wp : Int}
    {ps : List KeyedPayout} :
    computeParimutuelPayouts winners pool wp = some ps ↔
      (0 < wp ∧ 0 < pool ∧ winners ≠ [] ∧ (winners.map KeyedStake.pk).Nodup ∧
        ∀ w ∈ winners, 0 < w.stake) ∧
      distributed (keyedShares pool wp (winners.mergeSort byKey)) ≤ pool ∧
      addDust (pool - distributed (keyedShares pool wp (winners.mergeSort byKey)))
        (keyedShares pool wp (winners.mergeSort byKey)) = ps := by
  unfold computeParimutuelPayouts
  simp only [Option.bind_eq_bind, Option.bind_eq_some_iff, mapM_keyedPayout, distinct_iff,
    List.mem_mergeSort, require_eq_some, exists_const, Option.some.injEq]
  constructor
  · rintro ⟨hwp, hpool, hne, hnd, _, ⟨hpos, rfl⟩, hdust, rfl⟩
    exact ⟨⟨hwp, hpool, hne, hnd, hpos⟩, by omega, rfl⟩
  · rintro ⟨⟨hwp, hpool, hne, hnd, hpos⟩, hle, rfl⟩
    exact ⟨hwp, hpool, hne, hnd, _, ⟨hpos, rfl⟩, by omega, rfl⟩

theorem distributed_addDust {dust : Int} {ps : List KeyedPayout} (hne : ps ≠ []) :
    distributed (addDust dust ps) = distributed ps + dust := by
  cases ps with
  | nil => exact absurd rfl hne
  | cons p ps =>
    simp only [distributed, addDust, List.map_cons, List.sum_cons]
    ring

theorem keyedShares_ne_nil {pool wp : Int} {winners : List KeyedStake} (hne : winners ≠ []) :
    keyedShares pool wp (winners.mergeSort byKey) ≠ [] := by
  rw [keyedShares, ne_eq, List.map_eq_nil_iff, ← List.length_eq_zero_iff, List.length_mergeSort,
    List.length_eq_zero_iff]
  exact hne

/-- **Whatever is paid out adds up to the pool.** -/
theorem distributed_eq {winners : List KeyedStake} {pool wp : Int} {ps : List KeyedPayout}
    (h : computeParimutuelPayouts winners pool wp = some ps) : distributed ps = pool := by
  obtain ⟨⟨-, -, hne, -⟩, -, rfl⟩ := computeParimutuelPayouts_eq_some.mp h
  rw [distributed_addDust (keyedShares_ne_nil hne)]
  omega

/-- The shares of the whole winning side are no more than the pool. -/
theorem distributed_le {winners : List KeyedStake} {pool : Int} (hpool : 0 < pool)
    (hpos : ∀ w ∈ winners, 0 < w.stake) (hwp : 0 < winnerPool winners) :
    distributed (keyedShares pool (winnerPool winners) winners) ≤ pool := by
  have hfloors : distributed (keyedShares pool (winnerPool winners) winners) =
      (ProRata.floors pool (winnerPool winners) (winners.map KeyedStake.stake)).sum := by
    rw [distributed, keyedShares, ProRata.floors, List.map_map, List.map_map]
    congr 1
    apply List.map_congr_left
    intro w hw
    exact Int.tdiv_eq_ediv_of_nonneg (mul_nonneg (hpos w hw).le hpool.le)
  rw [hfloors]
  exact ProRata.sum_floors_le_self hwp rfl

theorem winnerPool_perm {l l' : List KeyedStake} (hp : l.Perm l') :
    winnerPool l = winnerPool l' := (hp.map _).sum_eq

theorem winnerPool_pos {winners : List KeyedStake} (hne : winners ≠ [])
    (hpos : ∀ w ∈ winners, 0 < w.stake) : 0 < winnerPool winners := by
  apply List.sum_pos
  · intro x hx
    obtain ⟨w, hw, rfl⟩ := List.mem_map.mp hx
    exact hpos w hw
  · simpa using hne

/-- Winners of different keys, with something to share, are paid. -/
theorem computeParimutuelPayouts_some {winners : List KeyedStake} {pool : Int}
    (hne : winners ≠ []) (hpos : ∀ w ∈ winners, 0 < w.stake)
    (hkeys : (winners.map KeyedStake.pk).Nodup) (hpool : 0 < pool) :
    ∃ ps, computeParimutuelPayouts winners pool (winnerPool winners) = some ps := by
  have hwp := winnerPool_pos hne hpos
  have hperm := List.mergeSort_perm winners byKey
  have hle : distributed (keyedShares pool (winnerPool winners) (winners.mergeSort byKey)) ≤
      pool := by
    rw [← winnerPool_perm hperm] at hwp ⊢
    exact distributed_le hpool (fun w hw => hpos w (List.mem_mergeSort.mp hw)) hwp
  exact ⟨_, computeParimutuelPayouts_eq_some.mpr ⟨⟨hwp, hpool, hne, hkeys, hpos⟩, hle, rfl⟩⟩

/-! ### The other payout function -/

/-- A winner as a bet, whatever bytes a key stands for. -/
def KeyedStake.bet (key : String → Bytes) (direction : Int) (w : KeyedStake) : Bet where
  pk := key w.pk
  stake := w.stake
  direction := direction

def KeyedPayout.leafBy (key : String → Bytes) (p : KeyedPayout) : Leaf where
  pk := key p.pk
  amount := p.payout

theorem dustTo_leafBy (key : String → Bytes) (d : Int) (ps : List KeyedPayout) :
    dustTo d (ps.map (KeyedPayout.leafBy key)) =
      (addDust (d - distributed ps) ps).map (KeyedPayout.leafBy key) := by
  have hsum : sumAmounts (ps.map (KeyedPayout.leafBy key)) = distributed ps := by
    rw [sumAmounts, List.map_map]
    rfl
  cases ps with
  | nil => rfl
  | cons p ps =>
    rw [List.map_cons] at hsum
    rw [List.map_cons, dustTo, hsum]
    rfl

/-- **Both functions pay alike**, once the winners stand in the order of their keys. -/
theorem computePariMutuelPayout_sorted {winners : List KeyedStake} {pool : Int}
    {ps : List KeyedPayout}
    (h : computeParimutuelPayouts winners pool (winnerPool winners) = some ps)
    (key : String → Bytes) {direction : Int} (hdir : direction = 0 ∨ direction = 1) :
    ∃ pm, computePariMutuelPayout ((winners.mergeSort byKey).map (KeyedStake.bet key direction))
        direction (some pool) 0 [] = some pm ∧ pm.degenerate = false ∧
      pm.winners = ps.map (KeyedPayout.leafBy key) ∧
      pm.payoutLeaves = ps.map (KeyedPayout.leafBy key) := by
  obtain ⟨⟨hwp, -, hne, -, -⟩, -, rfl⟩ := computeParimutuelPayouts_eq_some.mp h
  have hperm := List.mergeSort_perm winners byKey
  have hsorted : winners.mergeSort byKey ≠ [] := by
    intro hnil
    exact hne ((hnil ▸ hperm).nil_eq.symm)
  rw [← winnerPool_perm hperm] at hwp ⊢
  generalize winners.mergeSort byKey = sorted at hwp hsorted
  have hall : winnersOf (sorted.map (KeyedStake.bet key direction)) direction =
      sorted.map (KeyedStake.bet key direction) := by
    apply List.filter_eq_self.mpr
    intro b hb
    obtain ⟨w, -, rfl⟩ := List.mem_map.mp hb
    exact decide_eq_true rfl
  have hstakes : sumStakes (sorted.map (KeyedStake.bet key direction)) = winnerPool sorted := by
    rw [sumStakes, List.map_map]
    rfl
  have hsome : ¬ (sorted.map (KeyedStake.bet key direction) = [] ∨ winnerPool sorted = 0) := by
    rintro (hnil | hzero)
    · exact hsorted (List.map_eq_nil_iff.mp hnil)
    · omega
  have hshares : shares pool (winnerPool sorted) (sorted.map (KeyedStake.bet key direction)) =
      (keyedShares pool (winnerPool sorted) sorted).map (KeyedPayout.leafBy key) := by
    rw [shares, keyedShares, List.map_map, List.map_map]
    rfl
  have hfee : sumAmounts [] = 0 := rfl
  have hpool : pool - bpsAmt pool 0 = pool := by
    rw [bpsAmt, mul_zero, Int.zero_tdiv, Int.sub_zero]
  unfold computePariMutuelPayout
  rw [require, if_pos hdir]
  simp only [Option.bind_eq_bind, Option.bind_some, Option.getD_some, List.map_nil, hfee,
    lt_irrefl, if_false, hpool, hall, hstakes, if_neg hsome, hshares, dustTo_leafBy,
    List.append_nil]
  exact ⟨_, rfl, rfl, rfl, rfl⟩

/-! ### The depth of the tree -/

/-- `1 << d`: the count is taken modulo 32, and the highest bit is the sign. -/
def shl1 (d : Nat) : Int := if d % 32 = 31 then -2 ^ 31 else 2 ^ (d % 32)

/-- `while ((1 << d) < n) d++`, for some turns. -/
def depthLoop (n : Nat) : Nat → Nat → Option Nat
  | 0, _ => none
  | turns + 1, d => if shl1 d < n then depthLoop n turns (d + 1) else some d

/-- In 32 turns the loop has seen every value of `1 << d`: it ends by then or never. -/
def depthFor (n : Nat) : Option Nat := (depthLoop n 32 0).map (max 1)

theorem shl1_le (d : Nat) : shl1 d ≤ 2 ^ 30 := by
  unfold shl1
  by_cases h : d % 32 = 31
  · rw [if_pos h]
    norm_num
  · rw [if_neg h]
    exact pow_le_pow_right₀ (by norm_num) (by omega)

theorem shl1_of_le {d : Nat} (h : d ≤ 30) : shl1 d = ((2 ^ d : Nat) : Int) := by
  rw [shl1, Nat.mod_eq_of_lt (by omega), if_neg (by omega)]
  push_cast
  rfl

/-- Beyond `1 << 30` the loop has no end. -/
theorem depthLoop_never {n : Nat} (h : 2 ^ 30 < n) (turns d : Nat) :
    depthLoop n turns d = none := by
  induction turns generalizing d with
  | zero => rfl
  | succ turns ih =>
    have hlt : shl1 d < n := by
      have := shl1_le d
      omega
    rw [depthLoop, if_pos hlt, ih]

theorem depthLoop_eq {n turns d : Nat} (hn : n ≤ 2 ^ 30) (hd : d ≤ Nat.clog 2 n)
    (hturns : Nat.clog 2 n < d + turns) : depthLoop n turns d = some (Nat.clog 2 n) := by
  have hclog : Nat.clog 2 n ≤ 30 := Nat.clog_le_of_le_pow hn
  induction turns generalizing d with
  | zero => omega
  | succ turns ih =>
    rw [depthLoop, shl1_of_le (hd.trans hclog)]
    by_cases h : ((2 ^ d : Nat) : Int) < n
    · have hlt : d < Nat.clog 2 n :=
        (Nat.lt_clog_iff_pow_lt (by norm_num)).mpr (by exact_mod_cast h)
      rw [if_pos h, ih hlt (by omega)]
    · have hge : Nat.clog 2 n ≤ d := Nat.clog_le_of_le_pow (by exact_mod_cast not_lt.mp h)
      rw [if_neg h, le_antisymm hd hge]

/-- **The depth is the logarithm rounded up**, and at least one level. -/
theorem depthFor_eq {n : Nat} (h : n ≤ 2 ^ 30) : depthFor n = some (max 1 (Nat.clog 2 n)) := by
  have hclog : Nat.clog 2 n ≤ 30 := Nat.clog_le_of_le_pow h
  rw [depthFor, depthLoop_eq h (Nat.zero_le _) (by omega)]
  rfl

theorem depthFor_eq_none {n : Nat} (h : 2 ^ 30 < n) : depthFor n = none := by
  rw [depthFor, depthLoop_never h]
  rfl

theorem le_two_pow_depth (n : Nat) : n ≤ 2 ^ max 1 (Nat.clog 2 n) :=
  (Nat.le_pow_clog (by norm_num) n).trans (Nat.pow_le_pow_right (by norm_num) (le_max_right _ _))

/-! ### The tree -/

/-- A payout, as the tree reads it. -/
def KeyedPayout.leaf (p : KeyedPayout) : Leaf := p.leafBy fun pk => bufferFromHex pk.toList

structure PayoutTree where
  levels : List (List Bytes32)
  depth : Nat
  root : Bytes32
deriving DecidableEq

def buildPayoutTree (e : Engine) (payouts : List KeyedPayout) : Option PayoutTree := do
  require (payouts ≠ [])
  let depth ← depthFor payouts.length
  let level ← payouts.mapM fun w => payoutLeaf e (bufferFromHex w.pk.toList) w.payout
  let levels := levelsFrom e depth (Merkle.pad ZERO32 depth level)
  some { levels, depth, root := (levels.getD depth []).headD ZERO32 }

def payoutMerkleProof (e : Engine) (payouts : List KeyedPayout) (idx : Nat) :
    Option (List Bytes32) :=
  (buildPayoutTree e payouts).map fun t => siblingsLoop t.depth t.levels idx

/-- The loop of `climbPayoutProof`, from the level `lvl` on. -/
def climbSiblings (e : Engine) (idx : Nat) : Nat → Bytes32 → List Bytes32 → Bytes32
  | _, cur, [] => cur
  | lvl, cur, sib :: siblings =>
    climbSiblings e idx (lvl + 1)
      (if (idx >>> (lvl % 32)) &&& 1 = 0 then hashNode e cur sib else hashNode e sib cur) siblings

def climbPayoutProof (e : Engine) (pkHex : String) (payoutBig : Int) (idx : Nat)
    (siblings : List Bytes32) : Option Bytes32 :=
  (payoutLeaf e (bufferFromHex pkHex.toList) payoutBig).map fun leaf =>
    climbSiblings e idx 0 leaf siblings

theorem climbSiblings_eq (e : Engine) (idx lvl : Nat) (cur : Bytes32) (siblings : List Bytes32)
    (h : lvl + siblings.length ≤ 32) :
    climbSiblings e idx lvl cur siblings =
      Merkle.climb (hashNode e) (idx >>> lvl) cur siblings := by
  induction siblings generalizing lvl cur with
  | nil => rfl
  | cons sib siblings ih =>
    rw [List.length_cons] at h
    have hhalf : idx >>> (lvl + 1) = idx >>> lvl / 2 := Nat.shiftRight_succ idx lvl
    rw [climbSiblings, ih (lvl + 1) _ (by omega), Merkle.climb, hhalf, Nat.mod_eq_of_lt (by omega),
      Nat.and_one_is_mod]

/-- The tree over the payouts. -/
def treeOver (e : Engine) (payouts : List KeyedPayout) : PayoutTree :=
  let depth := max 1 (Nat.clog 2 payouts.length)
  let leaves := Merkle.pad ZERO32 depth (payouts.map fun p => p.leaf.hash e)
  { levels := levelsFrom e depth leaves
    depth
    root := Merkle.root (hashNode e) ZERO32 depth leaves }

theorem mapM_keyedLeaf {e : Engine} {ps : List KeyedPayout} {hs : List Bytes32} :
    ps.mapM (fun w => payoutLeaf e (bufferFromHex w.pk.toList) w.payout) = some hs ↔
      (∀ p ∈ ps, p.leaf.Payable) ∧ (ps.map fun p => p.leaf.hash e) = hs := by
  have hmap : ps.mapM (fun w => payoutLeaf e (bufferFromHex w.pk.toList) w.payout) =
      (ps.map KeyedPayout.leaf).mapM fun w : Leaf => payoutLeaf e w.pk w.amount := by
    rw [List.mapM_map]
    rfl
  rw [hmap, mapM_payoutLeaf, List.map_map]
  simp only [List.forall_mem_map]
  exact Iff.rfl

/-- **When there is a tree, and which.** -/
theorem buildPayoutTree_eq_some {e : Engine} {ps : List KeyedPayout} {t : PayoutTree} :
    buildPayoutTree e ps = some t ↔ ps ≠ [] ∧ ps.length ≤ 2 ^ 30 ∧
      (∀ p ∈ ps, p.leaf.Payable) ∧ treeOver e ps = t := by
  unfold buildPayoutTree
  simp only [Option.bind_eq_bind, Option.bind_eq_some_iff, require_eq_some, exists_const,
    mapM_keyedLeaf, Option.some.injEq, levelsFrom_last]
  constructor
  · rintro ⟨hne, depth, hdepth, _, ⟨hp, rfl⟩, rfl⟩
    have hlen : ps.length ≤ 2 ^ 30 := by
      by_contra hlong
      rw [depthFor_eq_none (not_le.mp hlong)] at hdepth
      cases hdepth
    rw [depthFor_eq hlen] at hdepth
    obtain rfl := Option.some.inj hdepth
    exact ⟨hne, hlen, hp, rfl⟩
  · rintro ⟨hne, hlen, hp, rfl⟩
    exact ⟨hne, _, depthFor_eq hlen, _, ⟨hp, rfl⟩, rfl⟩

/-- **A proof climbs to the root**, from the place of its payout. -/
theorem climb_payoutMerkleProof {e : Engine} {ps : List KeyedPayout} {t : PayoutTree}
    (ht : buildPayoutTree e ps = some t) {idx : Nat} {p : KeyedPayout} (hp : ps[idx]? = some p) :
    ∃ siblings, payoutMerkleProof e ps idx = some siblings ∧ siblings.length = t.depth ∧
      climbPayoutProof e p.pk p.payout idx siblings = some t.root := by
  obtain ⟨-, hlen, hpay, rfl⟩ := buildPayoutTree_eq_some.mp ht
  obtain ⟨hidx, -⟩ := List.getElem?_eq_some_iff.mp hp
  have hcap : (ps.map fun p => p.leaf.hash e).length ≤ 2 ^ (treeOver e ps).depth := by
    rw [List.length_map]
    exact le_two_pow_depth ps.length
  have hlt : idx < 2 ^ (treeOver e ps).depth := by
    rw [List.length_map] at hcap
    exact hidx.trans_le hcap
  have hdepth : max 1 (Nat.clog 2 ps.length) ≤ 30 :=
    max_le (by norm_num) (Nat.clog_le_of_le_pow hlen)
  have hpath : payoutMerkleProof e ps idx = some (Merkle.path (hashNode e) ZERO32
      (treeOver e ps).depth (Merkle.pad ZERO32 (treeOver e ps).depth
        (ps.map fun p => p.leaf.hash e)) idx) := by
    rw [payoutMerkleProof, ht, Option.map_some]
    exact congrArg some (siblingsLoop_levelsFrom e _ _ idx)
  refine ⟨_, hpath, Merkle.path_length _ _ _, ?_⟩
  have hleaf : (Merkle.pad ZERO32 (treeOver e ps).depth
      (ps.map fun p => p.leaf.hash e)).getD idx ZERO32 = p.leaf.hash e := by
    rw [Merkle.pad, List.getD_append _ _ _ _ (by rw [List.length_map]; exact hidx),
      List.getD_eq_getElem?_getD, List.getElem?_map, hp]
    rfl
  have hhash : payoutLeaf e (bufferFromHex p.pk.toList) p.payout = some (p.leaf.hash e) :=
    payoutLeaf_eq_some.mpr ⟨hpay p (List.mem_of_getElem? hp), rfl⟩
  have hfits : 0 + (Merkle.path (hashNode e) ZERO32 (treeOver e ps).depth
      (Merkle.pad ZERO32 (treeOver e ps).depth (ps.map fun p => p.leaf.hash e)) idx).length ≤
        32 := by
    rw [Merkle.path_length, Nat.zero_add]
    exact hdepth.trans (by norm_num)
  rw [climbPayoutProof, hhash, Option.map_some, climbSiblings_eq e idx 0 _ _ hfits,
    Nat.shiftRight_zero, ← hleaf, Merkle.climb_path (Merkle.pad_length hcap) hlt]
  rfl

/-- **Pari-mutuel payouts of any number of winners.**  Winners of different keys share the pool
to the sompi, however they come, and as they share it in the other payout function once they
stand in the order of their keys; and in the tree over the payouts every proof climbs to the
root. -/
theorem parimutuel_payouts {winners : List KeyedStake} {pool : Int} (hne : winners ≠ [])
    (hpos : ∀ w ∈ winners, 0 < w.stake) (hkeys : (winners.map KeyedStake.pk).Nodup)
    (hpool : 0 < pool) :
    ∃ payouts, computeParimutuelPayouts winners pool (winnerPool winners) = some payouts ∧
      distributed payouts = pool ∧
      (∀ winners', winners'.Perm winners →
        computeParimutuelPayouts winners' pool (winnerPool winners') = some payouts) ∧
      (∀ (key : String → Bytes) (direction : Int), direction = 0 ∨ direction = 1 →
        ∃ pm, computePariMutuelPayout
            ((winners.mergeSort byKey).map (KeyedStake.bet key direction)) direction (some pool)
            0 [] = some pm ∧ pm.degenerate = false ∧
          pm.winners = payouts.map (KeyedPayout.leafBy key) ∧
          pm.payoutLeaves = payouts.map (KeyedPayout.leafBy key)) ∧
      ∀ e : Engine, payouts.length ≤ 2 ^ 30 → (∀ p ∈ payouts, p.leaf.Payable) →
        ∃ t, buildPayoutTree e payouts = some t ∧
          ∀ (idx : Nat) (p : KeyedPayout), payouts[idx]? = some p →
            ∃ siblings, payoutMerkleProof e payouts idx = some siblings ∧
              siblings.length = t.depth ∧
              climbPayoutProof e p.pk p.payout idx siblings = some t.root := by
  obtain ⟨payouts, hps⟩ := computeParimutuelPayouts_some hne hpos hkeys hpool
  have hsum := distributed_eq hps
  refine ⟨payouts, hps, hsum, ?_, ?_, ?_⟩
  · intro winners' hp
    rw [winnerPool_perm hp, computeParimutuelPayouts_perm hp, hps]
  · intro key direction hdir
    exact computePariMutuelPayout_sorted hps key hdir
  · intro e hlen hpay
    have hne' : payouts ≠ [] := by
      rintro rfl
      exact hpool.ne hsum
    have ht := buildPayoutTree_eq_some.mpr ⟨hne', hlen, hpay, (rfl : treeOver e payouts = _)⟩
    exact ⟨_, ht, fun idx p hp => climb_payoutMerkleProof ht hp⟩

/-! ### What is refused -/

/-- Two winners of one key have no payouts. -/
theorem computeParimutuelPayouts_dup {winners : List KeyedStake} {pool wp : Int}
    (h : ¬ (winners.map KeyedStake.pk).Nodup) :
    computeParimutuelPayouts winners pool wp = none := by
  by_contra hne
  obtain ⟨ps, hps⟩ := Option.ne_none_iff_exists'.mp hne
  exact h (computeParimutuelPayouts_eq_some.mp hps).1.2.2.2.1

/-- A key twice, nothing to share, a share that comes to nothing, and more payouts than the loop
for the depth can count. -/
theorem parimutuel_refusals :
    computeParimutuelPayouts [⟨"aa", 1⟩, ⟨"aa", 2⟩] 10 3 = none ∧
      computeParimutuelPayouts [⟨"aa", 1⟩] 0 1 = none ∧
      buildPayoutTree sampleEngine [⟨"aa", 5⟩, ⟨"bb", 0⟩] = none ∧
      depthFor (2 ^ 30 + 1) = none := by
  refine ⟨computeParimutuelPayouts_dup (by decide), rfl, ?_, depthFor_eq_none (by norm_num)⟩
  by_contra hne
  obtain ⟨t, ht⟩ := Option.ne_none_iff_exists'.mp hne
  have hpay := (buildPayoutTree_eq_some.mp ht).2.2.1 ⟨"bb", 0⟩ (by simp)
  exact absurd hpay.pos (lt_irrefl _)

/-- Three winners, of which the last by key comes first. -/
theorem parimutuel_payouts_three :
    ∃ payouts, computeParimutuelPayouts [⟨"cc", 3⟩, ⟨"aa", 3⟩, ⟨"bb", 1⟩] 100
        (winnerPool [⟨"cc", 3⟩, ⟨"aa", 3⟩, ⟨"bb", 1⟩]) = some payouts ∧
      distributed payouts = 100 := by
  obtain ⟨payouts, hps, hsum, -⟩ := parimutuel_payouts
    (List.cons_ne_nil _ _ : ([⟨"cc", 3⟩, ⟨"aa", 3⟩, ⟨"bb", 1⟩] : List KeyedStake) ≠ [])
    (by decide) (by decide) (show (0 : Int) < 100 by norm_num)
  exact ⟨payouts, hps, hsum⟩

end KANet.Settle
