import KANet.Covenant.CloseZkV2
import KANet.Payout.Root

/-!
# `zk-payout-guest/methods/guest/src/main.rs`

The program whose proof moves a `CloseZkV2` to its payout tree.  It reads the bets and
how they are to be paid, and commits to a journal of 65 bytes: the bets root, the
winning side and the payout root.  Amounts are `u64` and wrap, as a release build
wraps them; an assertion that fails leaves no journal.

The journal names the bets and the winner.  The pool, the fee rate and the fee leaves
are inputs that nothing else names: `payout_root_eq_iff` says what two runs with one
bets root and one winner must still agree on to end in one payout root.
-/

namespace KANet.Zk.Guest

open KANet.Lib KANet.Script KANet.Covenant

/-! ### Hashes -/

/-- The loop of `pool-payout-root.mjs`, on an `i128`. -/
def serialize_i64 (num : Int) (size : Option Nat) : Option Bytes := Payout.serializeI64 num size

def payout_leaf (e : Engine) (pk : Bytes32) (amount_sompi : UInt64) : Option Bytes32 := do
  require (0 < amount_sompi)
  let amt ← serialize_i64 amount_sompi.toNat (some 8)
  some (e.blake2b (pk.toList ++ amt))

def bets_leaf (e : Engine) (pk : Bytes32) (stake_sompi : UInt64) (dir : UInt8) :
    Option Bytes32 := do
  require (0 < stake_sompi)
  require (dir = 0 ∨ dir = 1)
  let stake ← serialize_i64 stake_sompi.toNat (some 8)
  let d ← serialize_i64 dir.toNat (some 1)
  some (e.blake2b (pk.toList ++ stake ++ d))

structure Bet where
  pk : Bytes32
  stake : UInt64
  direction : UInt8
deriving DecidableEq

/-- `PayoutLeaf`, and `FeeLeafIn`, which has the same fields. -/
structure PayoutLeaf where
  pk : Bytes32
  amount : UInt64
deriving DecidableEq

def compute_bets_root (e : Engine) (ordered_bets : List Bet) : Option Bytes32 :=
  ordered_bets.foldlM
    (fun acc b => (bets_leaf e b.pk b.stake b.direction).map (hashNode e acc)) ZERO32

/-- The root of a subtree of pads only: the table entry `zero_at[d]`. -/
def zero_at (e : Engine) : Nat → Bytes32
  | 0 => ZERO32
  | d + 1 => hashNode e (zero_at e d) (zero_at e d)

/-- The levels from `d` on, with the turns still to go. -/
def levelLoop (e : Engine) : Nat → Nat → List Bytes32 → List Bytes32
  | 0, _, level => level
  | n + 1, d, level => levelLoop e n (d + 1) (Merkle.joinPrefix (hashNode e) (zero_at e d) level)

def payout_root (e : Engine) (leaves : List PayoutLeaf) : Option Bytes32 := do
  require (leaves.length ≤ Payout.CAP)
  require (leaves ≠ [])
  let level ← leaves.mapM fun w => payout_leaf e w.pk w.amount
  (levelLoop e Payout.DEPTH 0 level).head?

/-! ### The program -/

structure GuestInput where
  bettors : List Bet
  winning_direction : UInt8
  pool_total_sompi : Option UInt64
  fee_bps : UInt64
  fee_leaves : List PayoutLeaf

structure Journal where
  bets_root : Bytes32
  winning_direction : UInt8
  payout_root : Bytes32
deriving DecidableEq

/-- `bets_root ‖ winning_direction ‖ payout_root` -/
def Journal.bytes (j : Journal) : Bytes :=
  j.bets_root.toList ++ [j.winning_direction] ++ j.payout_root.toList

/-- `.sum()`, which wraps. -/
def sum (l : List UInt64) : UInt64 := l.foldr (· + ·) 0

namespace GuestInput

variable (input : GuestInput)

def pool : UInt64 := input.pool_total_sompi.getD (sum (input.bettors.map Bet.stake))

def fee_from_leaves : UInt64 := sum (input.fee_leaves.map PayoutLeaf.amount)

def fee_sompi : UInt64 :=
  if 0 < input.fee_from_leaves then input.fee_from_leaves
  else UInt64.ofNat (input.pool.toNat * input.fee_bps.toNat / 10000)

def distributable : UInt64 := input.pool - input.fee_sompi

def winners : List Bet := input.bettors.filter fun b => b.direction = input.winning_direction

def total_win_stake : UInt64 := sum (input.winners.map Bet.stake)

/-- Nobody to pay: the program commits to `ZERO32` in place of a root. -/
def Degenerate : Prop := input.winners = [] ∨ input.total_win_stake = 0

instance : Decidable input.Degenerate := inferInstanceAs (Decidable (_ ∨ _))

/-- Each winner's share, rounded down. -/
def shares : List PayoutLeaf := input.winners.map fun b =>
  { pk := b.pk
    amount := UInt64.ofNat
      (b.stake.toNat * input.distributable.toNat / input.total_win_stake.toNat) }

def assigned : UInt64 := sum (input.shares.map PayoutLeaf.amount)

/-- What rounding left over goes to the first winner. -/
def payouts : List PayoutLeaf :=
  match input.shares with
  | [] => []
  | p :: ps => { p with amount := p.amount + (input.distributable - input.assigned) } :: ps

def leaves : List PayoutLeaf := input.payouts ++ input.fee_leaves

end GuestInput

def main (e : Engine) (input : GuestInput) : Option Journal := do
  let bets_root ← compute_bets_root e input.bettors
  let payout_root_bytes ←
    if input.Degenerate then some ZERO32 else payout_root e input.leaves
  some { bets_root, winning_direction := input.winning_direction, payout_root := payout_root_bytes }

/-! ### The same commitments as off the chain -/

def Bet.toBet (b : Bet) : Payout.Bet where
  pk := b.pk.toList
  stake := b.stake.toNat
  direction := b.direction.toNat

def PayoutLeaf.toLeaf (w : PayoutLeaf) : Payout.Leaf where
  pk := w.pk.toList
  amount := w.amount.toNat

theorem Bet.toBet_inj : Function.Injective Bet.toBet := by
  rintro ⟨pk, stake, direction⟩ ⟨pk', stake', direction'⟩ h
  simp only [toBet, Payout.Bet.mk.injEq, Nat.cast_inj] at h
  obtain ⟨h₁, h₂, h₃⟩ := h
  rw [List.Vector.eq _ _ h₁, UInt64.toNat_inj.mp h₂, UInt8.toNat_inj.mp h₃]

theorem PayoutLeaf.toLeaf_inj : Function.Injective PayoutLeaf.toLeaf := by
  rintro ⟨pk, amount⟩ ⟨pk', amount'⟩ h
  simp only [toLeaf, Payout.Leaf.mk.injEq, Nat.cast_inj] at h
  rw [List.Vector.eq _ _ h.1, UInt64.toNat_inj.mp h.2]

theorem payout_leaf_eq (e : Engine) (w : PayoutLeaf) :
    payout_leaf e w.pk w.amount = Payout.payoutLeaf e w.toLeaf.pk w.toLeaf.amount := by
  have hpk : w.pk.toList.length = 32 := w.pk.toList_length
  unfold payout_leaf Payout.payoutLeaf require PayoutLeaf.toLeaf serialize_i64
  rw [if_neg (not_not.mpr hpk)]
  by_cases h : 0 < w.amount
  · have hpos : ¬ (w.amount.toNat : Int) ≤ 0 := by
      have := UInt64.lt_iff_toNat_lt.mp h
      simp only [UInt64.toNat_zero] at this
      omega
    rw [if_pos h, if_neg hpos]
    cases Payout.serializeI64 w.amount.toNat (some 8) <;> rfl
  · have hz : (w.amount.toNat : Int) ≤ 0 := by
      have := UInt64.lt_iff_toNat_lt.not.mp h
      simp only [UInt64.toNat_zero] at this
      omega
    rw [if_neg h, if_pos hz]
    rfl

theorem bets_leaf_eq (e : Engine) (b : Bet) :
    bets_leaf e b.pk b.stake b.direction =
      Payout.betsLeaf e b.toBet.pk b.toBet.stake b.toBet.direction := by
  have hpk : b.pk.toList.length = 32 := b.pk.toList_length
  unfold bets_leaf Payout.betsLeaf require Bet.toBet serialize_i64
  rw [if_neg (not_not.mpr hpk)]
  by_cases h : 0 < b.stake
  · have hpos : ¬ (b.stake.toNat : Int) ≤ 0 := by
      have := UInt64.lt_iff_toNat_lt.mp h
      simp only [UInt64.toNat_zero] at this
      omega
    have hdir : (b.direction = 0 ∨ b.direction = 1) ↔
        ¬ ((b.direction.toNat : Int) ≠ 0 ∧ (b.direction.toNat : Int) ≠ 1) := by
      rw [← UInt8.toNat_inj, ← UInt8.toNat_inj]
      simp only [UInt8.toNat_zero, UInt8.toNat_one]
      omega
    rw [if_pos h, if_neg hpos]
    by_cases hd : b.direction = 0 ∨ b.direction = 1
    · rw [if_pos hd, if_neg (hdir.mp hd)]
      rfl
    · rw [if_neg hd, if_pos (not_not.mp (hdir.not.mp hd))]
      rfl
  · have hz : (b.stake.toNat : Int) ≤ 0 := by
      have := UInt64.lt_iff_toNat_lt.not.mp h
      simp only [UInt64.toNat_zero] at this
      omega
    rw [if_neg h, if_pos hz]
    rfl

theorem compute_bets_root_eq (e : Engine) (bets : List Bet) :
    compute_bets_root e bets = Payout.computeBetsRoot e (bets.map Bet.toBet) := by
  unfold compute_bets_root Payout.computeBetsRoot
  generalize (ZERO32 : Bytes32) = acc
  induction bets generalizing acc with
  | nil => rfl
  | cons b bets ih =>
    rw [List.foldlM_cons, List.map_cons, List.foldlM_cons, bets_leaf_eq]
    congr 1
    funext acc'
    exact ih acc'

theorem levelLoop_head (e : Engine) (n d : Nat) {level : List Bytes32} (h : level ≠ []) :
    (levelLoop e n d level).head? =
      some (Merkle.prefixRoot (hashNode e) n (zero_at e d) level) := by
  induction n generalizing d level with
  | zero =>
    match level, h with
    | a :: level, _ => rfl
  | succ n ih =>
    have hne : Merkle.joinPrefix (hashNode e) (zero_at e d) level ≠ [] := by
      intro hnil
      have := congrArg List.length hnil
      rw [Merkle.joinPrefix_length, List.length_nil] at this
      have := List.length_pos_iff.mpr h
      omega
    rw [levelLoop, ih (d + 1) hne, Merkle.prefixRoot, zero_at]

/-- **The guest's tree is the tree of `pool-payout-root.mjs`**, less the empty one. -/
theorem payout_root_eq_some {e : Engine} {leaves : List PayoutLeaf} {root : Bytes32} :
    payout_root e leaves = some root ↔ leaves ≠ [] ∧
      Payout.payoutRoot e (leaves.map PayoutLeaf.toLeaf) = some root := by
  have hmap : leaves.mapM (fun w => payout_leaf e w.pk w.amount) =
      (leaves.map PayoutLeaf.toLeaf).mapM fun w => Payout.payoutLeaf e w.pk w.amount := by
    rw [List.mapM_map]
    exact congrArg (fun f => leaves.mapM f) (funext fun w => payout_leaf_eq e w)
  have hcap : Payout.CAP = 1024 := rfl
  unfold payout_root
  rw [hmap, Payout.payoutRoot_eq_some]
  simp only [Option.bind_eq_bind, Option.bind_eq_some_iff, require_eq_some, exists_const,
    Payout.mapM_payoutLeaf, hcap, ne_eq]
  constructor
  · rintro ⟨hlen, hne, _, ⟨hp, rfl⟩, hhead⟩
    rw [levelLoop_head e _ _ (by simpa using hne)] at hhead
    exact ⟨hne, ⟨by rw [List.length_map]; exact hlen, hp⟩, Option.some.inj hhead⟩
  · rintro ⟨hne, hb, rfl⟩
    refine ⟨by simpa using hb.length, hne, _, ⟨hb.payable, rfl⟩, ?_⟩
    rw [levelLoop_head e _ _ (by simpa using hne)]
    rfl

end KANet.Zk.Guest
