import KANet.Covenant.PoolSide
import KANet.Lib.Runs
import Mathlib.Algebra.Order.BigOperators.Group.List
import Mathlib.Tactic.Linarith

/-!
# `WinningsPool_v1.sil` and `PoolSide_v0_7_1.sil`

After the settlement the stakes of the losing side lie in one coin, the winnings pool.  A winner
spends it along with the side he bet with: the pool stands at input 0, the side at input 1, output 0
pays the share, and what is left goes on under the same lock, or to the broker when it is little.

The pool does not know what stands at input 1, and takes the share from the spender; the side does
not know what stands at input 0, and takes the totals from the spender.  Whatever the broker and the
miner get comes out of the pool, over and above the shares.

* `claim_cases`, `claim_winner_eq_some` — what the two scripts accept.
* `canClaim_iff` — when a winner can have his share.
* `winners_share_iff` — when all of them can, over a run of claims.
-/

namespace KANet.Covenant.WinningsPool

open KANet.Lib KANet.Script

structure Contract where
  outcome : Int
  yesPool : Int
  noPool : Int
  brokerPk : Bytes32
  marketCovenantId : Bytes32
deriving DecidableEq

/-! ### The pool -/

/-- What is left is little: the broker has it. -/
def requireDust (c : Contract) (tx : Tx) (newPoolValue : Int) : Option Unit := do
  require (tx.outputs.length = 2)
  let out ← tx.output 1
  require (out.scriptPubKey = ScriptPubKeyP2PK c.brokerPk)
  require ((out.value : Int) ≤ newPoolValue)
  require (2000000 ≤ out.value)

/-- The pool goes on, and the broker has a fee. -/
def requireContinuation (ar : Arith) (c : Contract) (tx : Tx) (selfSpk : Bytes)
    (newPoolValue : Int) : Option Unit := do
  require (tx.outputs.length = 3)
  let out ← tx.output 1
  require (out.scriptPubKey = selfSpk)
  require ((out.value : Int) ≤ newPoolValue)
  let least ← ar (newPoolValue - 100000000)
  require (least ≤ out.value)
  let fee ← tx.output 2
  require (fee.scriptPubKey = ScriptPubKeyP2PK c.brokerPk)
  require (2000000 ≤ fee.value)

/-- `outcome * yesPool + (1 - outcome) * noPool` -/
def losingPool (ar : Arith) (c : Contract) : Option Int := do
  let yes ← ar (c.outcome * c.yesPool)
  let oneMinusOutcome ← ar (1 - c.outcome)
  let no ← ar (oneMinusOutcome * c.noPool)
  ar (yes + no)

def claim (ar : Arith) (c : Contract) (tx : Tx) (activeInputIndex share : Int) : Option Unit := do
  require (activeInputIndex = 0)
  require (tx.inputs.length = 2)
  let in0 ← tx.input 0
  let in1 ← tx.input 1
  require (0 < share)
  require (0 < in1.value)
  require ((in1.value : Int) ≤ share)
  let poolShareTaken ← ar (share - in1.value)
  require (poolShareTaken ≤ in0.value)
  let losingPool ← losingPool ar c
  require (0 < losingPool)
  require (poolShareTaken ≤ losingPool)
  requireOutputValue tx 0 share
  let newPoolValue ← ar (in0.value - poolShareTaken)
  if newPoolValue ≤ 10000000 then requireDust c tx newPoolValue
  else requireContinuation ar c tx in0.scriptPubKey newPoolValue

/-! ### The side -/

/-- `PoolSide_v0_7_1` -/
structure SideContract where
  bettorPk : Bytes32
  spineP2shHash : Bytes32
  marketMetadataHash : Bytes32
  direction : Int
  deadline : Int
deriving DecidableEq

structure ClaimWitness where
  bettorSig : Bytes
  settlementWinner : Int
  totalYesPool : Int
  totalNoPool : Int

inductive SideEntry
  | settled_via_spine
  | claim_winner (wit : ClaimWitness)
  | refund_market_cancelled (bettorSig : Bytes)

/-- `settlementWinner * totalNoPool + (1 - settlementWinner) * totalYesPool` -/
def winningPool (ar : Arith) (wit : ClaimWitness) : Option Int := do
  let oneMinusWinner ← ar (1 - wit.settlementWinner)
  let no ← ar (wit.settlementWinner * wit.totalNoPool)
  let yes ← ar (oneMinusWinner * wit.totalYesPool)
  ar (no + yes)

def claim_winner (e : Engine) (ar : Arith) (c : SideContract) (tx : Tx) (activeInputIndex : Int)
    (wit : ClaimWitness) : Option Unit := do
  require (e.checkSig tx wit.bettorSig c.bettorPk)
  require (wit.settlementWinner = 0 ∨ wit.settlementWinner = 1)
  require (c.direction = wit.settlementWinner)
  require (0 < wit.totalYesPool)
  require (0 < wit.totalNoPool)
  require (activeInputIndex = 1)
  require (tx.inputs.length = 2)
  let in1 ← tx.input 1
  let winningPool ← winningPool ar wit
  require (0 < winningPool)
  let totalPool ← ar (wit.totalYesPool + wit.totalNoPool)
  let product ← ar (in1.value * totalPool)
  let share ← ar (product.tdiv winningPool)
  require ((in1.value : Int) ≤ share)
  require (share ≤ totalPool)
  require (2 ≤ tx.outputs.length)
  requireOutput tx 0 c.bettorPk share

def spendSide (e : Engine) (ar : Arith) (c : SideContract) (tx : Tx) (activeInputIndex : Int) :
    SideEntry → Option Unit
  | .settled_via_spine => PoolSide.settled_via_spine tx
  | .claim_winner wit => claim_winner e ar c tx activeInputIndex wit
  | .refund_market_cancelled bettorSig =>
    PoolSide.refund_market_cancelled e ar c.bettorPk c.deadline tx bettorSig

/-! ### Claims of the pool -/

/-- An unspent side of the market. -/
structure SideCoin where
  contract : SideContract
  value : Nat
  bounded : value < 2 ^ 63
deriving DecidableEq

/-- What the pool's coin is worth, while there is one, and the sides that are left. -/
structure State where
  pool : Option Nat
  sides : List SideCoin
  bounded : ∀ v ∈ pool, v < 2 ^ 63

/-- A spend of the pool; `second` is the side of the market at input 1, if one stands there. -/
structure Claim where
  tx : Tx
  share : Int
  second : Option (SideCoin × SideEntry)

/-- What the pool's coin is worth afterwards. -/
def Claim.continuation (a : Claim) : Option Nat :=
  if a.tx.outputs.length = 3 then a.tx.outputs[1]?.map TxOutput.value else none

def Claim.remaining (a : Claim) (sides : List SideCoin) : List SideCoin :=
  match a.second with
  | none => sides
  | some (k, _) => sides.erase k

/-- The transaction is accepted: by the pool, by the side at input 1 if there is one, and by the
ledger, which makes no money. -/
structure Step (e : Engine) (c : Contract) (poolLock : Bytes) (sideLock : SideContract → Bytes)
    (s : State) (a : Claim) (s' : State) : Prop where
  pool : ∃ in0, a.tx.input 0 = some in0 ∧ in0.scriptPubKey = poolLock ∧ s.pool = some in0.value
  claim : claim i64 c a.tx 0 a.share = some ()
  balanced : (a.tx.outputs.map TxOutput.value).sum ≤ (a.tx.inputs.map TxInput.value).sum
  side : ∀ k entry, a.second = some (k, entry) → k ∈ s.sides ∧
    (∃ in1, a.tx.input 1 = some in1 ∧ in1.value = k.value ∧
      in1.scriptPubKey = sideLock k.contract) ∧
    spendSide e i64 k.contract a.tx 1 entry = some ()
  foreign : a.second = none → ∀ in1, a.tx.input 1 = some in1 → ∀ k ∈ s.sides,
    in1.scriptPubKey ≠ sideLock k.contract
  next : s'.pool = a.continuation
  left : s'.sides = a.remaining s.sides

/-- The pool's arguments are those of its market. -/
structure Market (c : Contract) (sides : List SideCoin) : Prop where
  outcome : c.outcome = 0 ∨ c.outcome = 1
  yes : c.yesPool =
    ((sides.filter fun k => k.contract.direction = 0).map fun k => (k.value : Int)).sum
  no : c.noPool =
    ((sides.filter fun k => k.contract.direction = 1).map fun k => (k.value : Int)).sum
  staked : ∀ k ∈ sides, 0 < k.value

def Contract.winningPool (c : Contract) : Int := if c.outcome = 0 then c.yesPool else c.noPool

/-- The share of a stake, rounded down. -/
def Contract.shareOf (c : Contract) (stake : Int) : Int :=
  stake * (c.yesPool + c.noPool) / c.winningPool

def SideCoin.Wins (c : Contract) (k : SideCoin) : Prop := k.contract.direction = c.outcome

/-- The claim pays the owner of a winning side of the market exactly the share; whatever else is
paid goes to the broker or stays in the pool, and no more than the greatest fee is missing. -/
structure Fair (c : Contract) (poolLock : Bytes) (s : State) (a : Claim) (s' : State)
    (k : SideCoin) : Prop where
  member : k ∈ s.sides
  wins : k.Wins c
  share : a.tx.PaysExactly 0 k.contract.bettorPk (c.shareOf k.value)
  rest : ∀ i out, 0 < i → a.tx.outputs[i]? = some out →
    out.scriptPubKey = ScriptPubKeyP2PK c.brokerPk ∨
      (i = 1 ∧ out.scriptPubKey = poolLock ∧ s'.pool = some out.value)
  fee : ∀ v ∈ s.pool, (v : Int) + k.value ≤ c.shareOf k.value + (s'.pool.getD 0 : Nat) + 100000000

/-- The side is claimed by its owner, with the totals of the pool. -/
def Claim.Own (c : Contract) (a : Claim) (k : SideCoin) : Prop :=
  ∃ wit : ClaimWitness, a.second = some (k, .claim_winner wit) ∧
    wit.settlementWinner = c.outcome ∧ wit.totalYesPool = c.yesPool ∧ wit.totalNoPool = c.noPool

section Law

variable (e : Engine) (c : Contract) (poolLock : Bytes) (sideLock : SideContract → Bytes)

/-- The owner of the side can have the share of it. -/
def CanClaim (s : State) (k : SideCoin) : Prop :=
  ∃ a s', Step e c poolLock sideLock s a s' ∧ a.Own c k ∧
    a.tx.PaysExactly 0 k.contract.bettorPk (c.shareOf k.value)

/-- There is a losing side, the product fits a script number, and the pool has what the share takes
from it and the least fee of the broker. -/
structure Funded (s : State) (k : SideCoin) : Prop where
  yes : 0 < c.yesPool
  no : 0 < c.noPool
  fits : (k.value : Int) * (c.yesPool + c.noPool) < 2 ^ 63
  pool : ∃ v, s.pool = some v ∧ c.shareOf k.value - k.value + 2000000 ≤ v

/-- **The winners share the pool.**  Every claim is fair, and whatever has been claimed, every
winner that is left can still have his share. -/
structure Shares (s₀ : State) (claims : List Claim) : Prop where
  fair : ∀ pre a post, claims = pre ++ a :: post → ∀ s s',
    Run (Step e c poolLock sideLock) s₀ pre s → Step e c poolLock sideLock s a s' →
    ∃ k, Fair c poolLock s a s' k
  claimable : ∀ pre post, claims = pre ++ post → ∀ s, Run (Step e c poolLock sideLock) s₀ pre s →
    ∀ k ∈ s.sides, k.Wins c → CanClaim e c poolLock sideLock s k

/-- Before and after every claim the pool has enough for each winner that is left. -/
def StaysFunded (s₀ : State) (claims : List Claim) : Prop :=
  ∀ pre post, claims = pre ++ post → ∀ s, Run (Step e c poolLock sideLock) s₀ pre s →
    ∀ k ∈ s.sides, k.Wins c → Funded c s k

end Law

/-! ### What the scripts accept -/

theorem i64_eq_some {m n : Int} : i64 m = some n ↔ (-2 ^ 63 < m ∧ m < 2 ^ 63) ∧ n = m := by
  constructor
  · intro h
    refine ⟨?_, i64_exact _ _ h⟩
    by_contra hb
    rw [i64, if_neg (fits_eight.not.mpr hb)] at h
    cases h
  · rintro ⟨hb, rfl⟩
    exact i64_of_fits (fits_eight.mpr hb)

theorem i64_of_bounds {n : Int} (h : -2 ^ 63 < n) (h' : n < 2 ^ 63) : i64 n = some n :=
  i64_eq_some.mpr ⟨⟨h, h'⟩, rfl⟩

section Scripts

variable {e : Engine} {c : Contract} {tx : Tx}

/-- What follows the share: the broker's dust, or the pool and the broker's fee. -/
inductive Rest (c : Contract) (tx : Tx) (selfSpk : Bytes) (newPoolValue : Int) : Prop
  | dust (o₀ o₁ : TxOutput) (little : newPoolValue ≤ 10000000) (outputs : tx.outputs = [o₀, o₁])
      (broker : o₁.scriptPubKey = ScriptPubKeyP2PK c.brokerPk)
      (most : (o₁.value : Int) ≤ newPoolValue)
      (floor : 2000000 ≤ o₁.value)
  | goesOn (o₀ o₁ o₂ : TxOutput) (much : 10000000 < newPoolValue)
      (outputs : tx.outputs = [o₀, o₁, o₂]) (self : o₁.scriptPubKey = selfSpk)
      (most : (o₁.value : Int) ≤ newPoolValue) (least : newPoolValue - 100000000 ≤ o₁.value)
      (broker : o₂.scriptPubKey = ScriptPubKeyP2PK c.brokerPk) (floor : 2000000 ≤ o₂.value)

theorem requireDust_eq_some {n : Int} {selfSpk : Bytes} {u : Unit} (hn : n ≤ 10000000)
    (h : requireDust c tx n = some u) : Rest c tx selfSpk n := by
  simp only [requireDust, Option.bind_eq_bind, Option.bind_eq_some_iff, require_eq_some,
    exists_const] at h
  obtain ⟨hlen, out, hout, hpk, hle, hfloor⟩ := h
  obtain ⟨a, b, hab⟩ := List.length_eq_two.mp hlen
  obtain rfl : b = out := by simpa [Tx.output, atIndex, hab] using hout
  exact .dust a b hn hab hpk hle hfloor

theorem requireContinuation_eq_some {n : Int} {selfSpk : Bytes} {u : Unit} (hn : ¬ n ≤ 10000000)
    (h : requireContinuation i64 c tx selfSpk n = some u) : Rest c tx selfSpk n := by
  simp only [requireContinuation, Option.bind_eq_bind, Option.bind_eq_some_iff, require_eq_some,
    exists_const] at h
  obtain ⟨hlen, out, hout, hpk, hle, least, hleast, hge, fee, hfee, hbroker, hfloor⟩ := h
  obtain ⟨o₀, o₁, o₂, ho⟩ := List.length_eq_three.mp hlen
  obtain rfl : o₁ = out := by simpa [Tx.output, atIndex, ho] using hout
  obtain rfl : o₂ = fee := by simpa [Tx.output, atIndex, ho] using hfee
  rw [i64_exact _ _ hleast] at hge
  exact .goesOn o₀ o₁ o₂ (not_le.mp hn) ho hpk hle hge hbroker hfloor

/-- **What the pool accepts.** -/
theorem claim_cases {share : Int} {u : Unit} (h : claim i64 c tx 0 share = some u) :
    ∃ in0 in1, tx.inputs = [in0, in1] ∧ tx.Pays 0 share ∧
      Rest c tx in0.scriptPubKey (in0.value - (share - in1.value)) := by
  simp only [claim, Option.bind_eq_bind, Option.bind_eq_some_iff, require_eq_some, exists_const,
    requireOutputValue_eq_some] at h
  obtain ⟨-, hlen, in0, h0, in1, h1, -, -, -, taken, htaken, -, losing, -, -, -, hpays, n, hn,
    hrest⟩ := h
  obtain ⟨a, b, hab⟩ := List.length_eq_two.mp hlen
  obtain rfl : a = in0 := by simpa [Tx.input, atIndex, hab] using h0
  obtain rfl : b = in1 := by simpa [Tx.input, atIndex, hab] using h1
  have htaken := i64_exact _ _ htaken
  have hn := i64_exact _ _ hn
  refine ⟨a, b, hab, hpays, ?_⟩
  rw [← htaken, ← hn]
  split at hrest
  · next hle => exact requireDust_eq_some hle hrest
  · next hgt => exact requireContinuation_eq_some hgt hrest

theorem losingPool_eq (h : c.outcome = 0 ∨ c.outcome = 1) (hyes : 0 < c.yesPool)
    (hno : 0 < c.noPool) (hsum : c.yesPool + c.noPool < 2 ^ 63) :
    losingPool i64 c = some (if c.outcome = 0 then c.noPool else c.yesPool) := by
  rcases h with h | h
  · simp [losingPool, h, i64_of_bounds (n := 0), i64_of_bounds (n := 1),
      i64_of_bounds (n := c.noPool) (by omega) (by omega)]
  · simp [losingPool, h, i64_of_bounds (n := 0),
      i64_of_bounds (n := c.yesPool) (by omega) (by omega)]

/-- Nothing else is asked of a claim. -/
theorem claim_of {in0 in1 : TxInput} {share : Int} (hc : c.outcome = 0 ∨ c.outcome = 1)
    (hyes : 0 < c.yesPool) (hno : 0 < c.noPool) (hsum : c.yesPool + c.noPool < 2 ^ 63)
    (hin : tx.inputs = [in0, in1]) (hpays : tx.Pays 0 share) (hstake : 0 < in1.value)
    (hshare : (in1.value : Int) ≤ share) (htaken : share - in1.value ≤ in0.value)
    (hlosing : share - in1.value ≤ if c.outcome = 0 then c.noPool else c.yesPool)
    (hrest : Rest c tx in0.scriptPubKey (in0.value - (share - in1.value))) :
    claim i64 c tx 0 share = some () := by
  have h0 : tx.input 0 = some in0 := by simp [Tx.input, atIndex, hin]
  have h1 : tx.input 1 = some in1 := by simp [Tx.input, atIndex, hin]
  have hb0 := Tx.input_bounded h0
  have hb1 := Tx.input_bounded h1
  have hlen : tx.inputs.length = 2 := by rw [hin]; rfl
  have hpool : 0 < if c.outcome = 0 then c.noPool else c.yesPool := by
    split
    · exact hno
    · exact hyes
  have hbs := hpays.bounds
  simp only [claim, Option.bind_eq_bind, Option.bind_eq_some_iff, require_eq_some, exists_const,
    requireOutputValue_eq_some, h0, h1, Option.some.injEq]
  refine ⟨trivial, hlen, _, rfl, _, rfl, by omega, hstake, hshare, _,
    i64_of_bounds (by omega) (by omega), htaken, _, losingPool_eq hc hyes hno hsum, hpool, hlosing,
    hpays, _, i64_of_bounds (by omega) (by omega), ?_⟩
  cases hrest with
  | dust o₀ o₁ little outputs broker most floor =>
    rw [if_pos little]
    simp only [requireDust, Option.bind_eq_bind, Option.bind_eq_some_iff, require_eq_some,
      exists_const]
    exact ⟨by rw [outputs]; rfl, o₁, by simp [Tx.output, atIndex, outputs], broker, most, floor⟩
  | goesOn o₀ o₁ o₂ much outputs self most least broker floor =>
    rw [if_neg (not_le.mpr much)]
    simp only [requireContinuation, Option.bind_eq_bind, Option.bind_eq_some_iff, require_eq_some,
      exists_const]
    exact ⟨by rw [outputs]; rfl, o₁, by simp [Tx.output, atIndex, outputs], self, most, _,
      i64_of_bounds (by omega) (by omega), least, o₂, by simp [Tx.output, atIndex, outputs],
      broker, floor⟩

theorem winningPool_eq {wit : ClaimWitness}
    (hw : wit.settlementWinner = 0 ∨ wit.settlementWinner = 1) (hyes : 0 < wit.totalYesPool)
    (hno : 0 < wit.totalNoPool) (hsum : wit.totalYesPool + wit.totalNoPool < 2 ^ 63) :
    winningPool i64 wit =
      some (if wit.settlementWinner = 0 then wit.totalYesPool else wit.totalNoPool) := by
  rcases hw with h | h
  · simp [winningPool, h, i64_of_bounds (n := 0), i64_of_bounds (n := 1),
      i64_of_bounds (n := wit.totalYesPool) (by omega) (by omega)]
  · simp [winningPool, h, i64_of_bounds (n := 0),
      i64_of_bounds (n := wit.totalNoPool) (by omega) (by omega)]

/-- **What the side accepts**, when it is claimed with the totals of the pool. -/
theorem claim_winner_iff {sc : SideContract} {wit : ClaimWitness} {in1 : TxInput} {u : Unit}
    (hwinner : wit.settlementWinner = c.outcome) (hwy : wit.totalYesPool = c.yesPool)
    (hwn : wit.totalNoPool = c.noPool) (hc : c.outcome = 0 ∨ c.outcome = 1)
    (h1 : tx.input 1 = some in1) (hlen : tx.inputs.length = 2) (hstake : 0 < in1.value)
    (hpool : (in1.value : Int) ≤ c.winningPool) :
    claim_winner e i64 sc tx 1 wit = some u ↔ e.checkSig tx wit.bettorSig sc.bettorPk = true ∧
      sc.direction = c.outcome ∧ 0 < c.yesPool ∧ 0 < c.noPool ∧
      (in1.value : Int) * (c.yesPool + c.noPool) < 2 ^ 63 ∧ 2 ≤ tx.outputs.length ∧
      tx.PaysExactly 0 sc.bettorPk (c.shareOf in1.value) := by
  have hstake' : (1 : Int) ≤ in1.value := by exact_mod_cast hstake
  have htdiv : 0 < c.yesPool → 0 < c.noPool →
      ((in1.value : Int) * (c.yesPool + c.noPool)).tdiv c.winningPool = c.shareOf in1.value := by
    intro hyes hno
    exact Int.tdiv_eq_ediv_of_nonneg (mul_nonneg (by omega) (by omega))
  have hwp : c.winningPool = if wit.settlementWinner = 0 then wit.totalYesPool
      else wit.totalNoPool := by
    rw [hwinner, hwy, hwn]
    rfl
  constructor
  · intro h
    simp only [claim_winner, Option.bind_eq_bind, Option.bind_eq_some_iff, require_eq_some,
      exists_const, requireOutput_eq_some, h1, Option.some.injEq] at h
    obtain ⟨hsig, hw, hdir, hyes, hno, -, -, _, rfl, pool, hpool', -, total, htotal, product,
      hproduct, share, hshare, -, -, houts, hpays⟩ := h
    obtain ⟨htb, rfl⟩ := i64_eq_some.mp htotal
    obtain ⟨hpb, rfl⟩ := i64_eq_some.mp hproduct
    rw [winningPool_eq hw hyes hno htb.2, ← hwp] at hpool'
    obtain rfl := Option.some.inj hpool'
    obtain ⟨-, rfl⟩ := i64_eq_some.mp hshare
    rw [hwy, hwn] at hpb hpays
    rw [hwy] at hyes
    rw [hwn] at hno
    rw [htdiv hyes hno] at hpays
    exact ⟨hsig, hdir.trans hwinner, hyes, hno, hpb.2, houts, hpays⟩
  · rintro ⟨hsig, hdir, hyes, hno, hfits, houts, hpays⟩
    have hsum : c.yesPool + c.noPool < 2 ^ 63 := by nlinarith
    have hwin : 0 < c.winningPool := by omega
    have hle : c.winningPool ≤ c.yesPool + c.noPool := by
      unfold Contract.winningPool
      split <;> omega
    -- the share is no less than the stake, and no more than both pools
    have hlow : (in1.value : Int) ≤ c.shareOf in1.value := by
      apply Int.le_ediv_of_mul_le hwin
      nlinarith
    have hhigh : c.shareOf in1.value ≤ c.yesPool + c.noPool := by
      apply Int.ediv_le_of_le_mul hwin
      nlinarith
    have hpool' : winningPool i64 wit = some c.winningPool := by
      rw [hwp]
      exact winningPool_eq (hwinner ▸ hc) (hwy ▸ hyes) (hwn ▸ hno) (by rw [hwy, hwn]; exact hsum)
    simp only [claim_winner, Option.bind_eq_bind, Option.bind_eq_some_iff, require_eq_some,
      exists_const, requireOutput_eq_some, h1, Option.some.injEq]
    refine ⟨hsig, hwinner ▸ hc, hdir.trans hwinner.symm, hwy ▸ hyes, hwn ▸ hno, trivial, hlen, _,
      rfl, _, hpool', hwin, c.yesPool + c.noPool, ?_, _, i64_of_bounds (by nlinarith) hfits,
      c.shareOf in1.value, ?_, hlow, hhigh, houts, hpays⟩
    · rw [hwy, hwn]
      exact i64_of_bounds (by omega) hsum
    · rw [htdiv hyes hno]
      exact i64_of_bounds (by omega) (by omega)

theorem claim_winner_direction {sc : SideContract} {wit : ClaimWitness} {i : Int} {u : Unit}
    (h : claim_winner e i64 sc tx i wit = some u) : sc.direction = wit.settlementWinner := by
  simp only [claim_winner, Option.bind_eq_bind, Option.bind_eq_some_iff, require_eq_some,
    exists_const] at h
  exact h.2.2.1

end Scripts

/-! ### One claim -/

section Claims

variable {e : Engine} {c : Contract} {poolLock : Bytes} {sideLock : SideContract → Bytes}
  {s s' : State} {a : Claim} {k : SideCoin}

/-- A side of the market holds something, and if it wins no more than all the winners. -/
structure Staked (c : Contract) (k : SideCoin) : Prop where
  value : 0 < k.value
  pool : k.Wins c → (k.value : Int) ≤ c.winningPool

theorem Market.staked_of_mem {sides : List SideCoin} (h : Market c sides) (hk : k ∈ sides) :
    Staked c k := by
  refine ⟨h.staked k hk, ?_⟩
  intro hwins
  have hle : ∀ d : Int, k.contract.direction = d → (k.value : Int) ≤
      ((sides.filter fun k => k.contract.direction = d).map fun k => (k.value : Int)).sum := by
    intro d hd
    apply List.single_le_sum
    · intro v hv
      obtain ⟨j, -, rfl⟩ := List.mem_map.mp hv
      exact Int.natCast_nonneg _
    · refine List.mem_map.mpr ⟨k, List.mem_filter.mpr ⟨hk, ?_⟩, rfl⟩
      exact decide_eq_true hd
  unfold SideCoin.Wins at hwins
  unfold Contract.winningPool
  rcases h.outcome with h0 | h1
  · rw [if_pos h0, h.yes]
    exact hle 0 (hwins.trans h0)
  · rw [if_neg (by omega), h.no]
    exact hle 1 (hwins.trans h1)

/-- What a claim by the owner of a side is. -/
structure Owned (c : Contract) (poolLock : Bytes) (s : State) (a : Claim) (k : SideCoin)
    (in0 in1 : TxInput) : Prop where
  member : k ∈ s.sides
  wins : k.Wins c
  inputs : a.tx.inputs = [in0, in1]
  lock : in0.scriptPubKey = poolLock
  pool : s.pool = some in0.value
  stake : in1.value = k.value
  pools : 0 < c.yesPool ∧ 0 < c.noPool
  fits : (k.value : Int) * (c.yesPool + c.noPool) < 2 ^ 63
  share : a.tx.PaysExactly 0 k.contract.bettorPk (c.shareOf k.value)
  rest : Rest c a.tx poolLock (in0.value - (c.shareOf k.value - k.value))

theorem Step.owned (h : Step e c poolLock sideLock s a s') (hc : c.outcome = 0 ∨ c.outcome = 1)
    (hstaked : ∀ k ∈ s.sides, Staked c k) (hown : a.Own c k) :
    ∃ in0 in1, Owned c poolLock s a k in0 in1 := by
  obtain ⟨wit, hsecond, hwinner, hwy, hwn⟩ := hown
  obtain ⟨hk, ⟨in1, h1, hvalue, -⟩, hside⟩ := h.side k _ hsecond
  obtain ⟨in0, h0, hlock, hpool⟩ := h.pool
  obtain ⟨a0, a1, hin, hpays, hrest⟩ := claim_cases h.claim
  obtain rfl : a0 = in0 := by simpa [Tx.input, atIndex, hin] using h0
  obtain rfl : a1 = in1 := by simpa [Tx.input, atIndex, hin] using h1
  have hwins : k.Wins c := (claim_winner_direction hside).trans hwinner
  have hlen : a.tx.inputs.length = 2 := by rw [hin]; rfl
  have hstake := (hstaked k hk).value
  obtain ⟨-, -, hyes, hno, hfits, -, hexact⟩ := (claim_winner_iff hwinner hwy hwn hc h1 hlen
    (by omega) (by rw [hvalue]; exact (hstaked k hk).pool hwins)).mp hside
  rw [hvalue] at hfits hexact hrest
  have hshare : a.share = c.shareOf k.value := by
    obtain ⟨out, hout, -, hval⟩ := hexact
    exact Tx.Pays.value_eq hpays ⟨out, hout, hval⟩
  rw [hshare, hlock] at hrest
  exact ⟨a0, a1, hk, hwins, hin, hlock, hpool, hvalue, ⟨hyes, hno⟩, hfits, hexact, hrest⟩

/-- **Such a claim is fair.** -/
theorem Step.fair (h : Step e c poolLock sideLock s a s') {in0 in1 : TxInput}
    (ho : Owned c poolLock s a k in0 in1) : Fair c poolLock s a s' k := by
  have hnext := h.next
  refine ⟨ho.member, ho.wins, ho.share, ?_, ?_⟩
  · intro i out hi hout
    cases ho.rest with
    | dust o₀ o₁ little outputs broker most floor =>
      rw [outputs] at hout
      obtain rfl : i = 1 := by
        have := (List.getElem?_eq_some_iff.mp hout).1
        simp at this
        omega
      obtain rfl : o₁ = out := by simpa using hout
      exact Or.inl broker
    | goesOn o₀ o₁ o₂ much outputs self most least broker floor =>
      rw [Claim.continuation, outputs] at hnext
      rw [outputs] at hout
      have hlt := (List.getElem?_eq_some_iff.mp hout).1
      obtain rfl | rfl : i = 1 ∨ i = 2 := by
        simp at hlt
        omega
      · obtain rfl : o₁ = out := by simpa using hout
        exact Or.inr ⟨rfl, self, hnext⟩
      · obtain rfl : o₂ = out := by simpa using hout
        exact Or.inl broker
  · intro v hv
    rw [ho.pool, Option.mem_def, Option.some.injEq] at hv
    subst hv
    cases ho.rest with
    | dust o₀ o₁ little outputs broker most floor =>
      rw [Claim.continuation, outputs] at hnext
      rw [hnext]
      simp
      omega
    | goesOn o₀ o₁ o₂ much outputs self most least broker floor =>
      rw [Claim.continuation, outputs] at hnext
      rw [hnext]
      simp
      omega

/-- The broker's least fee has to come out of the pool. -/
theorem Step.funded (h : Step e c poolLock sideLock s a s') {in0 in1 : TxInput}
    (ho : Owned c poolLock s a k in0 in1) : Funded c s k := by
  refine ⟨ho.pools.1, ho.pools.2, ho.fits, in0.value, ho.pool, ?_⟩
  have hbalanced := h.balanced
  obtain ⟨out, hout, -, hvalue⟩ := ho.share
  cases ho.rest with
  | dust o₀ o₁ little outputs broker most floor => omega
  | goesOn o₀ o₁ o₂ much outputs self most least broker floor =>
    obtain rfl : o₀ = out := by simpa [Tx.output, atIndex, outputs] using hout
    have hstake := ho.stake
    simp only [ho.inputs, outputs, List.map_cons, List.map_nil, List.sum_cons, List.sum_nil]
      at hbalanced
    omega

/-- What a winner's transaction may pay: the share, and the rest to the broker, or to the pool all
but the broker's least fee. -/
def payments (c : Contract) (poolLock : Bytes) (k : SideCoin) (newPoolValue : Nat) :
    List TxOutput :=
  ⟨(c.shareOf k.value).toNat, ScriptPubKeyP2PK k.contract.bettorPk, none⟩ ::
    if newPoolValue ≤ 10000000 then [⟨newPoolValue, ScriptPubKeyP2PK c.brokerPk, none⟩]
    else [⟨newPoolValue - 2000000, poolLock, none⟩, ⟨2000000, ScriptPubKeyP2PK c.brokerPk, none⟩]

theorem sum_value_pair (m n : Nat) (lock lock' : Bytes) :
    (([⟨m, lock, none⟩, ⟨n, lock', none⟩] : List TxOutput).map TxOutput.value).sum = m + n := by
  simp

theorem payments_sum {n : Nat} (h : 2000000 ≤ n) :
    ((payments c poolLock k n).map TxOutput.value).sum = (c.shareOf k.value).toNat + n := by
  unfold payments
  rw [List.map_cons, List.sum_cons]
  refine congrArg _ ?_
  split
  · exact List.sum_singleton
  · rw [sum_value_pair, Nat.sub_add_cancel h]

theorem payments_bounded {n : Nat} (h : c.shareOf k.value < 2 ^ 63) (hn : n < 2 ^ 63) :
    ∀ o ∈ payments c poolLock k n, o.value < 2 ^ 63 := by
  have hsub : n - 2000000 < 2 ^ 63 := by omega
  have hfee : 2000000 < 2 ^ 63 := by norm_num
  have hshare : (c.shareOf k.value).toNat < 2 ^ 63 := by omega
  unfold payments
  refine List.forall_mem_cons.mpr ⟨hshare, ?_⟩
  split
  · exact List.forall_mem_singleton.mpr hn
  · exact List.forall_mem_cons.mpr ⟨hsub, List.forall_mem_singleton.mpr hfee⟩

theorem rest_payments {tx : Tx} {n : Nat} (h : tx.outputs = payments c poolLock k n)
    (hn : 2000000 ≤ n) : Rest c tx poolLock n := by
  unfold payments at h
  split at h
  · next hle => exact .dust _ _ (by omega) h rfl (le_refl (n : Int)) hn
  · next hgt =>
    refine .goesOn _ _ _ (by omega) h rfl ?_ ?_ rfl (le_refl _)
    · show ((n - 2000000 : Nat) : Int) ≤ n
      omega
    · show (n : Int) - 100000000 ≤ ((n - 2000000 : Nat) : Int)
      omega

/-- The share lies between the stake and the product that is divided, and takes from the pool no
more than the losing side. -/
theorem shareOf_bounds (hst : Staked c k) (hwins : k.Wins c) (hyes : 0 < c.yesPool)
    (hno : 0 < c.noPool) : (k.value : Int) ≤ c.shareOf k.value ∧
      c.shareOf k.value ≤ k.value * (c.yesPool + c.noPool) ∧
      c.shareOf k.value - k.value ≤ if c.outcome = 0 then c.noPool else c.yesPool := by
  have hpos : (1 : Int) ≤ k.value := by exact_mod_cast hst.value
  have hpool := hst.pool hwins
  have hwin : 0 < c.winningPool := by omega
  have hsplit : c.yesPool + c.noPool =
      c.winningPool + if c.outcome = 0 then c.noPool else c.yesPool := by
    unfold Contract.winningPool
    split <;> omega
  have hlosing : 0 < if c.outcome = 0 then c.noPool else c.yesPool := by
    split
    · exact hno
    · exact hyes
  refine ⟨?_, ?_, ?_⟩
  · apply Int.le_ediv_of_mul_le hwin
    nlinarith
  · apply Int.ediv_le_of_le_mul hwin
    exact le_mul_of_one_le_right (mul_nonneg (by omega) (by omega)) hwin
  · rw [sub_le_iff_le_add]
    apply Int.ediv_le_of_le_mul hwin
    rw [hsplit]
    nlinarith

theorem canClaim_of_funded (hc : c.outcome = 0 ∨ c.outcome = 1) (hst : Staked c k)
    (hsign : ∀ tx, ∃ sig, e.checkSig tx sig k.contract.bettorPk = true) (hk : k ∈ s.sides)
    (hwins : k.Wins c) (h : Funded c s k) : CanClaim e c poolLock sideLock s k := by
  obtain ⟨hyes, hno, hfits, v, hv, hle⟩ := h
  obtain ⟨hlow, hhigh, hlosing⟩ := shareOf_bounds hst hwins hyes hno
  have hpos := hst.value
  have hvb := s.bounded v hv
  obtain ⟨n, hn⟩ : ∃ n : Nat, (n : Int) = v - (c.shareOf k.value - k.value) :=
    ⟨(v - (c.shareOf k.value - k.value)).toNat, by omega⟩
  let tx : Tx :=
    { inputs := [⟨v, poolLock, none⟩, ⟨k.value, sideLock k.contract, none⟩]
      outputs := payments c poolLock k n
      lockTime := 0
      inputs_bounded := by
        intro i hi
        rcases List.mem_cons.mp hi with rfl | hi
        · exact hvb
        · obtain rfl := List.mem_singleton.mp hi
          exact k.bounded
      outputs_bounded := payments_bounded (by omega) (by omega) }
  obtain ⟨sig, hsig⟩ := hsign tx
  have hexact : tx.PaysExactly 0 k.contract.bettorPk (c.shareOf k.value) :=
    ⟨_, rfl, rfl, Int.toNat_of_nonneg (by omega)⟩
  have hrest : Rest c tx poolLock (v - (c.shareOf k.value - k.value)) := by
    rw [← hn]
    exact rest_payments rfl (by omega)
  have houts : 2 ≤ tx.outputs.length := by
    show 2 ≤ (payments c poolLock k n).length
    unfold payments
    split <;> simp
  have hsum : c.yesPool + c.noPool < 2 ^ 63 := by
    have : (1 : Int) ≤ k.value := by exact_mod_cast hpos
    nlinarith
  have hclaim : claim i64 c tx 0 (c.shareOf k.value) = some () := by
    obtain ⟨out, hout, -, hval⟩ := hexact
    exact claim_of hc hyes hno hsum (rfl : tx.inputs = [_, _]) ⟨out, hout, hval⟩ hpos hlow
      (by dsimp only; omega) hlosing hrest
  let wit : ClaimWitness := ⟨sig, c.outcome, c.yesPool, c.noPool⟩
  have hside : claim_winner e i64 k.contract tx 1 wit = some () :=
    (claim_winner_iff rfl rfl rfl hc (rfl : tx.input 1 = some _) rfl hpos (hst.pool hwins)).mpr
      ⟨hsig, hwins, hyes, hno, hfits, houts, hexact⟩
  let a : Claim := ⟨tx, c.shareOf k.value, some (k, .claim_winner wit)⟩
  have hnext : ∀ w ∈ a.continuation, w < 2 ^ 63 := by
    intro w hw
    unfold Claim.continuation at hw
    split at hw
    · obtain ⟨o, ho, rfl⟩ := Option.map_eq_some_iff.mp hw
      exact a.tx.outputs_bounded o (List.mem_of_getElem? ho)
    · cases hw
  refine ⟨a, ⟨a.continuation, a.remaining s.sides, hnext⟩, ⟨⟨_, rfl, rfl, hv⟩, hclaim, ?_, ?_, ?_,
    rfl, rfl⟩, ⟨wit, rfl, rfl, rfl, rfl⟩, hexact⟩
  · show ((payments c poolLock k n).map TxOutput.value).sum ≤ _
    rw [payments_sum (by omega)]
    simp only [tx, a, List.map_cons, List.map_nil, List.sum_cons, List.sum_nil]
    omega
  · intro k' entry hsecond
    obtain ⟨rfl, rfl⟩ := Prod.mk.inj (Option.some.inj hsecond)
    exact ⟨hk, ⟨_, rfl, rfl, rfl⟩, hside⟩
  · intro hsecond
    cases hsecond

/-- **When a winner can have his share**, if everybody can sign. -/
theorem canClaim_iff (hc : c.outcome = 0 ∨ c.outcome = 1) (hstaked : ∀ k ∈ s.sides, Staked c k)
    (hsign : ∀ tx, ∃ sig, e.checkSig tx sig k.contract.bettorPk = true) (hk : k ∈ s.sides)
    (hwins : k.Wins c) : CanClaim e c poolLock sideLock s k ↔ Funded c s k := by
  constructor
  · rintro ⟨a, s', hstep, hown, -⟩
    obtain ⟨in0, in1, ho⟩ := hstep.owned hc hstaked hown
    exact hstep.funded ho
  · exact canClaim_of_funded hc (hstaked k hk) hsign hk hwins

end Claims

/-! ### Any number of claims -/

section Runs

variable {e : Engine} {c : Contract} {poolLock : Bytes} {sideLock : SideContract → Bytes}
  {s₀ s : State} {claims : List Claim}

theorem Step.subset {s' : State} {a : Claim} (h : Step e c poolLock sideLock s a s') :
    s'.sides ⊆ s.sides := by
  rw [h.left, Claim.remaining]
  split
  · exact List.Subset.refl _
  · exact List.erase_subset

theorem sides_subset (h : Run (Step e c poolLock sideLock) s₀ claims s) : s.sides ⊆ s₀.sides :=
  h.invariant (I := fun s => s.sides ⊆ s₀.sides)
    (fun _ _ _ hs hstep => List.Subset.trans hstep.subset hs) (List.Subset.refl _)

/-- **When the winners share the pool.**  Where each side is claimed by its owner with the totals of
the pool, every claim is fair; and the winners that are left can always claim exactly when the pool
stays funded. -/
theorem winners_share_iff (hmarket : Market c s₀.sides)
    (hsign : ∀ k ∈ s₀.sides, ∀ tx, ∃ sig, e.checkSig tx sig k.contract.bettorPk = true)
    (hown : ∀ a ∈ claims, ∃ k, a.Own c k) :
    Shares e c poolLock sideLock s₀ claims ↔ StaysFunded e c poolLock sideLock s₀ claims := by
  have hstaked : ∀ {pre : List Claim} {s : State}, Run (Step e c poolLock sideLock) s₀ pre s →
      ∀ k ∈ s.sides, Staked c k :=
    fun hrun k hk => hmarket.staked_of_mem (sides_subset hrun hk)
  constructor
  · intro hshares pre post hsplit s hrun k hk hwins
    exact (canClaim_iff hmarket.outcome (hstaked hrun) (hsign k (sides_subset hrun hk)) hk
      hwins).mp (hshares.claimable pre post hsplit s hrun k hk hwins)
  · intro hfunded
    refine ⟨?_, ?_⟩
    · intro pre a post hsplit s s' hrun hstep
      obtain ⟨k, hk⟩ := hown a (by rw [hsplit]; simp)
      obtain ⟨in0, in1, ho⟩ := hstep.owned hmarket.outcome (hstaked hrun) hk
      exact ⟨k, hstep.fair ho⟩
    · intro pre post hsplit s hrun k hk hwins
      exact (canClaim_iff hmarket.outcome (hstaked hrun) (hsign k (sides_subset hrun hk)) hk
        hwins).mpr (hfunded pre post hsplit s hrun k hk hwins)

end Runs

/-! ### A bet of ten on either side -/

def sampleContract : Contract where
  outcome := 0
  yesPool := 1000000000
  noPool := 1000000000
  brokerPk := samplePk 2
  marketCovenantId := samplePk 3

def sampleCoin (i : Nat) : SideCoin where
  contract := ⟨samplePk i, samplePk 8, samplePk 7, i, 1⟩
  value := 1000000000
  bounded := by norm_num

def samplePoolLock : Bytes := ScriptPubKeyP2SH (samplePk 9)

/-- What is compiled in, in place of the compiled script. -/
def sampleSideLock (c : SideContract) : Bytes := ScriptPubKeyP2SH (sampleHash c.bettorPk.toList)

def sampleState (pool : Nat) (h : pool < 2 ^ 63) : State where
  pool := some pool
  sides := [sampleCoin 0, sampleCoin 1]
  bounded := by
    intro v hv
    obtain rfl := Option.some.inj hv
    exact h

theorem sampleMarket : Market sampleContract [sampleCoin 0, sampleCoin 1] := by
  refine ⟨Or.inl rfl, by decide, by decide, ?_⟩
  intro k hk
  rcases List.mem_cons.mp hk with rfl | hk
  · decide
  · obtain rfl := List.mem_singleton.mp hk
    decide

/-- The winner's claim of a pool that has the broker's fee besides. -/
def winnersClaim : Claim where
  tx :=
    { inputs := [⟨1002000000, samplePoolLock, none⟩,
        ⟨1000000000, sampleSideLock (sampleCoin 0).contract, none⟩]
      outputs := [⟨2000000000, ScriptPubKeyP2PK (samplePk 0), none⟩,
        ⟨2000000, ScriptPubKeyP2PK (samplePk 2), none⟩]
      lockTime := 0 }
  share := 2000000000
  second := some (sampleCoin 0, .claim_winner ⟨(samplePk 0).toList, 0, 1000000000, 1000000000⟩)

def fundedState : State := sampleState 1002000000 (by norm_num)

theorem winners_share_iff_winner :
    Shares sampleEngine sampleContract samplePoolLock sampleSideLock fundedState [winnersClaim] ↔
      StaysFunded sampleEngine sampleContract samplePoolLock sampleSideLock fundedState
        [winnersClaim] := by
  refine winners_share_iff sampleMarket ?_ ?_
  · intro k _ tx
    exact ⟨k.contract.bettorPk.toList, decide_eq_true rfl⟩
  · intro a ha
    obtain rfl := List.mem_singleton.mp ha
    exact ⟨sampleCoin 0, _, rfl, rfl, rfl, rfl⟩

/-- Some coin at input 1, and the pool is gone. -/
def strangersClaim : Claim where
  tx :=
    { inputs := [⟨1000000000, samplePoolLock, none⟩,
        ⟨100000000, ScriptPubKeyP2PK (samplePk 5), none⟩]
      outputs := [⟨1095000000, ScriptPubKeyP2PK (samplePk 5), none⟩,
        ⟨5000000, ScriptPubKeyP2PK (samplePk 2), none⟩]
      lockTime := 0 }
  share := 1095000000
  second := none

/-- The stakes of the losers and no more. -/
def thinState : State := sampleState 1000000000 (by norm_num)

def emptiedState : State := ⟨none, [sampleCoin 0, sampleCoin 1], by simp⟩

/-- **A stranger takes the pool**, with a coin that is no side of the market. -/
theorem pool_stolen :
    Market sampleContract thinState.sides ∧
      Step sampleEngine sampleContract samplePoolLock sampleSideLock thinState strangersClaim
        emptiedState ∧
      ¬ Shares sampleEngine sampleContract samplePoolLock sampleSideLock thinState
        [strangersClaim] := by
  have hstep : Step sampleEngine sampleContract samplePoolLock sampleSideLock thinState
      strangersClaim emptiedState := by
    refine ⟨⟨_, rfl, rfl, rfl⟩, by decide, by decide, ?_, ?_, rfl, rfl⟩
    · intro k entry hsecond
      cases hsecond
    · intro _ in1 h1 k _
      obtain rfl := Option.some.inj h1
      exact ScriptPubKeyP2PK_ne_P2SH _ _
  refine ⟨sampleMarket, hstep, ?_⟩
  intro hshares
  obtain ⟨k, hfair⟩ := hshares.fair [] strangersClaim [] rfl _ _ (.nil _) hstep
  obtain ⟨out, hout, -, hvalue⟩ := hfair.share
  obtain rfl := Option.some.inj hout
  have hk : k.value = 1000000000 := by
    rcases List.mem_cons.mp hfair.member with rfl | hmem
    · rfl
    · obtain rfl := List.mem_singleton.mp hmem
      rfl
  rw [hk] at hvalue
  exact absurd hvalue (by decide)

end KANet.Covenant.WinningsPool
