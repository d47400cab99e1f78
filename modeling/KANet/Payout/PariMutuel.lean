import KANet.Payout.Root

/-!
# Fees and shares: `fee-split.mjs` and the payout half of `pool-shard-settle.mjs`

The pool less its fees is split among the winning stakes, rounded down, and what
rounding leaves goes to the first winner of the list.  The leaves are the winners in
the order they are given, and after them the fee recipients.

* `sum_shares_perm`, `sum_dustTo` — what is shared out does not depend on the order,
  and nothing of it is lost.
* `dustTo_eq_iff` — two orders of the same winners give one list of leaves exactly when
  they give one list of rounded shares.
-/

namespace KANet.Payout

open KANet.Lib KANet.Script

/-! ### Fees -/

structure FeeLeaf extends Leaf where
  type : String
deriving DecidableEq

/-- Basis points of a fee. -/
structure FeeConfig where
  brokerBps : Int
  oracleBps : Int
  introBps : Int
  nodeBps : Int

def FEE_CONFIG : FeeConfig where
  brokerBps := 160
  oracleBps := 100
  introBps := 20
  nodeBps := 20

def bpsAmt (pool bps : Int) : Int := (pool * bps).tdiv 10000

/-- The order of hex strings is that of the bytes they spell. -/
def pkLe (a b : Bytes) : Bool := !(decide (b < a))

/-- An amount shared evenly among keys, what is left over going to the first of them. -/
def committeeLeaves (total : Int) (pks : List Bytes) : List FeeLeaf :=
  let sorted := pks.mergeSort pkLe
  let each := total.tdiv sorted.length
  sorted.mapIdx fun i pk =>
    { pk, amount := each + (if i = 0 then total - each * sorted.length else 0),
      type := "committee" }

/-- The fees of a market without rules of its own. -/
def deriveFeeLeaves (poolSompi : Int) (feeConfig : FeeConfig) (brokerPk introducerPk : Option Bytes)
    (committeePks : List Bytes) : List FeeLeaf :=
  let leaf (bps : Int) (pk : Option Bytes) (type : String) : List FeeLeaf :=
    match pk with
    | some pk => if 0 < bps then [{ pk, amount := bpsAmt poolSompi bps, type }] else []
    | none => []
  let commBps := feeConfig.oracleBps + feeConfig.nodeBps
  leaf feeConfig.brokerBps brokerPk "broker" ++ leaf feeConfig.introBps introducerPk "introducer" ++
    if 0 < commBps ∧ committeePks ≠ [] then committeeLeaves (bpsAmt poolSompi commBps) committeePks
    else []

/-- The leaf of a recipient that is named, at a rate. -/
def namedLeaf (pool bps : Int) (pk : Option Bytes) (type : String) : List FeeLeaf :=
  pk.elim [] fun pk => if 0 < bps then [{ pk, amount := bpsAmt pool bps, type }] else []

theorem deriveFeeLeaves_eq (pool : Int) (feeConfig : FeeConfig)
    (brokerPk introducerPk : Option Bytes) (committeePks : List Bytes) :
    deriveFeeLeaves pool feeConfig brokerPk introducerPk committeePks =
      namedLeaf pool feeConfig.brokerBps brokerPk "broker" ++
        namedLeaf pool feeConfig.introBps introducerPk "introducer" ++
        if 0 < feeConfig.oracleBps + feeConfig.nodeBps ∧ committeePks ≠ [] then
          committeeLeaves (bpsAmt pool (feeConfig.oracleBps + feeConfig.nodeBps)) committeePks
        else [] := by
  cases brokerPk <;> cases introducerPk <;> rfl

theorem mem_namedLeaf {pool bps : Int} {pk : Option Bytes} {type : String} {l : FeeLeaf} :
    l ∈ namedLeaf pool bps pk type ↔
      0 < bps ∧ pk = some l.pk ∧ l.amount = bpsAmt pool bps ∧ l.type = type := by
  cases pk with
  | none => simp [namedLeaf]
  | some pk =>
    by_cases h : 0 < bps
    · rw [namedLeaf, Option.elim_some, if_pos h, List.mem_singleton]
      obtain ⟨⟨_, _⟩, _⟩ := l
      simp [h, eq_comm, and_assoc]
    · simp [namedLeaf, h]

/-- A recipient, by its address or derived from the committee. -/
structure Role where
  name : String
  bps : Int
  address : Option Bytes
  derive : Option String
  optional : Bool
deriving DecidableEq

structure FeeRules where
  schema_v : Int
  preset : Option String
  roles : List Role

def SUPPORTED_SCHEMA_VERSIONS : List Int := [1]
def PROVIDER_MIN_BPS : Int := 5000
def ROLE_MAX_BPS : Int := 5000

/-- The checks on one role, with the names of those before it. -/
def validateRole (names : List String) (r : Role) : Option Unit := do
  require (r.name ≠ "")
  require (r.name ∉ names)
  require (0 ≤ r.bps)
  if r.name = "provider" then
    require (r.address = none ∧ r.derive = none)
    require (PROVIDER_MIN_BPS ≤ r.bps)
  else
    require (r.bps ≤ ROLE_MAX_BPS)
    match r.derive, r.address with
    | some derive, address => do
      require (derive = "committee")
      require (address = none)
    | none, some address => require (address.length = 32)
    | none, none => require (r.optional = true)

def validateRoles (names : List String) : List Role → Option Unit
  | [] => some ()
  | r :: rs => do
    validateRole names r
    validateRoles (r.name :: names) rs

def validateFeeRules (feeRules : FeeRules) : Option Unit := do
  require (feeRules.schema_v ∈ SUPPORTED_SCHEMA_VERSIONS)
  require (feeRules.roles ≠ [])
  validateRoles [] feeRules.roles
  require (feeRules.roles.countP (fun r => r.name = "provider") = 1)
  require ((feeRules.roles.map Role.bps).sum = 10000)

/-- The UTF-16 code units that strings are compared by. -/
def codeUnits (s : String) : List Nat := s.toList.flatMap fun c =>
  if c.toNat < 0x10000 then [c.toNat]
  else [0xd800 + (c.toNat - 0x10000) / 0x400, 0xdc00 + (c.toNat - 0x10000) % 0x400]

def nameLe (a b : Role) : Bool := !(decide (codeUnits b.name < codeUnits a.name))

/-- The leaf of a role with an address. -/
def roleLeaf (pool : Int) (r : Role) : Option FeeLeaf :=
  if r.name = "provider" ∨ r.bps ≤ 0 ∨ r.derive = some "committee" then none
  else r.address.map fun pk => { pk, amount := bpsAmt pool r.bps, type := r.name }

/-- The basis points of the roles that the committee is paid by. -/
def committeeBps (roles : List Role) : Int :=
  ((roles.filter fun r => r.name ≠ "provider" ∧ 0 < r.bps ∧ r.derive = some "committee").map
    Role.bps).sum

def deriveRoleFeeLeaves (feeRules : FeeRules) (poolSompi : Int) (committeePks : List Bytes) :
    Option (List FeeLeaf) := do
  validateFeeRules feeRules
  require (0 < poolSompi)
  let sorted := feeRules.roles.mergeSort nameLe
  let bps := committeeBps sorted
  some (sorted.filterMap (roleLeaf poolSompi) ++
    if 0 < bps ∧ committeePks ≠ [] then committeeLeaves (bpsAmt poolSompi bps) committeePks else [])

/-- The rules of a zero-knowledge market: a broker, if it has one, and the winners. -/
def settlementFeeRules (brokerPk : Option Bytes) (brokerFeePctBps : Int) : FeeRules where
  schema_v := 1
  preset := some "prediction-v2-market"
  roles :=
    let role (name : String) (bps : Int) (address : Option Bytes) : Role :=
      { name, bps, address, derive := none, optional := false }
    match brokerPk with
    | some pk =>
      if 0 < brokerFeePctBps then
        [role "provider" (10000 - brokerFeePctBps) none, role "broker" brokerFeePctBps (some pk)]
      else [role "provider" 10000 none]
    | none => [role "provider" 10000 none]

def deriveSettlementFeeLeaves (brokerPk : Option Bytes) (brokerFeePctBps : Option Int)
    (consolidatedPoolSompi : Int) : Option (List FeeLeaf) := do
  require (0 < consolidatedPoolSompi)
  deriveRoleFeeLeaves (settlementFeeRules brokerPk (brokerFeePctBps.getD 0))
    consolidatedPoolSompi []

/-! ### Shares -/

structure PariMutuel where
  degenerate : Bool
  reason : Option String
  winners : List Leaf
  payoutLeaves : List Leaf
  poolTotal : Int
  distributable : Int
  feeSompi : Int

def sumStakes (bets : List Bet) : Int := (bets.map Bet.stake).sum

def sumAmounts (ws : List Leaf) : Int := (ws.map Leaf.amount).sum

/-- The winners' leaves, rounded down. -/
def shares (distributable totalWinStake : Int) (winners : List Bet) : List Leaf :=
  winners.map fun b => { pk := b.pk, amount := (b.stake * distributable).tdiv totalWinStake }

/-- `payouts[0].amount += distributable - assigned` -/
def dustTo (distributable : Int) : List Leaf → List Leaf
  | [] => []
  | p :: ps => { p with amount := p.amount + (distributable - sumAmounts (p :: ps)) } :: ps

def winnersOf (bettors : List Bet) (winningDirection : Int) : List Bet :=
  bettors.filter fun b => b.direction = winningDirection

def computePariMutuelPayout (bettors : List Bet) (winningDirection : Int)
    (poolTotalSompi : Option Int) (feeBps : Int) (feeLeaves : List FeeLeaf) :
    Option PariMutuel := do
  require (winningDirection = 0 ∨ winningDirection = 1)
  let pool := poolTotalSompi.getD (sumStakes bettors)
  let feeFromLeaves := sumAmounts (feeLeaves.map FeeLeaf.toLeaf)
  let feeSompi := if 0 < feeFromLeaves then feeFromLeaves else bpsAmt pool feeBps
  let distributable := pool - feeSompi
  let winners := winnersOf bettors winningDirection
  let totalWinStake := sumStakes winners
  if winners = [] ∨ totalWinStake = 0 then
    some { degenerate := true, reason := some "no winning-side bettors → refund", winners := [],
           payoutLeaves := [], poolTotal := pool, distributable, feeSompi }
  else
    let payouts := dustTo distributable (shares distributable totalWinStake winners)
    some { degenerate := false, reason := none, winners := payouts,
           payoutLeaves := payouts ++ feeLeaves.map FeeLeaf.toLeaf, poolTotal := pool,
           distributable, feeSompi }

/-! ### What the shares depend on -/

/-- The pool less its fees. -/
def distributableOf (pool feeBps : Int) (feeLeaves : List FeeLeaf) : Int :=
  pool - (if 0 < sumAmounts (feeLeaves.map FeeLeaf.toLeaf) then
    sumAmounts (feeLeaves.map FeeLeaf.toLeaf) else bpsAmt pool feeBps)

/-- There is nobody to pay. -/
def NobodyWins (bettors : List Bet) (winningDirection : Int) : Prop :=
  winnersOf bettors winningDirection = [] ∨ sumStakes (winnersOf bettors winningDirection) = 0

instance (bettors : List Bet) (winningDirection : Int) :
    Decidable (NobodyWins bettors winningDirection) := inferInstanceAs (Decidable (_ ∨ _))

/-- The rounded shares of the winners, in their order. -/
def winnerShares (bettors : List Bet) (winningDirection distributable : Int) : List Leaf :=
  shares distributable (sumStakes (winnersOf bettors winningDirection))
    (winnersOf bettors winningDirection)

/-- The leaves of the payout tree. -/
def payoutLeavesOf (bettors : List Bet) (winningDirection distributable : Int)
    (feeLeaves : List FeeLeaf) : List Leaf :=
  dustTo distributable (winnerShares bettors winningDirection distributable) ++
    feeLeaves.map FeeLeaf.toLeaf

/-- **What the payout function returns**, when there is somebody to pay. -/
theorem computePariMutuelPayout_leaves {bettors : List Bet} {winningDirection : Int}
    {poolTotalSompi : Option Int} {feeBps : Int} {feeLeaves : List FeeLeaf}
    (hdir : winningDirection = 0 ∨ winningDirection = 1) :
    ∃ pm, computePariMutuelPayout bettors winningDirection poolTotalSompi feeBps feeLeaves =
        some pm ∧
      (pm.degenerate = true ↔ NobodyWins bettors winningDirection) ∧
      (¬ NobodyWins bettors winningDirection → pm.payoutLeaves = payoutLeavesOf bettors
        winningDirection
        (distributableOf (poolTotalSompi.getD (sumStakes bettors)) feeBps feeLeaves)
        feeLeaves) := by
  unfold computePariMutuelPayout NobodyWins
  rw [require, if_pos hdir]
  by_cases h : winnersOf bettors winningDirection = [] ∨
      sumStakes (winnersOf bettors winningDirection) = 0
  · simp only [if_pos h]
    exact ⟨_, rfl, ⟨fun _ => h, fun _ => rfl⟩, fun hn => absurd h hn⟩
  · simp only [if_neg h]
    exact ⟨_, rfl, ⟨fun hd => absurd hd Bool.false_ne_true, fun hd => absurd hd h⟩, fun _ => rfl⟩

theorem sumAmounts_cons (p : Leaf) (ps : List Leaf) :
    sumAmounts (p :: ps) = p.amount + sumAmounts ps := by
  rw [sumAmounts, List.map_cons, List.sum_cons, sumAmounts]

/-- Every sompi of what is shared out is in some leaf. -/
theorem sum_dustTo {d : Int} {ps : List Leaf} (h : ps ≠ []) : sumAmounts (dustTo d ps) = d := by
  obtain ⟨p, ps, rfl⟩ := List.exists_cons_of_ne_nil h
  rw [dustTo, sumAmounts_cons, sumAmounts_cons]
  ring

theorem dustTo_length (d : Int) (ps : List Leaf) : (dustTo d ps).length = ps.length := by
  cases ps <;> rfl

theorem dustTo_eq_iff {d : Int} {ps ps' : List Leaf} (h : sumAmounts ps = sumAmounts ps') :
    dustTo d ps = dustTo d ps' ↔ ps = ps' := by
  constructor
  · intro hd
    match ps, ps', hd with
    | [], [], _ => rfl
    | p :: ps, p' :: ps', hd =>
      simp only [dustTo, List.cons.injEq, Leaf.mk.injEq, h] at hd
      obtain ⟨⟨hpk, ham⟩, rfl⟩ := hd
      have : p.amount = p'.amount := by omega
      cases p
      cases p'
      simp_all
  · rintro rfl
    rfl

theorem winnersOf_perm {l l' : List Bet} (h : l.Perm l') (w : Int) :
    (winnersOf l w).Perm (winnersOf l' w) := h.filter _

theorem sumStakes_perm {l l' : List Bet} (h : l.Perm l') : sumStakes l = sumStakes l' :=
  (h.map _).sum_eq

theorem nobodyWins_perm {l l' : List Bet} (h : l.Perm l') (w : Int) :
    NobodyWins l w ↔ NobodyWins l' w := by
  have hw := winnersOf_perm h w
  rw [NobodyWins, NobodyWins, sumStakes_perm hw, ← List.length_eq_zero_iff, hw.length_eq,
    List.length_eq_zero_iff]

theorem sum_shares_perm {l l' : List Bet} (h : l.Perm l') (w d : Int) :
    sumAmounts (winnerShares l w d) = sumAmounts (winnerShares l' w d) := by
  have hw := winnersOf_perm h w
  rw [winnerShares, winnerShares, sumStakes_perm hw]
  exact ((hw.map _).map _).sum_eq

theorem payoutLeavesOf_length_perm {l l' : List Bet} (h : l.Perm l') (w d : Int)
    (fees : List FeeLeaf) :
    (payoutLeavesOf l w d fees).length = (payoutLeavesOf l' w d fees).length := by
  simp only [payoutLeavesOf, List.length_append, dustTo_length, winnerShares, shares,
    List.length_map, (winnersOf_perm h w).length_eq]

/-- **Two orders of the same bets** give the same leaves exactly when they give the same rounded
shares, place by place. -/
theorem payoutLeavesOf_eq_iff {l l' : List Bet} (h : l.Perm l') (w d : Int)
    (fees : List FeeLeaf) :
    payoutLeavesOf l w d fees = payoutLeavesOf l' w d fees ↔
      winnerShares l w d = winnerShares l' w d := by
  rw [payoutLeavesOf, payoutLeavesOf, List.append_left_inj,
    dustTo_eq_iff (sum_shares_perm h w d)]

/-- Two lists of bets share out alike: place by place their winners have one key and one rounded
share. -/
def SharesAlike (w d : Int) (l l' : List Bet) : Prop :=
  List.Forall₂ (fun b b' : Bet => b.pk = b'.pk ∧
    (b.stake * d).tdiv (sumStakes (winnersOf l w)) =
      (b'.stake * d).tdiv (sumStakes (winnersOf l' w))) (winnersOf l w) (winnersOf l' w)

theorem sharesAlike_iff {w d : Int} {l l' : List Bet} :
    SharesAlike w d l l' ↔ winnerShares l w d = winnerShares l' w d := by
  rw [winnerShares, winnerShares, shares, shares, ← List.forall₂_eq_eq_eq,
    List.forall₂_map_left_iff, List.forall₂_map_right_iff]
  simp only [Leaf.mk.injEq]
  rfl

theorem SharesAlike.symm {w d : Int} {l l' : List Bet} (h : SharesAlike w d l l') :
    SharesAlike w d l' l :=
  sharesAlike_iff.mpr (sharesAlike_iff.mp h).symm

end KANet.Payout
