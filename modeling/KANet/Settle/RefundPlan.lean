import KANet.Settle.ClaimLoop
import KANet.Settle.ResumePlan

/-!
# Giving the stakes back

A market that nobody can judge is called off.  The settler has the committee sign the root of the
stakes in place of that of the winnings, closes the shard the other way, and pays every stake to the
key that bet it.

* `computeRefundPlan` — what is given back, and by which committee.
* `cancelMarketLive` — the cancellation, and the claims after it.
* `cancels` — when the shard is cancelled.
* `refunds_paid` — what becomes of the stakes.
-/

namespace KANet.Settle.Claims

open KANet.Lib KANet.Script KANet.Payout KANet.Covenant KANet.Register
open PayoutShard (State Contract)

/-! ### The plan -/

/-- Every bettor gets the stake. -/
def computeRefundPayout (bettors : List Bet) : List Leaf :=
  bettors.map fun b => { pk := b.pk, amount := b.stake }

/-- What the settler reads: as for the plan of a close, and what the compiler makes of the row of
`payout_shards`, if there is one. -/
structure RefundCtx where
  isBshard : Bool
  bets : List Bet
  logicalBets : Nat
  endBlockHash : Int → Option Bytes
  poolMembers : List PoolMember
  psRow : Option Template
  psSeedSompi : Option Int

structure RefundPlan where
  refundRoot : Bytes32
  refunds : List Leaf
  poolSompi : Int
  committee : List Bytes32
  committeeMeta : List CommitteeMeta
  committeePkHash : Bytes32
  expectedCancelledAddr : Option Bytes

/-- The state of a shard that was cancelled with nothing paid. -/
def cancelledState (consolidatedPool : Int) (refundRoot : Bytes32) : State where
  consolidated_pool := consolidatedPool
  closed := 2
  payoutRoot := refundRoot
  w := Words.zero

/-- The address of a cancelled shard. -/
def cancelledAddr (e : Engine) (t : Template) (consolidatedPool : Int) (refundRoot : Bytes32) :
    Option Bytes :=
  (serializeState (cancelledState consolidatedPool refundRoot).fields).map fun state =>
    ScriptPubKeyP2SH (e.blake2b (t.redeem state))

def computeRefundPlan (e : Engine) (market : DriverMarket) (ctx : RefundCtx) :
    Except PlanRefusal RefundPlan := do
  check (ctx.isBshard = true) .notBshard
  check (ctx.bets ≠ []) .noBets
  check (ctx.logicalBets = 0) .commingled
  let refunds := computeRefundPayout ctx.bets
  let refundRoot ← orRefuse (payoutRoot e refunds) .thrown
  let endBlockHash ← orRefuse (ctx.endBlockHash market.deadline_daa) .thrown
  let seed ← orRefuse (deriveCommitteeSeed e market.id endBlockHash market.pool_merkle_root) .thrown
  let sel ← orRefuse (selectCommittee e ctx.poolMembers seed (driverExcludes market ctx.bets))
    .thrown
  let asc := (sel.map PoolMember.pk).mergeSort keyLe
  let tree ← orRefuse (buildPoolMerkleTree e (ctx.poolMembers.map PoolMember.pk)) .thrown
  let poolSompi := sumStakes ctx.bets
  .ok
    { refundRoot
      refunds
      poolSompi
      committee := asc
      committeeMeta := asc.map fun pk =>
        ⟨pk, tree.sortedPks.idxOf pk, getPoolMerkleProof e tree (tree.sortedPks.idxOf pk)⟩
      committeePkHash := e.blake2b (asc.flatMap List.Vector.toList)
      expectedCancelledAddr := ctx.psRow.bind fun t =>
        cancelledAddr e t (poolSompi + ctx.psSeedSompi.getD PS_SEED) refundRoot }

/-! ### The cancellation -/

/-- The shard as the settler finds it before it is closed. -/
structure PsState where
  redeem_hex : Bytes
  outpointTxid : String
  index : Nat
  consolidatedPool : Int
  template : Template

inductive CancelRefusal
  | noPs
  | build
  | enforce
  | absent
  | pkHash
  | submit
  | thrown
deriving DecidableEq

/-- What the cancellation meets: the shard, the coin for its fee, the signatures of the committee,
whether its transaction is let into the ledger and is deep enough there, and how the claims go. -/
structure CancelEnv where
  psState : Option PsState
  feeUtxo : Option FeeUtxo
  sign : Tx → Bytes32 → Option Bytes
  accepts : Bool
  landed : Bool
  claims : Nat → Attempt

/-- The shard goes on with its whole value. -/
def cancelOutputs (coin : ShardCoin) (psContAddr : Bytes) : List TxOutput :=
  [{ value := coin.value, scriptPubKey := psContAddr, covenantId := coin.covenantId }]

/-- `unlockBshardCancelAttest` up to its signatures: the transaction, and the lock of the
continuation. -/
def buildCancel (e : Engine) (chain : Chain) (addrs : Addresses) (coin : ShardCoin) (fee : FeeUtxo)
    (ps : PsState) (new_refund_root : Bytes32) : Option (Tx × Bytes) := do
  require (coin.txid = ps.outpointTxid ∧ coin.index = ps.index ∧
    coin.scriptPubKey = ScriptPubKeyP2SH (e.blake2b ps.redeem_hex))
  require (coin.covenantId ≠ none)
  let psContAddr ← continuationScript e ps.redeem_hex
    (cancelledState ps.consolidatedPool new_refund_root).fields
  let matched := claimInputs coin fee
  let outputs ← (appendChange (cancelOutputs coin psContAddr) matched
    (chain.payToAddressScript addrs.changeAddress) (bshardFeeV1 matched.length)).toOption
  let tx ← (mkTx matched outputs 0).toOption
  some (tx, psContAddr)

/-- A signature that is not there. -/
def COMMITTEE_DUMMY_SIG : Bytes := 0x41 :: (List.replicate 64 0x00 ++ [0x01])

def QUORUM : Nat := 4

/-- The signatures that have the right length. -/
def signatures (sign : Bytes32 → Option Bytes) (pk : Bytes32) : Option Bytes :=
  (sign pk).filter fun sig => sig.length = 66

def path8? (sibs : List Bytes32) : Option (List.Vector Bytes32 8) :=
  if h : sibs.length = 8 then some ⟨sibs, h⟩ else none

/-- A slot of the committee; the first byte of a signature pushes the others. -/
def committeeSlot (sigs : Bytes32 → Option Bytes) (m : CommitteeMeta) : Option Member := do
  let s ← path8? m.siblings
  some
    { sig := ((sigs m.pk).getD COMMITTEE_DUMMY_SIG).drop 1
      pk := m.pk
      idx := m.idx
      s }

/-- `committee5`, as the covenant reads it. -/
def committee5 (plan : RefundPlan) (sigs : Bytes32 → Option Bytes) : Option CommitteeWitness := do
  let slots ← plan.committeeMeta.mapM (committeeSlot sigs)
  if h : slots.length = 5 then
    some { members := ⟨slots, h⟩, committeePkHash := plan.committeePkHash }
  else none

/-- The transaction with its signatures, judged by the covenant. -/
def submitCancel (e : Engine) (c : Contract) (chain : Chain) (coin : ShardCoin)
    (built : Tx × Bytes) (accepts : Bool) (new_refund_root : Bytes32)
    (cw : Option CommitteeWitness) : Option Submitted := do
  (assertTxInvariants chain.mass built.1).toOption
  let cw ← cw
  let state ← PayoutShard.spend e i64 c coin.state built.1 (.cancel_attest 0 new_refund_root cw)
  require (accepts = true)
  some
    { spend := (.cancel_attest 0 new_refund_root cw, built.1)
      psContAddress := built.2
      coin :=
        { txid := chain.txId built.1
          index := 0
          value := coin.value
          scriptPubKey := built.2
          covenantId := coin.covenantId
          state } }

/-- The first five steps: the shard, and the transaction that cancels it. -/
def attestCancel (e : Engine) (c : Contract) (chain : Chain) (addrs : Addresses) (env : CancelEnv)
    (plan : RefundPlan) (coin : ShardCoin) : Except CancelRefusal (PsState × Submitted) := do
  let ps ← orRefuse env.psState .noPs
  let fee ← orRefuse env.feeUtxo .thrown
  let built ← orRefuse (buildCancel e chain addrs coin fee ps plan.refundRoot) .build
  check (some built.2 = plan.expectedCancelledAddr) .enforce
  let sigs := signatures (env.sign built.1)
  check (QUORUM ≤ ((plan.committee.filter fun pk => (sigs pk).isSome).dedup).length) .absent
  check (e.blake2b (plan.committeeMeta.flatMap fun m => m.pk.toList) = plan.committeePkHash) .pkHash
  let sub ← orRefuse (submitCancel e c chain coin built env.accepts plan.refundRoot
    (committee5 plan sigs)) .submit
  .ok (ps, sub)

/-- How a cancellation ends: it is refused, its transaction is not seen, or the claims are made. -/
inductive Cancellation
  | refused (why : CancelRefusal)
  | notLanded (sub : Submitted)
  | threw (sub : Submitted)
  | claimed (sub : Submitted) (walk : Walk)

/-- `verifyClosedLanded` -/
def cancelLanded (env : CancelEnv) (plan : RefundPlan) (ps : PsState) (sub : Submitted) : Prop :=
  env.landed = true ∧ some sub.coin.scriptPubKey = plan.expectedCancelledAddr ∧
    (sub.coin.value : Int) = ps.consolidatedPool

instance (env : CancelEnv) (plan : RefundPlan) (ps : PsState) (sub : Submitted) :
    Decidable (cancelLanded env plan ps sub) :=
  inferInstanceAs (Decidable (_ ∧ _))

def cancelMarketLive (e : Engine) (c : Contract) (chain : Chain) (addrs : Addresses)
    (env : CancelEnv) (plan : RefundPlan) (coin : ShardCoin) : Cancellation :=
  match attestCancel e c chain addrs env plan coin with
  | .error why => .refused why
  | .ok (ps, sub) =>
    if ¬ cancelLanded env plan ps sub then .notLanded sub
    else
      match refundClaimData e plan.refunds, startThread ps.template .refund plan.refundRoot
          sub.coin.txid ps.consolidatedPool with
      | some cds, some th =>
        .claimed sub (claimLoop e c chain addrs env.claims .refund plan.refundRoot cds th sub.coin)
      | _, _ => .threw sub

/-! ### What the plan is made of -/

/-- What a plan was made of. -/
structure RefundOf (e : Engine) (market : DriverMarket) (d : RefundCtx) (plan : RefundPlan)
    (sel : List PoolMember) (tree : PoolTree) : Prop where
  bets : d.bets ≠ []
  refunds : plan.refunds = computeRefundPayout d.bets
  root : payoutRoot e (computeRefundPayout d.bets) = some plan.refundRoot
  drawn : ∃ seed, selectCommittee e d.poolMembers seed (driverExcludes market d.bets) = some sel
  built : buildPoolMerkleTree e (d.poolMembers.map PoolMember.pk) = some tree
  committee : plan.committee = (sel.map PoolMember.pk).mergeSort keyLe
  committeeMeta : plan.committeeMeta = plan.committee.map fun pk =>
    ⟨pk, tree.sortedPks.idxOf pk, getPoolMerkleProof e tree (tree.sortedPks.idxOf pk)⟩
  committeePkHash : plan.committeePkHash = e.blake2b (plan.committee.flatMap List.Vector.toList)
  address : plan.expectedCancelledAddr = d.psRow.bind fun t =>
    cancelledAddr e t (sumStakes d.bets + d.psSeedSompi.getD PS_SEED) plan.refundRoot

section

variable {e : Engine} {c : Contract} {chain : Chain} {addrs : Addresses} {env : CancelEnv}
  {market : DriverMarket} {d : RefundCtx} {plan : RefundPlan} {coin : ShardCoin} {ps : PsState}
  {sub : Submitted}

theorem computeRefundPlan_eq_ok (h : computeRefundPlan e market d = .ok plan) :
    ∃ sel tree, RefundOf e market d plan sel tree := by
  unfold computeRefundPlan at h
  simp only [bind_eq_ok, check_eq_ok, orRefuse_eq_ok, exists_const, Except.ok.injEq] at h
  obtain ⟨-, hbets, -, root, hroot, endBlockHash, -, seed, -, sel, hsel, tree, htree, rfl⟩ := h
  exact ⟨sel, tree, hbets, rfl, hroot, ⟨seed, hsel⟩, htree, rfl, rfl, rfl, rfl⟩

theorem sumAmounts_computeRefundPayout (bets : List Bet) :
    sumAmounts (computeRefundPayout bets) = sumStakes bets := by
  unfold computeRefundPayout sumAmounts sumStakes
  rw [List.map_map]
  rfl

/-! ### The members sign -/

theorem draw_perm {hit : Int} {ms rest : List PoolMember} {m : PoolMember}
    (h : draw hit ms = some (m, rest)) : (m :: rest).Perm ms := by
  induction ms generalizing hit rest with
  | nil => cases h
  | cons m' ms ih =>
    unfold draw at h
    split at h
    · cases h
      exact .refl _
    · obtain ⟨r, hdraw, heq⟩ := Option.map_eq_some_iff.mp h
      obtain ⟨rfl, rfl⟩ := Prod.mk.inj heq
      exact (List.Perm.swap m' r.1 r.2).trans ((ih hdraw).cons m')

theorem drawAll_perm {seed : Bytes32} {i n : Nat} {ms sel : List PoolMember}
    (h : drawAll e seed i n ms = some sel) :
    sel.length = n ∧ ∃ rest, (sel ++ rest).Perm ms := by
  induction n generalizing i ms sel with
  | zero =>
    obtain rfl := Option.some.inj h
    exact ⟨rfl, ms, .refl _⟩
  | succ n ih =>
    unfold drawAll at h
    obtain ⟨⟨m, rest⟩, hdraw, h⟩ := Option.bind_eq_some_iff.mp h
    obtain ⟨sel', hsel', h⟩ := Option.bind_eq_some_iff.mp h
    obtain rfl := Option.some.inj h
    obtain ⟨hlen, left, hleft⟩ := ih hsel'
    exact ⟨congrArg Nat.succ hlen, left, (hleft.cons m).trans (draw_perm hdraw)⟩

/-- Five members of the pool, each once. -/
theorem selectCommittee_keys {members sel : List PoolMember} {seed : Bytes32}
    {excludePks : List String} (hnd : (members.map PoolMember.pk).Nodup)
    (h : selectCommittee e members seed excludePks = some sel) :
    sel.length = 5 ∧ (sel.map PoolMember.pk).Nodup ∧
      ∀ m ∈ sel, m.pk ∈ members.map PoolMember.pk := by
  unfold selectCommittee at h
  simp only [Option.bind_eq_bind, Option.bind_eq_some_iff, require_eq_some, exists_const] at h
  obtain ⟨-, -, hdraw⟩ := h
  obtain ⟨hlen, rest, hperm⟩ := drawAll_perm hdraw
  have hall := (hperm.trans (List.mergeSort_perm _ _)).map PoolMember.pk
  rw [List.map_append] at hall
  have hfilter := (List.filter_sublist (l := members)
    (p := fun m => decide (hex m.pk.toList ∉ excludePks))).map PoolMember.pk
  have hnodup := hall.nodup_iff.mpr (hfilter.nodup hnd)
  refine ⟨hlen, (List.nodup_append.mp hnodup).1, fun m hm => hfilter.subset ?_⟩
  exact hall.subset (List.mem_append_left _ (List.mem_map_of_mem hm))

/-- The proof of a key of the pool climbs to its root. -/
theorem climb_getPoolMerkleProof {pks : List Bytes32} {tree : PoolTree}
    (h : buildPoolMerkleTree e pks = some tree) {pk : Bytes32} (hpk : pk ∈ pks) :
    tree.sortedPks.idxOf pk < 256 ∧
      Merkle.climb (hashNode e) (tree.sortedPks.idxOf pk) (e.blake2b pk.toList)
        (getPoolMerkleProof e tree (tree.sortedPks.idxOf pk)) = tree.root e := by
  unfold buildPoolMerkleTree at h
  simp only [Option.bind_eq_bind, Option.bind_eq_some_iff, require_eq_some, exists_const,
    Option.some.injEq] at h
  obtain ⟨-, hmax, rfl⟩ := h
  have hmem : pk ∈ pks.mergeSort keyLe := (List.mergeSort_perm _ _).mem_iff.mpr hpk
  have hlt := List.idxOf_lt_length_of_mem hmem
  have hlen : (pks.mergeSort keyLe).length ≤ 256 := by
    rw [List.length_mergeSort]
    exact hmax
  dsimp only
  refine ⟨lt_of_lt_of_le hlt hlen, ?_⟩
  generalize hleaves : (pks.mergeSort keyLe).map (hashPoolLeaf e) ++ _ = leaves
  have hfull : leaves.length = 2 ^ POOL_DEPTH := by
    rw [← hleaves, List.length_append, List.length_replicate, List.length_map]
    exact Nat.add_sub_of_le hlen
  have hleaf : leaves.getD ((pks.mergeSort keyLe).idxOf pk) ZERO32 = e.blake2b pk.toList := by
    rw [← hleaves, List.getD_append _ _ _ _ (by rwa [List.length_map]),
      List.getD_eq_getElem _ _ (by rwa [List.length_map]), List.getElem_map,
      List.getElem_idxOf hlt]
    rfl
  rw [← hleaf, getPoolMerkleProof, PoolTree.root,
    Merkle.climb_path hfull (lt_of_lt_of_le hlt hlen)]

/-- Four members have signed. -/
def Signed (e : Engine) (tx : Tx) (sign : Bytes32 → Option Bytes) (committee : List Bytes32) :
    Prop :=
  4 ≤ committee.countP fun pk =>
    (signatures sign pk).any fun sig => e.checkSig tx (sig.drop 1) pk

/-- **The committee attests**: five keys of the pool, each once, and four of them have signed. -/
theorem RefundOf.attests {sel : List PoolMember} {tree : PoolTree}
    (h : RefundOf e market d plan sel tree) (hnd : (d.poolMembers.map PoolMember.pk).Nodup)
    (hpool : tree.root e = c.poolMerkleRoot)
    (hcommit : e.blake2b c.predicate_commit.toList ≠ c.predicate_commit) {tx : Tx}
    {sign : Bytes32 → Option Bytes} (hsigned : Signed e tx sign plan.committee) :
    ∃ cw, committee5 plan (signatures sign) = some cw ∧
      committeeAttests e c.poolMerkleRoot c.predicate_commit tx cw = some () := by
  obtain ⟨seed, hsel⟩ := h.drawn
  obtain ⟨hfive, hkeys, hin⟩ := selectCommittee_keys hnd hsel
  have hperm : plan.committee.Perm (sel.map PoolMember.pk) := by
    rw [h.committee]
    exact List.mergeSort_perm _ _
  have hlen : plan.committee.length = 5 := by
    rw [hperm.length_eq, List.length_map, hfive]
  have hmem : ∀ pk ∈ plan.committee, pk ∈ d.poolMembers.map PoolMember.pk := by
    intro pk hpk
    obtain ⟨m, hm, rfl⟩ := List.mem_map.mp (hperm.subset hpk)
    exact hin m hm
  let slot (pk : Bytes32) : Member :=
    { sig := ((signatures sign pk).getD COMMITTEE_DUMMY_SIG).drop 1
      pk
      idx := tree.sortedPks.idxOf pk
      s := ⟨getPoolMerkleProof e tree (tree.sortedPks.idxOf pk), Merkle.path_length _ _ _⟩ }
  have hslots : plan.committeeMeta.mapM (committeeSlot (signatures sign)) =
      some (plan.committee.map slot) := by
    refine mapM_eq_some.mpr ?_
    rw [h.committeeMeta, List.map_map, List.map_map]
    refine List.map_congr_left fun pk _ => ?_
    have hpath : path8? (getPoolMerkleProof e tree (tree.sortedPks.idxOf pk)) =
        some ⟨_, Merkle.path_length _ _ _⟩ := dif_pos (Merkle.path_length _ _ _)
    show committeeSlot (signatures sign)
      ⟨pk, tree.sortedPks.idxOf pk, getPoolMerkleProof e tree (tree.sortedPks.idxOf pk)⟩ = _
    rw [committeeSlot, hpath]
    rfl
  have hcount : (plan.committee.map slot).length = 5 := by
    rw [List.length_map, hlen]
  refine ⟨⟨⟨plan.committee.map slot, hcount⟩, plan.committeePkHash⟩, ?_, ?_⟩
  · rw [committee5, hslots]
    exact dif_pos hcount
  · unfold committeeAttests
    simp only [Option.bind_eq_bind, Option.bind_eq_some_iff, require_eq_some, exists_const]
    refine ⟨hcommit, ?_, ?_, ?_, ?_⟩
    · refine le_trans hsigned ?_
      show _ ≤ (plan.committee.map slot).countP _
      rw [List.countP_map]
      refine List.countP_mono_left fun pk _ hsig => ?_
      obtain ⟨sig, hs, hcheck⟩ := (Option.any_eq_true _ _).mp hsig
      show e.checkSig tx (((signatures sign pk).getD COMMITTEE_DUMMY_SIG).drop 1) pk = true
      rw [hs]
      exact hcheck
    · show ((plan.committee.map slot).map Member.pk).Nodup
      have hpks : (plan.committee.map slot).map Member.pk = plan.committee := by
        rw [List.map_map]
        exact List.map_id _
      rw [hpks]
      exact hperm.nodup_iff.mpr hkeys
    · rw [h.committeePkHash]
      show e.blake2b ((plan.committee.map slot).flatMap _) = _
      rw [List.flatMap_map]
    · intro m hm
      obtain ⟨pk, hpk, rfl⟩ := List.mem_map.mp hm
      obtain ⟨hlt, hclimb⟩ := climb_getPoolMerkleProof h.built (hmem pk hpk)
      refine ⟨Int.natCast_nonneg _, Int.ofNat_lt.mpr hlt, ?_⟩
      rw [Member.climb_eq e rfl, ← hpool]
      exact hclimb

/-! ### The transaction -/

/-- What is left for the fee's own address, if it is no dust. -/
def changeOf (chain : Chain) (addrs : Addresses) (left : Nat) : List TxOutput :=
  if 1000 ≤ left then
    [{ value := left, scriptPubKey := chain.payToAddressScript addrs.changeAddress,
       covenantId := none }]
  else []

theorem appendChange_cancel {fee : FeeUtxo} {lock : Bytes} {outputs : List TxOutput} :
    appendChange (cancelOutputs coin lock) (claimInputs coin fee)
        (chain.payToAddressScript addrs.changeAddress) 2000000 = .ok outputs ↔
      2000000 ≤ fee.value ∧
        outputs = cancelOutputs coin lock ++ changeOf chain addrs (fee.value - 2000000) := by
  have hout : sumOut (cancelOutputs coin lock) = coin.value := List.sum_singleton
  have hin : sumIn (claimInputs coin fee) = coin.value + fee.value := by
    simp only [sumIn, claimInputs, List.map_cons, List.map_nil, List.sum_cons, List.sum_nil]
    omega
  have hchange : coin.value + fee.value - coin.value - 2000000 = fee.value - 2000000 := by omega
  unfold appendChange changeOf
  rw [hout, hin]
  by_cases hfee : 2000000 ≤ fee.value
  · rw [if_neg (by omega)]
    simp only [hchange, hfee, true_and]
    by_cases hc : 1000 ≤ fee.value - 2000000
    · rw [if_pos hc, if_pos hc, Except.ok.injEq]
      exact eq_comm
    · rw [if_neg hc, if_neg hc, Except.ok.injEq, List.append_nil]
      exact eq_comm
  · rw [if_pos (by omega)]
    simp only [reduceCtorEq, hfee, false_and]

/-- What the relay builds. -/
structure BuiltCancel (e : Engine) (chain : Chain) (addrs : Addresses) (coin : ShardCoin)
    (fee : FeeUtxo) (ps : PsState) (root : Bytes32) (tx : Tx) (lock : Bytes) : Prop where
  found : coin.txid = ps.outpointTxid ∧ coin.index = ps.index ∧
    coin.scriptPubKey = ScriptPubKeyP2SH (e.blake2b ps.redeem_hex)
  covenant : coin.covenantId ≠ none
  continues : continuationScript e ps.redeem_hex
    (cancelledState ps.consolidatedPool root).fields = some lock
  enough : 2000000 ≤ fee.value
  made : mkTx (claimInputs coin fee)
    (cancelOutputs coin lock ++ changeOf chain addrs (fee.value - 2000000)) 0 = .ok tx

theorem buildCancel_eq_some {fee : FeeUtxo} {root : Bytes32} {tx : Tx} {lock : Bytes} :
    buildCancel e chain addrs coin fee ps root = some (tx, lock) ↔
      BuiltCancel e chain addrs coin fee ps root tx lock := by
  have hfee : bshardFeeV1 (claimInputs coin fee).length = 2000000 := by
    have hlen : (claimInputs coin fee).length = 2 := rfl
    rw [hlen]
    decide
  unfold buildCancel
  simp only [Option.bind_eq_bind, Option.bind_eq_some_iff, require_eq_some, exists_const,
    Option.some.injEq, Prod.mk.injEq, toOption_eq_some, hfee, appendChange_cancel]
  constructor
  · rintro ⟨hfound, hcov, lock', hlock, outs, ⟨henough, rfl⟩, tx', htx, rfl, rfl⟩
    exact ⟨hfound, hcov, hlock, henough, htx⟩
  · rintro ⟨hfound, hcov, hlock, henough, htx⟩
    exact ⟨hfound, hcov, lock, hlock, _, ⟨henough, rfl⟩, tx, htx, rfl, rfl⟩

/-- The shard's output. -/
def cancelOutput (coin : ShardCoin) (lock : Bytes) : TxOutput where
  value := coin.value
  scriptPubKey := lock
  covenantId := coin.covenantId

theorem BuiltCancel.output {fee : FeeUtxo} {root : Bytes32} {tx : Tx} {lock : Bytes}
    (h : BuiltCancel e chain addrs coin fee ps root tx lock) :
    tx.output 0 = some (cancelOutput coin lock) := by
  obtain ⟨-, -, -, hout, -⟩ := mkTx_eq_ok.mp h.made
  rw [Tx.output, hout]
  rfl

/-- What is on the ledger once the shard is cancelled. -/
structure CancelSent (e : Engine) (c : Contract) (chain : Chain) (plan : RefundPlan)
    (coin : ShardCoin) (sub : Submitted) (cw : CommitteeWitness) (tx : Tx) : Prop where
  spend : sub.spend = (ClaimKind.refund.attest plan.refundRoot cw, tx)
  step : PayoutShard.Step e c coin.state sub.spend sub.coin.state
  output : tx.output 0 = some (cancelOutput coin sub.psContAddress)
  left : sub.coin = attestedCoin chain tx (cancelOutput coin sub.psContAddress) sub.coin.state
  covenant : coin.covenantId ≠ none
  enforced : some sub.psContAddress = plan.expectedCancelledAddr

/-- **What goes out is what was planned.** -/
theorem attestCancel_sent (h : attestCancel e c chain addrs env plan coin = .ok (ps, sub)) :
    env.psState = some ps ∧ ∃ cw tx, CancelSent e c chain plan coin sub cw tx := by
  unfold attestCancel at h
  simp only [bind_eq_ok, check_eq_ok, orRefuse_eq_ok, exists_const, Except.ok.injEq,
    Prod.mk.injEq] at h
  obtain ⟨ps', hps, fee, -, ⟨tx, lock⟩, hbuilt, henforce, -, -, sub', hsub, rfl, rfl⟩ := h
  have hb := buildCancel_eq_some.mp hbuilt
  unfold submitCancel at hsub
  simp only [Option.bind_eq_bind, Option.bind_eq_some_iff, require_eq_some, exists_const,
    Option.some.injEq] at hsub
  obtain ⟨-, -, cw, -, state, hspend, -, rfl⟩ := hsub
  exact ⟨hps, cw, tx, rfl, hspend, hb.output, rfl, hb.covenant, henforce⟩

/-- Two states written alike have the same pool. -/
theorem pool_of_serialize {s s' : State} {bytes : Bytes}
    (h : serializeState s.fields = some bytes) (h' : serializeState s'.fields = some bytes) :
    s.consolidated_pool = s'.consolidated_pool := by
  rw [State.fields, serializeState_cons] at h h'
  obtain ⟨b, bs, hb, -, heq⟩ := h
  obtain ⟨b', bs', hb', -, heq'⟩ := h'
  have hlen : b.length = b'.length := by
    rw [length_serialize hb, length_serialize hb']
    rfl
  obtain ⟨rfl, -⟩ := List.append_inj (heq.trans heq'.symm) hlen
  obtain ⟨n, hn, hcons⟩ := Option.map_eq_some_iff.mp hb
  obtain ⟨n', hn', hcons'⟩ := Option.map_eq_some_iff.mp hb'
  obtain rfl : n = n' := (List.cons.inj (hcons.trans hcons'.symm)).2
  exact num2bin_inj (by norm_num) hn hn'

/-- No two of the shards that a root may be written into have one hash. -/
def PoolsApart (e : Engine) (t : Template) (root : Bytes32) (pool pool' : Int) : Prop :=
  ∀ a ∈ serializeState (cancelledState pool root).fields,
    ∀ b ∈ serializeState (cancelledState pool' root).fields,
      CollisionFree e [t.redeem a, t.redeem b]

/-- **An address tells the pool.** -/
theorem pool_of_cancelledAddr {t : Template} {root : Bytes32} {pool pool' : Int} {lock : Bytes}
    (hapart : PoolsApart e t root pool pool') (h : cancelledAddr e t pool root = some lock)
    (h' : cancelledAddr e t pool' root = some lock) : pool = pool' := by
  obtain ⟨a, ha, hlock⟩ := Option.map_eq_some_iff.mp h
  obtain ⟨b, hb, hlock'⟩ := Option.map_eq_some_iff.mp h'
  have hhash := ScriptPubKeyP2SH_inj (hlock.trans hlock'.symm)
  have hredeem := hapart a ha b hb _ List.mem_cons_self _
    (List.mem_cons_of_mem _ List.mem_cons_self) hhash
  have hstate : a = b := List.append_cancel_left (List.append_cancel_right hredeem)
  exact pool_of_serialize ha (hstate ▸ hb)

/-! ### The shard is cancelled -/

/-- The shard that the settler has is the one on the ledger. -/
structure Names (e : Engine) (c : Contract) (coin : ShardCoin) (ps : PsState) : Prop where
  found : coin.txid = ps.outpointTxid ∧ coin.index = ps.index ∧
    coin.scriptPubKey = ScriptPubKeyP2SH (e.blake2b ps.redeem_hex)
  redeem : ∃ bytes, serializeState coin.state.fields = some bytes ∧
    ps.redeem_hex = c.template.redeem bytes
  template : ps.template = c.template
  pool : ps.consolidatedPool = coin.state.consolidated_pool
  value : (coin.value : Int) = coin.state.consolidated_pool
  bounded : coin.value < 2 ^ 63
  covenant : coin.covenantId ≠ none

/-- What a cancellation needs of the settler's rows, of the shard, of the committee and of the
ledger. -/
structure CancelReady (e : Engine) (c : Contract) (env : CancelEnv) (d : RefundCtx)
    (plan : RefundPlan) (coin : ShardCoin) : Prop where
  ps : ∃ ps, env.psState = some ps ∧ Names e c coin ps
  row : d.psRow = some c.template
  fee : ∃ fee : FeeUtxo, env.feeUtxo = some fee ∧ 2000000 ≤ fee.value
  opened : coin.state.closed = 0
  pool : coin.state.consolidated_pool = sumStakes d.bets + d.psSeedSompi.getD PS_SEED
  notDust : 1000 ≤ coin.value
  members : (d.poolMembers.map PoolMember.pk).Nodup
  root : ∀ tree ∈ buildPoolMerkleTree e (d.poolMembers.map PoolMember.pk),
    tree.root e = c.poolMerkleRoot
  commit : e.blake2b c.predicate_commit.toList ≠ c.predicate_commit
  signed : ∀ tx, Signed e tx (env.sign tx) plan.committee
  accepted : env.accepts = true
  landed : env.landed = true

/-- A shard that is open has nothing paid. -/
theorem cancelled_of_run {g : State} {as : List PayoutShard.Action} (hg : PayoutShard.Genesis g)
    (hrun : Run (PayoutShard.Step e c) g as coin.state) (h0 : coin.state.closed = 0)
    (root : Bytes32) :
    ({ coin.state with closed := 2, payoutRoot := root } : State) =
      cancelledState coin.state.consolidated_pool root := by
  obtain ⟨-, hu⟩ := untouched_run hg hrun
  exact congrArg (State.mk coin.state.consolidated_pool 2 root) (hu h0)

/-- **The shard that is cancelled has the pool that was planned.** -/
theorem CancelSent.pool {g : State} {as : List PayoutShard.Action} {sel : List PoolMember}
    {tree : PoolTree} {cw : CommitteeWitness} {tx : Tx} (hg : PayoutShard.Genesis g)
    (hrun : Run (PayoutShard.Step e c) g as coin.state)
    (hplan : RefundOf e market d plan sel tree) (hrow : d.psRow = some c.template)
    (hapart : PoolsApart e c.template plan.refundRoot
      (sumStakes d.bets + d.psSeedSompi.getD PS_SEED) coin.state.consolidated_pool)
    (h : CancelSent e c chain plan coin sub cw tx) :
    coin.state.consolidated_pool = sumStakes d.bets + d.psSeedSompi.getD PS_SEED ∧
      (coin.value : Int) = coin.state.consolidated_pool := by
  have hstep := h.step
  rw [h.spend] at hstep
  obtain ⟨h0, -, hs', ⟨state, out, hs, hout, hscript⟩, hpays⟩ :=
    PayoutShard.attest_eq_some.mp (spend_attest.mp hstep)
  obtain rfl := Option.some.inj (h.output.symm.trans hout)
  have hcancelled := cancelled_of_run hg hrun h0 plan.refundRoot
  have hlatch : ClaimKind.refund.latch = 2 := rfl
  rw [hs', hlatch, hcancelled] at hs
  have haddr : cancelledAddr e c.template coin.state.consolidated_pool plan.refundRoot =
      some sub.psContAddress := by
    rw [cancelledAddr, hs]
    exact congrArg some hscript.symm
  have hplanned := h.enforced
  rw [hplan.address, hrow, Option.bind_some] at hplanned
  refine ⟨(pool_of_cancelledAddr hapart hplanned.symm haddr).symm, ?_⟩
  obtain ⟨o, ho, hv⟩ := hpays
  obtain rfl := Option.some.inj (h.output.symm.trans ho)
  rw [hs'] at hv
  exact hv

/-- **When the shard is cancelled**, and the claims begin. -/
theorem cancels {g : State} {as : List PayoutShard.Action} {sel : List PoolMember}
    {tree : PoolTree} (ht : c.template.templatePrefix.length = 1) (hmass : FeeCovers chain)
    (hg : PayoutShard.Genesis g) (hrun : Run (PayoutShard.Step e c) g as coin.state)
    (hplan : RefundOf e market d plan sel tree) (h : CancelReady e c env d plan coin) :
    ∃ sub walk, cancelMarketLive e c chain addrs env plan coin = .claimed sub walk := by
  obtain ⟨ps, hps, hn⟩ := h.ps
  obtain ⟨fee, hfee, henough⟩ := h.fee
  obtain ⟨old, hold, hredeem⟩ := hn.redeem
  have hbounded := hn.bounded
  have hfeeb := fee.bounded
  have hvalue := hn.value
  -- the continuation
  obtain ⟨state, hstate⟩ : ∃ state, serializeState
      (cancelledState coin.state.consolidated_pool plan.refundRoot).fields = some state :=
    serializeState_of_fits (PayoutShard.fields_fit
      (fits_of_bounds (by show 0 ≤ coin.state.consolidated_pool; omega)
        (by show coin.state.consolidated_pool < 2 ^ 63; omega))
      (fits_of_bounds (by show (0 : Int) ≤ 2; norm_num) (by show (2 : Int) < 2 ^ 63; norm_num))
      wordsOk_zero)
  have hcont := @continuationScript_redeem e c.template ht coin.state
    (cancelledState coin.state.consolidated_pool plan.refundRoot) old state hold hstate
  rw [← hredeem, ← hn.pool] at hcont
  generalize hlock : ScriptPubKeyP2SH (e.blake2b (c.template.redeem state)) = lock at hcont
  -- the transaction
  have hall : ∀ o ∈ cancelOutputs coin lock ++ changeOf chain addrs (fee.value - 2000000),
      1000 ≤ o.value ∧ o.value < 2 ^ 63 := by
    intro o ho
    rcases List.mem_append.mp ho with ho | ho
    · obtain rfl := List.mem_singleton.mp ho
      exact ⟨h.notDust, hbounded⟩
    · unfold changeOf at ho
      split at ho
      · obtain rfl := List.mem_singleton.mp ho
        dsimp only
        omega
      · cases ho
  have hin : ∀ i ∈ claimInputs coin fee, i.value < 2 ^ 63 := by
    intro i hi
    rcases List.mem_pair.mp hi with rfl | rfl
    · exact hbounded
    · exact hfeeb
  have hchange : (changeOf chain addrs (fee.value - 2000000)).length ≤ 1 ∧
      sumOut (changeOf chain addrs (fee.value - 2000000)) ≤ fee.value - 2000000 := by
    unfold changeOf
    split
    · exact ⟨le_refl 1, le_of_eq List.sum_singleton⟩
    · exact ⟨Nat.zero_le 1, Nat.zero_le _⟩
  let tx : Tx := ⟨claimInputs coin fee, cancelOutputs coin lock ++
    changeOf chain addrs (fee.value - 2000000), 0, hin, fun o ho => (hall o ho).2⟩
  have hsumIn : sumIn tx.inputs = coin.value + fee.value := by
    show coin.value + (fee.value + 0) = _
    omega
  have hsumOut : sumOut tx.outputs =
      coin.value + sumOut (changeOf chain addrs (fee.value - 2000000)) := by
    show sumOut (cancelOutputs coin lock ++ changeOf chain addrs (fee.value - 2000000)) = _
    rw [sumOut, sumOut, List.map_append, List.sum_append]
    rfl
  have hbuilt : buildCancel e chain addrs coin fee ps plan.refundRoot = some (tx, lock) :=
    buildCancel_eq_some.mpr ⟨hn.found, hn.covenant, hcont, henough,
      mkTx_eq_ok.mpr ⟨hin, fun o ho => (hall o ho).2, rfl, rfl, rfl⟩⟩
  have hsound : assertTxInvariants chain.mass tx = .ok () := by
    refine assertTxInvariants_eq_ok.mpr ⟨by omega, fun o ho => (hall o ho).1, fun m hm => ?_⟩
    have hle := hmass tx m rfl (by
      show (_ ++ _ : List TxOutput).length ≤ 3
      rw [List.length_append]
      exact le_trans (Nat.add_le_add_left hchange.1 1) (by norm_num)) hm
    omega
  -- the address is the one of the plan
  have haddr : some lock = plan.expectedCancelledAddr := by
    rw [hplan.address, h.row, Option.bind_some, ← h.pool, cancelledAddr, hstate, Option.map_some,
      hlock]
  -- the committee
  obtain ⟨seed, hsel⟩ := hplan.drawn
  obtain ⟨cw, hcw, hattests⟩ := hplan.attests h.members (h.root _ hplan.built) h.commit
    (h.signed tx)
  have hkeys : plan.committee.Nodup := by
    rw [hplan.committee]
    exact (List.mergeSort_perm _ _).nodup_iff.mpr (selectCommittee_keys h.members hsel).2.1
  have hquorum : QUORUM ≤ ((plan.committee.filter fun pk =>
      (signatures (env.sign tx) pk).isSome).dedup).length := by
    rw [(hkeys.filter _).dedup, ← List.countP_eq_length_filter]
    refine le_trans (h.signed tx) (List.countP_mono_left fun pk _ hsig => ?_)
    obtain ⟨sig, hs, -⟩ := (Option.any_eq_true _ _).mp hsig
    rw [hs]
    rfl
  have hhash : e.blake2b (plan.committeeMeta.flatMap fun m => m.pk.toList) =
      plan.committeePkHash := by
    rw [hplan.committeePkHash, hplan.committeeMeta, List.flatMap_map]
  have hcontinues : PayoutShard.Continuation e c tx 0
      (cancelledState coin.state.consolidated_pool plan.refundRoot) :=
    ⟨⟨state, cancelOutput coin lock, hstate, rfl, hlock.symm⟩, cancelOutput coin lock, rfl, hvalue⟩
  have hspend : PayoutShard.spend e i64 c coin.state tx
      (.cancel_attest 0 plan.refundRoot cw) =
        some (cancelledState coin.state.consolidated_pool plan.refundRoot) :=
    PayoutShard.attest_eq_some.mpr ⟨h.opened, hattests,
      (cancelled_of_run hg hrun h.opened plan.refundRoot).symm, hcontinues⟩
  have hattested : attestCancel e c chain addrs env plan coin = .ok (ps,
      { spend := (.cancel_attest 0 plan.refundRoot cw, tx)
        psContAddress := lock
        coin := attestedCoin chain tx (cancelOutput coin lock)
          (cancelledState coin.state.consolidated_pool plan.refundRoot) }) := by
    unfold attestCancel submitCancel
    simp only [hps, hfee, hbuilt, haddr, hquorum, hhash, hcw, hsound, hspend, h.accepted, orRefuse,
      check, require, Except.toOption, ok_bind, if_true, Option.bind_eq_bind, Option.bind_some]
    rfl
  -- the claims
  obtain ⟨-, th, hth, -⟩ := @startThread_atTip e c chain .refund g coin.state
    (cancelledState coin.state.consolidated_pool plan.refundRoot) as tx plan.refundRoot cw
    (cancelOutput coin lock) hg hrun hspend rfl hn.covenant
  obtain ⟨hb, -⟩ := payoutRoot_eq_some.mp hplan.root
  have hdata : refundClaimData e plan.refunds = some _ := hplan.refunds ▸ claimData_eq hb
  have hlanded : cancelLanded env plan ps
      { spend := (.cancel_attest 0 plan.refundRoot cw, tx)
        psContAddress := lock
        coin := attestedCoin chain tx (cancelOutput coin lock)
          (cancelledState coin.state.consolidated_pool plan.refundRoot) } :=
    ⟨h.landed, haddr, hvalue.trans hn.pool.symm⟩
  unfold cancelMarketLive
  rw [hattested]
  dsimp only
  rw [if_neg (not_not.mpr hlanded), hdata, hn.template, hn.pool]
  have hid : (attestedCoin chain tx (cancelOutput coin lock)
    (cancelledState coin.state.consolidated_pool plan.refundRoot)).txid = chain.txId tx := rfl
  rw [hid, hth]
  exact ⟨_, _, rfl⟩

end

/-! ### The stakes -/

/-- What becomes of the bets of a market whose shard was cancelled. -/
structure Refunded (e : Engine) (c : Contract) (chain : Chain) (addrs : Addresses)
    (env : CancelEnv) (d : RefundCtx) (coin : ShardCoin) (sub : Submitted) (walk : Walk) :
    Prop where
  pool : coin.state.consolidated_pool = sumStakes d.bets + d.psSeedSompi.getD PS_SEED
  run : Run (PayoutShard.Step e c) coin.state (sub.spend :: walk.spends) walk.coin.state
  pays : ∃ paid : List (Leaf × Nat), paid.Sublist (computeRefundPayout d.bets).zipIdx ∧
    List.Forall₂ (Pays .refund) walk.spends paid
  honest : Honest chain .refund walk
  complete_iff : walk.Complete d.bets.length ↔ 1000 ≤ d.psSeedSompi.getD PS_SEED ∧
    ∀ (i : Nat) (b : Bet), d.bets[i]? = some b →
      Ready chain addrs (env.claims i) { pk := b.pk, amount := b.stake } ∧ 1000 ≤ b.stake
  complete : walk.Complete d.bets.length →
    List.Forall₂ (Pays .refund) walk.spends (computeRefundPayout d.bets).zipIdx ∧
      walk.coin.state.consolidated_pool = d.psSeedSompi.getD PS_SEED

/-- How a cancellation may end. -/
def Ends (e : Engine) (c : Contract) (chain : Chain) (addrs : Addresses) (env : CancelEnv)
    (d : RefundCtx) (coin : ShardCoin) : Cancellation → Prop
  | .refused _ => True
  | .notLanded sub => PayoutShard.Step e c coin.state sub.spend sub.coin.state ∧
    coin.state.consolidated_pool = sumStakes d.bets + d.psSeedSompi.getD PS_SEED
  | .threw _ => False
  | .claimed sub walk => Refunded e c chain addrs env d coin sub walk

theorem Refunded.of_ends {e : Engine} {c : Contract} {chain : Chain} {addrs : Addresses}
    {env : CancelEnv} {d : RefundCtx} {coin : ShardCoin} {r : Cancellation} {ready : Prop}
    (h : Ends e c chain addrs env d coin r ∧ (ready → ∃ sub walk, r = .claimed sub walk))
    (hready : ready) :
    ∃ sub walk, r = .claimed sub walk ∧ Refunded e c chain addrs env d coin sub walk := by
  obtain ⟨sub, walk, hr⟩ := h.2 hready
  subst hr
  exact ⟨sub, walk, rfl, h.1⟩

/-- **A market that is called off gives the stakes back.**  The shard is cancelled only if it holds
the stakes and the seed.  Then, however the relay and the ledger answer, each stake is paid once at
most, to its bettor; all of them are exactly when every claim goes through and none is dust, and
then the seed is left.  With the shard of the rows, four signatures and a ledger that takes it, the
shard is cancelled. -/
theorem refunds_paid {e : Engine} {c : Contract} (chain : Chain) (addrs : Addresses)
    (env : CancelEnv) {market : DriverMarket} {d : RefundCtx} {plan : RefundPlan}
    {coin : ShardCoin} {g : State} {as : List PayoutShard.Action}
    (ht : c.template.templatePrefix.length = 1) (hmass : FeeCovers chain)
    (hplan : computeRefundPlan e market d = .ok plan) (hrow : d.psRow = some c.template)
    (hps : ∀ ps ∈ env.psState, ps.template = c.template)
    (hg : PayoutShard.Genesis g) (hrun : Run (PayoutShard.Step e c) g as coin.state)
    (hapart : PoolsApart e c.template plan.refundRoot
      (sumStakes d.bets + d.psSeedSompi.getD PS_SEED) coin.state.consolidated_pool) :
    Ends e c chain addrs env d coin (cancelMarketLive e c chain addrs env plan coin) ∧
      (CancelReady e c env d plan coin →
        ∃ sub walk, cancelMarketLive e c chain addrs env plan coin = .claimed sub walk) := by
  obtain ⟨sel, tree, hof⟩ := computeRefundPlan_eq_ok hplan
  refine ⟨?_, cancels ht hmass hg hrun hof⟩
  unfold cancelMarketLive
  cases hatt : attestCancel e c chain addrs env plan coin with
  | error why => trivial
  | ok r =>
    obtain ⟨ps, sub⟩ := r
    obtain ⟨hpsState, cw, tx, hsent⟩ := attestCancel_sent hatt
    obtain ⟨hpool, hvalue⟩ := hsent.pool hg hrun hof hrow hapart
    dsimp only
    by_cases hlanded : cancelLanded env plan ps sub
    · rw [if_neg (not_not.mpr hlanded)]
      obtain ⟨hb, hroot⟩ := payoutRoot_eq_some.mp hof.root
      have hstep := hsent.step
      rw [hsent.spend] at hstep
      have hsame : ps.consolidatedPool = coin.state.consolidated_pool := by
        have hsub : sub.coin.value = coin.value := by
          rw [hsent.left]
          rfl
        rw [← hlanded.2.2, hsub, hvalue]
      obtain ⟨th, hth, hpaid⟩ := claims_of_attest chain addrs env.claims ht hmass hb hroot.symm hg
        hrun hstep hsent.output hsent.covenant
      rw [← hsent.left] at hpaid
      have hdata : refundClaimData e plan.refunds = some (dataFrom e (computeRefundPayout d.bets) 0
          (computeRefundPayout d.bets)) := by
        rw [hof.refunds]
        exact claimData_eq hb
      have hid : sub.coin.txid = chain.txId tx := by
        rw [hsent.left]
        rfl
      rw [hdata, hps ps hpsState, hid, hsame, hth]
      have hsum : sumAmounts (computeRefundPayout d.bets) = sumStakes d.bets :=
        sumAmounts_computeRefundPayout d.bets
      have hlen : (computeRefundPayout d.bets).length = d.bets.length := List.length_map _
      have hval : (sub.coin.value : Int) = coin.state.consolidated_pool := by
        rw [hsent.left]
        exact hvalue
      have hne : computeRefundPayout d.bets ≠ [] := fun h => hof.bets (List.map_eq_nil_iff.mp h)
      have hiff := hpaid.complete_iff
      have hall := hpaid.complete
      rw [hlen, hsum, hval, hpool] at hiff
      rw [hlen, hsum, hval, hpool, add_sub_cancel_left] at hall
      refine ⟨hpool, .cons hsent.step hpaid.run, hpaid.pays, hpaid.honest, hiff.trans ?_, hall⟩
      constructor
      · rintro ⟨hready, hleft⟩
        refine ⟨by have := hleft hne; omega, fun i b hi => hready i _ ?_⟩
        rw [computeRefundPayout, List.getElem?_map, hi]
        rfl
      · rintro ⟨hseed, hready⟩
        refine ⟨fun i w hw => ?_, fun _ => by omega⟩
        rw [computeRefundPayout, List.getElem?_map, Option.map_eq_some_iff] at hw
        obtain ⟨b, hi, rfl⟩ := hw
        exact hready i b hi
    · rw [if_pos hlanded]
      exact ⟨hsent.step, hpool⟩

/-! ### Two bets on a sample ledger -/

section Sample

/-- A signature begins with its key. -/
private def refundEngine : Engine :=
  { sampleEngine with checkSig := fun _ sig pk => sig.take 32 = pk.toList }

private def refundMembers : List PoolMember :=
  [⟨samplePk 0, 1⟩, ⟨samplePk 1, 1⟩, ⟨samplePk 2, 1⟩, ⟨samplePk 3, 1⟩, ⟨samplePk 4, 1⟩,
    ⟨samplePk 5, 1⟩]

private def refundTree : PoolTree where
  leaves := refundMembers.map (fun m => hashPoolLeaf refundEngine m.pk) ++
    List.replicate 250 (hashPoolLeaf refundEngine (samplePk 5))
  sortedPks := refundMembers.map PoolMember.pk

private def refundContract : Contract where
  poolMerkleRoot := refundTree.root refundEngine
  predicate_commit := samplePk 0
  template := { templatePrefix := [0x6b], templateSuffix := [0xac] }

private def refundMarket : DriverMarket where
  id := "m1"
  maker_pk := none
  broker_pk := none
  introducer_pk := none
  fee_rules := none
  deadline_daa := 4
  pool_merkle_root := List.replicate 32 0

private def refundCtx : RefundCtx where
  isBshard := true
  bets := [⟨(samplePk 8).toList, 500000, 0⟩, ⟨(samplePk 9).toList, 300000, 1⟩]
  logicalBets := 0
  endBlockHash := fun _ => some (List.replicate 32 7)
  poolMembers := refundMembers
  psRow := some refundContract.template
  psSeedSompi := none

private def refundOpen : State := PayoutShard.sampleState 20800000 0 ZERO32 Words.zero

private def refundRedeem : Bytes :=
  refundContract.template.redeem ((serializeState refundOpen.fields).getD [])

private def refundCoin : ShardCoin where
  txid := "c"
  index := 0
  value := 20800000
  scriptPubKey := ScriptPubKeyP2SH (refundEngine.blake2b refundRedeem)
  covenantId := some (samplePk 9)
  state := refundOpen

private def refundEnv : CancelEnv where
  psState := some ⟨refundRedeem, "c", 0, 20800000, refundContract.template⟩
  feeUtxo := some { value := 2500000, scriptPubKey := [], bounded := by decide }
  sign := fun _ pk => some (0x41 :: (pk.toList ++ List.replicate 33 0))
  accepts := true
  landed := true
  claims := sampleAttempts

private theorem refundTree_eq :
    buildPoolMerkleTree refundEngine (refundMembers.map PoolMember.pk) = some refundTree := by
  have hsorted : (refundMembers.map PoolMember.pk).mergeSort keyLe =
      refundMembers.map PoolMember.pk := List.mergeSort_of_pairwise (by decide)
  unfold buildPoolMerkleTree
  rw [hsorted]
  rfl

private def refundSeed : Bytes32 :=
  refundEngine.blake2b (utf8 "m1" ++ List.replicate 32 7 ++ List.replicate 32 0)

private theorem selectCommittee_all {ms sel : List PoolMember} {seed : Bytes32}
    {excludePks : List String} (hall : (ms.filter fun m => hex m.pk.toList ∉ excludePks) = ms)
    (hsorted : ms.Pairwise fun a b => keyLe a.pk b.pk = true) (hfew : COMMITTEE_SIZE ≤ ms.length)
    (hstake : ∀ m ∈ ms, 0 < m.stake_sompi)
    (hdraw : drawAll refundEngine seed 0 COMMITTEE_SIZE ms = some sel) :
    selectCommittee refundEngine ms seed excludePks = some sel := by
  simp only [selectCommittee, hall, List.mergeSort_of_pairwise hsorted, require, if_pos hfew,
    if_pos hstake]
  exact hdraw

private theorem refund_drawn : ∃ sel, selectCommittee refundEngine refundMembers refundSeed
    (driverExcludes refundMarket refundCtx.bets) = some sel := by
  have hdrawn : (drawAll refundEngine refundSeed 0 COMMITTEE_SIZE refundMembers).isSome =
      true := by
    decide +kernel
  obtain ⟨sel, hsel⟩ := Option.isSome_iff_exists.mp hdrawn
  exact ⟨sel, selectCommittee_all (by decide +kernel) (by decide) (by decide) (by decide) hsel⟩

private theorem refund_buildable : Buildable (computeRefundPayout refundCtx.bets) := by
  refine ⟨by decide, fun w hw => ?_⟩
  rcases List.mem_pair.mp hw with rfl | rfl
  · exact ⟨List.Vector.toList_length _, by decide, by decide⟩
  · exact ⟨List.Vector.toList_length _, by decide, by decide⟩

private theorem refund_planned :
    ∃ plan, computeRefundPlan refundEngine refundMarket refundCtx = .ok plan := by
  obtain ⟨sel, hsel⟩ := refund_drawn
  have hroot := payoutRoot_of_buildable (e := refundEngine) refund_buildable
  have hbets : refundCtx.bets ≠ [] := List.cons_ne_nil _ _
  unfold computeRefundPlan
  simp only [hbets, hroot, orRefuse, check, ok_bind, ne_eq, not_false_eq_true, if_true]
  have h₁ : refundCtx.isBshard = true := rfl
  have h₂ : refundCtx.logicalBets = 0 := rfl
  have h₃ : refundCtx.endBlockHash refundMarket.deadline_daa = some (List.replicate 32 7) := rfl
  have h₄ : deriveCommitteeSeed refundEngine refundMarket.id (List.replicate 32 7)
    refundMarket.pool_merkle_root = some refundSeed := rfl
  have h₅ : selectCommittee refundEngine refundCtx.poolMembers refundSeed
    (driverExcludes refundMarket refundCtx.bets) = some sel := hsel
  have h₆ : buildPoolMerkleTree refundEngine (refundCtx.poolMembers.map PoolMember.pk) =
    some refundTree := refundTree_eq
  simp only [h₁, h₂, h₃, h₄, h₅, h₆, ok_bind, if_true]
  exact ⟨_, rfl⟩

private theorem refund_fits (pool : Int) (h0 : 0 ≤ pool) (h1 : pool < 2 ^ 63) :
    ∀ f ∈ (PayoutShard.sampleState pool 0 ZERO32 Words.zero).fields, f.Fits :=
  PayoutShard.fields_fit (fits_of_bounds h0 h1)
    (fits_of_bounds (by show (0 : Int) ≤ 0; norm_num) (by show (0 : Int) < 2 ^ 63; norm_num))
    wordsOk_zero

private theorem refund_named : Names refundEngine refundContract refundCoin
    ⟨refundRedeem, "c", 0, 20800000, refundContract.template⟩ := by
  obtain ⟨bytes, hbytes⟩ := serializeState_of_fits
    (refund_fits 20800000 (by norm_num) (by norm_num))
  have hopen : serializeState refundOpen.fields = some bytes := hbytes
  refine ⟨⟨rfl, rfl, rfl⟩, ⟨bytes, hopen, ?_⟩, rfl, rfl, rfl, by decide, Option.some_ne_none _⟩
  rw [refundRedeem, hopen, Option.getD_some]

private theorem refund_signed {committee : List Bytes32} (h : committee.length = 5) (tx : Tx) :
    Signed refundEngine tx (refundEnv.sign tx) committee := by
  unfold Signed
  rw [List.countP_eq_length.mpr, h]
  · norm_num
  · intro pk _
    have hlen : (pk.toList ++ List.replicate 33 (0 : UInt8)).length = 65 := by
      rw [List.length_append, List.Vector.toList_length, List.length_replicate]
    have hsig : signatures (refundEnv.sign tx) pk =
        some (0x41 :: (pk.toList ++ List.replicate 33 0)) := by
      unfold signatures refundEnv
      rw [Option.filter_some, List.length_cons, hlen]
      rfl
    rw [hsig, Option.any_some]
    show decide ((pk.toList ++ List.replicate 33 (0 : UInt8)).take 32 = pk.toList) = true
    rw [decide_eq_true_eq, List.take_left' (List.Vector.toList_length pk)]

private theorem refund_apart (root : Bytes32) (pool : Int) :
    PoolsApart refundEngine refundContract.template root pool pool := by
  intro a ha b hb x hx y hy _
  obtain rfl : a = b := Option.some.inj (ha.symm.trans hb)
  have hx' : x = refundContract.template.redeem a := by
    rcases List.mem_pair.mp hx with h | h <;> exact h
  have hy' : y = refundContract.template.redeem a := by
    rcases List.mem_pair.mp hy with h | h <;> exact h
  rw [hx', hy']

private theorem refund_ready {plan : RefundPlan}
    (hplan : computeRefundPlan refundEngine refundMarket refundCtx = .ok plan) :
    CancelReady refundEngine refundContract refundEnv refundCtx plan refundCoin := by
  obtain ⟨sel, tree, hof⟩ := computeRefundPlan_eq_ok hplan
  have hnodup : (refundMembers.map PoolMember.pk).Nodup := by decide
  obtain ⟨seed, hsel⟩ := hof.drawn
  have hlen : plan.committee.length = 5 := by
    rw [hof.committee, List.length_mergeSort, List.length_map]
    exact (selectCommittee_keys hnodup hsel).1
  refine ⟨⟨_, rfl, refund_named⟩, rfl, ⟨_, rfl, by decide⟩, rfl, rfl, by decide, hnodup, ?_,
    by decide, refund_signed hlen, rfl, rfl⟩
  intro tree' htree
  obtain rfl := Option.some.inj (refundTree_eq.symm.trans htree)
  rfl

/-- Both bettors get their stakes back, and the seed is left. -/
theorem refunds_paid_sample : ∃ plan sub walk,
    computeRefundPlan refundEngine refundMarket refundCtx = .ok plan ∧
    cancelMarketLive refundEngine refundContract sampleChain sampleAddresses refundEnv plan
      refundCoin = .claimed sub walk ∧
    walk.Complete 2 ∧ walk.coin.state.consolidated_pool = 20000000 := by
  obtain ⟨plan, hplan⟩ := refund_planned
  have hps : ∀ ps ∈ refundEnv.psState, ps.template = refundContract.template := by
    intro ps hps
    obtain rfl := Option.some.inj hps
    rfl
  obtain ⟨sub, walk, hclaimed, hends⟩ := Refunded.of_ends (refunds_paid sampleChain
    sampleAddresses refundEnv rfl sampleChain_feeCovers hplan rfl hps ⟨rfl, rfl, by decide⟩
    (Run.nil refundCoin.state) (refund_apart plan.refundRoot 20800000)) (refund_ready hplan)
  have hcomplete : walk.Complete 2 := by
    refine hends.complete_iff.mpr ⟨by decide, fun i b hb => ⟨@ready_sample i _, ?_⟩⟩
    rcases List.mem_pair.mp (List.mem_of_getElem? hb) with rfl | rfl
    · decide
    · decide
  exact ⟨plan, sub, walk, hplan, hclaimed, hcomplete, (hends.complete hcomplete).2⟩

end Sample

end KANet.Settle.Claims
