import KANet.Covenant.Consolidation
import KANet.Covenant.ShardLeafRun
import KANet.Lib.Refuse
import Mathlib.Data.List.Sort

/-!
# `consolidateAllShards`

Once a market is over, the settler takes its shards one by one into the market's
`PayoutShard`.  For each it has the relay build a transaction of three inputs, the
`PayoutShard`, the shard and a coin for the fee, whose first output continues the
`PayoutShard` with the shard's `pool_value` added to it.

The two scripts measure the shard differently: `consolidate_to_payout` by the
`pool_value` in its state, `absorb` by the value of the coin.  `shard_consolidates_iff`
says that the transaction the relay builds is accepted exactly when the two agree, and
`consolidateAllShards_iff` that the loop runs to its end exactly when they agree on
every shard, which for shards the allocator can leave behind means that every one of
them has a ticket.
-/

namespace KANet.Settle

open KANet.Lib KANet.Script KANet.Covenant

/-! ### The relay -/

def BSHARD_MINER_FEE : Nat := 10000
def BSHARD_FEE_PER_INPUT : Nat := 1000000
def MIN_OUTPUT_DUST_SOMPI : Nat := 1000
def MIN_SOMPI_PER_MASS : Nat := 100

def bshardFeeV1 (numInputs : Nat) : Nat := max (numInputs * BSHARD_FEE_PER_INPUT) BSHARD_MINER_FEE

/-- Why the relay or the settler gives up. -/
inductive SettleError
  | deadlineRequired
  | missingRedeemOrState (shard_index : Nat)
  | noCovenantId
  | insufficientInput
  | amountOutOfRange
  | overspend
  | zeroMinerFee
  | dust
  | feeBelowFloor
  | noLand (shard_index : Nat)
deriving DecidableEq

def sumIn (inputs : List TxInput) : Nat := (inputs.map TxInput.value).sum

def sumOut (outputs : List TxOutput) : Nat := (outputs.map TxOutput.value).sum

/-- `_appendChange`: what the fee leaves over goes to the change address, unless it is dust. -/
def appendChange (orderedOut : List TxOutput) (matched : List TxInput) (changeScript : Bytes)
    (fee : Nat) : Except SettleError (List TxOutput) :=
  if sumIn matched < sumOut orderedOut + fee then .error .insufficientInput
  else
    let change := sumIn matched - sumOut orderedOut - fee
    if 1000 ≤ change then
      .ok (orderedOut ++ [{ value := change, scriptPubKey := changeScript, covenantId := none }])
    else .ok orderedOut

def mkTx (inputs : List TxInput) (outputs : List TxOutput) (lockTime : Nat) :
    Except SettleError Tx :=
  if h : (∀ i ∈ inputs, i.value < 2 ^ 63) ∧ ∀ o ∈ outputs, o.value < 2 ^ 63 then
    .ok { inputs, outputs, lockTime, inputs_bounded := h.1, outputs_bounded := h.2 }
  else .error .amountOutOfRange

/-- `_assertTxInvariants`.  The mass of a transaction is the wallet library's to compute; where it
cannot, that check is skipped. -/
def assertTxInvariants (mass : Tx → Option Nat) (tx : Tx) : Except SettleError Unit :=
  if sumIn tx.inputs < sumOut tx.outputs then .error .overspend
  else if sumIn tx.inputs = sumOut tx.outputs then .error .zeroMinerFee
  else if ∃ o ∈ tx.outputs, o.value < MIN_OUTPUT_DUST_SOMPI then .error .dust
  else match mass tx with
    | some m =>
      if sumIn tx.inputs - sumOut tx.outputs < m * MIN_SOMPI_PER_MASS then .error .feeBelowFloor
      else .ok ()
    | none => .ok ()

/-- The `PayoutShard` as the settler carries it from shard to shard: its coin, and the pool its
redeem script says. -/
structure PsCoin where
  coin : TxInput
  consolidated_pool : Int

/-- The rest of its state is the mint's, and a consolidation does not touch it. -/
def psState (consolidated_pool : Int) : PayoutShard.State where
  consolidated_pool := consolidated_pool
  closed := 0
  payoutRoot := ZERO32
  w := Words.zero

/-- What stays the same over a settlement: the scripts' engine, the market's contract, the wallet
that pays the fees, the library that weighs transactions, and the time at the node. -/
structure Env where
  engine : Engine
  payoutShard : PayoutShard.Contract
  changeScript : Bytes
  mass : Tx → Option Nat
  now : Nat

/-- The coin `transfer` makes for each consolidation's fee. -/
def feeCoin (env : Env) : TxInput :=
  { value := 30000000, scriptPubKey := env.changeScript, covenantId := none }

/-- The first output: the `PayoutShard` with the shard's pool added. -/
def continuation (env : Env) (ps : PsCoin) (cov : Bytes32) (pool_value : Int) : TxOutput :=
  covenantOutput env.engine env.payoutShard.template
    (psState (ps.consolidated_pool + pool_value)).fields
    ((ps.coin.value : Int) + pool_value).toNat (some cov)

/-- `unlockBshardConsolidate`: inputs are the `PayoutShard`, the shard and the fee, in that
order. -/
def unlockBshardConsolidate (env : Env) (ps : PsCoin) (leafCoin : TxInput) (pool_value : Int)
    (lockTime : Nat) : Except SettleError Tx := do
  let matched := [ps.coin, leafCoin, feeCoin env]
  match ps.coin.covenantId with
  | none => .error .noCovenantId
  | some cov =>
    let outputs ← appendChange [continuation env ps cov pool_value] matched env.changeScript
      (bshardFeeV1 matched.length)
    let tx ← mkTx matched outputs lockTime
    assertTxInvariants env.mass tx
    .ok tx

/-! ### The settler -/

inductive ShardStatus
  | «open»
  | sealed
  | settling
  | manual_recovery_refunded
deriving DecidableEq

/-- A row of `market_shards`, with the coin its outpoint names. -/
structure ShardRow where
  shard_index : Nat
  status : ShardStatus
  shard_redeem : Option ShardLeaf.Contract
  current_leaf_state : Option ShardLeaf.State
  leafCoin : TxInput

/-- The node takes a transaction whose lock time has passed, which creates no money and which both
scripts accept with the indices the relay pushes. -/
def NodeAccepts (env : Env) (ps : PsCoin) (leaf : ShardLeaf.Contract) (st : ShardLeaf.State)
    (tx : Tx) : Prop :=
  tx.lockTime < env.now ∧ sumOut tx.outputs ≤ sumIn tx.inputs ∧
    (PayoutShard.absorb env.engine i64 env.payoutShard (psState ps.consolidated_pool) tx 0 1).isSome
      ∧ ShardLeaf.consolidate_to_payout i64 leaf st tx 0 0 = some ()

instance (env : Env) (ps : PsCoin) (leaf : ShardLeaf.Contract) (st : ShardLeaf.State) (tx : Tx) :
    Decidable (NodeAccepts env ps leaf st tx) :=
  inferInstanceAs (Decidable (_ ∧ _ ∧ _ ∧ _))

/-- The `PayoutShard` once a shard's pool is in it. -/
def PsCoin.take (env : Env) (ps : PsCoin) (pool_value : Int) : PsCoin where
  coin := {
    value := ((ps.coin.value : Int) + pool_value).toNat
    scriptPubKey :=
      (continuation env ps (ps.coin.covenantId.getD ZERO32) pool_value).scriptPubKey
    covenantId := ps.coin.covenantId }
  consolidated_pool := ps.consolidated_pool + pool_value

/-- One turn of the loop: the `PayoutShard` with this shard in it. -/
def consolidateShard (env : Env) (lockTime : Nat) (ps : PsCoin) (row : ShardRow) :
    Except SettleError PsCoin :=
  match row.shard_redeem, row.current_leaf_state with
  | some leaf, some st => do
    let tx ← unlockBshardConsolidate env ps row.leafCoin st.pool_value lockTime
    if NodeAccepts env ps leaf st tx then
      .ok (ps.take env st.pool_value)
    else .error (.noLand row.shard_index)
  | _, _ => .error (.missingRedeemOrState row.shard_index)

/-- The rows the settler goes through, in the order of their index. -/
def settledRows (rows : List ShardRow) : List ShardRow :=
  (rows.filter fun r => r.status ≠ .manual_recovery_refunded).mergeSort
    fun a b => a.shard_index ≤ b.shard_index

/-- `consolidateAllShards`, from the first shard on. -/
def consolidateAllShards (env : Env) (deadline : Nat) (ps : PsCoin) (rows : List ShardRow) :
    Except SettleError PsCoin :=
  if deadline = 0 then .error .deadlineRequired
  else (settledRows rows).foldlM (consolidateShard env (deadline * 1000)) ps

/-! ### One shard -/

/-- An open `PayoutShard` of the market: it carries its covenant, it is worth its pool, and it is
not dust. -/
structure OpenPs (cov : Bytes32) (ps : PsCoin) : Prop where
  covenant : ps.coin.covenantId = some cov
  value : (ps.coin.value : Int) = ps.consolidated_pool
  aboveDust : MIN_OUTPUT_DUST_SOMPI ≤ ps.coin.value

/-- What the settler finds when it comes to a market: its deadline has passed, the relay's fee
covers the weight of a consolidation, and its rows are shards the allocator left behind. -/
structure Market (env : Env) (deadline : Nat) (cov : Bytes32) (rows : List ShardRow) : Prop where
  deadline_pos : 0 < deadline
  passed : deadline * 1000 < env.now
  fits : deadline * 1000 < 2 ^ 63
  feeCovers : ∀ tx m, tx.inputs.length = 3 → tx.outputs.length = 2 → env.mass tx = some m →
    m * MIN_SOMPI_PER_MASS ≤ bshardFeeV1 3
  rows : ∀ row ∈ settledRows rows, ∃ leaf st, row.shard_redeem = some leaf ∧
    row.current_leaf_state = some st ∧ leaf.payout_cov_id = cov ∧ leaf.deadline = deadline ∧
    ShardLeaf.Reachable env.engine leaf { value := row.leafCoin.value, state := st }

theorem sumIn_three (a b c : TxInput) : sumIn [a, b, c] = a.value + b.value + c.value := by
  simp only [sumIn, List.map_cons, List.map_nil, List.sum_cons, List.sum_nil]
  omega

theorem sumOut_pair (a b : TxOutput) : sumOut [a, b] = a.value + b.value := by
  simp only [sumOut, List.map_cons, List.map_nil, List.sum_cons, List.sum_nil]
  omega

theorem feeCoin_value (env : Env) : (feeCoin env).value = 30000000 := rfl

/-- What the fee of a three-input transaction leaves of the fee coin. -/
def leftover (env : Env) : TxOutput :=
  { value := 27000000, scriptPubKey := env.changeScript, covenantId := none }

theorem leftover_value (env : Env) : (leftover env).value = 27000000 := rfl

theorem continuation_value (env : Env) (ps : PsCoin) (cov : Bytes32) {leafCoin : TxInput}
    {pool_value : Int} (hleaf : (leafCoin.value : Int) = pool_value) :
    (continuation env ps cov pool_value).value = ps.coin.value + leafCoin.value := by
  show ((ps.coin.value : Int) + pool_value).toNat = _
  omega

/-- Where a shard is worth its pool, the relay's transaction has two outputs: the continuation and
what is left of the fee coin. -/
theorem appendChange_welded (env : Env) (ps : PsCoin) (leafCoin : TxInput) {cov : Bytes32}
    {pool_value : Int} (hleaf : (leafCoin.value : Int) = pool_value) :
    appendChange [continuation env ps cov pool_value] [ps.coin, leafCoin, feeCoin env]
      env.changeScript (bshardFeeV1 3) =
    .ok [continuation env ps cov pool_value,
      leftover env] := by
  have hcont := continuation_value env ps cov hleaf
  have hin : sumIn [ps.coin, leafCoin, feeCoin env] =
      ps.coin.value + leafCoin.value + 30000000 := by
    rw [sumIn_three, feeCoin_value]
  have hout : sumOut [continuation env ps cov pool_value] = ps.coin.value + leafCoin.value := by
    simp only [sumOut, List.map_cons, List.map_nil, List.sum_cons, List.sum_nil, hcont]
    omega
  have hfee : bshardFeeV1 3 = 3000000 := by decide
  unfold appendChange
  rw [hin, hout, hfee, if_neg (by omega)]
  have hchange : ps.coin.value + leafCoin.value + 30000000 - (ps.coin.value + leafCoin.value)
      - 3000000 = 27000000 := by omega
  simp only [hchange]
  rw [if_pos (by norm_num)]
  rfl

/-- The first output of whatever the relay builds continues the `PayoutShard`. -/
theorem unlock_output {env : Env} {ps : PsCoin} {leafCoin : TxInput} {pool_value : Int}
    {lockTime : Nat} {tx : Tx} {cov : Bytes32} (hc : ps.coin.covenantId = some cov)
    (h : unlockBshardConsolidate env ps leafCoin pool_value lockTime = .ok tx) :
    tx.inputs = [ps.coin, leafCoin, feeCoin env] ∧
      tx.outputs.head? = some (continuation env ps cov pool_value) := by
  simp only [unlockBshardConsolidate, hc] at h
  have hhead : ∀ outs, appendChange [continuation env ps cov pool_value]
      [ps.coin, leafCoin, feeCoin env] env.changeScript
      (bshardFeeV1 [ps.coin, leafCoin, feeCoin env].length) = .ok outs →
      outs.head? = some (continuation env ps cov pool_value) := by
    intro outs ho
    unfold appendChange at ho
    split at ho
    · cases ho
    · dsimp only at ho
      split at ho
      · cases ho
        rfl
      · cases ho
        rfl
  cases ho : appendChange [continuation env ps cov pool_value]
      [ps.coin, leafCoin, feeCoin env] env.changeScript
      (bshardFeeV1 [ps.coin, leafCoin, feeCoin env].length) with
  | error err =>
    rw [ho] at h
    cases h
  | ok outs =>
    rw [ho] at h
    cases hm : mkTx [ps.coin, leafCoin, feeCoin env] outs lockTime with
    | error err =>
      simp only [bind, Except.bind, hm] at h
      cases h
    | ok tx' =>
      simp only [bind, Except.bind, hm] at h
      split at h
      · cases h
      · obtain rfl := Except.ok.inj h
        unfold mkTx at hm
        split at hm
        · obtain rfl := Except.ok.inj hm
          exact ⟨rfl, hhead outs ho⟩
        · cases hm

/-- `absorb` takes the relay's transaction only for a shard that is worth its pool. -/
theorem welded_of_accepted {env : Env} {ps : PsCoin} {leafCoin : TxInput}
    {leaf : ShardLeaf.Contract} {st : ShardLeaf.State} {lockTime : Nat} {tx : Tx} {cov : Bytes32}
    (hps : OpenPs cov ps)
    (h : unlockBshardConsolidate env ps leafCoin st.pool_value lockTime = .ok tx)
    (ha : NodeAccepts env ps leaf st tx) (hp : 0 ≤ st.pool_value) :
    (leafCoin.value : Int) = st.pool_value := by
  obtain ⟨hin, hhead⟩ := unlock_output hps.covenant h
  obtain ⟨s', hs⟩ := Option.isSome_iff_exists.mp ha.2.2.1
  obtain ⟨-, shard, hshard, rfl, -, out, ho, hv⟩ := (PayoutShard.absorb_eq_some i64_lawful).mp hs
  have hshard' : shard = leafCoin := by
    have : tx.input 1 = some leafCoin := by
      show atIndex tx.inputs 1 = _
      rw [hin]
      rfl
    rw [this] at hshard
    exact (Option.some.inj hshard).symm
  have hout : out = continuation env ps cov st.pool_value := by
    have : tx.output 0 = some (continuation env ps cov st.pool_value) := by
      show tx.outputs[0]? = _
      rw [← List.head?_eq_getElem?]
      exact hhead
    rw [this] at ho
    exact (Option.some.inj ho).symm
  have hval : (out.value : Int) = ps.coin.value + st.pool_value := by
    rw [hout]
    show (((ps.coin.value : Int) + st.pool_value).toNat : Int) = _
    omega
  have := hps.value
  dsimp only [psState] at hv
  rw [hshard'] at hv
  omega

theorem assertTxInvariants_ok {mass : Tx → Option Nat} {tx : Tx} (fee : Nat)
    (hfee : sumIn tx.inputs = sumOut tx.outputs + fee) (hpos : 0 < fee)
    (hdust : ∀ o ∈ tx.outputs, MIN_OUTPUT_DUST_SOMPI ≤ o.value)
    (hmass : ∀ m, mass tx = some m → m * MIN_SOMPI_PER_MASS ≤ fee) :
    assertTxInvariants mass tx = .ok () := by
  have hnodust : ¬ ∃ o ∈ tx.outputs, o.value < MIN_OUTPUT_DUST_SOMPI := by
    rintro ⟨o, ho, hlt⟩
    have := hdust o ho
    omega
  unfold assertTxInvariants
  rw [hfee, if_neg (by omega), if_neg (by omega), if_neg hnodust]
  cases hm : mass tx with
  | none => rfl
  | some m =>
    have := hmass m hm
    dsimp only
    rw [if_neg (by omega)]

theorem mkTx_ok {inputs : List TxInput} {outputs : List TxOutput} (lockTime : Nat)
    (hi : ∀ i ∈ inputs, i.value < 2 ^ 63) (ho : ∀ o ∈ outputs, o.value < 2 ^ 63) :
    ∃ tx, mkTx inputs outputs lockTime = .ok tx ∧ tx.inputs = inputs ∧ tx.outputs = outputs ∧
      tx.lockTime = lockTime :=
  ⟨_, dif_pos ⟨hi, ho⟩, rfl, rfl, rfl⟩

/-- The transaction the relay builds for a shard that is worth its pool. -/
theorem unlock_welded {env : Env} {ps : PsCoin} {leafCoin : TxInput} {pool_value : Int}
    {lockTime : Nat} {cov : Bytes32} (hps : OpenPs cov ps)
    (hleaf : (leafCoin.value : Int) = pool_value)
    (hsupply : ps.coin.value + leafCoin.value + 30000000 < 2 ^ 63)
    (hfee : ∀ tx m, tx.inputs.length = 3 → tx.outputs.length = 2 → env.mass tx = some m →
      m * MIN_SOMPI_PER_MASS ≤ bshardFeeV1 3) :
    ∃ tx, unlockBshardConsolidate env ps leafCoin pool_value lockTime = .ok tx ∧
      tx.inputs = [ps.coin, leafCoin, feeCoin env] ∧
      tx.outputs = [continuation env ps cov pool_value, leftover env] ∧
      tx.lockTime = lockTime := by
  have hcont := continuation_value env ps cov hleaf
  have hdust := hps.aboveDust
  have hmin : MIN_OUTPUT_DUST_SOMPI = 1000 := rfl
  have hfeeCoin := feeCoin_value env
  have hleft := leftover_value env
  have hi : ∀ i ∈ [ps.coin, leafCoin, feeCoin env], i.value < 2 ^ 63 := by
    intro i hi
    simp only [List.mem_cons, List.not_mem_nil, or_false] at hi
    rcases hi with rfl | rfl | rfl <;> omega
  have ho : ∀ o ∈ [continuation env ps cov pool_value, leftover env],
      MIN_OUTPUT_DUST_SOMPI ≤ o.value ∧ o.value < 2 ^ 63 := by
    intro o ho
    rcases List.mem_pair.mp ho with rfl | rfl <;> omega
  obtain ⟨tx, htx, hin, hout, hlock⟩ := mkTx_ok lockTime hi fun o h => (ho o h).2
  have hassert : assertTxInvariants env.mass tx = .ok () := by
    refine assertTxInvariants_ok (bshardFeeV1 3) ?_ (by decide) ?_ ?_
    · have hval : bshardFeeV1 3 = 3000000 := by decide
      rw [hin, hout, sumIn_three, sumOut_pair]
      omega
    · rw [hout]
      exact fun o h => (ho o h).1
    · exact fun m hm => hfee tx m (by rw [hin]; rfl) (by rw [hout]; rfl) hm
  refine ⟨tx, ?_, hin, hout, hlock⟩
  have hthree : [ps.coin, leafCoin, feeCoin env].length = 3 := rfl
  simp only [unlockBshardConsolidate, hps.covenant, hthree,
    appendChange_welded env ps leafCoin hleaf, ok_bind, htx, hassert]

theorem psState_fits {pool : Int} (h0 : 0 ≤ pool) (h1 : pool < 2 ^ 63) :
    ∀ f ∈ (psState pool).fields, f.Fits :=
  PayoutShard.fields_fit (fits_eight.mpr ⟨by show _ < pool; omega, h1⟩)
    (show Fits 8 0 by decide) wordsOk_zero

/-- Both scripts take the relay's transaction for a shard that is worth its pool. -/
theorem accepted_welded {env : Env} {ps : PsCoin} {leafCoin : TxInput}
    {leaf : ShardLeaf.Contract} {st : ShardLeaf.State} {deadline : Nat} {tx : Tx} {cov : Bytes32}
    (hps : OpenPs cov ps) (hcov : leaf.payout_cov_id = cov) (hdl : leaf.deadline = deadline)
    (hleaf : (leafCoin.value : Int) = st.pool_value)
    (hsupply : ps.coin.value + leafCoin.value + 30000000 < 2 ^ 63)
    (hfits : deadline * 1000 < 2 ^ 63) (hnow : deadline * 1000 < env.now)
    (hin : tx.inputs = [ps.coin, leafCoin, feeCoin env])
    (hout : tx.outputs = [continuation env ps cov st.pool_value,
      leftover env])
    (hlock : tx.lockTime = deadline * 1000) : NodeAccepts env ps leaf st tx := by
  have hcont := continuation_value env ps cov hleaf
  have hpool := hps.value
  have h0 : tx.input 0 = some ps.coin := by
    show atIndex tx.inputs 0 = _
    rw [hin]
    rfl
  have h1 : tx.input 1 = some leafCoin := by
    show atIndex tx.inputs 1 = _
    rw [hin]
    rfl
  have ho : tx.output 0 = some (continuation env ps cov st.pool_value) := by
    show atIndex tx.outputs 0 = _
    rw [hout]
    rfl
  refine ⟨by rw [hlock]; exact hnow, ?_, ?_, ?_⟩
  · rw [hin, hout, sumIn_three, sumOut_pair, hcont, feeCoin_value, leftover_value]
    exact Nat.add_le_add_left (by norm_num) _
  · rw [Option.isSome_iff_exists]
    refine ⟨psState (ps.consolidated_pool + leafCoin.value), ?_⟩
    rw [PayoutShard.absorb_eq_some i64_lawful]
    refine ⟨rfl, leafCoin, h1, rfl, ?_, continuation env ps cov st.pool_value, ho, ?_⟩
    · rw [hleaf]
      exact Tx.continues_covenantOutput (psState_fits (by omega) (by omega)) ho
    · rw [hcont]
      show ((ps.coin.value + leafCoin.value : Nat) : Int) = ps.consolidated_pool + leafCoin.value
      omega
  · rw [ShardLeaf.consolidate_eq_some]
    refine ⟨Or.inr ⟨?_, ?_⟩, ?_, ps.coin, continuation env ps cov st.pool_value, h0, ho, ?_, ?_, ?_⟩
    · rw [hdl, fits_eight]
      omega
    · rw [hdl, hlock]
      push_cast
      omega
    · rw [OpCovOutputCount, hout, hcov]
      have hpos : 0 < List.countP (fun o : TxOutput => decide (o.covenantId = some cov))
          [continuation env ps cov st.pool_value,
            leftover env] :=
        List.countP_pos_iff.mpr ⟨_, List.mem_cons_self, decide_eq_true rfl⟩
      omega
    · rw [hps.covenant, hcov]
      rfl
    · rw [hcov]
      rfl
    · rw [hcont]
      omega

/-! ### All the shards -/

/-- The relay's transaction for this shard is built, creates no money, and both scripts accept it,
whatever the `PayoutShard` has taken in before. -/
def ShardConsolidates (env : Env) (deadline : Nat) (cov : Bytes32) (row : ShardRow) : Prop :=
  ∀ ps, OpenPs cov ps → ps.coin.value + row.leafCoin.value + 30000000 < 2 ^ 63 →
    ∃ leaf st tx, row.shard_redeem = some leaf ∧ row.current_leaf_state = some st ∧
      unlockBshardConsolidate env ps row.leafCoin st.pool_value (deadline * 1000) = .ok tx ∧
      NodeAccepts env ps leaf st tx

/-- A row whose shard is worth its pool. -/
def Welded (row : ShardRow) : Prop :=
  ∀ st, row.current_leaf_state = some st → (row.leafCoin.value : Int) = st.pool_value

theorem Market.consolidates {env : Env} {deadline : Nat} {cov : Bytes32} {rows : List ShardRow}
    (hm : Market env deadline cov rows) {row : ShardRow} (hrow : row ∈ settledRows rows)
    (hw : Welded row) : ShardConsolidates env deadline cov row := by
  intro ps hps hsupply
  obtain ⟨leaf, st, hleaf, hst, hcov, hdl, -⟩ := hm.rows row hrow
  have hval := hw st hst
  obtain ⟨tx, htx, hin, hout, hlock⟩ := unlock_welded hps hval hsupply hm.feeCovers
  exact ⟨leaf, st, tx, hleaf, hst, htx,
    accepted_welded hps hcov hdl hval hsupply hm.fits hm.passed hin hout hlock⟩

/-- A turn of the loop over a shard that is worth its pool. -/
theorem Market.turn {env : Env} {deadline : Nat} {cov : Bytes32} {rows : List ShardRow}
    (hm : Market env deadline cov rows) {row : ShardRow} (hrow : row ∈ settledRows rows)
    (hw : Welded row) {ps : PsCoin} (hps : OpenPs cov ps)
    (hsupply : ps.coin.value + row.leafCoin.value + 30000000 < 2 ^ 63) :
    ∃ ps', consolidateShard env (deadline * 1000) ps row = .ok ps' ∧ OpenPs cov ps' ∧
      ps'.coin.value = ps.coin.value + row.leafCoin.value := by
  obtain ⟨leaf, st, tx, hleaf, hst, htx, ha⟩ := hm.consolidates hrow hw ps hps hsupply
  have hval := hw st hst
  have hv := hps.value
  have hdust := hps.aboveDust
  have hcoin : (ps.take env st.pool_value).coin.value = ps.coin.value + row.leafCoin.value := by
    show ((ps.coin.value : Int) + st.pool_value).toNat = _
    omega
  refine ⟨ps.take env st.pool_value, ?_, ⟨hps.covenant, ?_, by omega⟩, hcoin⟩
  · simp only [consolidateShard, hleaf, hst, htx, bind, Except.bind, if_pos ha]
  · rw [hcoin]
    show ((ps.coin.value + row.leafCoin.value : Nat) : Int) = ps.consolidated_pool + st.pool_value
    omega

/-- A turn of the loop that succeeds was over a shard worth its pool. -/
theorem Market.welded_of_turn {env : Env} {deadline : Nat} {cov : Bytes32} {rows : List ShardRow}
    (hm : Market env deadline cov rows) {row : ShardRow} (hrow : row ∈ settledRows rows)
    {ps ps' : PsCoin} (hps : OpenPs cov ps)
    (h : consolidateShard env (deadline * 1000) ps row = .ok ps') : Welded row := by
  obtain ⟨leaf, st, hleaf, hst, -, -, hreach⟩ := hm.rows row hrow
  intro st' hst'
  rw [hst] at hst'
  obtain rfl := Option.some.inj hst'
  simp only [consolidateShard, hleaf, hst] at h
  cases htx : unlockBshardConsolidate env ps row.leafCoin st.pool_value (deadline * 1000) with
  | error err =>
    rw [htx] at h
    cases h
  | ok tx =>
    simp only [htx, bind, Except.bind] at h
    split at h
    · rename_i ha
      have hp : 0 ≤ st.pool_value := by
        by_cases h1 : 1 ≤ st.count
        · have : ((row.leafCoin.value : Nat) : Int) = st.pool_value := hreach.inv.welded h1
          omega
        · have h0 : st.count = 0 := by
            have : 0 ≤ st.count := hreach.inv.count_nonneg
            omega
          have := congrArg (fun u : ShardLeaf.Coin => u.state.pool_value) (hreach.inv.empty h0)
          exact this.ge
      exact welded_of_accepted hps htx ha hp
    · cases h

/-- What the coins of some rows are worth together. -/
def leafSum (rows : List ShardRow) : Nat := (rows.map fun row => row.leafCoin.value).sum

theorem Market.loop {env : Env} {deadline : Nat} {cov : Bytes32} {rows : List ShardRow}
    (hm : Market env deadline cov rows) {l : List ShardRow} (hl : ∀ row ∈ l, row ∈ settledRows rows)
    {ps : PsCoin} (hps : OpenPs cov ps)
    (hsupply : ps.coin.value + leafSum l + 30000000 < 2 ^ 63) :
    (∃ ps', l.foldlM (consolidateShard env (deadline * 1000)) ps = .ok ps') ↔
      ∀ row ∈ l, Welded row := by
  induction l generalizing ps with
  | nil => exact ⟨fun _ row h => absurd h List.not_mem_nil, fun _ => ⟨ps, rfl⟩⟩
  | cons row l ih =>
    have hrow := hl row List.mem_cons_self
    have hl' : ∀ row ∈ l, row ∈ settledRows rows := fun r h => hl r (List.mem_cons_of_mem _ h)
    have hsum : leafSum (row :: l) = row.leafCoin.value + leafSum l := rfl
    rw [List.foldlM_cons, List.forall_mem_cons]
    constructor
    · rintro ⟨ps', h⟩
      cases hturn : consolidateShard env (deadline * 1000) ps row with
      | error err =>
        rw [hturn] at h
        cases h
      | ok ps₁ =>
        have hw := hm.welded_of_turn hrow hps hturn
        obtain ⟨ps₂, hturn', hps₂, hv⟩ := hm.turn hrow hw hps (by omega)
        rw [hturn', ok_bind] at h
        exact ⟨hw, (ih hl' hps₂ (by omega)).mp ⟨ps', h⟩⟩
    · rintro ⟨hw, hall⟩
      obtain ⟨ps₂, hturn, hps₂, hv⟩ := hm.turn hrow hw hps (by omega)
      rw [hturn, ok_bind]
      exact (ih hl' hps₂ (by omega)).mpr hall

/-- Every shard can be consolidated, and the settler gets through all of them. -/
def EveryShardConsolidates (env : Env) (deadline : Nat) (cov : Bytes32) (ps : PsCoin)
    (rows : List ShardRow) : Prop :=
  (∀ row ∈ settledRows rows, ShardConsolidates env deadline cov row) ∧
    ∃ ps', consolidateAllShards env deadline ps rows = .ok ps'

/-- Every shard the settler goes through has a ticket. -/
def EveryShardHasTicket (rows : List ShardRow) : Prop :=
  ∀ row ∈ settledRows rows, ∀ st, row.current_leaf_state = some st → 1 ≤ st.count

theorem Market.welded_iff {env : Env} {deadline : Nat} {cov : Bytes32} {rows : List ShardRow}
    (hm : Market env deadline cov rows) :
    (∀ row ∈ settledRows rows, Welded row) ↔ EveryShardHasTicket rows := by
  constructor
  · intro hall row hrow st hst
    obtain ⟨leaf, st', -, hst', -, -, hreach⟩ := hm.rows row hrow
    rw [hst] at hst'
    obtain rfl := Option.some.inj hst'
    exact hreach.value_eq_pool_iff.mp (hall row hrow st hst)
  · intro hall row hrow st hst
    obtain ⟨leaf, st', -, hst', -, -, hreach⟩ := hm.rows row hrow
    rw [hst] at hst'
    obtain rfl := Option.some.inj hst'
    exact hreach.value_eq_pool_iff.mpr (hall row hrow st hst)

/-- **When a market can be consolidated.**  The settler gets through a market whose deadline has
passed exactly when every shard in it has a ticket. -/
theorem everyShardConsolidates_iff {env : Env} {deadline : Nat} {cov : Bytes32}
    {rows : List ShardRow} {ps : PsCoin} (hm : Market env deadline cov rows)
    (hps : OpenPs cov ps)
    (hsupply : ps.coin.value + leafSum (settledRows rows) + 30000000 < 2 ^ 63) :
    EveryShardConsolidates env deadline cov ps rows ↔ EveryShardHasTicket rows := by
  have hpos := hm.deadline_pos
  have hloop := hm.loop (fun _ h => h) hps hsupply
  rw [← hm.welded_iff, ← hloop, EveryShardConsolidates, consolidateAllShards, if_neg (by omega)]
  constructor
  · exact fun h => h.2
  · exact fun h => ⟨fun row hrow => hm.consolidates hrow (hloop.mp h row hrow), h⟩

/-! ### A shard without a bet

The allocator has opened a second shard, and its first registration failed. -/

def sampleEnv : Env where
  engine := sampleEngine
  payoutShard := PayoutShard.sampleContract
  changeScript := ScriptPubKeyP2PK (samplePk 3)
  mass := fun _ => none
  now := 1783600000000

def samplePs : PsCoin where
  coin := { value := 20000000, scriptPubKey := [], covenantId := some sampleCov }
  consolidated_pool := 20000000

def sampleEmptyRow : ShardRow where
  shard_index := 0
  status := .«open»
  shard_redeem := some sampleShard
  current_leaf_state := some ShardLeaf.genesis.state
  leafCoin :=
    { value := ShardLeaf.SHARD_GENESIS_SEED, scriptPubKey := [], covenantId := none }

theorem sample_settledRows : settledRows [sampleEmptyRow] = [sampleEmptyRow] := by
  have hf : [sampleEmptyRow].filter (fun r => r.status ≠ .manual_recovery_refunded) =
      [sampleEmptyRow] := by rfl
  rw [settledRows, hf, List.mergeSort_singleton]

theorem sample_market : Market sampleEnv 1783500000 sampleCov [sampleEmptyRow] where
  deadline_pos := by decide
  passed := by decide
  fits := by decide
  feeCovers := by
    intro tx m _ _ hm
    cases hm
  rows := by
    intro row hrow
    rw [sample_settledRows] at hrow
    obtain rfl := List.mem_singleton.mp hrow
    exact ⟨sampleShard, _, rfl, rfl, rfl, rfl, [], .nil _⟩

theorem everyShardConsolidates_iff_sample :
    EveryShardConsolidates sampleEnv 1783500000 sampleCov samplePs [sampleEmptyRow] ↔
      EveryShardHasTicket [sampleEmptyRow] :=
  everyShardConsolidates_iff sample_market ⟨rfl, rfl, by decide⟩
    (by rw [sample_settledRows]; decide)

/-- A market whose one shard was opened and never bet on: the settler stops at it. -/
theorem empty_shard_not_consolidated :
    Market sampleEnv 1783500000 sampleCov [sampleEmptyRow] ∧ OpenPs sampleCov samplePs ∧
    ¬ EveryShardConsolidates sampleEnv 1783500000 sampleCov samplePs [sampleEmptyRow] := by
  have hps : OpenPs sampleCov samplePs := ⟨rfl, rfl, by decide⟩
  refine ⟨sample_market, hps, ?_⟩
  rintro ⟨-, ps', h⟩
  rw [consolidateAllShards, if_neg (by decide), sample_settledRows] at h
  have hw := (sample_market.loop (l := [sampleEmptyRow])
    (fun row hrow => by rw [sample_settledRows]; exact hrow) hps (by decide)).mp ⟨ps', h⟩
  exact absurd (hw sampleEmptyRow List.mem_cons_self _ rfl) (by decide)

end KANet.Settle
