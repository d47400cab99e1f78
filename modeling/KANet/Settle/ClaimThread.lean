import KANet.Covenant.PayoutRun
import KANet.Payout.Payability
import KANet.Register.LeafBuilder
import KANet.Settle.Consolidate
import KANet.Settle.Encodings

/-!
# A claim of a closed shard

Once a shard is closed the settler pays its leaves one after the other.  It keeps a thread, that is
the coin of the shard with the state and the script it takes it to have; for a claim the relay
spends that coin, and the thread moves on to the continuation.

* `claimData` — what is claimed, with its proof.
* `Thread.next`, `splicePayoutContinuation` — the settler's own continuation.
* `unlockBshardClaim`, `submit` — the relay's transaction, judged by the covenant.
* `AtTip.submit_eq_some` — when a claim goes through.
* `AtTip.next`, `AtTip.advance` — the thread then follows the shard.
-/

namespace KANet.Settle.Claims

open KANet.Lib KANet.Script KANet.Payout KANet.Covenant KANet.Register
open PayoutShard (State Contract)

/-! ### The data of a claim -/

/-- `bshard_payout_claim` and `bshard_refund_claim`, which differ in the latch they need. -/
inductive ClaimKind
  | payout
  | refund
deriving DecidableEq

def ClaimKind.latch : ClaimKind → Int
  | .payout => 1
  | .refund => 2

def ClaimKind.call (wit : PayWitness) : ClaimKind → PayoutShard.Call
  | .payout => .claim wit
  | .refund => .refund_claim wit

structure ClaimData where
  pk : Bytes
  amount : Int
  merkle_index : Nat
  siblings : List Bytes32
  climbOk : Bool

/-- The proof of leaf `idx`, climbed once by the settler itself. -/
def claimDatum (e : Engine) (ws : List Leaf) (root : Bytes32) (w : Leaf) (idx : Nat) :
    Option ClaimData := do
  let leaf ← payoutLeaf e w.pk w.amount
  let sibs ← merkleProof e ws idx
  some
    { pk := w.pk
      amount := w.amount
      merkle_index := idx
      siblings := sibs
      climbOk := climbProof e leaf idx sibs = root }

/-- The source of `winnerClaimData` and `refundClaimData`. -/
def claimData (e : Engine) (ws : List Leaf) : Option (List ClaimData) := do
  let root ← payoutRoot e ws
  ws.zipIdx.mapM fun p => claimDatum e ws root p.1 p.2

def winnerClaimData (e : Engine) (winners : List Leaf) : Option (List ClaimData) :=
  claimData e winners

def refundClaimData (e : Engine) (refunds : List Leaf) : Option (List ClaimData) :=
  claimData e refunds

/-! ### The thread -/

/-- The coin the settler is at, and what it takes its state and its script to be. -/
structure Thread where
  psOutTxid : String
  psOutIdx : Nat
  curPool : Int
  curState : State
  curRedeem : Bytes

/-- `_serializePayoutStateHex` of the settler, which writes two's complements. -/
def serializeThreadState (s : State) : Option Bytes :=
  concat (pushI64 s.consolidated_pool :: pushI64 s.closed :: pushRoot s.payoutRoot ::
    (List.ofFn s.w).map pushI64)

def splicePayoutContinuation (inputRedeem : Bytes) (newState : State) : Option Bytes :=
  (serializeThreadState newState).map fun sb =>
    inputRedeem.take 1 ++ sb ++ inputRedeem.drop (1 + sb.length)

/-- A word past the last one is no number. -/
def setBit (w : Words) (merkle_index : Nat) : Option Words := do
  require (merkle_index / 63 < 17)
  some (mark w merkle_index)

/-- The state and the script after a claim. -/
def Thread.next (kind : ClaimKind) (root : Bytes32) (th : Thread) (cd : ClaimData) :
    Option (State × Bytes) := do
  let w ← setBit th.curState.w cd.merkle_index
  let newState : State :=
    { consolidated_pool := th.curPool - cd.amount, closed := kind.latch, payoutRoot := root, w }
  let contRedeem ← splicePayoutContinuation th.curRedeem newState
  some (newState, contRedeem)

def Thread.advance (th : Thread) (cd : ClaimData) (txId : String) (next : State × Bytes) :
    Thread where
  psOutTxid := txId
  psOutIdx := 1
  curPool := th.curPool - cd.amount
  curState := next.1
  curRedeem := next.2

/-! ### The relay -/

/-- The coin of the shard on the ledger, with the state that its script was made of. -/
structure ShardCoin where
  txid : String
  index : Nat
  value : Nat
  scriptPubKey : Bytes
  covenantId : Option Bytes32
  state : State

structure ClaimCommand where
  kind : ClaimKind
  bettor_pk : Bytes
  payout : Int
  merkle_index : Nat
  siblings : List Bytes32
  redeem_hex : Bytes
  outpointTxid : String
  index : Nat
  state : State
  payoutAddress : String
  changeAddress : String

/-- A fee input, as the relay finds it. -/
structure FeeUtxo where
  value : Nat
  scriptPubKey : Bytes
  bounded : value < 2 ^ 63

/-- What the relay takes from its libraries. -/
structure Chain where
  payToAddressScript : String → Bytes
  txId : Tx → String
  mass : Tx → Option Nat

/-- The state that the relay continues the shard in; it leaves a bit out that no word has. -/
def relayState (cmd : ClaimCommand) : State where
  consolidated_pool := cmd.state.consolidated_pool - cmd.payout
  closed := cmd.state.closed
  payoutRoot := cmd.state.payoutRoot
  w := (setBit cmd.state.w cmd.merkle_index).getD cmd.state.w

/-- The coin of the shard, and the one that pays the fee. -/
def claimInputs (coin : ShardCoin) (fee : FeeUtxo) : List TxInput :=
  [{ value := coin.value, scriptPubKey := coin.scriptPubKey, covenantId := coin.covenantId },
    { value := fee.value, scriptPubKey := fee.scriptPubKey, covenantId := none }]

/-- The payment, and the shard without it. -/
def claimOutputs (chain : Chain) (coin : ShardCoin) (cmd : ClaimCommand) (psContAddr : Bytes) :
    List TxOutput :=
  [{ value := cmd.payout.toNat, scriptPubKey := chain.payToAddressScript cmd.payoutAddress,
     covenantId := none },
    { value := ((coin.value : Int) - cmd.payout).toNat, scriptPubKey := psContAddr,
      covenantId := coin.covenantId }]

/-- `unlockBshardPayoutClaim` and `unlockBshardRefundClaim`: the transaction, and the lock of the
continuation. -/
def unlockBshardClaim (e : Engine) (chain : Chain) (coin : ShardCoin) (fee : FeeUtxo)
    (cmd : ClaimCommand) : Option (Tx × Bytes) := do
  require (coin.txid = cmd.outpointTxid ∧ coin.index = cmd.index ∧
    coin.scriptPubKey = ScriptPubKeyP2SH (e.blake2b cmd.redeem_hex))
  require (coin.covenantId ≠ none)
  let psContAddr ← continuationScript e cmd.redeem_hex (relayState cmd).fields
  require (0 ≤ cmd.payout ∧ cmd.payout ≤ coin.value)
  let matched := claimInputs coin fee
  let outputs ← (appendChange (claimOutputs chain coin cmd psContAddr) matched
    (chain.payToAddressScript cmd.changeAddress) (bshardFeeV1 matched.length)).toOption
  let tx ← (mkTx matched outputs 0).toOption
  (assertTxInvariants chain.mass tx).toOption
  some (tx, psContAddr)

def bytes32? (b : Bytes) : Option Bytes32 := if h : b.length = 32 then some ⟨b, h⟩ else none

def path? (sibs : List Bytes32) : Option (List.Vector Bytes32 10) :=
  if h : sibs.length = 10 then some ⟨sibs, h⟩ else none

/-- What the relay pushes for the covenant. -/
def ClaimCommand.witness (cmd : ClaimCommand) : Option PayWitness := do
  let bettorPk ← bytes32? cmd.bettor_pk
  let s ← path? cmd.siblings
  some
    { selfOutIdx := 1
      payoutOutIdx := 0
      bettorPk
      payout := cmd.payout
      merkle_index := cmd.merkle_index
      s }

/-! ### An attempt -/

/-- What an attempt meets: the fee coin, whether the transaction is let into the ledger, and whether
the payment is seen there (`verifyClaimLanded`). -/
structure Attempt where
  feeUtxo : Option FeeUtxo
  accepts : Bool
  landed : Bool

/-- The addresses of the settler; it reads them back if it can. -/
structure Addresses where
  p2pkAddr : Bytes → String
  p2pkSpk : Option (String → Bytes)
  changeAddress : String

def claimCommand (addrs : Addresses) (kind : ClaimKind) (th : Thread) (cd : ClaimData) :
    ClaimCommand where
  kind := kind
  bettor_pk := cd.pk
  payout := cd.amount
  merkle_index := cd.merkle_index
  siblings := cd.siblings
  redeem_hex := th.curRedeem
  outpointTxid := th.psOutTxid
  index := th.psOutIdx
  state := th.curState
  payoutAddress := addrs.p2pkAddr cd.pk
  changeAddress := addrs.changeAddress

/-- A claim that went through: the spend of the shard, its lock, and the coin it leaves. -/
structure Submitted where
  spend : PayoutShard.Action
  psContAddress : Bytes
  coin : ShardCoin

/-- The relay's transaction, judged by the covenant. -/
def submit (e : Engine) (c : Contract) (chain : Chain) (coin : ShardCoin) (fee : FeeUtxo)
    (accepts : Bool) (cmd : ClaimCommand) : Option Submitted := do
  let built ← unlockBshardClaim e chain coin fee cmd
  let wit ← cmd.witness
  let state ← PayoutShard.spend e i64 c coin.state built.1 (cmd.kind.call wit)
  require (accepts = true)
  some
    { spend := (cmd.kind.call wit, built.1)
      psContAddress := built.2
      coin :=
        { txid := chain.txId built.1
          index := 1
          value := coin.value - cmd.payout.toNat
          scriptPubKey := built.2
          covenantId := coin.covenantId
          state } }

/-! ### What is claimed -/

/-- The datum of leaf `k`. -/
def datumOf (e : Engine) (ws : List Leaf) (w : Leaf) (k : Nat) : ClaimData where
  pk := w.pk
  amount := w.amount
  merkle_index := k
  siblings := Merkle.path (hashNode e) ZERO32 DEPTH
    (Merkle.pad ZERO32 DEPTH (ws.map (Leaf.hash e))) k
  climbOk := true

theorem claimDatum_eq {e : Engine} {ws : List Leaf} (hb : Buildable ws) {w : Leaf} {k : Nat}
    (hw : ws[k]? = some w) : claimDatum e ws (rootOf e ws) w k = some (datumOf e ws w k) := by
  obtain ⟨leaf, sibs, hleaf, hsibs, hclimb⟩ :=
    climbProof_merkleProof (payoutRoot_of_buildable hb) hw
  obtain ⟨-, hpath⟩ := merkleProof_eq_some.mp hsibs
  unfold claimDatum
  rw [hleaf, hsibs]
  simp only [Option.bind_eq_bind, Option.bind_some, hclimb, decide_true, datumOf, hpath]

/-- The data of the leaves from `k` on. -/
def dataFrom (e : Engine) (ws : List Leaf) (k : Nat) (rest : List Leaf) : List ClaimData :=
  (rest.zipIdx k).map fun p => datumOf e ws p.1 p.2

theorem claimData_eq {e : Engine} {ws : List Leaf} (hb : Buildable ws) :
    claimData e ws = some (dataFrom e ws 0 ws) := by
  have hall : ∀ (rest : List Leaf) (k : Nat), ws.drop k = rest →
      (rest.zipIdx k).mapM (fun p => claimDatum e ws (rootOf e ws) p.1 p.2) =
        some (dataFrom e ws k rest) := by
    intro rest
    induction rest with
    | nil =>
      intro k _
      rfl
    | cons w rest ih =>
      intro k hk
      have hw : ws[k]? = some w := by
        rw [← List.head?_drop, hk, List.head?_cons]
      have hrest : ws.drop (k + 1) = rest := by
        rw [← List.tail_drop, hk, List.tail_cons]
      rw [List.zipIdx_cons, List.mapM_cons, claimDatum_eq hb hw, ih (k + 1) hrest]
      rfl
  unfold claimData
  rw [payoutRoot_of_buildable hb]
  exact hall ws 0 rfl

/-! ### The continuation -/

/-- The shard once leaf `k` is paid. -/
def paidState (s : State) (amount : Int) (k : Nat) : State :=
  { s with consolidated_pool := s.consolidated_pool - amount, w := mark s.w k }

theorem setBit_eq {w : Words} {k : Nat} (hk : k < 1024) : setBit w k = some (mark w k) := by
  unfold setBit
  rw [require_bind_eq_some]
  exact ⟨by omega, rfl⟩

/-- From zero on the settler writes a state as the covenant does. -/
theorem serializeThreadState_eq {s : State} (hp : 0 ≤ s.consolidated_pool)
    (hp' : s.consolidated_pool < 2 ^ 63) (hc : s.closed = 1 ∨ s.closed = 2) (hw : WordsOk s.w) :
    serializeThreadState s = serializeState s.fields := by
  have hwords : (List.ofFn s.w).map pushI64 =
      (List.ofFn s.w).map (Field.serialize ∘ Field.int) := by
    refine List.map_congr_left fun n hn => ?_
    obtain ⟨i, rfl⟩ := List.mem_ofFn.mp hn
    obtain ⟨h0, h1⟩ := hw i
    exact pushI64_eq_serialize h0 (fits_eight.mpr ⟨by omega, h1⟩)
  have hclosed : pushI64 s.closed = (Field.int s.closed).serialize := by
    refine pushI64_eq_serialize (by omega) (fits_eight.mpr ?_)
    constructor <;> rcases hc with h | h <;> rw [h] <;> norm_num
  rw [← concat_serialize, serializeThreadState, State.fields, hwords, hclosed, pushRoot_eq,
    pushI64_eq_serialize hp (fits_eight.mpr ⟨by omega, hp'⟩)]
  simp only [List.map_cons, List.map_map]

theorem length_fields {s : State} {bytes : Bytes} (h : serializeState s.fields = some bytes) :
    bytes.length = 204 := by
  have hall := width_words (List.ofFn s.w) (k := 17) (by rw [List.length_ofFn])
  rw [List.take_of_length_le (by rw [List.length_map, List.length_ofFn])] at hall
  rw [length_serializeState h, State.fields, List.map_cons, List.map_cons, List.map_cons,
    List.sum_cons, List.sum_cons, List.sum_cons, hall]
  rfl

/-- What the relay continues a shard as. -/
theorem continuationScript_redeem {e : Engine} {t : Template} (ht : t.templatePrefix.length = 1)
    {s s' : State} {bytes bytes' : Bytes} (h : serializeState s.fields = some bytes)
    (h' : serializeState s'.fields = some bytes') :
    continuationScript e (t.redeem bytes) s'.fields =
      some (ScriptPubKeyP2SH (e.blake2b (t.redeem bytes'))) := by
  rw [continuationScript, h', Option.map_some,
    splice_redeem ht ((length_fields h).trans (length_fields h').symm)]

theorem fits_of_bounds {n : Int} (h0 : 0 ≤ n) (h1 : n < 2 ^ 63) : Fits 8 n :=
  fits_eight.mpr ⟨by omega, h1⟩

/-! ### The thread and the shard -/

/-- **The settler knows the shard**: it is at its coin, with its state and its script. -/
structure AtTip (e : Engine) (c : Contract) (kind : ClaimKind) (root : Bytes32) (th : Thread)
    (coin : ShardCoin) : Prop where
  txid : coin.txid = th.psOutTxid
  index : coin.index = th.psOutIdx
  pool : th.curPool = coin.state.consolidated_pool
  state : th.curState = coin.state
  redeem : ∃ bytes, serializeState coin.state.fields = some bytes ∧
    th.curRedeem = c.template.redeem bytes
  script : coin.scriptPubKey = ScriptPubKeyP2SH (e.blake2b th.curRedeem)
  value : (coin.value : Int) = coin.state.consolidated_pool
  bounded : coin.value < 2 ^ 63
  covenant : coin.covenantId ≠ none
  closed : coin.state.closed = kind.latch
  payoutRoot : coin.state.payoutRoot = root
  words : WordsOk coin.state.w

theorem ClaimKind.latch_eq (kind : ClaimKind) : kind.latch = 1 ∨ kind.latch = 2 := by
  cases kind with
  | payout => exact Or.inl rfl
  | refund => exact Or.inr rfl

section

variable {e : Engine} {c : Contract} {chain : Chain} {addrs : Addresses} {kind : ClaimKind}
  {root : Bytes32} {th : Thread} {coin : ShardCoin} {fee : FeeUtxo} {accepts : Bool}
  {ws : List Leaf} {w : Leaf} {k : Nat}

/-- The next state can be written down. -/
theorem AtTip.serialize_paid (h : AtTip e c kind root th coin) (hw : w.Payable)
    (hm : ¬ Marked coin.state.w k) :
    ∃ bytes, serializeState (paidState coin.state w.amount k).fields = some bytes := by
  refine serializeState_of_fits (PayoutShard.fields_fit ?_ ?_ (h.words.mark hm))
  · have hb := h.bounded
    have hv := h.value
    have hpos := hw.pos
    have hfit := (fits_eight.mp hw.fits).2
    refine fits_eight.mpr ?_
    simp only [paidState]
    omega
  · have hc := h.closed
    refine fits_eight.mpr ?_
    rcases kind.latch_eq with hl | hl
    · rw [paidState, hc, hl]
      norm_num
    · rw [paidState, hc, hl]
      norm_num

/-- The settler's next state and script are those of the shard. -/
theorem AtTip.next (ht : c.template.templatePrefix.length = 1) (h : AtTip e c kind root th coin)
    (hk : k < 1024) (hm : ¬ Marked coin.state.w k) (hle : w.amount ≤ coin.state.consolidated_pool)
    (hpos : 0 < w.amount) {bytes : Bytes}
    (hs : serializeState (paidState coin.state w.amount k).fields = some bytes) :
    th.next kind root (datumOf e ws w k) =
      some (paidState coin.state w.amount k, c.template.redeem bytes) := by
  obtain ⟨old, hold, hredeem⟩ := h.redeem
  have hstate : ({ consolidated_pool := th.curPool - w.amount
                   closed := kind.latch
                   payoutRoot := root
                   w := mark coin.state.w k } : State) = paidState coin.state w.amount k := by
    rw [paidState, h.pool, ← h.closed, ← h.payoutRoot]
  have hpaid : serializeThreadState (paidState coin.state w.amount k) = some bytes := by
    have hv := h.value
    have hb := h.bounded
    rw [serializeThreadState_eq _ _ _ (h.words.mark hm), hs]
    · simp only [paidState]
      omega
    · simp only [paidState]
      omega
    · rw [paidState, h.closed]
      exact kind.latch_eq
  unfold Thread.next splicePayoutContinuation
  simp only [datumOf, h.state, setBit_eq hk, Option.bind_eq_bind, Option.bind_some, hstate, hpaid,
    Option.map_some, hredeem,
    splice_redeem ht ((length_fields hold).trans (length_fields hs).symm)]

theorem relayState_eq (h : AtTip e c kind root th coin) (hk : k < 1024) :
    relayState (claimCommand addrs kind th (datumOf e ws w k)) =
      paidState coin.state w.amount k := by
  simp only [relayState, claimCommand, datumOf, h.state, setBit_eq hk, Option.getD_some, paidState]

/-! ### What goes through -/

/-- What the relay and the ledger ask of a claim of `w` from a shard worth `value`. -/
structure Goes (chain : Chain) (addrs : Addresses) (w : Leaf) (value : Int) (fee : FeeUtxo)
    (accepts : Bool) : Prop where
  accepted : accepts = true
  paid : 1000 ≤ w.amount
  left : w.amount + 1000 ≤ value
  fee : 2000000 ≤ fee.value
  address : chain.payToAddressScript (addrs.p2pkAddr w.pk) = 0x20 :: (w.pk ++ [0xac])

theorem mkTx_eq_ok {inputs : List TxInput} {outputs : List TxOutput} {lockTime : Nat} {tx : Tx} :
    mkTx inputs outputs lockTime = .ok tx ↔
      (∀ i ∈ inputs, i.value < 2 ^ 63) ∧ (∀ o ∈ outputs, o.value < 2 ^ 63) ∧
        tx.inputs = inputs ∧ tx.outputs = outputs ∧ tx.lockTime = lockTime := by
  unfold mkTx
  constructor
  · intro h
    by_cases hb : (∀ i ∈ inputs, i.value < 2 ^ 63) ∧ ∀ o ∈ outputs, o.value < 2 ^ 63
    · rw [dif_pos hb] at h
      obtain rfl := Except.ok.inj h
      exact ⟨hb.1, hb.2, rfl, rfl, rfl⟩
    · rw [dif_neg hb] at h
      cases h
  · rintro ⟨hi, ho, rfl, rfl, rfl⟩
    rw [dif_pos ⟨hi, ho⟩]

theorem assertTxInvariants_eq_ok {mass : Tx → Option Nat} {tx : Tx} :
    assertTxInvariants mass tx = .ok () ↔ sumOut tx.outputs < sumIn tx.inputs ∧
      (∀ o ∈ tx.outputs, 1000 ≤ o.value) ∧
      ∀ m, mass tx = some m → m * 100 ≤ sumIn tx.inputs - sumOut tx.outputs := by
  unfold assertTxInvariants
  by_cases hlt : sumIn tx.inputs < sumOut tx.outputs
  · rw [if_pos hlt]
    simp only [reduceCtorEq, false_iff, not_and]
    intro hgt
    omega
  by_cases heq : sumIn tx.inputs = sumOut tx.outputs
  · rw [if_neg hlt, if_pos heq]
    simp only [reduceCtorEq, false_iff, not_and]
    intro hgt
    omega
  by_cases hdust : ∃ o ∈ tx.outputs, o.value < MIN_OUTPUT_DUST_SOMPI
  · rw [if_neg hlt, if_neg heq, if_pos hdust]
    simp only [reduceCtorEq, false_iff, not_and]
    intro _ hall
    obtain ⟨o, ho, hv⟩ := hdust
    exact absurd (hall o ho) (not_le.mpr hv)
  have hall : ∀ o ∈ tx.outputs, 1000 ≤ o.value := by
    intro o ho
    by_contra hc
    exact hdust ⟨o, ho, not_le.mp hc⟩
  rw [if_neg hlt, if_neg heq, if_neg hdust]
  cases hm : mass tx with
  | none =>
    simp only [reduceCtorEq, false_implies, implies_true, and_true, true_iff]
    exact ⟨by omega, hall⟩
  | some m =>
    dsimp only
    by_cases hfee : sumIn tx.inputs - sumOut tx.outputs < m * MIN_SOMPI_PER_MASS
    · rw [if_pos hfee]
      simp only [reduceCtorEq, false_iff, not_and]
      intro _ _ hle
      exact absurd (hle m rfl) (not_le.mpr hfee)
    · rw [if_neg hfee]
      simp only [true_iff]
      refine ⟨by omega, hall, fun m' hm' => ?_⟩
      obtain rfl := Option.some.inj hm'
      exact not_lt.mp hfee

/-- What is left of the fee coin, if it is no dust. -/
def changeOutputs (chain : Chain) (fee : FeeUtxo) (cmd : ClaimCommand) : List TxOutput :=
  if 1000 ≤ fee.value - 2000000 then
    [{ value := fee.value - 2000000, scriptPubKey := chain.payToAddressScript cmd.changeAddress,
       covenantId := none }]
  else []

theorem sum_claim (hp : 0 ≤ w.amount ∧ w.amount ≤ coin.value) {cmd : ClaimCommand}
    (hcmd : cmd.payout = w.amount) (lock : Bytes) :
    sumOut (claimOutputs chain coin cmd lock) = coin.value ∧
      sumIn (claimInputs coin fee) = coin.value + fee.value := by
  simp only [sumOut, sumIn, claimOutputs, claimInputs, List.map_cons, List.map_nil, List.sum_cons,
    List.sum_nil, hcmd]
  omega

theorem appendChange_claim (hp : 0 ≤ w.amount ∧ w.amount ≤ coin.value) {cmd : ClaimCommand}
    (hcmd : cmd.payout = w.amount) {lock : Bytes} {outputs : List TxOutput} :
    appendChange (claimOutputs chain coin cmd lock) (claimInputs coin fee)
        (chain.payToAddressScript cmd.changeAddress) 2000000 = .ok outputs ↔
      2000000 ≤ fee.value ∧
        outputs = claimOutputs chain coin cmd lock ++ changeOutputs chain fee cmd := by
  obtain ⟨hout, hin⟩ := @sum_claim chain coin fee w hp cmd hcmd lock
  have hchange : coin.value + fee.value - coin.value - 2000000 = fee.value - 2000000 := by omega
  unfold appendChange changeOutputs
  rw [hout, hin]
  by_cases hfee : 2000000 ≤ fee.value
  · rw [if_neg (by omega)]
    simp only [hchange, hfee, true_and]
    by_cases hc : 1000 ≤ fee.value - 2000000
    · rw [if_pos hc, if_pos hc, Except.ok.injEq]
      exact eq_comm
    · rw [if_neg hc, if_neg hc, Except.ok.injEq, List.append_nil]
      exact eq_comm
  · rw [if_pos (by omega)]
    simp only [reduceCtorEq, hfee, false_and]

/-- What the relay builds. -/
structure Built (e : Engine) (chain : Chain) (coin : ShardCoin) (fee : FeeUtxo)
    (cmd : ClaimCommand) (tx : Tx) (lock : Bytes) : Prop where
  found : coin.txid = cmd.outpointTxid ∧ coin.index = cmd.index ∧
    coin.scriptPubKey = ScriptPubKeyP2SH (e.blake2b cmd.redeem_hex)
  covenant : coin.covenantId ≠ none
  continues : continuationScript e cmd.redeem_hex (relayState cmd).fields = some lock
  amounts : 0 ≤ cmd.payout ∧ cmd.payout ≤ coin.value
  enough : 2000000 ≤ fee.value
  made : mkTx (claimInputs coin fee)
    (claimOutputs chain coin cmd lock ++ changeOutputs chain fee cmd) 0 = .ok tx
  sound : assertTxInvariants chain.mass tx = .ok ()

theorem unlockBshardClaim_eq_some {cmd : ClaimCommand} {tx : Tx} {lock : Bytes} :
    unlockBshardClaim e chain coin fee cmd = some (tx, lock) ↔
      Built e chain coin fee cmd tx lock := by
  have hfee : bshardFeeV1 (claimInputs coin fee).length = 2000000 := by
    have hlen : (claimInputs coin fee).length = 2 := rfl
    rw [hlen]
    decide
  unfold unlockBshardClaim
  simp only [Option.bind_eq_bind, Option.bind_eq_some_iff, require_eq_some, exists_const,
    Option.some.injEq, Prod.mk.injEq, toOption_eq_some, hfee]
  constructor
  · rintro ⟨hfound, hcov, lock', hlock, hamounts, outs, houts, tx', htx, _, hsound, rfl, rfl⟩
    let w : Leaf := { pk := [], amount := cmd.payout }
    obtain ⟨henough, rfl⟩ := (@appendChange_claim chain coin fee w hamounts cmd rfl _ _).mp houts
    exact ⟨hfound, hcov, hlock, hamounts, henough, htx, hsound⟩
  · rintro ⟨hfound, hcov, hlock, hamounts, henough, htx, hsound⟩
    let w : Leaf := { pk := [], amount := cmd.payout }
    exact ⟨hfound, hcov, lock, hlock, hamounts, _,
      (@appendChange_claim chain coin fee w hamounts cmd rfl _ _).mpr ⟨henough, rfl⟩, tx, htx, (),
      hsound, rfl, rfl⟩

/-- The outputs that the covenant looks at. -/
theorem Built.outputs {cmd : ClaimCommand} {tx : Tx} {lock : Bytes}
    (h : Built e chain coin fee cmd tx lock) :
    tx.output 0 = some
        { value := cmd.payout.toNat, scriptPubKey := chain.payToAddressScript cmd.payoutAddress,
          covenantId := none } ∧
      tx.output 1 = some
        { value := ((coin.value : Int) - cmd.payout).toNat, scriptPubKey := lock,
          covenantId := coin.covenantId } := by
  obtain ⟨-, -, -, hout, -⟩ := mkTx_eq_ok.mp h.made
  rw [Tx.output, Tx.output, hout]
  exact ⟨rfl, rfl⟩

/-- None of them is dust. -/
theorem Built.aboveDust {cmd : ClaimCommand} {tx : Tx} {lock : Bytes}
    (h : Built e chain coin fee cmd tx lock) :
    1000 ≤ cmd.payout ∧ cmd.payout + 1000 ≤ coin.value := by
  obtain ⟨hout₀, hout₁⟩ := h.outputs
  obtain ⟨-, hdust, -⟩ := assertTxInvariants_eq_ok.mp h.sound
  have h₀ := hdust _ (mem_of_atIndex hout₀)
  have h₁ := hdust _ (mem_of_atIndex hout₁)
  have hamounts := h.amounts
  dsimp only at h₀ h₁
  omega

/-- The fee of a claim covers its mass. -/
def FeeCovers (chain : Chain) : Prop :=
  ∀ tx m, tx.inputs.length = 2 → tx.outputs.length ≤ 3 → chain.mass tx = some m →
    m * 100 ≤ 2000000

/-- **When the relay builds a claim.** -/
theorem AtTip.built_iff (ht : c.template.templatePrefix.length = 1) (hmass : FeeCovers chain)
    (h : AtTip e c kind root th coin) (hk : k < 1024) {bytes : Bytes}
    (hs : serializeState (paidState coin.state w.amount k).fields = some bytes) {lock : Bytes} :
    (∃ tx, Built e chain coin fee (claimCommand addrs kind th (datumOf e ws w k)) tx lock) ↔
      lock = ScriptPubKeyP2SH (e.blake2b (c.template.redeem bytes)) ∧ 2000000 ≤ fee.value ∧
        1000 ≤ w.amount ∧ w.amount + 1000 ≤ coin.value := by
  obtain ⟨old, hold, hredeem⟩ := h.redeem
  have hcont := continuationScript_redeem (e := e) ht hold hs
  have hstate : relayState (claimCommand addrs kind th (datumOf e ws w k)) =
      paidState coin.state w.amount k := relayState_eq h hk
  rw [← hredeem, ← hstate] at hcont
  constructor
  · rintro ⟨tx, hb⟩
    exact ⟨Option.some.inj (hb.continues.symm.trans hcont), hb.enough, hb.aboveDust⟩
  · rintro ⟨rfl, hfee, hpaid, hleft⟩
    generalize hcmd : claimCommand addrs kind th (datumOf e ws w k) = cmd at hcont
    generalize hlock : ScriptPubKeyP2SH (e.blake2b (c.template.redeem bytes)) = lock at hcont
    have hpayout : cmd.payout = w.amount := by
      rw [← hcmd]
      rfl
    have hcur : th.curRedeem = cmd.redeem_hex := by
      rw [← hcmd]
      rfl
    rw [hcur] at hcont
    have hamounts : 0 ≤ w.amount ∧ w.amount ≤ coin.value := by omega
    obtain ⟨hsumOut, hsumIn⟩ := @sum_claim chain coin fee w hamounts cmd hpayout lock
    have hbounded := h.bounded
    have hfeeb := fee.bounded
    -- every output is money, and none is dust
    have hall : ∀ o ∈ claimOutputs chain coin cmd lock ++ changeOutputs chain fee cmd,
        1000 ≤ o.value ∧ o.value < 2 ^ 63 := by
      intro o ho
      rcases List.mem_append.mp ho with ho | ho
      · rcases List.mem_pair.mp ho with rfl | rfl
        · dsimp only
          omega
        · dsimp only
          omega
      · unfold changeOutputs at ho
        split at ho
        · obtain rfl := List.mem_singleton.mp ho
          dsimp only
          omega
        · cases ho
    have hin : ∀ i ∈ claimInputs coin fee, i.value < 2 ^ 63 := by
      intro i hi
      rcases List.mem_pair.mp hi with rfl | rfl
      · exact hbounded
      · exact hfeeb
    have hchange : (changeOutputs chain fee cmd).length ≤ 1 ∧
        sumOut (changeOutputs chain fee cmd) ≤ fee.value - 2000000 := by
      unfold changeOutputs
      split
      · exact ⟨le_refl 1, le_of_eq (List.sum_singleton)⟩
      · exact ⟨Nat.zero_le 1, Nat.zero_le _⟩
    have hsum : sumOut (claimOutputs chain coin cmd lock ++ changeOutputs chain fee cmd) =
        coin.value + sumOut (changeOutputs chain fee cmd) := by
      rw [← hsumOut, sumOut, sumOut, sumOut, List.map_append, List.sum_append]
    let tx : Tx := ⟨claimInputs coin fee, claimOutputs chain coin cmd lock ++
      changeOutputs chain fee cmd, 0, hin, fun o ho => (hall o ho).2⟩
    have hti : sumIn tx.inputs = coin.value + fee.value := hsumIn
    have hto : sumOut tx.outputs = coin.value + sumOut (changeOutputs chain fee cmd) := hsum
    refine ⟨tx, ?_, h.covenant, hcont, by omega, hfee,
      mkTx_eq_ok.mpr ⟨hin, fun o ho => (hall o ho).2, rfl, rfl, rfl⟩,
      assertTxInvariants_eq_ok.mpr ⟨?_, fun o ho => (hall o ho).1, fun m hm => ?_⟩⟩
    · rw [← hcmd]
      exact ⟨h.txid, h.index, h.script⟩
    · omega
    · have hle := hmass tx m rfl (by
        show (_ ++ _ : List TxOutput).length ≤ 3
        rw [List.length_append]
        exact Nat.add_le_add_left hchange.1 2) hm
      omega

/-- What the covenant is shown. -/
def witnessOf (e : Engine) (ws : List Leaf) (w : Leaf) (k : Nat) (hpk : w.pk.length = 32) :
    PayWitness where
  selfOutIdx := 1
  payoutOutIdx := 0
  bettorPk := ⟨w.pk, hpk⟩
  payout := w.amount
  merkle_index := k
  s := ⟨Merkle.path (hashNode e) ZERO32 DEPTH (Merkle.pad ZERO32 DEPTH (ws.map (Leaf.hash e))) k,
    Merkle.path_length _ _ _⟩

theorem witness_eq (hpk : w.pk.length = 32) :
    (claimCommand addrs kind th (datumOf e ws w k)).witness = some (witnessOf e ws w k hpk) := by
  have hlen : (Merkle.path (hashNode e) ZERO32 DEPTH
      (Merkle.pad ZERO32 DEPTH (ws.map (Leaf.hash e))) k).length = 10 := Merkle.path_length _ _ _
  have hkey : bytes32? w.pk = some ⟨w.pk, hpk⟩ := dif_pos hpk
  have hpath : path? (Merkle.path (hashNode e) ZERO32 DEPTH
      (Merkle.pad ZERO32 DEPTH (ws.map (Leaf.hash e))) k) = some ⟨_, hlen⟩ := dif_pos hlen
  simp only [ClaimCommand.witness, claimCommand, datumOf, hkey, hpath, witnessOf]
  rfl

theorem witnessOf_opens (hb : Buildable ws) (hw : ws[k]? = some w) (hpk : w.pk.length = 32) :
    (witnessOf e ws w k hpk).Opens e (rootOf e ws) := by
  have hclaimed : claimed (witnessOf e ws w k hpk) = w := rfl
  have hsibs : merkleProof e ws k = some (witnessOf e ws w k hpk).s.toList :=
    merkleProof_eq_some.mpr ⟨hb, rfl⟩
  refine opens_iff.mpr ⟨(hb.payable w (List.mem_of_getElem? hw)).fits, ?_⟩
  rw [hclaimed]
  exact (climb_merkleProof hsibs hw).2

theorem spend_call {s : State} {tx : Tx} {wit : PayWitness} :
    PayoutShard.spend e i64 c s tx (kind.call wit) =
      PayoutShard.payLeaf e i64 c s tx kind.latch wit := by
  cases kind with
  | payout => rfl
  | refund => rfl

/-- **What the covenant accepts** of what the relay builds: a payment to the owner's key. -/
theorem AtTip.spend_iff (h : AtTip e c kind root th coin) (hroot : root = rootOf e ws)
    (hb : Buildable ws) (hw : ws[k]? = some w) (hm : ¬ Marked coin.state.w k)
    (hpk : w.pk.length = 32) {bytes : Bytes}
    (hs : serializeState (paidState coin.state w.amount k).fields = some bytes) {tx : Tx}
    (hbuilt : Built e chain coin fee (claimCommand addrs kind th (datumOf e ws w k)) tx
      (ScriptPubKeyP2SH (e.blake2b (c.template.redeem bytes)))) {s' : State} :
    PayoutShard.spend e i64 c coin.state tx (kind.call (witnessOf e ws w k hpk)) = some s' ↔
      chain.payToAddressScript (addrs.p2pkAddr w.pk) = 0x20 :: (w.pk ++ [0xac]) ∧
        s' = paidState coin.state w.amount k := by
  have hpay := hb.payable w (List.mem_of_getElem? hw)
  have hk : k < 1024 := lt_of_lt_of_le (List.getElem?_eq_some_iff.mp hw).1 hb.length
  obtain ⟨hout₀, hout₁⟩ := hbuilt.outputs
  obtain ⟨hpaid, hleft⟩ := hbuilt.aboveDust
  simp only [claimCommand, datumOf] at hpaid hleft hout₀ hout₁
  have hv := h.value
  rw [spend_call, PayoutShard.payLeaf_eq_some i64_lawful h.words]
  constructor
  · rintro ⟨-, k', hk', -, -, -, -, -, hpaidTo, rfl, -⟩
    obtain rfl : k = k' := Int.ofNat.inj hk'
    obtain ⟨out, hout, hscript, -⟩ := hpaidTo
    obtain rfl := Option.some.inj (hout₀.symm.trans hout)
    exact ⟨hscript, rfl⟩
  · rintro ⟨haddr, rfl⟩
    refine ⟨h.closed, k, rfl, hk, hpay.pos, ?_, ?_, hm, ⟨_, hout₀, haddr, ?_⟩, rfl, ?_⟩
    · show w.amount ≤ _
      omega
    · rw [h.payoutRoot, hroot]
      exact witnessOf_opens hb hw hpk
    · show ((w.amount.toNat : Nat) : Int) = w.amount
      omega
    · refine ⟨⟨bytes, _, hs, hout₁, rfl⟩, _, hout₁, ?_⟩
      show (((coin.value : Int) - w.amount).toNat : Int) = coin.state.consolidated_pool - w.amount
      omega

/-- The coin that a claim leaves. -/
def paidCoin (chain : Chain) (coin : ShardCoin) (w : Leaf) (k : Nat) (lock : Bytes) (tx : Tx) :
    ShardCoin where
  txid := chain.txId tx
  index := 1
  value := coin.value - w.amount.toNat
  scriptPubKey := lock
  covenantId := coin.covenantId
  state := paidState coin.state w.amount k

/-- **When a claim goes through**, and what it is then. -/
theorem AtTip.submit_eq_some (ht : c.template.templatePrefix.length = 1)
    (hmass : FeeCovers chain) (h : AtTip e c kind root th coin) (hroot : root = rootOf e ws)
    (hb : Buildable ws) (hw : ws[k]? = some w) (hm : ¬ Marked coin.state.w k) (hpk : w.pk.length = 32)
    {bytes : Bytes} (hs : serializeState (paidState coin.state w.amount k).fields = some bytes)
    {sub : Submitted} :
    submit e c chain coin fee accepts (claimCommand addrs kind th (datumOf e ws w k)) = some sub ↔
      Goes chain addrs w coin.value fee accepts ∧
        ∃ tx, Built e chain coin fee (claimCommand addrs kind th (datumOf e ws w k)) tx
          (ScriptPubKeyP2SH (e.blake2b (c.template.redeem bytes))) ∧
        sub =
          { spend := (kind.call (witnessOf e ws w k hpk), tx)
            psContAddress := ScriptPubKeyP2SH (e.blake2b (c.template.redeem bytes))
            coin := paidCoin chain coin w k
              (ScriptPubKeyP2SH (e.blake2b (c.template.redeem bytes))) tx } := by
  have hk : k < 1024 := lt_of_lt_of_le (List.getElem?_eq_some_iff.mp hw).1 hb.length
  unfold submit
  simp only [Option.bind_eq_bind, Option.bind_eq_some_iff, require_eq_some, exists_const,
    Option.some.injEq, witness_eq hpk, Prod.exists, unlockBshardClaim_eq_some]
  constructor
  · rintro ⟨tx, lock, hbuilt, _, rfl, s', hspend, hacc, rfl⟩
    obtain ⟨rfl, hfee, hpaid, hleft⟩ := (h.built_iff ht hmass hk hs).mp ⟨tx, hbuilt⟩
    obtain ⟨haddr, rfl⟩ := (h.spend_iff hroot hb hw hm hpk hs hbuilt).mp hspend
    exact ⟨⟨hacc, hpaid, hleft, hfee, haddr⟩, tx, hbuilt, rfl⟩
  · rintro ⟨hg, tx, hbuilt, rfl⟩
    exact ⟨tx, _, hbuilt, _, rfl, _,
      (h.spend_iff hroot hb hw hm hpk hs hbuilt).mpr ⟨hg.address, rfl⟩, hg.accepted, rfl⟩

/-- **The thread follows the shard.** -/
theorem AtTip.advance (h : AtTip e c kind root th coin) (hw : w.Payable)
    (hm : ¬ Marked coin.state.w k) (hle : w.amount ≤ coin.value) {bytes : Bytes}
    (hs : serializeState (paidState coin.state w.amount k).fields = some bytes) (tx : Tx) :
    AtTip e c kind root
      (th.advance (datumOf e ws w k) (chain.txId tx)
        (paidState coin.state w.amount k, c.template.redeem bytes))
      (paidCoin chain coin w k (ScriptPubKeyP2SH (e.blake2b (c.template.redeem bytes))) tx) := by
  have hv := h.value
  have hb := h.bounded
  have hpos := hw.pos
  refine ⟨rfl, rfl, ?_, rfl, ⟨bytes, hs, rfl⟩, rfl, ?_, ?_, h.covenant, h.closed, h.payoutRoot,
    h.words.mark hm⟩
  · show th.curPool - w.amount = coin.state.consolidated_pool - w.amount
    rw [h.pool]
  · show ((coin.value - w.amount.toNat : Nat) : Int) = coin.state.consolidated_pool - w.amount
    omega
  · show coin.value - w.amount.toNat < 2 ^ 63
    omega

end

end KANet.Settle.Claims
