import KANet.Predict.Escrow
import KANet.Predict.OracleVotes
import KANet.Script.Pushes

/-!
# `bettor-prediction-settler.js`: the settlement the oracles sign

`dispatchPhase2OrCheckSigs` is called at every tick for an offer the oracles have decided.  The
first call computes the outputs, has the relay build the transaction the oracles are to sign (the
image), and keeps it with the offer.  The later ones read the signatures from `chain_events`; when
there are five for each input, `unlockP2SHMultiSig` puts them into the image and submits it.

The first row of a voter counts for an input, and its signature goes to the slot of its arrival.
Nothing asks whether the voter is an oracle, nor whether the signature is good; but the script wants
the oracles in the order of its constructor.

The addresses of the relays and the coins under the lock are parameters, and so are the mass of a
transaction and the node's answer.  The recovery of lost parameters and the messages are left out.

* `arrives_iff` — what is collected, from the order of arrival.
* `Offer.settle_dispute_iff` — when the script lets the image through.
* `settles_iff` — when a call settles.
* `settled_run` — the same over a run.
-/

namespace KANet.Predict.Settlement

open KANet.Lib KANet.Script
open KANet.Predict.Escrow (Contract settle_dispute feeOf requireOutputs spendable)
open KANet.Predict.Oracles (Vote addVote ChainEvent Payload coerce coerceMember parseInt sameValue
  textOf voteRound offerPattern)

/-! ### Transactions -/

/-- A coin, as the node reports it. -/
structure Utxo where
  transactionId : String
  index : Nat
  amount : Nat
  scriptPublicKey : Bytes
  amount_bounded : amount < 2 ^ 63

def Utxo.input (u : Utxo) : TxInput := ⟨u.amount, u.scriptPublicKey, none⟩

abbrev Output := { out : TxOutput // out.value < 2 ^ 63 }

/-- A transaction before it is signed, without lock time; each input has five signature
operations. -/
structure TxObj where
  inputs : List Utxo
  outputs : List Output

theorem TxObj.inputs_bounded (t : TxObj) : ∀ i ∈ t.inputs.map Utxo.input, i.value < 2 ^ 63 := by
  intro i hi
  obtain ⟨u, -, rfl⟩ := List.mem_map.mp hi
  exact u.amount_bounded

theorem TxObj.outputs_bounded (t : TxObj) :
    ∀ o ∈ t.outputs.map Subtype.val, o.value < 2 ^ 63 := by
  intro o ho
  obtain ⟨out, -, rfl⟩ := List.mem_map.mp ho
  exact out.2

/-- As the script sees it. -/
def TxObj.tx (t : TxObj) : Tx where
  inputs := t.inputs.map Utxo.input
  outputs := t.outputs.map Subtype.val
  lockTime := 0
  inputs_bounded := t.inputs_bounded
  outputs_bounded := t.outputs_bounded

/-- What the relay submits, and the signatures it was given. -/
structure Submission where
  sigsByInput : List (List (Option Json))
  txObj : TxObj
  scriptSigs : List (List Char)

/-! ### Offers -/

/-- What the settler reads of `offer.metadata`. -/
structure Metadata where
  maker_stake_sompi : Option Json
  taker_stake_sompi : Option Json
  miner_fee_sompi : Option Json
  broker_fee_pct : Option Json
  oracle_fee_pct : Option Json
  broker_relay_id : Option String
  redeem_script_hex : List Char
  phase2_tx_obj : Option TxObj
  phase2_winner : Option Int

inductive Status
  | verifying | collecting_sigs | completed
deriving DecidableEq

structure Offer extends Oracles.Offer where
  taker : Option String
  escrow_p2sh : String
  broadcast_tx_id : String
  taker_escrow_lock_tx : String
  metadata : Metadata
  protocol_status : Status
  settle_txid : Option String

/-- What comes from outside: the addresses of the relays, the script an address stands for (none,
where it is no address), the coins at an address, the mass of a signed transaction (none, where it
cannot be computed), and the id of a transaction the node takes. -/
structure Env where
  address : String → Option String
  payToAddressScript : String → Option Bytes
  utxos : String → List Utxo
  calculateTransactionMass : TxObj → List (List Char) → Option Nat
  submitTransaction : TxObj → List (List Char) → Option String

def truthy (s : Option String) : Option String := s.filter fun t => t ≠ ""

/-- `parseInt(v, 10) || d` -/
def numberOr (v : Option Json) (d : Int) : Int :=
  if (parseInt (coerceMember v)).getD 0 = 0 then d else (parseInt (coerceMember v)).getD 0

def Metadata.spendable (m : Metadata) : Int :=
  numberOr m.maker_stake_sompi 0 + numberOr m.taker_stake_sompi 0 -
    numberOr m.miner_fee_sompi 1000000

structure Amounts where
  winnerAmount : Int
  brokerFeeAmount : Int
  oraclePerSig : Int
deriving DecidableEq

/-- What is left of the oracles' fee after the division by five goes to the miner. -/
def amountsOf (spendable brokerFeePct oracleFeePct : Int) : Amounts where
  winnerAmount := spendable - (spendable * brokerFeePct).tdiv 10000 -
    (spendable * oracleFeePct).tdiv 10000
  brokerFeeAmount := (spendable * brokerFeePct).tdiv 10000
  oraclePerSig := ((spendable * oracleFeePct).tdiv 10000).tdiv 5

def Metadata.amounts (m : Metadata) : Amounts :=
  amountsOf m.spendable (numberOr m.broker_fee_pct 0) (numberOr m.oracle_fee_pct 100)

def Offer.winnerAddr (o : Offer) (winner : Int) : Option String :=
  truthy (if winner = 0 then o.maker_kaspa_addr else o.taker)

def Env.relayAddr (env : Env) (id : String) : Option String := truthy (env.address id)

def Offer.brokerAddr (env : Env) (o : Offer) : Option String :=
  (truthy o.metadata.broker_relay_id).bind env.relayAddr

/-! ### The relay -/

/-- `new TransactionOutput(BigInt(amountSompi), payToAddressScript(new Address(address)))` -/
def transactionOutput (env : Env) (o : String × Int) : Option Output :=
  (env.payToAddressScript o.1).bind fun script =>
    if h : o.2.toNat < 2 ^ 63 ∧ 0 ≤ o.2 then some ⟨⟨o.2.toNat, script, none⟩, h.1⟩ else none

/-- The one coin that a lock transaction made. -/
def matchLock (entries : List Utxo) (outpointTxid : String) : Option Utxo :=
  match entries.filter fun u => u.transactionId = outpointTxid with
  | [found] => some found
  | _ => none

def buildSettleTxPreimage (env : Env) (p2shAddress : String) (locks : List String)
    (outputs : List (String × Int)) : Option TxObj := do
  let inputs ← locks.mapM (matchLock (env.utxos p2shAddress))
  let txOutputs ← outputs.mapM (transactionOutput env)
  some ⟨inputs, txOutputs⟩

def MIN_SOMPI_PER_MASS : Int := 100

def MIN_OUTPUT_DUST_SOMPI : Nat := 1000

/-- `_assertTxInvariants` -/
def assertTxInvariants (matched : List Utxo) (txObj : TxObj) (mass : Option Nat) : Option Unit := do
  let sumIn : Int := (matched.map Utxo.amount).sum
  let sumOut : Int := (txObj.outputs.map fun o => o.val.value).sum
  require (0 < sumIn - sumOut)
  require (∀ o ∈ txObj.outputs, MIN_OUTPUT_DUST_SOMPI ≤ o.val.value)
  require (mass.all (fun m => decide (m * MIN_SOMPI_PER_MASS ≤ sumIn - sumOut)) = true)

/-- What `join` makes of an element. -/
def joinText : Option Json → List Char
  | none => []
  | some .null => []
  | some v => coerce v

def assembleScriptSig (sigs : List (Option Json)) (winner : Int) (redeemPush : Bytes) : List Char :=
  sigs.flatMap joinText ++ ((if winner = 0 then "00".toList else "51".toList) ++
    ("00".toList ++ toHex redeemPush))

def unlockP2SHMultiSig (env : Env) (p2shAddress : String) (redeemScript : Bytes)
    (locks : List String) (outputs : List (String × Int)) (sigsByInput : List (List (Option Json)))
    (winner : Int) (txObjPreimage : Option TxObj) : Option Submission := do
  require (locks.length = 2)
  require (outputs.length = 2)
  require (sigsByInput.length = 2)
  require (∀ sigs ∈ sigsByInput, sigs.length = 5)
  require (winner = 0 ∨ winner = 1)
  let matched ← locks.mapM (matchLock (env.utxos p2shAddress))
  let txOutputs ← outputs.mapM (transactionOutput env)
  let redeemPush ← encodePush redeemScript
  let scriptSigs := sigsByInput.map fun sigs => assembleScriptSig sigs winner redeemPush
  let txObj := txObjPreimage.getD ⟨matched, txOutputs⟩
  assertTxInvariants matched txObj (env.calculateTransactionMass txObj scriptSigs)
  some ⟨sigsByInput, txObj, scriptSigs⟩

/-! ### Dispatch -/

/-- The winner, the broker, and the oracles in the order of the offer. -/
def Offer.outputs (env : Env) (o : Offer) (winner : Int) : Option (List (String × Int)) := do
  let winnerAddr ← o.winnerAddr winner
  let brokerAddr ← o.brokerAddr env
  let oracleAddrsOrdered := o.outcome_oracle_relay_ids.toList.filterMap env.relayAddr
  require (oracleAddrsOrdered.length = 5)
  some ((winnerAddr, o.metadata.amounts.winnerAmount) ::
    (brokerAddr, o.metadata.amounts.brokerFeeAmount) ::
    oracleAddrsOrdered.map fun addr => (addr, o.metadata.amounts.oraclePerSig))

def Offer.locks (o : Offer) : List String := [o.broadcast_tx_id, o.taker_escrow_lock_tx]

/-- The image. -/
def Offer.image (env : Env) (o : Offer) (winner : Int) : Option TxObj :=
  (o.outputs env winner).bind (buildSettleTxPreimage env o.escrow_p2sh o.locks)

def Offer.dispatched (o : Offer) (winner : Int) (txObj : TxObj) : Offer :=
  { o with
    metadata := { o.metadata with phase2_tx_obj := some txObj, phase2_winner := some winner }
    protocol_status := .collecting_sigs }

/-! ### Collection -/

/-- The rows that are selected for an offer. -/
def sigRows (events : List ChainEvent) (o : Offer) : List ChainEvent :=
  events.filter fun ev => ev.event_type = "oracle_tx_sig" &&
    (o.maker_kaspa_addr.any fun maker => ev.to_address = some maker) &&
    ev.payload.any fun p => like (offerPattern o.id) p.text

/-- What a row counts for: the voter and the signature. -/
def countedSig (currentRound input : Nat) (ev : ChainEvent) : Option Vote := do
  let payload ← ev.payload
  let p ← payload.value
  if textOf (p.get "t") = some "kanet_oracle_tx_sign_resp_v1" ∧ voteRound p = currentRound ∧
      parseInt (coerceMember (p.get "input_index")) = some (input : Int) then
    some ⟨p.get "voter_relay_id", p.get "signature"⟩
  else none

def countedSigs (events : List ChainEvent) (o : Offer) (input : Nat) : List Vote :=
  (sigRows events o).filterMap (countedSig o.revote_round input)

/-- `sigsByInput[input]` -/
def sigsOf (events : List ChainEvent) (o : Offer) (input : Nat) : List (Option Json) :=
  ((countedSigs events o input).foldl addVote []).map Vote.outcome

/-- What is submitted, where anything is. -/
def submission (env : Env) (events : List ChainEvent) (o : Offer) : Option Submission := do
  let sigsByInput := [sigsOf events o 0, sigsOf events o 1]
  require (∀ sigs ∈ sigsByInput, 5 ≤ sigs.length)
  let winner ← o.metadata.phase2_winner
  let winnerAddr ← o.winnerAddr winner
  let brokerAddr ← o.brokerAddr env
  let redeemScript ← fromHex o.metadata.redeem_script_hex
  let brokerFeeAmount := (o.metadata.spendable * numberOr o.metadata.broker_fee_pct 0).tdiv 10000
  unlockP2SHMultiSig env o.escrow_p2sh redeemScript o.locks
    [(winnerAddr, o.metadata.spendable - brokerFeeAmount), (brokerAddr, brokerFeeAmount)]
    sigsByInput winner o.metadata.phase2_tx_obj

def Offer.completed (o : Offer) (txId : String) : Offer :=
  { o with settle_txid := some txId, protocol_status := .completed }

def winnerOf (winnerStr : String) : Option Int :=
  if winnerStr = "YES" then some 0 else if winnerStr = "NO" then some 1 else none

def dispatchPhase2OrCheckSigs (env : Env) (events : List ChainEvent) (o : Offer)
    (winnerStr : String) : Option Offer := do
  let winner ← winnerOf winnerStr
  match o.protocol_status with
  | .verifying => (o.image env winner).map (o.dispatched winner)
  | .collecting_sigs => do
    let sub ← submission env events o
    (env.submitTransaction sub.txObj sub.scriptSigs).map o.completed
  | .completed => none

/-! ### Runs -/

structure Sys where
  offer : Offer
  chain_events : List ChainEvent

inductive Event
  /-- A row arrives, whoever wrote it. -/
  | row (ev : ChainEvent)
  /-- The oracles go to their next round. -/
  | revote
  /-- A tick calls the settler. -/
  | call (winnerStr : String)

def Offer.revote (o : Offer) : Offer := { o with revote_round := o.revote_round + 1 }

def step (env : Env) (s : Sys) : Event → Sys
  | .row ev => { s with chain_events := s.chain_events ++ [ev] }
  | .revote => { s with offer := s.offer.revote }
  | .call winnerStr =>
    { s with offer :=
        (dispatchPhase2OrCheckSigs env s.chain_events s.offer winnerStr).getD s.offer }

def Step (env : Env) (s : Sys) (ev : Event) (s' : Sys) : Prop := s' = step env s ev

/-! ### What a settlement should be -/

def PaidTo (env : Env) (addr : Option String) (pk : Bytes32) : Prop :=
  ∃ a, addr = some a ∧ env.payToAddressScript a = some (ScriptPubKeyP2PK pk)

/-- The offer is published for the contract: the metadata have the numbers the constructor was given,
the addresses are those of its keys, and the redeem script is what was compiled. -/
structure Published (env : Env) (c : Contract) (script : Bytes) (o : Offer) : Prop where
  maker_stake : numberOr o.metadata.maker_stake_sompi 0 = c.makerStakeAmount
  taker_stake : numberOr o.metadata.taker_stake_sompi 0 = c.takerStakeAmount
  miner_fee : numberOr o.metadata.miner_fee_sompi 0 = c.minerFee
  broker_fee : numberOr o.metadata.broker_fee_pct 0 = c.brokerFeePct
  oracle_fee : numberOr o.metadata.oracle_fee_pct 0 = c.oracleFeePct
  miner_fee_pos : 0 < c.minerFee
  /-- The sum is a number that JavaScript adds up exactly. -/
  stakes_safe : c.makerStakeAmount + c.takerStakeAmount < 2 ^ 53
  maker : PaidTo env (truthy o.maker_kaspa_addr) c.makerPk
  taker : PaidTo env (truthy o.taker) c.takerPk
  broker : PaidTo env (o.brokerAddr env) c.brokerPk
  oracles : List.Forall₂ (fun id pk => PaidTo env (env.relayAddr id) pk)
    o.outcome_oracle_relay_ids.toList c.oraclePks.toList
  redeem : fromHex o.metadata.redeem_script_hex = some script
  redeem_short : script.length ≤ 65535

/-- The coins of the two lock transactions. -/
def Offer.coins (env : Env) (o : Offer) : Option (List Utxo) :=
  o.locks.mapM (matchLock (env.utxos o.escrow_p2sh))

/-- The covenant has a settlement of the two coins. -/
def Settleable (env : Env) (c : Contract) (o : Offer) : Prop :=
  ∃ (u v : Utxo) (e : Engine) (tx : Tx) (sigs : List.Vector Bytes 5) (winner : Int),
    o.coins env = some [u, v] ∧ tx.inputs = [u.input, v.input] ∧
    settle_dispute e i64 c tx sigs winner = some ()

/-- What a text pushes, where that is one thing. -/
def pushedSig (s : Option Json) : Option Bytes := do
  let bs ← readHex (joinText s)
  let (sig, rest) ← readPush bs
  if rest = [] then some sig else none

/-- The text is a signature of the key. -/
def carries (e : Engine) (tx : Tx) (pk : Bytes32) (s : Option Json) : Bool :=
  (pushedSig s).any fun sig => e.checkSig tx sig pk

/-- The script of an input calls `settle_dispute` for the winner, and that lets the transaction
through. -/
def Submission.Accepted (e : Engine) (c : Contract) (script : Bytes) (winner : Int)
    (sub : Submission) (input : Nat) : Prop :=
  ∃ (text : List Char) (bs : Bytes) (sigs : List.Vector Bytes 5),
    sub.scriptSigs[input]? = some text ∧ readHex text = some bs ∧
    readPushes bs.length bs = some (sigs.toList ++ [numberPush winner, numberPush 0, script]) ∧
    settle_dispute e i64 c sub.txObj.tx sigs winner = some ()

/-- **A settlement**: the outputs are those of the image, every signature is in its oracle's slot,
and the script lets both inputs through.  A signature is made for one input (`e i`). -/
structure Submission.Settles (e : Nat → Engine) (c : Contract) (script : Bytes) (winner : Int)
    (t : TxObj) (sub : Submission) : Prop where
  outputs : sub.txObj.outputs = t.outputs
  slots : ∀ i < 2, List.Forall₂ (fun pk s => carries (e i) t.tx pk s = true) c.oraclePks.toList
    (sub.sigsByInput.getD i [])
  accepted : ∀ i < 2, sub.Accepted (e i) c script winner i

/-- The settler submits a settlement of the image that it has dispatched. -/
def Sys.Settles (e : Nat → Engine) (env : Env) (c : Contract) (script : Bytes) (s : Sys) : Prop :=
  ∃ winner t sub, s.offer.metadata.phase2_winner = some winner ∧
    s.offer.metadata.phase2_tx_obj = some t ∧
    submission env s.chain_events s.offer = some sub ∧ sub.Settles e c script winner t

/-- For both inputs there is a row of every oracle, with its signature of the image. -/
def Sys.Stored (e : Nat → Engine) (c : Contract) (s : Sys) : Prop :=
  ∃ t, s.offer.metadata.phase2_tx_obj = some t ∧ ∀ i < 2,
    ∀ p ∈ s.offer.outcome_oracle_relay_ids.toList.zip c.oraclePks.toList,
      ∃ v ∈ countedSigs s.chain_events s.offer i,
        v.voter = some (.str p.1) ∧ carries (e i) t.tx p.2 v.outcome = true

/-! ### When it is one -/

/-- The metadata and the coins come to the same amounts. -/
def AmountsAgree (env : Env) (c : Contract) (o : Offer) : Prop :=
  ∃ u v : Utxo, o.coins env = some [u, v] ∧
    o.metadata.amounts = amountsOf (u.amount + v.amount - c.minerFee) c.brokerFeePct c.oracleFeePct

/-- The rows come in the order of the keys: a row of a new voter is good for the next key.  `seen`
are the rows that have been taken before, and the last list those that are taken now. -/
inductive Arrives (good : Bytes32 → Vote → Bool) :
    List Vote → List Bytes32 → List Vote → List Vote → Prop
  | done (seen : List Vote) : Arrives good seen [] [] []
  | again {seen taken vs : List Vote} {pks : List Bytes32} {v : Vote}
      (known : (seen.any fun u => sameValue v.voter u.voter) = true)
      (rest : Arrives good seen pks vs taken) : Arrives good seen pks (v :: vs) taken
  | next {seen taken vs : List Vote} {pk : Bytes32} {pks : List Bytes32} {v : Vote}
      (unknown : (seen.any fun u => sameValue v.voter u.voter) = false)
      (signed : good pk v = true) (rest : Arrives good (seen ++ [v]) pks vs taken) :
      Arrives good seen (pk :: pks) (v :: vs) (v :: taken)

/-- For both inputs the rows come in the order of the oracles, the metadata agree with the coins,
and the relay's own checks of the image pass: dust, and a fee that pays for the mass. -/
def Sys.InTurn (e : Nat → Engine) (env : Env) (c : Contract) (script : Bytes) (s : Sys) : Prop :=
  ∃ t winner redeemPush taken₀ taken₁, s.offer.metadata.phase2_tx_obj = some t ∧
    s.offer.metadata.phase2_winner = some winner ∧ encodePush script = some redeemPush ∧
    AmountsAgree env c s.offer ∧
    Arrives (fun pk v => carries (e 0) t.tx pk v.outcome) [] c.oraclePks.toList
      (countedSigs s.chain_events s.offer 0) taken₀ ∧
    Arrives (fun pk v => carries (e 1) t.tx pk v.outcome) [] c.oraclePks.toList
      (countedSigs s.chain_events s.offer 1) taken₁ ∧
    assertTxInvariants t.inputs t (env.calculateTransactionMass t
      [assembleScriptSig (taken₀.map Vote.outcome) winner redeemPush,
        assembleScriptSig (taken₁.map Vote.outcome) winner redeemPush]) = some ()

/-- The settler is called with a winner for an offer whose signatures are all there. -/
structure Sys.Due (e : Nat → Engine) (c : Contract) (s : Sys) (winnerStr : String) : Prop where
  status : s.offer.protocol_status = .collecting_sigs
  winner : (winnerOf winnerStr).isSome = true
  stored : s.Stored e c

/-! ### The order of arrival -/

theorem addVote_known {seen : List Vote} {v : Vote}
    (h : (seen.any fun u => sameValue v.voter u.voter) = true) : addVote seen v = seen := if_pos h

theorem addVote_new {seen : List Vote} {v : Vote}
    (h : (seen.any fun u => sameValue v.voter u.voter) = false) :
    addVote seen v = seen ++ [v] := if_neg (Bool.eq_false_iff.mp h)

/-- What has been collected stays in its place. -/
theorem prefix_foldl (vs : List Vote) : ∀ seen : List Vote,
    ∃ more, vs.foldl addVote seen = seen ++ more := by
  induction vs with
  | nil => exact fun seen => ⟨[], (List.append_nil seen).symm⟩
  | cons v vs ih =>
    intro seen
    rw [List.foldl_cons]
    cases hseen : seen.any fun u => sameValue v.voter u.voter with
    | true =>
      rw [addVote_known hseen]
      exact ih seen
    | false =>
      rw [addVote_new hseen]
      obtain ⟨more, hmore⟩ := ih (seen ++ [v])
      exact ⟨v :: more, by rw [hmore, List.append_assoc, List.singleton_append]⟩

/-- **What is collected**, from the order of arrival. -/
theorem arrives_iff {good : Bytes32 → Vote → Bool} {vs : List Vote} :
    ∀ {seen taken : List Vote} {pks : List Bytes32}, Arrives good seen pks vs taken ↔
      vs.foldl addVote seen = seen ++ taken ∧
        List.Forall₂ (fun pk v => good pk v = true) pks taken := by
  induction vs with
  | nil =>
    intro seen taken pks
    rw [List.foldl_nil, List.self_eq_append_right]
    constructor
    · rintro ⟨⟩
      exact ⟨rfl, .nil⟩
    · rintro ⟨rfl, h⟩
      cases h
      exact .done seen
  | cons v vs ih =>
    intro seen taken pks
    rw [List.foldl_cons]
    cases hseen : seen.any fun u => sameValue v.voter u.voter with
    | true =>
      rw [addVote_known hseen, ← ih]
      constructor
      · intro h
        cases h with
        | again known rest => exact rest
        | next unknown signed rest =>
          rw [hseen] at unknown
          cases unknown
      · exact .again hseen
    | false =>
      rw [addVote_new hseen]
      constructor
      · intro h
        cases h with
        | again known rest =>
          rw [hseen] at known
          cases known
        | next unknown signed rest =>
          obtain ⟨hfold, hgood⟩ := ih.mp rest
          refine ⟨?_, .cons signed hgood⟩
          rw [hfold, List.append_assoc, List.singleton_append]
      · rintro ⟨hfold, hgood⟩
        obtain ⟨more, hmore⟩ := prefix_foldl vs (seen ++ [v])
        obtain rfl : taken = v :: more := by
          rw [hfold, List.append_assoc, List.singleton_append] at hmore
          exact List.append_cancel_left hmore
        cases hgood with
        | cons signed hgood => exact .next hseen signed (ih.mpr ⟨hmore, hgood⟩)

/-! ### The amounts -/

section Amounts

variable {env : Env} {c : Contract} {script : Bytes} {o : Offer} {e : Engine}

theorem numberOr_eq (v : Option Json) (d : Int) :
    numberOr v d = if numberOr v 0 = 0 then d else numberOr v 0 := by
  unfold numberOr
  by_cases h : (parseInt (coerceMember v)).getD 0 = 0
  · rw [if_pos h, if_pos h, if_pos rfl]
  · rw [if_neg h, if_neg h, if_neg h]

theorem Published.spendable (h : Published env c script o) :
    o.metadata.spendable = c.makerStakeAmount + c.takerStakeAmount - c.minerFee := by
  have hpos := h.miner_fee_pos
  rw [Metadata.spendable, numberOr_eq o.metadata.miner_fee_sompi 1000000, h.maker_stake,
    h.taker_stake, h.miner_fee, if_neg (by omega)]

/-- The amounts as `settle_dispute` computes them. -/
def dueAmounts (c : Contract) (tx : Tx) : Option Amounts := do
  let spendable ← spendable i64 c tx
  let product ← i64 (spendable * c.oracleFeePct)
  require (1250000000000 ≤ product)
  let brokerFeeAmount ← feeOf i64 spendable c.brokerFeePct
  let oracleFeeAmount ← feeOf i64 spendable c.oracleFeePct
  let afterBroker ← i64 (spendable - brokerFeeAmount)
  let distributableAmount ← i64 (afterBroker - oracleFeeAmount)
  some ⟨distributableAmount, brokerFeeAmount, oracleFeeAmount.tdiv 5⟩

theorem settle_dispute_eq_some {tx : Tx} {sigs : List.Vector Bytes 5} {winner : Int} :
    settle_dispute e i64 c tx sigs winner = some () ↔
      (∀ p ∈ sigs.toList.zip c.oraclePks.toList, e.checkSig tx p.1 p.2 = true) ∧
      (winner = 0 ∨ winner = 1) ∧ tx.inputs.length = 2 ∧ tx.outputs.length = 7 ∧
      ∃ a, dueAmounts c tx = some a ∧ tx.PaysExactly 0 (c.winnerPk winner) a.winnerAmount ∧
        tx.PaysExactly 1 c.brokerPk a.brokerFeeAmount ∧
        requireOutputs tx a.oraclePerSig 2 c.oraclePks.toList = some () := by
  simp only [settle_dispute, dueAmounts, Option.bind_eq_bind, Option.bind_eq_some_iff,
    require_eq_some, requireOutput_eq_some, exists_const, Option.some.injEq]
  constructor
  · rintro ⟨hsigs, hwinner, hin, hout, n, hn, m, hm, hmin, b, hb, f, hf, r, hr, d, hd, h0, h1, h2⟩
    exact ⟨hsigs, hwinner, hin, hout, _, ⟨n, hn, m, hm, hmin, b, hb, f, hf, r, hr, d, hd, rfl⟩,
      h0, h1, h2⟩
  · rintro ⟨hsigs, hwinner, hin, hout, _, ⟨n, hn, m, hm, hmin, b, hb, f, hf, r, hr, d, hd, rfl⟩,
      h0, h1, h2⟩
    exact ⟨hsigs, hwinner, hin, hout, n, hn, m, hm, hmin, b, hb, f, hf, r, hr, d, hd, h0, h1, h2⟩

/-- They depend on the inputs alone. -/
theorem dueAmounts_congr {tx tx' : Tx} (h : tx.inputs = tx'.inputs) :
    dueAmounts c tx = dueAmounts c tx' := by
  simp only [dueAmounts, spendable, Tx.input, h]

theorem dueAmounts_eq {tx : Tx} {u v : Utxo} {a : Amounts} (h : dueAmounts c tx = some a)
    (hin : tx.inputs = [u.input, v.input]) :
    a = amountsOf (u.amount + v.amount - c.minerFee) c.brokerFeePct c.oracleFeePct ∧
      c.oracleFeePct ≠ 0 := by
  simp only [dueAmounts, feeOf, Option.bind_eq_bind, Option.bind_eq_some_iff, require_eq_some,
    exists_const, Option.some.injEq] at h
  obtain ⟨n, hn, m, hm, hmin, b, ⟨pb, hpb, hb⟩, f, ⟨pf, hpf, hf⟩, r, hr, d, hd, rfl⟩ := h
  obtain ⟨in0, in1, h0, h1, rfl⟩ := Escrow.spendable_eq_some hn
  obtain rfl : u.input = in0 := by simpa [Tx.input, atIndex, hin] using h0
  obtain rfl : v.input = in1 := by simpa [Tx.input, atIndex, hin] using h1
  constructor
  · rw [i64_exact _ _ hd, i64_exact _ _ hr, i64_exact _ _ hb, i64_exact _ _ hf, i64_exact _ _ hpb,
      i64_exact _ _ hpf]
    rfl
  · intro hzero
    have hprod := i64_exact _ _ hm
    rw [hzero, mul_zero] at hprod
    omega

/-- Outputs that may be made leave the winner's and the broker's share without the oracles'. -/
theorem amountsOf_nonneg {n b p : Int} (hp : 0 ≤ p ∧ p ≤ 9999)
    (hwinner : 0 ≤ (amountsOf n b p).winnerAmount)
    (hbroker : 0 ≤ (amountsOf n b p).brokerFeeAmount) :
    0 ≤ n ∧ 0 ≤ n - (amountsOf n b p).brokerFeeAmount := by
  simp only [amountsOf] at hwinner hbroker ⊢
  have hn : 0 ≤ n := by
    by_contra hneg
    -- the oracles' part of a negative amount is less negative
    have hlt : n < (n * p).tdiv 10000 := by
      have hflip : (n * p).tdiv 10000 = -(-n * p / 10000) := by
        rw [← Int.tdiv_eq_ediv_of_nonneg (mul_nonneg (by omega) hp.1), neg_mul, Int.neg_tdiv,
          neg_neg]
      have hle : -n * p / 10000 < -n := by
        apply Int.ediv_lt_of_lt_mul (by omega)
        nlinarith
      omega
    omega
  have horacle : 0 ≤ (n * p).tdiv 10000 := Int.tdiv_nonneg (mul_nonneg hn hp.1) (by omega)
  exact ⟨hn, by omega⟩

end Amounts

/-! ### The image -/

section Image

variable {env : Env} {c : Contract} {script : Bytes} {o : Offer} {e : Engine}

/-- An output to a key. -/
def keyOutput (n : Int) (pk : Bytes32) : TxOutput := ⟨n.toNat, ScriptPubKeyP2PK pk, none⟩

theorem transactionOutput_eq_some {addr : String} {n : Int} {pk : Bytes32} {out : Output}
    (h : transactionOutput env (addr, n) = some out)
    (hpk : env.payToAddressScript addr = some (ScriptPubKeyP2PK pk)) :
    out.val = keyOutput n pk ∧ 0 ≤ n := by
  rw [transactionOutput, hpk, Option.bind_some] at h
  split at h
  · next hbound =>
    rw [← Option.some.inj h]
    exact ⟨rfl, hbound.2⟩
  · cases h

theorem transactionOutput_of_bounds {addr : String} {n : Int} {pk : Bytes32} (h : 0 ≤ n)
    (hn : n < 2 ^ 53) (hpk : env.payToAddressScript addr = some (ScriptPubKeyP2PK pk)) :
    ∃ out, transactionOutput env (addr, n) = some out := by
  rw [transactionOutput, hpk, Option.bind_some]
  rw [dif_pos ⟨by omega, h⟩]
  exact ⟨_, rfl⟩

/-- The same amount to one relay after the other. -/
theorem mapM_transactionOutput {n : Int} {ids : List String} {pks : List Bytes32}
    (hpaid : List.Forall₂ (fun id pk => PaidTo env (env.relayAddr id) pk) ids pks) :
    ∀ {outs : List Output},
      ((ids.filterMap env.relayAddr).map fun addr => (addr, n)).mapM (transactionOutput env) =
        some outs →
      outs.map Subtype.val = pks.map (keyOutput n) ∧ (pks = [] ∨ 0 ≤ n) := by
  induction hpaid with
  | nil =>
    intro outs h
    obtain rfl := Option.some.inj h
    exact ⟨rfl, Or.inl rfl⟩
  | @cons id pk ids pks hpk _ ih =>
    intro outs h
    obtain ⟨a, ha, hscript⟩ := hpk
    rw [List.filterMap_cons_some ha, List.map_cons, List.mapM_cons] at h
    simp only [Option.bind_eq_bind, Option.bind_eq_some_iff, Option.pure_def,
      Option.some.injEq] at h
    obtain ⟨out, hout, rest, hrest, rfl⟩ := h
    obtain ⟨hval, hn⟩ := transactionOutput_eq_some hout hscript
    exact ⟨by rw [List.map_cons, List.map_cons, hval, (ih hrest).1], Or.inr hn⟩

/-- What the image of a published offer is. -/
structure IsImage (env : Env) (c : Contract) (o : Offer) (winner : Int) (t : TxObj) : Prop where
  inputs : o.coins env = some t.inputs
  outputs : t.tx.outputs = keyOutput o.metadata.amounts.winnerAmount (c.winnerPk winner) ::
    keyOutput o.metadata.amounts.brokerFeeAmount c.brokerPk ::
    c.oraclePks.toList.map (keyOutput o.metadata.amounts.oraclePerSig)
  winner_nonneg : 0 ≤ o.metadata.amounts.winnerAmount
  broker_nonneg : 0 ≤ o.metadata.amounts.brokerFeeAmount
  oracle_nonneg : 0 ≤ o.metadata.amounts.oraclePerSig

theorem Published.winner (h : Published env c script o) (winner : Int) :
    PaidTo env (o.winnerAddr winner) (c.winnerPk winner) := by
  unfold Offer.winnerAddr Contract.winnerPk
  split
  · exact h.maker
  · exact h.taker

theorem Published.isImage (h : Published env c script o) {winner : Int} {t : TxObj}
    (himage : o.image env winner = some t) : IsImage env c o winner t := by
  obtain ⟨w, hw, hwpk⟩ := h.winner winner
  obtain ⟨b, hb, hbpk⟩ := h.broker
  simp only [Offer.image, Offer.outputs, buildSettleTxPreimage, hw, hb, Option.bind_eq_bind,
    Option.bind_some, Option.bind_eq_some_iff, require_eq_some, Option.some.injEq,
    exists_const] at himage
  obtain ⟨outputs, ⟨-, rfl⟩, inputs, hinputs, outs, houts, rfl⟩ := himage
  rw [List.mapM_cons, List.mapM_cons] at houts
  simp only [Option.bind_eq_bind, Option.bind_eq_some_iff, Option.pure_def,
    Option.some.injEq] at houts
  obtain ⟨out0, h0, _, ⟨out1, h1, rest, hrest, rfl⟩, rfl⟩ := houts
  obtain ⟨hval0, hn0⟩ := transactionOutput_eq_some h0 hwpk
  obtain ⟨hval1, hn1⟩ := transactionOutput_eq_some h1 hbpk
  obtain ⟨hvals, hn⟩ := mapM_transactionOutput h.oracles hrest
  refine ⟨hinputs, ?_, hn0, hn1, hn.resolve_left ?_⟩
  · show (out0 :: out1 :: rest).map Subtype.val = _
    rw [List.map_cons, List.map_cons, hval0, hval1, hvals]
  · intro hnil
    have hlen := c.oraclePks.toList_length
    rw [hnil] at hlen
    cases hlen

theorem paysExactly_iff {tx : Tx} {i : Int} {pk : Bytes32} {m n : Int}
    (h : tx.output i = some (keyOutput n pk)) (hn : 0 ≤ n) : tx.PaysExactly i pk m ↔ n = m := by
  unfold Tx.PaysExactly
  rw [h]
  constructor
  · rintro ⟨out, hout, -, rfl⟩
    rw [← Option.some.inj hout, keyOutput, Int.toNat_of_nonneg hn]
  · rintro rfl
    exact ⟨_, rfl, rfl, Int.toNat_of_nonneg hn⟩

theorem requireOutputs_iff {tx : Tx} {m n : Int} (hn : 0 ≤ n) {pks : List Bytes32} :
    ∀ {i : Int}, (∀ (j : Nat) pk, pks[j]? = some pk → tx.output (i + j) = some (keyOutput n pk)) →
      (requireOutputs tx m i pks = some () ↔ pks = [] ∨ n = m) := by
  induction pks with
  | nil => exact fun _ => ⟨fun _ => Or.inl rfl, fun _ => rfl⟩
  | cons pk pks ih =>
    intro i h
    have hhead : tx.output i = some (keyOutput n pk) := by
      have := h 0 pk rfl
      rwa [Nat.cast_zero, add_zero] at this
    have htail : ∀ (j : Nat) pk', pks[j]? = some pk' →
        tx.output (i + 1 + j) = some (keyOutput n pk') := by
      intro j pk' hj
      have := h (j + 1) pk' hj
      rwa [Nat.cast_add, Nat.cast_one, add_comm (j : Int) 1, ← add_assoc] at this
    simp only [requireOutputs, Option.bind_eq_bind, Option.bind_eq_some_iff,
      requireOutput_eq_some, exists_const, ih htail, paysExactly_iff hhead hn]
    constructor
    · exact fun h => Or.inr h.1
    · rintro (hnil | heq)
      · cases hnil
      · exact ⟨heq, Or.inr heq⟩

/-- **When the script lets the image through**: the signatures are good, and the coins and the
metadata come to the same amounts. -/
theorem Offer.settle_dispute_iff {winner : Int} {t : TxObj} {sigs : List.Vector Bytes 5}
    (himage : IsImage env c o winner t) (hvalid : Settleable env c o)
    (hwinner : winner = 0 ∨ winner = 1) :
    settle_dispute e i64 c t.tx sigs winner = some () ↔
      (∀ p ∈ sigs.toList.zip c.oraclePks.toList, e.checkSig t.tx p.1 p.2 = true) ∧
        AmountsAgree env c o := by
  obtain ⟨u, v, e', tx', sigs', winner', hcoins, htx', hsettle⟩ := hvalid
  obtain ⟨-, -, -, -, a, ha, -⟩ := settle_dispute_eq_some.mp hsettle
  have hin : t.inputs = [u, v] := by
    have := himage.inputs
    rw [hcoins] at this
    exact (Option.some.inj this).symm
  have hinputs : t.tx.inputs = [u.input, v.input] := by
    show t.inputs.map Utxo.input = _
    rw [hin]
    rfl
  have hdue : dueAmounts c t.tx = some a := by
    rw [dueAmounts_congr (hinputs.trans htx'.symm), ha]
  obtain ⟨hamounts, -⟩ := dueAmounts_eq hdue hinputs
  have hout := himage.outputs
  have hlen : t.tx.outputs.length = 7 := by
    rw [hout, List.length_cons, List.length_cons, List.length_map, c.oraclePks.toList_length]
  have h0 : t.tx.output 0 =
      some (keyOutput o.metadata.amounts.winnerAmount (c.winnerPk winner)) := by
    rw [Tx.output, hout]
    rfl
  have h1 : t.tx.output 1 = some (keyOutput o.metadata.amounts.brokerFeeAmount c.brokerPk) := by
    rw [Tx.output, hout]
    rfl
  have h2 : ∀ (j : Nat) pk, c.oraclePks.toList[j]? = some pk →
      t.tx.output (2 + j) = some (keyOutput o.metadata.amounts.oraclePerSig pk) := by
    intro j pk hj
    have hcast : (2 + j : Int) = ((j + 2 : Nat) : Int) := by omega
    rw [Tx.output, hout, hcast, atIndex_natCast, List.getElem?_cons_succ, List.getElem?_cons_succ,
      List.getElem?_map, hj, Option.map_some]
  have hne : c.oraclePks.toList ≠ [] := by
    intro hnil
    have := c.oraclePks.toList_length
    rw [hnil] at this
    cases this
  rw [settle_dispute_eq_some]
  constructor
  · rintro ⟨hsigs, -, -, -, a', ha', hp0, hp1, hp2⟩
    rw [hdue] at ha'
    obtain rfl := Option.some.inj ha'
    rw [paysExactly_iff h0 himage.winner_nonneg] at hp0
    rw [paysExactly_iff h1 himage.broker_nonneg] at hp1
    rw [requireOutputs_iff himage.oracle_nonneg h2] at hp2
    refine ⟨hsigs, u, v, hcoins, ?_⟩
    rw [← hamounts]
    obtain ⟨w, b, p⟩ := a
    rw [← show o.metadata.amounts.winnerAmount = w from hp0,
      ← show o.metadata.amounts.brokerFeeAmount = b from hp1,
      ← show o.metadata.amounts.oraclePerSig = p from hp2.resolve_left hne]
  · rintro ⟨hsigs, u', v', hcoins', hagree⟩
    rw [hcoins] at hcoins'
    obtain ⟨rfl, hcons⟩ := List.cons.inj (Option.some.inj hcoins')
    obtain ⟨rfl, -⟩ := List.cons.inj hcons
    rw [← hamounts] at hagree
    refine ⟨hsigs, hwinner, by rw [hinputs]; rfl, hlen, a, hdue, ?_, ?_, ?_⟩
    · rw [paysExactly_iff h0 himage.winner_nonneg, hagree]
    · rw [paysExactly_iff h1 himage.broker_nonneg, hagree]
    · rw [requireOutputs_iff himage.oracle_nonneg h2, hagree]
      exact Or.inr rfl

end Image

/-! ### The scripts -/

section Scripts

variable {e : Engine} {tx : Tx}

theorem pushedSig_eq_some {s : Option Json} {sig : Bytes} (h : pushedSig s = some sig) :
    ∃ bs, readHex (joinText s) = some bs ∧ readPush bs = some (sig, []) := by
  simp only [pushedSig, Option.bind_eq_bind, Option.bind_eq_some_iff,
    Option.ite_none_right_eq_some, Option.some.injEq] at h
  obtain ⟨bs, hbs, ⟨sig', rest⟩, hread, rfl, rfl⟩ := h
  exact ⟨bs, hbs, hread⟩

theorem exists_sigs {pks : List Bytes32} {ss : List (Option Json)}
    (h : List.Forall₂ (fun pk s => carries e tx pk s = true) pks ss) :
    ∃ sigs : List Bytes, List.Forall₂ (fun s sig => pushedSig s = some sig) ss sigs ∧
      List.Forall₂ (fun sig pk => e.checkSig tx sig pk = true) sigs pks := by
  induction h with
  | nil => exact ⟨[], .nil, .nil⟩
  | cons hcarries _ ih =>
    obtain ⟨sigs, hpushed, hchecks⟩ := ih
    obtain ⟨sig, hsig, hcheck⟩ := Option.any_eq_true _ _ |>.mp hcarries
    exact ⟨sig :: sigs, .cons hsig hpushed, .cons hcheck hchecks⟩

theorem readHex_sigs {ss : List (Option Json)} {sigs : List Bytes}
    (h : List.Forall₂ (fun s sig => pushedSig s = some sig) ss sigs) :
    ∃ pushes : List Bytes, readHex (ss.flatMap joinText) = some pushes.flatten ∧
      List.Forall₂ (fun bs item => readPush bs = some (item, [])) pushes sigs := by
  induction h with
  | nil => exact ⟨[], rfl, .nil⟩
  | cons hsig _ ih =>
    obtain ⟨pushes, hread, hpushes⟩ := ih
    obtain ⟨bs, hbs, hpush⟩ := pushedSig_eq_some hsig
    refine ⟨bs :: pushes, ?_, .cons hpush hpushes⟩
    rw [List.flatMap_cons, List.flatten_cons]
    exact readHex_append hbs hread

/-- **What the script of an input leaves on the stack**: the signatures in the order they were
joined, the winner, the entry and the contract. -/
theorem readPushes_assembleScriptSig {ss : List (Option Json)} {sigs : List Bytes} {winner : Int}
    {script redeemPush : Bytes} (h : List.Forall₂ (fun s sig => pushedSig s = some sig) ss sigs)
    (hwinner : winner = 0 ∨ winner = 1) (hpush : encodePush script = some redeemPush) :
    ∃ bs, readHex (assembleScriptSig ss winner redeemPush) = some bs ∧
      readPushes bs.length bs = some (sigs ++ [numberPush winner, numberPush 0, script]) := by
  obtain ⟨pushes, hread, hpushes⟩ := readHex_sigs h
  have hop : readHex (if winner = 0 then "00".toList else "51".toList) =
      some (if winner = 0 then [0x00] else [0x51]) := by
    rcases hwinner with rfl | rfl
    · decide
    · decide
  have hselector : readHex "00".toList = some [0x00] := by decide
  have hrest : List.Forall₂ (fun bs item => readPush bs = some (item, []))
      [if winner = 0 then [0x00] else [0x51], [0x00], redeemPush]
      [numberPush winner, numberPush 0, script] :=
    .cons (readPush_numberPush hwinner) (.cons rfl (.cons (readPush_encodePush hpush) .nil))
  have hall := List.rel_append hpushes hrest
  refine ⟨_, readHex_append hread (readHex_append hop
    (readHex_append hselector (readHex_toHex redeemPush))), ?_⟩
  have hflat : (pushes ++ [if winner = 0 then [0x00] else [0x51], [0x00], redeemPush]).flatten =
      pushes.flatten ++ ((if winner = 0 then [0x00] else [0x51]) ++ ([0x00] ++ redeemPush)) := by
    rw [List.flatten_append]
    simp only [List.flatten_cons, List.flatten_nil, List.append_nil]
  rw [← hflat]
  exact readPushes_flatten hall (length_le_flatten hall)

end Scripts

/-! ### One call -/

section Call

variable {e : Nat → Engine} {env : Env} {c : Contract} {script : Bytes} {s : Sys}

/-- The offer waits for the signatures of its image. -/
structure Dispatched (env : Env) (o : Offer) (winner : Int) (t : TxObj) : Prop where
  winner_eq : winner = 0 ∨ winner = 1
  phase2_winner : o.metadata.phase2_winner = some winner
  phase2_tx_obj : o.metadata.phase2_tx_obj = some t
  image : o.image env winner = some t

/-- The two outputs that are given along with the image, and not used, are outputs. -/
theorem Published.spare_outputs {o : Offer} {winner : Int} {t : TxObj}
    (h : Published env c script o) (himage : IsImage env c o winner t) {w b : String}
    (hw : env.payToAddressScript w = some (ScriptPubKeyP2PK (c.winnerPk winner)))
    (hb : env.payToAddressScript b = some (ScriptPubKeyP2PK c.brokerPk)) :
    ∃ outs, [(w, o.metadata.spendable -
        (o.metadata.spendable * numberOr o.metadata.broker_fee_pct 0).tdiv 10000),
      (b, (o.metadata.spendable * numberOr o.metadata.broker_fee_pct 0).tdiv 10000)].mapM
        (transactionOutput env) = some outs := by
  have hpct : 0 ≤ numberOr o.metadata.oracle_fee_pct 100 ∧
      numberOr o.metadata.oracle_fee_pct 100 ≤ 9999 := by
    have hbounds := c.oracleFeePct_bounds
    rw [numberOr_eq, h.oracle_fee]
    split
    · omega
    · exact hbounds
  obtain ⟨hn, hrest⟩ := amountsOf_nonneg hpct himage.winner_nonneg himage.broker_nonneg
  have hbroker := himage.broker_nonneg
  simp only [Metadata.amounts, amountsOf] at hrest hbroker
  have hsafe := h.stakes_safe
  have hfee := h.miner_fee_pos
  have hsum := h.spendable
  obtain ⟨out0, h0⟩ := transactionOutput_of_bounds hrest (by omega) hw
  obtain ⟨out1, h1⟩ := transactionOutput_of_bounds hbroker (by omega) hb
  exact ⟨[out0, out1], by simp only [List.mapM_cons, List.mapM_nil, h0, h1, Option.bind_eq_bind,
    Option.bind_some, Option.pure_def]⟩

/-- **What is submitted**, for a dispatched image: it with the collected signatures, if there are
five for each input and the relay's checks pass. -/
theorem submission_eq_some {winner : Int} {t : TxObj} {redeemPush : Bytes} {sub : Submission}
    (h : Published env c script s.offer) (hd : Dispatched env s.offer winner t)
    (hpush : encodePush script = some redeemPush) :
    submission env s.chain_events s.offer = some sub ↔
      (∀ i < 2, (sigsOf s.chain_events s.offer i).length = 5) ∧
      assertTxInvariants t.inputs t (env.calculateTransactionMass t
        [assembleScriptSig (sigsOf s.chain_events s.offer 0) winner redeemPush,
          assembleScriptSig (sigsOf s.chain_events s.offer 1) winner redeemPush]) = some () ∧
      sub = ⟨[sigsOf s.chain_events s.offer 0, sigsOf s.chain_events s.offer 1], t,
        [assembleScriptSig (sigsOf s.chain_events s.offer 0) winner redeemPush,
          assembleScriptSig (sigsOf s.chain_events s.offer 1) winner redeemPush]⟩ := by
  have himage := h.isImage hd.image
  obtain ⟨w, hw, hwpk⟩ := h.winner winner
  obtain ⟨b, hb, hbpk⟩ := h.broker
  obtain ⟨outs, houts⟩ := h.spare_outputs himage hwpk hbpk
  have hcoins : s.offer.locks.mapM (matchLock (env.utxos s.offer.escrow_p2sh)) = some t.inputs :=
    himage.inputs
  have htwo : ∀ p : Nat → Prop, (∀ i < 2, p i) ↔ p 0 ∧ p 1 := by
    intro p
    constructor
    · exact fun hp => ⟨hp 0 (by omega), hp 1 (by omega)⟩
    · rintro ⟨h0, h1⟩ i hi
      obtain rfl | rfl : i = 0 ∨ i = 1 := by omega
      · exact h0
      · exact h1
  simp only [submission, unlockP2SHMultiSig, hd.phase2_winner, hd.phase2_tx_obj, hw, hb, hcoins,
    houts, h.redeem, hpush, Option.bind_eq_bind, Option.bind_some, Option.getD_some,
    require_eq_some, List.forall_mem_cons, List.map_cons, List.map_nil, hd.winner_eq,
    Option.bind_eq_some_iff, Option.some.injEq, exists_const, htwo]
  constructor
  · rintro ⟨-, -, -, -, ⟨h0, h1, -⟩, -, u, hassert, rfl⟩
    exact ⟨⟨h0, h1⟩, hassert, rfl⟩
  · rintro ⟨⟨h0, h1⟩, hassert, rfl⟩
    exact ⟨⟨by omega, by omega, List.forall_mem_nil _⟩, rfl, rfl, rfl,
      ⟨h0, h1, List.forall_mem_nil _⟩, trivial, (), hassert, rfl⟩

/-- The script of an input whose signatures are in their slots. -/
theorem accepted_of_slots {winner : Int} {t : TxObj} {redeemPush : Bytes} {i : Nat}
    {sub : Submission} {ss : List (Option Json)} {e : Engine}
    (himage : IsImage env c s.offer winner t) (hvalid : Settleable env c s.offer)
    (hwinner : winner = 0 ∨ winner = 1) (hagree : AmountsAgree env c s.offer)
    (hpush : encodePush script = some redeemPush) (htx : sub.txObj = t)
    (htext : sub.scriptSigs[i]? = some (assembleScriptSig ss winner redeemPush))
    (hslots : List.Forall₂ (fun pk s => carries e t.tx pk s = true) c.oraclePks.toList ss) :
    sub.Accepted e c script winner i := by
  obtain ⟨sigs, hpushed, hchecks⟩ := exists_sigs hslots
  obtain ⟨bs, hread, hstack⟩ := readPushes_assembleScriptSig hpushed hwinner hpush
  have hlen : sigs.length = 5 := by
    rw [hchecks.length_eq]
    exact c.oraclePks.toList_length
  refine ⟨_, bs, ⟨sigs, hlen⟩, htext, hread, hstack, ?_⟩
  rw [htx]
  exact (Offer.settle_dispute_iff himage hvalid hwinner).mpr
    ⟨fun p hp => (List.forall₂_iff_zip.mp hchecks).2 hp, hagree⟩

/-- **When a call settles.** -/
theorem settles_iff {winner : Int} {t : TxObj} (h : Published env c script s.offer)
    (hvalid : Settleable env c s.offer) (hd : Dispatched env s.offer winner t) :
    s.Settles e env c script ↔ s.InTurn e env c script := by
  have himage := h.isImage hd.image
  obtain ⟨redeemPush, hpush⟩ := encodePush_of_short h.redeem_short
  have hslots : ∀ i, List.Forall₂ (fun pk v => carries (e i) t.tx pk v.outcome = true)
      c.oraclePks.toList ((countedSigs s.chain_events s.offer i).foldl addVote []) ↔
        List.Forall₂ (fun pk s => carries (e i) t.tx pk s = true) c.oraclePks.toList
          (sigsOf s.chain_events s.offer i) := by
    intro i
    rw [sigsOf, List.forall₂_map_right_iff]
  constructor
  · rintro ⟨winner', t', sub, hwinner', ht', hsub, hsettles⟩
    rw [hd.phase2_winner] at hwinner'
    rw [hd.phase2_tx_obj] at ht'
    obtain rfl := Option.some.inj hwinner'
    obtain rfl := Option.some.inj ht'
    obtain ⟨hfive, hassert, rfl⟩ := (submission_eq_some h hd hpush).mp hsub
    obtain ⟨_, _, sigs, -, -, -, haccepted⟩ := hsettles.accepted 0 (by omega)
    have hagree := ((Offer.settle_dispute_iff himage hvalid hd.winner_eq).mp haccepted).2
    exact ⟨t, winner, redeemPush, _, _, hd.phase2_tx_obj, hd.phase2_winner, hpush, hagree,
      arrives_iff.mpr ⟨rfl, (hslots 0).mpr (hsettles.slots 0 (by omega))⟩,
      arrives_iff.mpr ⟨rfl, (hslots 1).mpr (hsettles.slots 1 (by omega))⟩, hassert⟩
  · rintro ⟨t', winner', redeemPush', taken₀, taken₁, ht', hwinner', hpush', hagree, harr₀, harr₁,
      hassert⟩
    rw [hd.phase2_winner] at hwinner'
    rw [hd.phase2_tx_obj] at ht'
    rw [hpush] at hpush'
    obtain rfl := Option.some.inj hwinner'
    obtain rfl := Option.some.inj ht'
    obtain rfl := Option.some.inj hpush'
    obtain ⟨hfold₀, hgood₀⟩ := arrives_iff.mp harr₀
    obtain ⟨hfold₁, hgood₁⟩ := arrives_iff.mp harr₁
    rw [List.nil_append] at hfold₀ hfold₁
    rw [← hfold₀] at hgood₀ hassert
    rw [← hfold₁] at hgood₁ hassert
    have hin₀ := (hslots 0).mp hgood₀
    have hin₁ := (hslots 1).mp hgood₁
    have hfive : ∀ i < 2, (sigsOf s.chain_events s.offer i).length = 5 := by
      intro i hi
      obtain rfl | rfl : i = 0 ∨ i = 1 := by omega
      · rw [← hin₀.length_eq, c.oraclePks.toList_length]
      · rw [← hin₁.length_eq, c.oraclePks.toList_length]
    refine ⟨winner, t, _, hd.phase2_winner, hd.phase2_tx_obj,
      (submission_eq_some h hd hpush).mpr ⟨hfive, hassert, rfl⟩, rfl, ?_, ?_⟩
    · intro i hi
      obtain rfl | rfl : i = 0 ∨ i = 1 := by omega
      · exact hin₀
      · exact hin₁
    · intro i hi
      obtain rfl | rfl : i = 0 ∨ i = 1 := by omega
      · exact accepted_of_slots himage hvalid hd.winner_eq hagree hpush rfl rfl hin₀
      · exact accepted_of_slots himage hvalid hd.winner_eq hagree hpush rfl rfl hin₁

end Call

/-! ### Over a run -/

section Runs

variable {e : Nat → Engine} {env : Env} {c : Contract} {script : Bytes} {s s₀ : Sys}
  {evs : List Event}

/-- The offer stays as it was published, and while signatures are collected it has its image. -/
structure Kept (env : Env) (c : Contract) (script : Bytes) (o : Offer) : Prop where
  published : Published env c script o
  settleable : Settleable env c o
  dispatched : o.protocol_status = .collecting_sigs → ∃ winner t, Dispatched env o winner t

theorem winnerOf_eq_some {winnerStr : String} {winner : Int}
    (h : winnerOf winnerStr = some winner) : winner = 0 ∨ winner = 1 := by
  unfold winnerOf at h
  split at h
  · exact Or.inl (Option.some.inj h).symm
  · split at h
    · exact Or.inr (Option.some.inj h).symm
    · cases h

/-- What a call makes of the offer. -/
theorem dispatchPhase2OrCheckSigs_cases {events : List ChainEvent} {o o' : Offer}
    {winnerStr : String} (h : dispatchPhase2OrCheckSigs env events o winnerStr = some o') :
    (∃ winner t, (winner = 0 ∨ winner = 1) ∧ o.image env winner = some t ∧
      o' = o.dispatched winner t) ∨ ∃ txId, o' = o.completed txId := by
  simp only [dispatchPhase2OrCheckSigs, Option.bind_eq_bind, Option.bind_eq_some_iff] at h
  obtain ⟨winner, hwinner, h⟩ := h
  cases hstatus : o.protocol_status with
  | verifying =>
    rw [hstatus] at h
    obtain ⟨t, ht, rfl⟩ := Option.map_eq_some_iff.mp h
    exact Or.inl ⟨winner, t, winnerOf_eq_some hwinner, ht, rfl⟩
  | collecting_sigs =>
    rw [hstatus] at h
    obtain ⟨sub, -, hsub⟩ := Option.bind_eq_some_iff.mp h
    obtain ⟨txId, -, rfl⟩ := Option.map_eq_some_iff.mp hsub
    exact Or.inr ⟨txId, rfl⟩
  | completed =>
    rw [hstatus] at h
    cases h

/-- **The step lemma.** -/
theorem kept_step (ev : Event) (h : Kept env c script s.offer) :
    Kept env c script (step env s ev).offer := by
  obtain ⟨hpub, hvalid, hdisp⟩ := h
  cases ev with
  | row ev => exact ⟨hpub, hvalid, hdisp⟩
  | revote =>
    refine ⟨{ hpub with }, hvalid, fun hstatus => ?_⟩
    obtain ⟨winner, t, hd⟩ := hdisp hstatus
    exact ⟨winner, t, { hd with }⟩
  | call winnerStr =>
    cases hcall : dispatchPhase2OrCheckSigs env s.chain_events s.offer winnerStr with
    | none =>
      rw [step, hcall]
      exact ⟨hpub, hvalid, hdisp⟩
    | some o' =>
      rw [step, hcall]
      rcases dispatchPhase2OrCheckSigs_cases hcall with ⟨winner, t, hwinner, ht, rfl⟩ | ⟨txId, rfl⟩
      · exact ⟨{ hpub with }, hvalid, fun _ => ⟨winner, t, hwinner, rfl, rfl, ht⟩⟩
      · exact ⟨{ hpub with }, hvalid, nofun⟩

theorem kept_of_run (h : Run (Step env) s₀ evs s) (hs : Kept env c script s₀.offer) :
    Kept env c script s.offer := by
  refine @Run.invariant _ _ _ (fun m => Kept env c script m.offer) ?_ _ _ _ h hs
  rintro m ev m' hm rfl
  exact kept_step ev hm

/-- **When the calls settle.**  In a run for a published offer that the covenant can settle, every
call that finds the genuine signatures settles, exactly if every such call finds the rows in the
order of the oracles. -/
theorem settled_run (hpub : Published env c script s₀.offer)
    (hnew : s₀.offer.protocol_status = .verifying) (hvalid : Settleable env c s₀.offer)
    (evs : List Event) :
    (∀ pre winnerStr post, evs = pre ++ .call winnerStr :: post → ∀ m, Run (Step env) s₀ pre m →
      m.Due e c winnerStr → m.Settles e env c script) ↔
    ∀ pre winnerStr post, evs = pre ++ .call winnerStr :: post → ∀ m, Run (Step env) s₀ pre m →
      m.Due e c winnerStr → m.InTurn e env c script := by
  have hkept : Kept env c script s₀.offer := by
    refine ⟨hpub, hvalid, fun hstatus => ?_⟩
    rw [hnew] at hstatus
    cases hstatus
  have hiff : ∀ {pre m winnerStr}, Run (Step env) s₀ pre m → m.Due e c winnerStr →
      (m.Settles e env c script ↔ m.InTurn e env c script) := by
    intro pre m winnerStr hrun hdue
    have hm := kept_of_run hrun hkept
    obtain ⟨winner, t, hd⟩ := hm.dispatched hdue.status
    exact settles_iff hm.published hm.settleable hd
  constructor
  · intro h pre winnerStr post hevs m hrun hdue
    exact (hiff hrun hdue).mp (h pre winnerStr post hevs m hrun hdue)
  · intro h pre winnerStr post hevs m hrun hdue
    exact (hiff hrun hdue).mpr (h pre winnerStr post hevs m hrun hdue)

end Runs

/-! ### Two orders of arrival -/

/-- Two stakes of a hundred. -/
def sampleContract : Contract :=
  { Escrow.pair with
    makerStakeAmount := 10000000000
    takerStakeAmount := 10000000000
    makerStake_pos := by decide
    takerStake_pos := by decide }

/-- A key signs with its first byte. -/
def shortEngine : Engine where
  blake2b := sampleHash
  sha256 := sampleHash
  checkSig _ sig pk := sig = pk.toList.take 1

def sampleCoin (transactionId : String) : Utxo where
  transactionId := transactionId
  index := 0
  amount := 10000000000
  scriptPublicKey := ScriptPubKeyP2SH (samplePk 9)
  amount_bounded := by decide

def sampleEnv : Env where
  address id := [("b", "kaspa:b"), ("1", "kaspa:1"), ("2", "kaspa:2"), ("3", "kaspa:3"),
    ("4", "kaspa:4"), ("5", "kaspa:5")].lookup id
  payToAddressScript a := ([("kaspa:m", samplePk 0), ("kaspa:t", samplePk 1),
    ("kaspa:b", samplePk 2), ("kaspa:1", samplePk 3), ("kaspa:2", samplePk 4),
    ("kaspa:3", samplePk 5), ("kaspa:4", samplePk 6), ("kaspa:5", samplePk 7)].lookup a).map
      ScriptPubKeyP2PK
  utxos _ := [sampleCoin "lm", sampleCoin "lt"]
  calculateTransactionMass _ _ := some 9000
  submitTransaction _ _ := some "tx"

def sampleOffer : Offer where
  id := "o"
  maker_kaspa_addr := some "kaspa:m"
  outcome_oracle_relay_ids := List.Vector.ofFn fun i => ["1", "2", "3", "4", "5"].getD i ""
  revote_round := 0
  taker := some "kaspa:t"
  escrow_p2sh := "kaspa:p"
  broadcast_tx_id := "lm"
  taker_escrow_lock_tx := "lt"
  metadata :=
    { maker_stake_sompi := some (.num 10000000000)
      taker_stake_sompi := some (.num 10000000000)
      miner_fee_sompi := some (.num 1000000)
      broker_fee_pct := some (.num 100)
      oracle_fee_pct := some (.num 100)
      broker_relay_id := some "b"
      redeem_script_hex := "51".toList
      phase2_tx_obj := none
      phase2_winner := none }
  protocol_status := .verifying
  settle_txid := none

def sampleSig (voter signature : String) (input : Int) : Json :=
  .obj [("t", .str "kanet_oracle_tx_sign_resp_v1"), ("offer_id", .str "o"),
    ("voter_relay_id", .str voter), ("revote_round", .num 0), ("winner", .num 0),
    ("input_index", .num input), ("signature", .str signature)]

def sampleRow (voter signature : String) (input : Int) : Event :=
  .row ⟨"oracle_tx_sig", some "kaspa:m", some ⟨(sampleSig voter signature input).text,
    some (sampleSig voter signature input)⟩⟩

/-- An oracle signs both inputs. -/
def sampleRows (voter signature : String) : List Event :=
  [sampleRow voter signature 0, sampleRow voter signature 1]

/-- The image is dispatched, and the oracles sign in the order of the offer. -/
def inOrder : List Event :=
  .call "YES" :: (sampleRows "1" "0104" ++ sampleRows "2" "0105" ++ sampleRows "3" "0106" ++
    sampleRows "4" "0107" ++ sampleRows "5" "0108")

/-- The second oracle is faster than the first. -/
def secondFirst : List Event :=
  .call "YES" :: (sampleRows "2" "0105" ++ sampleRows "1" "0104" ++ sampleRows "3" "0106" ++
    sampleRows "4" "0107" ++ sampleRows "5" "0108")

def sampleSys : Sys := ⟨sampleOffer, []⟩

def after (evs : List Event) : Sys := evs.foldl (step sampleEnv) sampleSys

theorem run_foldl (env : Env) (evs : List Event) :
    ∀ s, Run (Step env) s evs (evs.foldl (step env) s) := by
  induction evs with
  | nil => exact fun s => .nil s
  | cons ev evs ih => exact fun s => .cons rfl (ih _)

theorem sample_published : Published sampleEnv sampleContract [0x51] sampleOffer where
  maker_stake := by decide +kernel
  taker_stake := by decide +kernel
  miner_fee := by decide +kernel
  broker_fee := by decide +kernel
  oracle_fee := by decide +kernel
  miner_fee_pos := by decide
  stakes_safe := by decide
  maker := ⟨"kaspa:m", by decide, by decide⟩
  taker := ⟨"kaspa:t", by decide, by decide⟩
  broker := ⟨"kaspa:b", by decide, by decide⟩
  oracles := .cons ⟨"kaspa:1", by decide, by decide⟩ (.cons ⟨"kaspa:2", by decide, by decide⟩
    (.cons ⟨"kaspa:3", by decide, by decide⟩ (.cons ⟨"kaspa:4", by decide, by decide⟩
      (.cons ⟨"kaspa:5", by decide, by decide⟩ .nil))))
  redeem := by decide
  redeem_short := by decide

def sampleSettlement : Tx where
  inputs := [(sampleCoin "lm").input, (sampleCoin "lt").input]
  outputs := keyOutput 19599020000 (samplePk 0) :: keyOutput 199990000 (samplePk 2) ::
    [samplePk 3, samplePk 4, samplePk 5, samplePk 6, samplePk 7].map (keyOutput 39998000)
  lockTime := 0

theorem sample_settleable : Settleable sampleEnv sampleContract sampleOffer :=
  ⟨sampleCoin "lm", sampleCoin "lt", shortEngine, sampleSettlement,
    List.Vector.ofFn fun i => [UInt8.ofNat (i + 4)], 0, rfl, rfl, by decide +kernel⟩

theorem settled_run_inOrder :
    (∀ pre winnerStr post, inOrder ++ [.call "YES"] = pre ++ .call winnerStr :: post →
      ∀ m, Run (Step sampleEnv) sampleSys pre m → m.Due (fun _ => shortEngine) sampleContract
        winnerStr → m.Settles (fun _ => shortEngine) sampleEnv sampleContract [0x51]) ↔
    ∀ pre winnerStr post, inOrder ++ [.call "YES"] = pre ++ .call winnerStr :: post →
      ∀ m, Run (Step sampleEnv) sampleSys pre m → m.Due (fun _ => shortEngine) sampleContract
        winnerStr → m.InTurn (fun _ => shortEngine) sampleEnv sampleContract [0x51] :=
  settled_run sample_published rfl sample_settleable _

/-- What the rows of an input come to. -/
theorem stored_of_all {t : TxObj} {s : Sys} (ht : s.offer.metadata.phase2_tx_obj = some t)
    (h : ∀ i < 2, ∀ p ∈ s.offer.outcome_oracle_relay_ids.toList.zip sampleContract.oraclePks.toList,
      ((countedSigs s.chain_events s.offer i).any fun v =>
        sameValue (some (.str p.1)) v.voter && carries shortEngine sampleSettlement p.2 v.outcome) =
          true) : s.Stored (fun _ => shortEngine) sampleContract := by
  refine ⟨t, ht, fun i hi p hp => ?_⟩
  obtain ⟨v, hv, hgood⟩ := List.any_eq_true.mp (h i hi p hp)
  rw [Bool.and_eq_true] at hgood
  exact ⟨v, hv, Oracles.sameValue_str.mp hgood.1, hgood.2⟩

/-- **Five good signatures, and no settlement**: the second oracle's is in the first one's slot. -/
theorem secondFirst_refused : Run (Step sampleEnv) sampleSys secondFirst (after secondFirst) ∧
    (after secondFirst).Due (fun _ => shortEngine) sampleContract "YES" ∧
    ¬ (after secondFirst).Settles (fun _ => shortEngine) sampleEnv sampleContract [0x51] := by
  have hkept : Kept sampleEnv sampleContract [0x51] (after secondFirst).offer :=
    kept_of_run (run_foldl _ secondFirst sampleSys)
      ⟨sample_published, sample_settleable, nofun⟩
  have hstatus : (after secondFirst).offer.protocol_status = .collecting_sigs := by decide +kernel
  obtain ⟨winner, t, hd⟩ := hkept.dispatched hstatus
  refine ⟨run_foldl _ _ _, ⟨hstatus, by decide, stored_of_all hd.phase2_tx_obj ?_⟩, ?_⟩
  · decide +kernel
  · rw [settles_iff hkept.published hkept.settleable hd]
    rintro ⟨t', _, _, taken, _, _, _, _, _, harrives, _, _⟩
    obtain ⟨hfold, hgood⟩ := arrives_iff.mp harrives
    rw [List.nil_append] at hfold
    rw [← hfold] at hgood
    have hfirst : ∀ pv ∈ sampleContract.oraclePks.toList.zip
        ((countedSigs (after secondFirst).chain_events (after secondFirst).offer 0).foldl
          addVote []), carries shortEngine sampleSettlement pv.1 pv.2.outcome = true :=
      fun pv hpv => (List.forall₂_iff_zip.mp hgood).2 hpv
    exact absurd hfirst (by decide +kernel)

end KANet.Predict.Settlement
