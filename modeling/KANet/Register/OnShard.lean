import KANet.Register.ShardAllocator
import KANet.Settle.MarketCommit
import KANet.Lib.Runs
import Mathlib.Data.List.Infix

/-!
# Bets on the shards of a market

A client's bet is registered in steps: the shard is chosen, the stake is sent to the gateway, the
relay appends the bet to the leaf of the shard, the console waits until it has landed, writes the
bettor's row and then the shard's.  Where no shard has room an empty one is opened first.  Between
two steps other clients go on.

The registrations of one market wait for one another.  What the console looked at before a bet was
put in line may be out of date when its turn comes.

* `step` — one step of the market: of a client, of the line, or of the registration whose turn
  it is.
* `Inv` — what the rows say about the registrations that went through.
* `shards_account` — the account of the shards in every state that is reached.
-/

namespace KANet.Register

open KANet.Lib KANet.Script KANet.Covenant

/-! ### A registration -/

/-- What a client asks for.  Who confirms a payment names it; who bets directly does not. -/
structure Request where
  bettorPk : Bytes32
  direction : Int
  stakeSompi : Int
  deadline : Int
  zkNative : Bool
  closeZkTmplAnchor : Option Bytes32
  bettor_relay_id : Option String
  paymentTxid : Option String
  payAmountSompi : Option Nat
deriving DecidableEq

def Request.Valid (r : Request) : Prop :=
  0 < r.deadline ∧ (r.direction = 0 ∨ r.direction = 1) ∧ 0 < r.stakeSompi ∧
    ¬ (r.zkNative ∧ r.closeZkTmplAnchor = none)

instance (r : Request) : Decidable r.Valid := by
  unfold Request.Valid
  infer_instance

/-- The transaction a bettor's row is filed under: the payment, or the registration itself. -/
def Request.lockTx (r : Request) (leafTx : String) : String := r.paymentTxid.getD leafTx

/-- The row of the bettor. -/
def Request.side (r : Request) (shardMarketId shardP2sh : String) (shardIndex : Nat)
    (leafTx : String) : Side where
  market_id := shardMarketId
  bettor_pk := r.bettorPk
  bettor_relay_id := r.bettor_relay_id
  direction := r.direction
  stake_amount := toNumber r.stakeSompi
  side_p2sh := shardP2sh
  side_lock_tx := some (r.lockTx leafTx)
  merkle_index := shardIndex
  pay_amount_sompi := r.payAmountSompi

/-- What a registration that went through reports. -/
structure Receipt where
  request : Request
  shardIndex : Nat
  shardMarketId : String
  shardP2sh : String
  leafTx : String
  leafOutpoint : Outpoint
  leafState : ShardLeaf.State
  payoutCovId : Bytes32

/-- What the console and the relay compile, and the market it is for. -/
structure Market where
  engine : Engine
  logicalMarketId : String
  psArtifact : Bytes32 → Int → Int → PsArtifact
  compileShardLeafRedeem : (marketIdHash psTmplHash shardPoolId : Bytes32) → (sealCount : Nat) →
    (payoutCovId : Bytes32) → (deadline : Int) → ShardLeaf.State → Bytes
  p2sh : Bytes → String

def Market.shardPoolId (m : Market) (shardIndex : Nat) : Bytes32 :=
  m.engine.blake2b (Settle.utf8 (m.logicalMarketId ++ "-shard-" ++ toString shardIndex))

/-- `createShardMarketRow` -/
def Market.shardMarketId (m : Market) (shardIndex : Nat) : String :=
  m.logicalMarketId ++ "-s" ++ toString shardIndex

def Market.artifactOf (m : Market) (r : Request) : PsArtifact :=
  m.psArtifact r.bettorPk r.direction (toNumber r.stakeSompi)

/-- The script an empty shard is born with. -/
def Market.genRedeem (m : Market) (r : Request) (shardIndex : Nat) (payoutCovId : Bytes32) :
    Bytes :=
  m.compileShardLeafRedeem (m.engine.blake2b (Settle.utf8 m.logicalMarketId))
    (m.artifactOf r).templateHash (m.shardPoolId shardIndex) SHARD_SEAL_COUNT payoutCovId
    r.deadline ShardLeaf.genesis.state

/-- What a registration waits for. -/
inductive Pc
  /-- for the payout shard -/
  | entered
  /-- for the stake on its way to the gateway -/
  | funding (shard : Shard) (payoutCovId : Bytes32)
  /-- for the relay that appends to the leaf -/
  | appending (shard : Shard) (attempt : Nat) (cmd : RegisterCommand) (payoutCovId : Bytes32)
  /-- for the continued leaf to land -/
  | landing (shard : Shard) (attempt : Nat) (cmd : RegisterCommand) (regTx json : String)
      (payoutCovId : Bytes32)
  /-- for its turn, after the bettor's row -/
  | recorded (shard : Shard) (cmd : RegisterCommand) (regTx : String) (payoutCovId : Bytes32)
  /-- for the gateway's coins to be put together -/
  | defragging (receipt : Receipt)
  /-- for the seed on its way to an empty leaf -/
  | seeding (shardIndex : Nat) (sealPrevId : Option String) (genRedeem : Bytes)
  /-- for the empty leaf to land -/
  | seeded (shardIndex : Nat) (sealPrevId : Option String) (genRedeem : Bytes) (genTx : String)
  /-- for its turn, after the market row of the shard -/
  | cloned (shardIndex : Nat) (sealPrevId : Option String) (genRedeem : Bytes) (genTx : String)

/-- A registration whose turn it is. -/
structure Job where
  request : Request
  retry : Nat
  openedShard : Nat
  pc : Pc

/-- What came of the call it waited for. -/
inductive Outcome
  | payout (covId : Option Bytes32)
  | sent (txId : Option String)
  | replied (json : String) (txId : Option String)
  | landed (yes : Bool) (wrote : Bool)
  | threw (message : String)
  | resumed

/-- Where a registration is after a step. -/
inductive Progress
  | waits (job : Job)
  | failed
  | returned (receipt : Receipt)

def MAX_TIP_RETRY : Nat := 3

/-- `/UTXO not found/i` -/
def isTipLag (message : String) : Bool :=
  decide ("utxo not found".toList <:+: message.toLower.toList)

def noLand (json : String) : String :=
  "register_append no land: " ++ String.ofList (json.toList.take 160)

/-- The command that appends a bet to the leaf the row names. -/
def Market.command (m : Market) (r : Request) (shard : Shard) : Option RegisterCommand := do
  let outpoint ← shard.current_leaf_outpoint
  let st ← shard.current_leaf_state
  let redeem ← shard.shard_redeem
  (registerCommand m.engine
    { shard_redeem := redeem, current_leaf_outpoint := outpoint.txid, current_leaf_state := st }
    (m.shardPoolId shard.shard_index) r.bettorPk r.direction r.stakeSompi
    (m.artifactOf r)).toOption

def Job.append (m : Market) (job : Job) (shard : Shard) (attempt : Nat) (payoutCovId : Bytes32) :
    Progress :=
  match m.command job.request shard with
  | some cmd => .waits { job with pc := .appending shard attempt cmd payoutCovId }
  | none => .failed

/-- After an error: where another bet was faster the row is read again. -/
def Job.tryAgain (m : Market) (db : Db) (job : Job) (shard : Shard) (attempt : Nat)
    (payoutCovId : Bytes32) (message : String) : Progress :=
  if isTipLag message ∧ attempt + 1 < MAX_TIP_RETRY then
    match db.shards.find? (·.shard_market_id = shard.shard_market_id) with
    | some fresh => job.append m fresh (attempt + 1) payoutCovId
    | none => .failed
  else .failed

def Job.allocate (m : Market) (db : Db) (job : Job) (payoutCovId : Bytes32) : Progress :=
  match allocateForRegister db (toNumber job.request.stakeSompi) with
  | .use shard =>
    if shard.current_leaf_outpoint ≠ none ∧ shard.current_leaf_state ≠ none ∧
        shard.shard_redeem ≠ none then
      .waits { job with pc := .funding shard payoutCovId }
    else .failed
  | .open_new shardIndex sealPrevId =>
    .waits { job with
      pc := .seeding shardIndex sealPrevId (m.genRedeem job.request shardIndex payoutCovId) }

/-- The payout shard is the market's, or one is minted now. -/
def Job.enter (m : Market) (db : Db) (job : Job) (minted : Option Bytes32) : Db × Progress :=
  if job.request.Valid then
    match db.payout_cov_id, minted with
    | some covId, _ => (db, job.allocate m db covId)
    | none, some covId =>
      ({ db with payout_cov_id := some covId },
        job.allocate m { db with payout_cov_id := some covId } covId)
    | none, none => (db, .failed)
  else (db, .failed)

def Job.record (db : Db) (job : Job) (shard : Shard) (cmd : RegisterCommand) (regTx : String)
    (payoutCovId : Bytes32) (wrote : Bool) : Db × Progress :=
  (recordBettor db
    (job.request.side shard.shard_market_id shard.shard_p2sh shard.shard_index regTx) wrote,
    .waits { job with pc := .recorded shard cmd regTx payoutCovId })

def Job.receipt (job : Job) (shard : Shard) (cmd : RegisterCommand) (regTx : String)
    (payoutCovId : Bytes32) : Receipt where
  request := job.request
  shardIndex := shard.shard_index
  shardMarketId := shard.shard_market_id
  shardP2sh := shard.shard_p2sh
  leafTx := regTx
  leafOutpoint := ⟨regTx, 0⟩
  leafState := cmd.leafContinuation
  payoutCovId := payoutCovId

def Job.settle (db : Db) (now : Nat) (job : Job) (shard : Shard) (cmd : RegisterCommand)
    (regTx : String) (payoutCovId : Bytes32) : Db × Progress :=
  match onBettorRegistered db shard.shard_market_id ⟨regTx, 0⟩ cmd.leafContinuation now with
  | some db' =>
    (db', .waits { job with pc := .defragging (job.receipt shard cmd regTx payoutCovId) })
  | none => (db, .failed)

def sealPrev (db : Db) (sealPrevId : Option String) (now : Nat) : Db :=
  match sealPrevId with
  | some id => sealShard db id now
  | none => db

/-- The empty shard is entered after the open one has been sealed, and the bet starts over. -/
def Job.openShard (m : Market) (db : Db) (now : Nat) (job : Job) (shardIndex : Nat)
    (sealPrevId : Option String) (genRedeem : Bytes) (genTx : String) : Db × Progress :=
  let db := sealPrev db sealPrevId now
  match registerShard db shardIndex (m.shardMarketId shardIndex) (m.p2sh genRedeem) ⟨genTx, 0⟩
      ShardLeaf.genesis.state genRedeem now with
  | some db' =>
    (db', if 3 < job.openedShard + 1 then .failed
      else .waits { job with openedShard := job.openedShard + 1, pc := .entered })
  | none =>
    (db, if 3 < job.retry + 1 then .failed
      else .waits { job with retry := job.retry + 1, pc := .entered })

/-- What a registration does with the outcome of what it waited for. -/
def Job.advance (m : Market) (db : Db) (now : Nat) (job : Job) (o : Outcome) :
    Option (Db × Progress) :=
  match job.pc, o with
  | .entered, .payout minted => some (job.enter m db minted)
  | .funding shard covId, .sent (some _) => some (db, job.append m shard 0 covId)
  | .funding _ _, .sent none => some (db, .failed)
  | .appending shard n cmd covId, .replied json (some tx) =>
    some (db, .waits { job with pc := .landing shard n cmd tx json covId })
  | .appending shard n _ covId, .replied json none =>
    some (db, job.tryAgain m db shard n covId (noLand json))
  | .appending shard n _ covId, .threw message =>
    some (db, job.tryAgain m db shard n covId message)
  | .landing shard _ cmd tx _ covId, .landed true wrote =>
    some (job.record db shard cmd tx covId wrote)
  | .landing shard n _ _ json covId, .landed false _ =>
    some (db, job.tryAgain m db shard n covId (noLand json))
  | .landing shard n _ _ _ covId, .threw message =>
    some (db, job.tryAgain m db shard n covId message)
  | .recorded shard cmd tx covId, .resumed => some (job.settle db now shard cmd tx covId)
  | .defragging receipt, .resumed => some (db, .returned receipt)
  | .seeding i prev redeem, .sent (some tx) =>
    some (db, .waits { job with pc := .seeded i prev redeem tx })
  | .seeding _ _ _, .sent none => some (db, .failed)
  | .seeded i prev redeem tx, .landed true _ =>
    some (db, .waits { job with pc := .cloned i prev redeem tx })
  | .seeded _ _ _ _, .landed false _ => some (db, .failed)
  | .seeded _ _ _ _, .threw _ => some (db, .failed)
  | .cloned i prev redeem tx, .resumed => some (job.openShard m db now i prev redeem tx)
  | _, _ => none

/-! ### The market -/

/-- The rows, the clients that have looked at them, the registrations in line, the one whose turn it
is, and the reports of those that went through. -/
structure St where
  db : Db
  clients : List Request
  line : List Request
  running : Option Job
  reported : List Receipt

def St.init : St := ⟨⟨[], [], none⟩, [], [], none, []⟩

inductive Event
  /-- a client finds its payment, and that no row is filed under it -/
  | detect (r : Request)
  /-- and gets in line -/
  | call (r : Request)
  /-- the first in line has its turn -/
  | acquire
  | advance (now : Nat) (o : Outcome)

/-- The payments of the rows of the market's shards. -/
def Db.consumed (db : Db) : List String :=
  (db.sides.filter fun row => db.shards.any (·.shard_market_id = row.market_id)).filterMap
    (·.side_lock_tx)

/-- A registration that is over lets the next one in. -/
def St.goOn (s : St) (db : Db) : Progress → St
  | .waits job => { s with db := db, running := some job }
  | .failed => { s with db := db, running := none }
  | .returned receipt =>
    { s with db := db, running := none, reported := s.reported ++ [receipt] }

def step (m : Market) (s : St) : Event → Option St
  | .detect r =>
    if ∀ t ∈ r.paymentTxid, t ∉ s.db.consumed then some { s with clients := s.clients ++ [r] }
    else none
  | .call r =>
    if r ∈ s.clients then
      some { s with clients := s.clients.erase r, line := s.line ++ [r] }
    else none
  | .acquire =>
    match s.running, s.line with
    | none, r :: rest => some { s with line := rest, running := some ⟨r, 0, 0, .entered⟩ }
    | _, _ => none
  | .advance now o => do
    let job ← s.running
    let (db, progress) ← job.advance m s.db now o
    some (s.goOn db progress)

end KANet.Register
