import KANet.Lib.FirstMax

/-!
# `cross-chain-verify.mjs`

`verifyCrossChainTx` asks a node of the chain for a transaction and decides whether it is the
payment that is expected.  Of several transfers the verifiers look at one: the first on the EVM
chains and on Tron, the first of the largest gains on Solana.  On Kaspa they take the sum the relay
has recorded, or else the sum of what is still unspent.  A name that is not in the table of the
chain stands for the coin of the chain.

Amounts are exact.  The nodes answer, and truthfully; a text that is parsed is given as its value.
The texts of the errors are left out.

* `confirmed_iff` — what is confirmed.
* `verified_iff` — when that is the payment.
-/

namespace KANet.Trade.CrossChain

open KANet.Lib

/-! ### Chains and tokens -/

inductive EvmChain
  | bnb | eth | polygon | arbitrum | optimism | avalanche | base
  deriving DecidableEq

inductive Chain
  | evm (chain : EvmChain)
  | sol
  | tron
  | kaspa
  | other (name : String)

/-- `REQUIRED_CONFIRMATIONS[chain] || 15` -/
def REQUIRED_CONFIRMATIONS : Chain → Int
  | .evm .bnb => 15
  | .evm .eth => 12
  | .evm .polygon => 35
  | .evm .arbitrum => 12
  | .evm .optimism => 12
  | .evm .avalanche => 12
  | .evm .base => 12
  | .sol => 32
  | .tron => 19
  | .kaspa => 1
  | .other _ => 15

structure Token where
  address : String
  decimals : Nat

def EVM_TOKENS : EvmChain → String → Option Token
  | .bnb, "usdt" => some ⟨"0x55d398326f99059fF775485246999027B3197955", 18⟩
  | .bnb, "usdc" => some ⟨"0x8AC76a51cc950d9822D68b83fE1Ad97B32Cd580d", 18⟩
  | .bnb, "dai" => some ⟨"0x1AF3F329e8BE154074D8769D1FFa4eE058B1DBc3", 18⟩
  | .eth, "usdt" => some ⟨"0xdAC17F958D2ee523a2206206994597C13D831ec7", 6⟩
  | .eth, "usdc" => some ⟨"0xA0b86991c6218b36c1d19D4a2e9Eb0cE3606eB48", 6⟩
  | .eth, "dai" => some ⟨"0x6B175474E89094C44Da98b954EedeAC495271d0F", 18⟩
  | .polygon, "usdt" => some ⟨"0xc2132D05D31c914a87C6611C10748AEb04B58e8F", 6⟩
  | .polygon, "usdc" => some ⟨"0x3c499c542cEF5E3811e1192ce70d8cC03d5c3359", 6⟩
  | .polygon, "dai" => some ⟨"0x8f3Cf7ad23Cd3CaDbD9735AFf958023239c6A063", 18⟩
  | .arbitrum, "usdt" => some ⟨"0xFd086bC7CD5C481DCC9C85ebE478A1C0b69FCbb9", 6⟩
  | .arbitrum, "usdc" => some ⟨"0xaf88d065e77c8cC2239327C5EDb3A432268e5831", 6⟩
  | .arbitrum, "dai" => some ⟨"0xDA10009cBd5D07dd0CeCc66161FC93D7c9000da1", 18⟩
  | .optimism, "usdt" => some ⟨"0x94b008aA00579c1307B0EF2c499aD98a8ce58e58", 6⟩
  | .optimism, "usdc" => some ⟨"0x0b2C639c533813f4Aa9D7837CAf62653d097Ff85", 6⟩
  | .optimism, "dai" => some ⟨"0xDA10009cBd5D07dd0CeCc66161FC93D7c9000da1", 18⟩
  | .avalanche, "usdt" => some ⟨"0x9702230A8Ea53601f5cD2dc00fDBc13d4dF4A8c7", 6⟩
  | .avalanche, "usdc" => some ⟨"0xB97EF9Ef8734C71904D8002F8b6Bc66Dd9c48a6E", 6⟩
  | .avalanche, "dai" => some ⟨"0xd586E7F844cEa2F87f50152665BCbc2C279D8d70", 18⟩
  | .base, "usdc" => some ⟨"0x833589fCD6eDb6E08f4c7C32D4f71b54bdA02913", 6⟩
  | .base, "dai" => some ⟨"0x50c5725949A6F0c72E6C4a641F24049A917DB0Cb", 18⟩
  | _, _ => none

def SOL_TOKENS : String → Option String
  | "usdt" => some "Es9vMFrzaCERmJfrF4H2FYD4KCoNkY11McCe8BenwNYB"
  | "usdc" => some "EPjFWdd5AufqSSqeM2qN1xzybapC8G4wEGGkZwyTDt1v"
  | _ => none

def TRON_TOKENS : String → Option String
  | "usdt" => some "TR7NHqjeKQxGTCi8q8ZY4pL8otSzgjLj6t"
  | "usdc" => some "TEkxiTehnzSmSe2XqrBj4w32RUN966rdz8"
  | _ => none

/-! ### What is asked and what is answered -/

structure Params where
  expectedAmount : ℚ
  expectedTo : Option String
  expectedFrom : Option String
  paymentAsset : Option String

/-- `s.toLowerCase()`, of names and addresses. -/
def lower (s : String) : String := String.ofList (s.toList.map Char.toLower)

/-- `(paymentAsset || 'usdt').toLowerCase()` -/
def Params.asset (p : Params) : String := lower ((p.paymentAsset.filter (· ≠ "")).getD "usdt")

def Params.recipient (p : Params) : Option String := p.expectedTo.filter (· ≠ "")

def Params.sender (p : Params) : Option String := p.expectedFrom.filter (· ≠ "")

/-- Within half a percent. -/
def Params.Enough (p : Params) (amount : ℚ) : Prop := p.expectedAmount * (995 / 1000) ≤ amount

instance (p : Params) (amount : ℚ) : Decidable (p.Enough amount) :=
  inferInstanceAs (Decidable (_ ≤ _))

inductive VerifyError
  | notFound
  | failed (result : String)
  | noReceipt
  | insufficient (confirmations required : Int)
  | noTransfer (asset : String)
  | notTransferContract
  | underpayment (expected got : ℚ)
  | recipientMismatch (expected got : String)
  | expectedToRequired
  | outputNotFound
  | unsupported (chain : String)

structure Verification where
  confirmed : Bool
  confirmations : Int
  required : Int
  actualAmount : ℚ
  recipient : String
  sender : String
  error : Option VerifyError
  underpayment : Bool
  senderMismatch : Bool

/-- An answer that stops before a transfer is found. -/
def refusal (confirmations required : Int) (sender : String) (error : VerifyError) : Verification :=
  ⟨false, confirmations, required, 0, "", sender, some error, false, false⟩

/-- The amount is checked first, and then the recipient. -/
def judge (p : Params) (confirmations required : Int) (actualAmount : ℚ) (recipient sender : String)
    (recipientOk senderMismatch : Bool) : Verification :=
  if ¬ p.Enough actualAmount then
    ⟨false, confirmations, required, actualAmount, recipient, sender,
      some (.underpayment p.expectedAmount actualAmount), true, false⟩
  else if recipientOk = false then
    ⟨false, confirmations, required, actualAmount, recipient, sender,
      some (.recipientMismatch (p.recipient.getD "") recipient), false, false⟩
  else ⟨true, confirmations, required, actualAmount, recipient, sender, none, false, senderMismatch⟩

/-! ### The EVM chains -/

structure EvmLog where
  address : String
  topics : List String
  data : Nat

structure EvmReceipt where
  status : Nat
  blockNumber : Nat
  logs : List EvmLog

structure EvmTx where
  value : Nat
  recipient : Option String
  sender : String

/-- What a node answers about the hash, and its height. -/
structure EvmNode where
  tx : Option EvmTx
  receipt : Option EvmReceipt
  blockNumber : Nat

def NATIVE_COINS : List String := ["eth", "bnb", "matic", "avax", "native"]

def isNativeAsset (asset : String) (chain : EvmChain) : Bool :=
  decide (asset ∈ NATIVE_COINS) || (EVM_TOKENS chain asset).isNone

/-- `ethers.id('Transfer(address,address,uint256)')` -/
def transferTopic : String := "0xddf252ad1be2c89b69c2b068fc378daa952ba7f163c4a11628f55a4df523b3ef"

def isTransfer (token : Token) (l : EvmLog) : Bool :=
  lower l.address = lower token.address && l.topics.head? = some transferTopic

/-- `'0x' + topic.slice(26)` -/
def topicAddress (topic : String) : String := "0x" ++ String.ofList (topic.toList.drop 26)

def EvmNode.confirmations (node : EvmNode) (receipt : EvmReceipt) : Int :=
  if receipt.blockNumber = 0 then 0 else (node.blockNumber : Int) - receipt.blockNumber

/-- `!expectedTo || recipient.toLowerCase() === expectedTo.toLowerCase()` -/
def evmSame (expected : Option String) (address : String) : Bool :=
  expected.all fun a => lower address = lower a

def verifyEvmNative (node : EvmNode) (p : Params) (required : Int) : Verification :=
  match node.tx with
  | none => refusal 0 required "" .notFound
  | some tx =>
    match node.receipt with
    | none => refusal 0 required "" .noReceipt
    | some receipt =>
      if receipt.status ≠ 1 then refusal 0 required "" (.failed "reverted")
      else if node.confirmations receipt < required then
        refusal (node.confirmations receipt) required ""
          (.insufficient (node.confirmations receipt) required)
      else
        judge p (node.confirmations receipt) required (tx.value / 10 ^ 18)
          (tx.recipient.getD "") tx.sender (evmSame p.recipient (tx.recipient.getD "")) (!evmSame p.sender tx.sender)

/-- Nothing, where it throws: a transfer of the token without the topics of the parties. -/
def verifyEvm (node : EvmNode) (chain : EvmChain) (p : Params) (required : Int) :
    Option Verification :=
  if isNativeAsset p.asset chain then some (verifyEvmNative node p required)
  else
    match node.receipt with
    | none => some (refusal 0 required "" .notFound)
    | some receipt =>
      if receipt.status ≠ 1 then some (refusal 0 required "" (.failed "reverted"))
      else if node.confirmations receipt < required then
        some (refusal (node.confirmations receipt) required ""
          (.insufficient (node.confirmations receipt) required))
      else
        match EVM_TOKENS chain p.asset <|> EVM_TOKENS chain "usdt" with
        | none => some (refusal (node.confirmations receipt) required "" (.noTransfer p.asset))
        | some token =>
          match receipt.logs.find? (isTransfer token) with
          | none => some (refusal (node.confirmations receipt) required "" (.noTransfer p.asset))
          | some log =>
            match log.topics with
            | _ :: sender :: recipient :: _ =>
              some (judge p (node.confirmations receipt) required
                ((log.data : ℚ) / 10 ^ token.decimals) (topicAddress recipient)
                (topicAddress sender) (evmSame p.recipient (topicAddress recipient))
                (!evmSame p.sender (topicAddress sender)))
            | _ => none

/-! ### Solana -/

structure TokenBalance where
  accountIndex : Nat
  mint : String
  owner : Option String
  uiAmount : ℚ

/-- `loadedAddresses` are the accounts of a transaction that its message only refers to. -/
structure SolTx where
  slot : Nat
  err : Option String
  accountKeys : List String
  loadedAddresses : List String
  preBalances : List Nat
  postBalances : List Nat
  preTokenBalances : List TokenBalance
  postTokenBalances : List TokenBalance

structure SolNode where
  tx : Option SolTx
  slot : Nat

/-- An amount that somebody receives. -/
structure Credit where
  recipient : Option String
  amount : ℚ

/-- What an account gains, in SOL. -/
def SolTx.gain (tx : SolTx) (i : Nat) : ℚ :=
  match tx.preBalances[i]?, tx.postBalances[i]? with
  | some pre, some post => ((post : ℚ) - pre) / 10 ^ 9
  | _, _ => 0

/-- The gains of the accounts, where these are the accounts. -/
def SolTx.gains (tx : SolTx) (keys : List String) : List Credit :=
  (List.range tx.postBalances.length).map fun i => ⟨some (keys[i]?.getD ""), tx.gain i⟩

def SolTx.tokenGain (tx : SolTx) (post : TokenBalance) : ℚ :=
  match tx.preTokenBalances.find? fun b =>
    b.accountIndex = post.accountIndex && b.mint = post.mint with
  | some pre => post.uiAmount - pre.uiAmount
  | none => post.uiAmount

/-- The gains of the accounts of a token. -/
def SolTx.tokenGains (tx : SolTx) (mint : String) : List Credit :=
  (tx.postTokenBalances.filter fun b => b.mint = mint).map fun b =>
    ⟨b.owner.filter (· ≠ ""), tx.tokenGain b⟩

/-- `if (delta > maxDelta) …`, over the gains. -/
def maxDelta (gains : List Credit) : Credit := gains.foldl (larger Credit.amount) ⟨none, 0⟩

def verifySolana (node : SolNode) (p : Params) (required : Int) : Verification :=
  match node.tx with
  | none => refusal 0 required "" .notFound
  | some tx =>
    match tx.err with
    | some err => refusal 0 required "" (.failed err)
    | none =>
      if (node.slot : Int) - tx.slot < required then
        refusal ((node.slot : Int) - tx.slot) required ""
          (.insufficient ((node.slot : Int) - tx.slot) required)
      else
        match (if p.asset = "sol" ∨ p.asset = "native" then none else SOL_TOKENS p.asset) with
        | none =>
          let best := maxDelta (tx.gains tx.accountKeys)
          let sender := tx.accountKeys.head?.getD ""
          if best.amount = 0 then
            refusal ((node.slot : Int) - tx.slot) required sender (.noTransfer "sol")
          else
            judge p ((node.slot : Int) - tx.slot) required best.amount (best.recipient.getD "")
              sender
              (p.recipient.all fun dest => best.recipient.getD "" = dest) false
        | some mint =>
          match (maxDelta (tx.tokenGains mint)).recipient with
          | none =>
            refusal ((node.slot : Int) - tx.slot) required "" (.noTransfer p.asset)
          | some recipient =>
            judge p ((node.slot : Int) - tx.slot) required (maxDelta (tx.tokenGains mint)).amount
              recipient ""
              (p.recipient.all fun dest => recipient = dest) false

/-! ### Tron -/

structure TronLog where
  address : String
  topics : List String
  data : Nat

structure TronInfo where
  receiptResult : Option String
  blockNumber : Nat
  log : List TronLog

/-- The first contract of a transaction, where it is a `TransferContract`. -/
structure TronTransfer where
  amount : Nat
  to_address : String
  owner_address : String

structure TronNode where
  info : Option TronInfo
  transfer : Option TronTransfer
  block : Nat

/-- The addresses of `tronweb`. -/
structure TronWeb where
  toHex : String → String
  fromHex : String → String

/-- `.replace(/^41/, '')` -/
def strip41 (hex : List Char) : List Char :=
  if hex.take 2 = ['4', '1'] then hex.drop 2 else hex

def tronTopic : String := "ddf252ad1be2c89b69c2b068fc378daa952ba7f163c4a11628f55a4df523b3ef"

def TronWeb.isTransfer (web : TronWeb) (token : String) (l : TronLog) : Bool :=
  lower l.address = lower (String.ofList (strip41 (web.toHex token).toList)) &&
    l.topics.head? = some tronTopic

/-- `fromHex('41' + topic.slice(-40))` -/
def TronWeb.topicAddress (web : TronWeb) (topic : String) : String :=
  web.fromHex (String.ofList (['4', '1'] ++ topic.toList.drop (topic.toList.length - 40)))

def TronInfo.Succeeded (info : TronInfo) : Prop :=
  ∀ result, info.receiptResult = some result → result = "" ∨ result = "SUCCESS"

/-- Nothing, where it throws: a transfer of the token without the topics of the parties. -/
def verifyTron (web : TronWeb) (node : TronNode) (p : Params) (required : Int) :
    Option Verification :=
  match node.info with
  | none => some (refusal 0 required "" .notFound)
  | some info =>
    match info.receiptResult.filter fun result => result ≠ "" && result ≠ "SUCCESS" with
    | some result => some (refusal 0 required "" (.failed result))
    | none =>
      if (node.block : Int) - info.blockNumber < required then
        some (refusal ((node.block : Int) - info.blockNumber) required ""
          (.insufficient ((node.block : Int) - info.blockNumber) required))
      else
        match (if p.asset = "trx" ∨ p.asset = "native" then none else TRON_TOKENS p.asset) with
        | none =>
          match node.transfer with
          | none =>
            some (refusal ((node.block : Int) - info.blockNumber) required "" .notTransferContract)
          | some transfer =>
            some (judge p ((node.block : Int) - info.blockNumber) required
              ((transfer.amount : ℚ) / 10 ^ 6) (web.fromHex transfer.to_address)
              (web.fromHex transfer.owner_address)
              (p.recipient.all fun dest => web.fromHex transfer.to_address = dest) false)
        | some token =>
          match info.log.find? (web.isTransfer token) with
          | none =>
            some (refusal ((node.block : Int) - info.blockNumber) required "" (.noTransfer "usdt"))
          | some log =>
            match log.topics with
            | _ :: sender :: recipient :: _ =>
              if log.data = 0 then
                some (refusal ((node.block : Int) - info.blockNumber) required ""
                  (.noTransfer "usdt"))
              else
                some (judge p ((node.block : Int) - info.blockNumber) required
                  ((log.data : ℚ) / 10 ^ 6) (web.topicAddress recipient) (web.topicAddress sender)
                  (p.recipient.all fun dest => web.topicAddress recipient = dest) false)
            | _ => none

/-! ### Kaspa -/

structure KaspaOutput where
  address : String
  sompi : Nat
  spent : Bool

structure UtxoEntry where
  transactionId : String
  address : String
  sompi : Nat

/-- The transaction, with the recipient the relay has recorded it for, and what else is unspent. -/
structure KaspaNode where
  transactionId : String
  outputs : List KaspaOutput
  accepted : Bool
  indexed : Option String
  others : List UtxoEntry
  others_ne : ∀ e ∈ others, e.transactionId ≠ transactionId

/-- All the outputs to an address, in KAS. -/
def KaspaNode.paid (node : KaspaNode) (dest : String) : ℚ :=
  ((node.outputs.filter fun o => o.address = dest).map fun o => (o.sompi : ℚ) / 10 ^ 8).sum

/-- `SELECT … FROM kaspa_tx_log WHERE tx_id = ? AND to_address = ?`: the relay adds up the outputs
to the recipient, in a block that may never be accepted. -/
def KaspaNode.row (node : KaspaNode) (dest : String) : Option ℚ :=
  if node.indexed = some dest then some (node.paid dest) else none

def KaspaNode.unspent (node : KaspaNode) (dest : String) : List KaspaOutput :=
  if node.accepted then node.outputs.filter fun o => o.address = dest && !o.spent else []

def KaspaNode.getUtxosByAddresses (node : KaspaNode) (dest : String) : List UtxoEntry :=
  (node.unspent dest).map (fun o => ⟨node.transactionId, o.address, o.sompi⟩) ++
    node.others.filter fun e => e.address = dest

def verifyKaspa (node : KaspaNode) (p : Params) : Verification :=
  match p.recipient with
  | none => refusal 0 1 "" .expectedToRequired
  | some dest =>
    match node.row dest with
    | some actualAmount => judge p 1 1 actualAmount dest "" true false
    | none =>
      let actualAmount := ((((node.getUtxosByAddresses dest).filter fun e =>
        e.transactionId = node.transactionId).map fun e => (e.sompi : ℚ) / 10 ^ 8).sum)
      if 0 < actualAmount then judge p 1 1 actualAmount dest "" true false
      else refusal 0 1 "" .outputNotFound

/-! ### The verifier -/

structure Nodes where
  evm : EvmChain → EvmNode
  sol : SolNode
  tron : TronNode
  kaspa : KaspaNode

def verifyCrossChainTx (web : TronWeb) (nodes : Nodes) (chain : Chain) (p : Params) :
    Option Verification :=
  match chain with
  | .evm c => verifyEvm (nodes.evm c) c p (REQUIRED_CONFIRMATIONS (.evm c))
  | .sol => some (verifySolana nodes.sol p (REQUIRED_CONFIRMATIONS .sol))
  | .tron => verifyTron web nodes.tron p (REQUIRED_CONFIRMATIONS .tron)
  | .kaspa => some (verifyKaspa nodes.kaspa p)
  | .other name => some (refusal 0 (REQUIRED_CONFIRMATIONS (.other name)) "" (.unsupported name))

def Confirmed (v : Option Verification) : Prop := ∃ r, v = some r ∧ r.confirmed = true

/-! ### What the payment is -/

inductive Coin
  | native
  | token (token : Token)

/-- The names of the coin of a chain. -/
def nativeNames : Chain → List String
  | .evm .bnb => ["bnb", "native"]
  | .evm .polygon => ["matic", "native"]
  | .evm .avalanche => ["avax", "native"]
  | .evm _ => ["eth", "native"]
  | .sol => ["sol", "native"]
  | .tron => ["trx", "native"]
  | .kaspa => ["kas", "native"]
  | .other _ => []

def tokenOf : Chain → String → Option Token
  | .evm c, asset => EVM_TOKENS c asset
  | .sol, asset => (SOL_TOKENS asset).map fun mint => ⟨mint, 6⟩
  | .tron, asset => (TRON_TOKENS asset).map fun address => ⟨address, 6⟩
  | _, _ => none

/-- What a name stands for on a chain, if anything. -/
def coinOf (chain : Chain) (asset : String) : Option Coin :=
  if asset ∈ nativeNames chain then some .native else (tokenOf chain asset).map .token

/-- The transaction has succeeded, and has the confirmations. -/
def Settled (nodes : Nodes) : Chain → Prop
  | .evm c => ∃ receipt, (nodes.evm c).receipt = some receipt ∧ receipt.status = 1 ∧
      REQUIRED_CONFIRMATIONS (.evm c) ≤ (nodes.evm c).confirmations receipt
  | .sol => ∃ tx, nodes.sol.tx = some tx ∧ tx.err = none ∧
      REQUIRED_CONFIRMATIONS .sol ≤ (nodes.sol.slot : Int) - tx.slot
  | .tron => ∃ info, nodes.tron.info = some info ∧ info.Succeeded ∧
      REQUIRED_CONFIRMATIONS .tron ≤ (nodes.tron.block : Int) - info.blockNumber
  | .kaspa => nodes.kaspa.accepted = true
  | .other _ => False

def EvmLog.credit (token : Token) (l : EvmLog) : Credit :=
  ⟨match l.topics with
    | _ :: _ :: recipient :: _ => some (lower (topicAddress recipient))
    | _ => none, (l.data : ℚ) / 10 ^ token.decimals⟩

def TronWeb.credit (web : TronWeb) (l : TronLog) : Credit :=
  ⟨match l.topics with
    | _ :: _ :: recipient :: _ => some (web.topicAddress recipient)
    | _ => none, (l.data : ℚ) / 10 ^ 6⟩

/-- Who receives how much of a coin. -/
def credits (web : TronWeb) (nodes : Nodes) : Chain → Coin → List Credit
  | .evm c, .native => (nodes.evm c).tx.toList.map fun tx =>
      ⟨some (lower (tx.recipient.getD "")), (tx.value : ℚ) / 10 ^ 18⟩
  | .evm c, .token t => (nodes.evm c).receipt.toList.flatMap fun receipt =>
      (receipt.logs.filter (isTransfer t)).map (EvmLog.credit t)
  | .sol, .native => nodes.sol.tx.toList.flatMap fun tx =>
      (tx.gains (tx.accountKeys ++ tx.loadedAddresses)).filter fun g => 0 < g.amount
  | .sol, .token t => nodes.sol.tx.toList.flatMap fun tx =>
      (tx.tokenGains t.address).filter fun g => 0 < g.amount
  | .tron, .native => nodes.tron.transfer.toList.map fun transfer =>
      ⟨some (web.fromHex transfer.to_address), (transfer.amount : ℚ) / 10 ^ 6⟩
  | .tron, .token t => nodes.tron.info.toList.flatMap fun info =>
      (info.log.filter (web.isTransfer t.address)).map web.credit
  | .kaspa, .native => nodes.kaspa.outputs.map fun o => ⟨some o.address, (o.sompi : ℚ) / 10 ^ 8⟩
  | _, _ => []

/-- What a recipient receives of it. -/
def total (credits : List Credit) (recipient : String) : ℚ :=
  ((credits.filter fun c => c.recipient = some recipient).map Credit.amount).sum

/-- An EVM address in lower case. -/
def normal : Chain → String → String
  | .evm _, address => lower address
  | _, address => address

/-- **The payment.** -/
def Paid (web : TronWeb) (nodes : Nodes) (chain : Chain) (p : Params) : Prop :=
  Settled nodes chain ∧ ∃ coin dest, coinOf chain p.asset = some coin ∧ p.recipient = some dest ∧
    p.Enough (total (credits web nodes chain coin) (normal chain dest))

/-! ### What the verifiers look at -/

/-- The coin that a name is taken for. -/
def checkedCoin : Chain → String → Coin
  | .evm c, asset => if isNativeAsset asset c then .native else
      match EVM_TOKENS c asset with
      | some t => .token t
      | none => .native
  | .sol, asset => if asset = "sol" ∨ asset = "native" then .native else
      match SOL_TOKENS asset with
      | some mint => .token ⟨mint, 6⟩
      | none => .native
  | .tron, asset => if asset = "trx" ∨ asset = "native" then .native else
      match TRON_TOKENS asset with
      | some address => .token ⟨address, 6⟩
      | none => .native
  | _, _ => .native

/-- The gains on Solana, as far as the message of the transaction names the accounts. -/
def solGains (tx : SolTx) : Coin → List Credit
  | .native => tx.gains tx.accountKeys
  | .token t => tx.tokenGains t.address

/-- The outputs that are still unspent, in KAS. -/
def KaspaNode.left (node : KaspaNode) (dest : String) : ℚ :=
  ((node.unspent dest).map fun o => (o.sompi : ℚ) / 10 ^ 8).sum

/-- The credit that decides: the first, or the first of the largest gains; and on Kaspa what the
relay has recorded, or else what is left. -/
def Shown (web : TronWeb) (nodes : Nodes) (chain : Chain) (coin : Coin) (c : Credit) : Prop :=
  match chain with
  | .evm n => Settled nodes (.evm n) ∧ (credits web nodes (.evm n) coin).head? = some c
  | .sol => Settled nodes .sol ∧ 0 < c.amount ∧
      ∃ tx, nodes.sol.tx = some tx ∧ FirstMax Credit.amount (solGains tx coin) c
  | .tron => Settled nodes .tron ∧ (credits web nodes .tron coin).head? = some c ∧
      (coin ≠ .native → c.amount ≠ 0)
  | .kaspa => ∃ dest, c.recipient = some dest ∧
      ((nodes.kaspa.indexed = some dest ∧ c.amount = nodes.kaspa.paid dest) ∨
        (nodes.kaspa.indexed ≠ some dest ∧ 0 < c.amount ∧ c.amount = nodes.kaspa.left dest))
  | .other _ => False

/-- The credit is large enough, and to the recipient, if one is expected. -/
def Fits (chain : Chain) (p : Params) (c : Credit) : Prop :=
  p.Enough c.amount ∧ ∃ r, c.recipient = some r ∧
    match p.recipient with
    | some dest => r = normal chain dest
    | none => chain ≠ .kaspa

/-- The asset is one of the chain, and a recipient is expected, unless what is looked at fits
neither way; what is looked at is settled; and it carries the payment by itself. -/
structure Plain (web : TronWeb) (nodes : Nodes) (chain : Chain) (p : Params) : Prop where
  asset : coinOf chain p.asset = none →
    ∀ c, Shown web nodes chain (checkedCoin chain p.asset) c → ¬ Fits chain p c
  recipient : p.recipient = none →
    ∀ c, Shown web nodes chain (checkedCoin chain p.asset) c → ¬ Fits chain p c
  settled : ∀ c, Shown web nodes chain (checkedCoin chain p.asset) c → Fits chain p c →
    Settled nodes chain
  whole : ∀ coin dest, coinOf chain p.asset = some coin → p.recipient = some dest →
    Settled nodes chain →
    p.Enough (total (credits web nodes chain coin) (normal chain dest)) →
    ∃ c, Shown web nodes chain coin c ∧ c.recipient = some (normal chain dest) ∧
      p.Enough c.amount

/-! ### What is confirmed -/

section Confirmed

variable {web : TronWeb} {nodes : Nodes} {p : Params}

@[simp] theorem confirmed_none : ¬ Confirmed none := fun ⟨_, h, _⟩ => nomatch h

@[simp] theorem confirmed_some {v : Verification} : Confirmed (some v) ↔ v.confirmed = true :=
  ⟨fun ⟨_, heq, h⟩ => Option.some.inj heq ▸ h, fun h => ⟨v, rfl, h⟩⟩

@[simp] theorem refusal_confirmed {confirmations required : Int} {sender : String}
    {error : VerifyError} : (refusal confirmations required sender error).confirmed = false := rfl

@[simp] theorem judge_confirmed {confirmations required : Int} {amount : ℚ}
    {recipient sender : String} {recipientOk mismatch : Bool} :
    (judge p confirmations required amount recipient sender recipientOk mismatch).confirmed = true ↔
      p.Enough amount ∧ recipientOk = true := by
  unfold judge
  split
  · next h => simp [h]
  · next h =>
    split
    · next hr => simp [hr]
    · next hr => simp [not_not.mp h, hr]

theorem fits_evm {n : EvmChain} {address : String} {amount : ℚ} :
    Fits (.evm n) p ⟨some (lower address), amount⟩ ↔
      p.Enough amount ∧ evmSame p.recipient address = true := by
  unfold Fits evmSame
  cases p.recipient with
  | none => simp
  | some dest => simp [normal]

theorem fits_other {chain : Chain} (hchain : ∀ a, normal chain a = a) (hkaspa : chain ≠ .kaspa)
    {address : String} {amount : ℚ} :
    Fits chain p ⟨some address, amount⟩ ↔
      p.Enough amount ∧ (p.recipient.all fun dest => address = dest) = true := by
  unfold Fits
  cases p.recipient with
  | none => simp [hkaspa]
  | some dest => simp [hchain]

theorem not_fits_none {chain : Chain} {amount : ℚ} : ¬ Fits chain p ⟨none, amount⟩ :=
  fun ⟨_, _, h, _⟩ => nomatch h

/-- The credit that decides is the head of a list. -/
theorem exists_head {P : Prop} {q : Credit → Prop} {cs : List Credit} {c : Credit}
    (h : cs.head? = some c) :
    (∃ c', (P ∧ cs.head? = some c') ∧ q c') ↔ P ∧ q c := by
  constructor
  · rintro ⟨c', ⟨hP, hc'⟩, hq⟩
    obtain rfl := Option.some.inj (h.symm.trans hc')
    exact ⟨hP, hq⟩
  · rintro ⟨hP, hq⟩
    exact ⟨c, ⟨hP, h⟩, hq⟩

theorem settled_evm {n : EvmChain} {receipt : EvmReceipt}
    (h : (nodes.evm n).receipt = some receipt) :
    Settled nodes (.evm n) ↔ receipt.status = 1 ∧
      ¬ (nodes.evm n).confirmations receipt < REQUIRED_CONFIRMATIONS (.evm n) := by
  unfold Settled
  simp [h]

theorem not_settled_evm {n : EvmChain} (h : (nodes.evm n).receipt = none) :
    ¬ Settled nodes (.evm n) := by
  unfold Settled
  simp [h]

theorem confirmed_evmNative (web : TronWeb) (n : EvmChain) :
    (verifyEvmNative (nodes.evm n) p (REQUIRED_CONFIRMATIONS (.evm n))).confirmed = true ↔
      ∃ c, Shown web nodes (.evm n) .native c ∧ Fits (.evm n) p c := by
  cases htx : (nodes.evm n).tx with
  | none => simp [verifyEvmNative, Shown, credits, htx]
  | some tx =>
    have hhead : (credits web nodes (.evm n) .native).head? =
        some ⟨some (lower (tx.recipient.getD "")), (tx.value : ℚ) / 10 ^ 18⟩ := by
      simp [credits, htx]
    simp only [Shown]
    rw [exists_head hhead, fits_evm]
    unfold verifyEvmNative
    rw [htx]
    cases hreceipt : (nodes.evm n).receipt with
    | none => simp [not_settled_evm hreceipt]
    | some receipt =>
      rw [settled_evm hreceipt]
      dsimp only
      by_cases hstatus : receipt.status = 1
      · by_cases hconf : (nodes.evm n).confirmations receipt < REQUIRED_CONFIRMATIONS (.evm n)
        · simp [hstatus, hconf]
        · simp [hstatus, hconf]
      · simp [hstatus]

theorem head?_filter_map {α : Type} (q : α → Bool) (f : α → Credit) (xs : List α) :
    ((xs.filter q).map f).head? = (xs.find? q).map f := by
  rw [List.head?_map, List.head?_filter]

theorem confirmed_evm (web : TronWeb) (n : EvmChain) :
    Confirmed (verifyEvm (nodes.evm n) n p (REQUIRED_CONFIRMATIONS (.evm n))) ↔
      ∃ c, Shown web nodes (.evm n) (checkedCoin (.evm n) p.asset) c ∧ Fits (.evm n) p c := by
  unfold verifyEvm
  split
  · next hnative =>
    have hcoin : checkedCoin (.evm n) p.asset = .native := if_pos hnative
    rw [hcoin, confirmed_some, confirmed_evmNative web]
  · next hnative =>
    obtain ⟨token, htoken⟩ : ∃ token, EVM_TOKENS n p.asset = some token := by
      rw [isNativeAsset, Bool.or_eq_true, Option.isNone_iff_eq_none, not_or] at hnative
      exact Option.ne_none_iff_exists'.mp hnative.2
    have hcoin : checkedCoin (.evm n) p.asset = .token token := by
      simp [checkedCoin, hnative, htoken]
    rw [htoken, hcoin]
    cases hreceipt : (nodes.evm n).receipt with
    | none => simp [Shown, not_settled_evm hreceipt]
    | some receipt =>
      have hhead : (credits web nodes (.evm n) (.token token)).head? =
          (receipt.logs.find? (isTransfer token)).map (EvmLog.credit token) := by
        simp only [credits, hreceipt, Option.toList_some, List.flatMap_singleton]
        exact head?_filter_map _ _ _
      simp only [Shown, settled_evm hreceipt, hhead]
      by_cases hstatus : receipt.status = 1
      · by_cases hconf : (nodes.evm n).confirmations receipt < REQUIRED_CONFIRMATIONS (.evm n)
        · simp [hstatus, hconf]
        · simp only [hstatus, hconf, ne_eq, not_true, not_false_eq_true, if_false, true_and]
          dsimp only [Option.orElse_eq_orElse, Option.orElse]
          cases hlog : receipt.logs.find? (isTransfer token) with
          | none => simp
          | some log =>
            simp only [Option.map_some, Option.some.injEq, exists_eq_left']
            unfold EvmLog.credit
            split
            · rw [confirmed_some, judge_confirmed, fits_evm]
            · simp [not_fits_none]
      · simp [hstatus]

theorem firstMax_maxDelta (gains : List Credit) :
    FirstMax Credit.amount (⟨none, 0⟩ :: gains) (maxDelta gains) :=
  firstMax_foldl Credit.amount ⟨none, 0⟩ gains

theorem maxDelta_nonneg (gains : List Credit) : 0 ≤ (maxDelta gains).amount :=
  (firstMax_maxDelta gains).le List.mem_cons_self

/-- The loop ends with the largest gain, if there is one. -/
theorem maxDelta_eq {gains : List Credit} {c : Credit} (hpos : 0 < c.amount) :
    FirstMax Credit.amount gains c ↔ maxDelta gains = c := by
  constructor
  · intro h
    exact (firstMax_maxDelta gains).unique (FirstMax.cons_iff.mpr (Or.inr ⟨hpos, h⟩))
  · rintro rfl
    rcases FirstMax.cons_iff.mp (firstMax_maxDelta gains) with ⟨heq, -⟩ | ⟨-, h⟩
    · rw [heq] at hpos
      exact absurd hpos (lt_irrefl 0)
    · exact h

theorem settled_sol {tx : SolTx} (h : nodes.sol.tx = some tx) :
    Settled nodes .sol ↔ tx.err = none ∧
      ¬ (nodes.sol.slot : Int) - tx.slot < REQUIRED_CONFIRMATIONS .sol := by
  unfold Settled
  simp [h]

theorem shown_sol {tx : SolTx} (h : nodes.sol.tx = some tx) {coin : Coin} :
    (∃ c, Shown web nodes .sol coin c ∧ Fits .sol p c) ↔
      Settled nodes .sol ∧ 0 < (maxDelta (solGains tx coin)).amount ∧
        Fits .sol p (maxDelta (solGains tx coin)) := by
  constructor
  · rintro ⟨c, ⟨hsettled, hpos, tx', htx', hmax⟩, hfits⟩
    obtain rfl := Option.some.inj (h.symm.trans htx')
    obtain rfl := (maxDelta_eq hpos).mp hmax
    exact ⟨hsettled, hpos, hfits⟩
  · rintro ⟨hsettled, hpos, hfits⟩
    exact ⟨_, ⟨hsettled, hpos, tx, h, (maxDelta_eq hpos).mpr rfl⟩, hfits⟩

/-- The code's own branch on the name. -/
theorem checkedCoin_sol (asset : String) : checkedCoin .sol asset =
    (if asset = "sol" ∨ asset = "native" then none else SOL_TOKENS asset).elim .native
      fun mint => .token ⟨mint, 6⟩ := by
  unfold checkedCoin
  dsimp only
  split
  · rfl
  · split
    · next h => rw [h, Option.elim_some]
    · next h => rw [h, Option.elim_none]

theorem mem_gains {tx : SolTx} {keys : List String} {c : Credit} (h : c ∈ tx.gains keys) :
    ∃ i < tx.postBalances.length, c = ⟨some (keys[i]?.getD ""), tx.gain i⟩ := by
  obtain ⟨i, hi, rfl⟩ := List.mem_map.mp h
  exact ⟨i, List.mem_range.mp hi, rfl⟩

theorem fits_sol {c : Credit} {address : String} (h : c.recipient = some address) :
    Fits .sol p c ↔
      p.Enough c.amount ∧ (p.recipient.all fun dest => address = dest) = true := by
  obtain ⟨recipient, amount⟩ := c
  obtain rfl := h
  exact @fits_other _ .sol (fun _ => rfl) (by simp) _ _

theorem confirmed_sol (web : TronWeb) :
    (verifySolana nodes.sol p (REQUIRED_CONFIRMATIONS .sol)).confirmed = true ↔
      ∃ c, Shown web nodes .sol (checkedCoin .sol p.asset) c ∧ Fits .sol p c := by
  unfold verifySolana
  cases htx : nodes.sol.tx with
  | none => simp [Shown, htx]
  | some tx =>
    rw [shown_sol htx, settled_sol htx, checkedCoin_sol]
    dsimp only
    cases herr : tx.err with
    | some err => simp
    | none =>
      by_cases hconf : (nodes.sol.slot : Int) - tx.slot < REQUIRED_CONFIRMATIONS .sol
      · simp [hconf]
      · simp only [hconf, if_false, not_false_eq_true, true_and]
        cases if p.asset = "sol" ∨ p.asset = "native" then none else SOL_TOKENS p.asset with
        | none =>
          simp only [solGains, Option.elim]
          split
          · next hzero => simp [hzero]
          · next hzero =>
            have hpos := lt_of_le_of_ne (maxDelta_nonneg (tx.gains tx.accountKeys)) (Ne.symm hzero)
            obtain ⟨i, -, hi⟩ := mem_gains ((maxDelta_eq hpos).mpr rfl).mem
            have hrecipient : (maxDelta (tx.gains tx.accountKeys)).recipient =
                some (tx.accountKeys[i]?.getD "") := congrArg Credit.recipient hi
            rw [judge_confirmed, fits_sol hrecipient, hrecipient]
            simp [hpos]
        | some mint =>
          simp only [solGains, Option.elim]
          cases hrecipient : (maxDelta (tx.tokenGains mint)).recipient with
          | none =>
            simp only [refusal_confirmed, Bool.false_eq_true, false_iff, not_and]
            rintro - ⟨-, r, hr, -⟩
            rw [hrecipient] at hr
            cases hr
          | some recipient =>
            have hpos : 0 < (maxDelta (tx.tokenGains mint)).amount := by
              rcases FirstMax.cons_iff.mp (firstMax_maxDelta (tx.tokenGains mint)) with
                ⟨heq, -⟩ | ⟨hlt, -⟩
              · rw [heq] at hrecipient
                cases hrecipient
              · exact hlt
            rw [judge_confirmed, fits_sol hrecipient]
            simp [hpos]

theorem succeeded_iff {info : TronInfo} : info.Succeeded ↔
    (info.receiptResult.filter fun result => result ≠ "" && result ≠ "SUCCESS") = none := by
  unfold TronInfo.Succeeded
  cases info.receiptResult with
  | none => simp
  | some result => simp [Option.filter_some, or_iff_not_imp_left]

theorem settled_tron {info : TronInfo} (h : nodes.tron.info = some info) :
    Settled nodes .tron ↔ info.Succeeded ∧
      ¬ (nodes.tron.block : Int) - info.blockNumber < REQUIRED_CONFIRMATIONS .tron := by
  unfold Settled
  simp [h]

theorem checkedCoin_tron (asset : String) : checkedCoin .tron asset =
    (if asset = "trx" ∨ asset = "native" then none else TRON_TOKENS asset).elim .native
      fun address => .token ⟨address, 6⟩ := by
  unfold checkedCoin
  dsimp only
  split
  · rfl
  · split
    · next h => rw [h, Option.elim_some]
    · next h => rw [h, Option.elim_none]

theorem fits_tron {address : String} {amount : ℚ} :
    Fits .tron p ⟨some address, amount⟩ ↔
      p.Enough amount ∧ (p.recipient.all fun dest => address = dest) = true :=
  @fits_other _ .tron (fun _ => rfl) (by simp) _ _

theorem confirmed_tron (web : TronWeb) :
    Confirmed (verifyTron web nodes.tron p (REQUIRED_CONFIRMATIONS .tron)) ↔
      ∃ c, Shown web nodes .tron (checkedCoin .tron p.asset) c ∧ Fits .tron p c := by
  unfold verifyTron
  cases hinfo : nodes.tron.info with
  | none => simp [Shown, Settled, hinfo]
  | some info =>
    simp only [Shown, settled_tron hinfo, succeeded_iff, checkedCoin_tron]
    cases hresult : info.receiptResult.filter fun result => result ≠ "" && result ≠ "SUCCESS" with
    | some result => simp
    | none =>
      by_cases hconf : (nodes.tron.block : Int) - info.blockNumber < REQUIRED_CONFIRMATIONS .tron
      · simp [hconf]
      · simp only [hconf, if_false, not_false_eq_true, true_and]
        cases if p.asset = "trx" ∨ p.asset = "native" then none else TRON_TOKENS p.asset with
        | none =>
          cases htransfer : nodes.tron.transfer with
          | none => simp [credits, htransfer]
          | some transfer => simp [credits, htransfer, fits_tron]
        | some token =>
          have hhead : (credits web nodes .tron (.token ⟨token, 6⟩)).head? =
              (info.log.find? (web.isTransfer token)).map web.credit := by
            simp only [credits, hinfo, Option.toList_some, List.flatMap_singleton]
            exact head?_filter_map _ _ _
          simp only [Option.elim_some, hhead]
          cases hlog : info.log.find? (web.isTransfer token) with
          | none => simp
          | some log =>
            simp only [Option.map_some, Option.some.injEq, and_assoc, exists_eq_left']
            unfold TronWeb.credit
            split
            · next sender recipient rest htopics =>
              rw [fits_tron]
              by_cases hdata : log.data = 0
              · simp [hdata]
              · simp [hdata]
            · simp [not_fits_none]

/-- What else is unspent is not of the transaction. -/
theorem left_eq (node : KaspaNode) (dest : String) :
    (((node.getUtxosByAddresses dest).filter fun e => e.transactionId = node.transactionId).map
      fun e => (e.sompi : ℚ) / 10 ^ 8).sum = node.left dest := by
  have hothers : (node.others.filter fun e => e.address = dest).filter
      (fun e => e.transactionId = node.transactionId) = [] := by
    rw [List.filter_eq_nil_iff]
    intro e he
    simpa using node.others_ne e (List.mem_filter.mp he).1
  have hown : ((node.unspent dest).map fun o : KaspaOutput =>
      (⟨node.transactionId, o.address, o.sompi⟩ : UtxoEntry)).filter
        (fun e => e.transactionId = node.transactionId) =
      (node.unspent dest).map fun o => ⟨node.transactionId, o.address, o.sompi⟩ := by
    rw [List.filter_eq_self]
    intro e he
    obtain ⟨o, -, rfl⟩ := List.mem_map.mp he
    simp
  rw [KaspaNode.getUtxosByAddresses, List.filter_append, hothers, hown, List.append_nil,
    List.map_map]
  rfl

theorem confirmed_kaspa (web : TronWeb) :
    (verifyKaspa nodes.kaspa p).confirmed = true ↔
      ∃ c, Shown web nodes .kaspa .native c ∧ Fits .kaspa p c := by
  unfold verifyKaspa Fits
  cases hrecipient : p.recipient with
  | none => simp
  | some dest =>
    have hshown : (∃ c, Shown web nodes .kaspa .native c ∧ p.Enough c.amount ∧
        ∃ r, c.recipient = some r ∧ r = dest) ↔
        (nodes.kaspa.indexed = some dest ∧ p.Enough (nodes.kaspa.paid dest)) ∨
          (nodes.kaspa.indexed ≠ some dest ∧ 0 < nodes.kaspa.left dest ∧
            p.Enough (nodes.kaspa.left dest)) := by
      constructor
      · rintro ⟨c, ⟨a, ha, hshown⟩, henough, r, hr, rfl⟩
        obtain rfl := Option.some.inj (ha.symm.trans hr)
        rcases hshown with ⟨hindexed, hamount⟩ | ⟨hindexed, hpos, hamount⟩
        · exact Or.inl ⟨hindexed, hamount ▸ henough⟩
        · exact Or.inr ⟨hindexed, hamount ▸ hpos, hamount ▸ henough⟩
      · rintro (⟨hindexed, henough⟩ | ⟨hindexed, hpos, henough⟩)
        · exact ⟨⟨some dest, _⟩, ⟨dest, rfl, Or.inl ⟨hindexed, rfl⟩⟩, henough, dest, rfl, rfl⟩
        · exact ⟨⟨some dest, _⟩, ⟨dest, rfl, Or.inr ⟨hindexed, hpos, rfl⟩⟩, henough, dest, rfl, rfl⟩
    simp only [normal]
    rw [hshown]
    dsimp only [KaspaNode.row]
    rw [left_eq]
    by_cases hindexed : nodes.kaspa.indexed = some dest
    · simp [hindexed]
    · by_cases hpos : 0 < nodes.kaspa.left dest
      · simp [hindexed, hpos]
      · simp [hindexed, hpos]

/-- **What is confirmed**: the credit that decides fits. -/
theorem confirmed_iff (web : TronWeb) (nodes : Nodes) (chain : Chain) (p : Params) :
    Confirmed (verifyCrossChainTx web nodes chain p) ↔
      ∃ c, Shown web nodes chain (checkedCoin chain p.asset) c ∧ Fits chain p c := by
  unfold verifyCrossChainTx
  cases chain with
  | evm n => exact confirmed_evm web n
  | sol => exact confirmed_some.trans (confirmed_sol web)
  | tron => exact confirmed_tron web
  | kaspa => exact confirmed_some.trans (confirmed_kaspa web)
  | other name => simp [Shown]

end Confirmed

/-! ### When that is the payment -/

section Verified

variable {web : TronWeb} {nodes : Nodes} {p : Params} {chain : Chain}

theorem token_not_native {c : EvmChain} {asset : String} {t : Token}
    (h : EVM_TOKENS c asset = some t) : asset ∉ NATIVE_COINS := by
  unfold EVM_TOKENS at h
  split at h
  all_goals first | decide | cases h

theorem nativeNames_subset {c : EvmChain} {asset : String} (h : asset ∈ nativeNames (.evm c)) :
    asset ∈ NATIVE_COINS := by
  have hsub : nativeNames (.evm c) ⊆ NATIVE_COINS := by
    cases c
    all_goals decide
  exact hsub h

/-- A name that stands for a coin of the chain is taken for it. -/
theorem checkedCoin_of_coinOf {asset : String} {coin : Coin} (h : coinOf chain asset = some coin) :
    checkedCoin chain asset = coin := by
  unfold coinOf at h
  split at h
  · next hnative =>
    obtain rfl := Option.some.inj h
    cases chain with
    | evm c =>
      refine if_pos ?_
      rw [isNativeAsset, decide_eq_true (nativeNames_subset hnative), Bool.true_or]
    | sol =>
      refine if_pos ?_
      simpa [nativeNames] using hnative
    | tron =>
      refine if_pos ?_
      simpa [nativeNames] using hnative
    | kaspa => rfl
    | other name => rfl
  · next hname =>
    obtain ⟨t, ht, rfl⟩ := Option.map_eq_some_iff.mp h
    cases chain with
    | evm c =>
      have htoken : EVM_TOKENS c asset = some t := ht
      simp [checkedCoin, isNativeAsset, token_not_native htoken, htoken]
    | sol =>
      obtain ⟨mint, hmint, rfl⟩ := Option.map_eq_some_iff.mp ht
      rw [nativeNames, List.mem_cons, List.mem_singleton] at hname
      rw [checkedCoin_sol, if_neg hname, hmint, Option.elim_some]
    | tron =>
      obtain ⟨address, haddress, rfl⟩ := Option.map_eq_some_iff.mp ht
      rw [nativeNames, List.mem_cons, List.mem_singleton] at hname
      rw [checkedCoin_tron, if_neg hname, haddress, Option.elim_some]
    | kaspa => cases ht
    | other name => cases ht

theorem Params.recipient_ne {dest : String} (h : p.recipient = some dest) : dest ≠ "" := by
  have := (Option.filter_eq_some_iff.mp h).2
  simpa using this

theorem Params.Enough.mono {a b : ℚ} (h : p.Enough a) (hle : a ≤ b) : p.Enough b := h.trans hle

theorem le_total {cs : List Credit} {c : Credit} {r : String} (hpos : ∀ d ∈ cs, 0 ≤ d.amount)
    (hc : c ∈ cs) (hr : c.recipient = some r) : c.amount ≤ total cs r := by
  refine List.single_le_sum ?_ _ (List.mem_map_of_mem (List.mem_filter.mpr ⟨hc, by simpa using hr⟩))
  intro a ha
  obtain ⟨d, hd, rfl⟩ := List.mem_map.mp ha
  exact hpos d (List.mem_filter.mp hd).1

theorem credits_nonneg (chain : Chain) (coin : Coin) :
    ∀ c ∈ credits web nodes chain coin, 0 ≤ c.amount := by
  intro c hc
  unfold credits at hc
  split at hc
  · obtain ⟨tx, -, rfl⟩ := List.mem_map.mp hc
    positivity
  · obtain ⟨receipt, -, hc⟩ := List.mem_flatMap.mp hc
    obtain ⟨l, -, rfl⟩ := List.mem_map.mp hc
    unfold EvmLog.credit
    positivity
  · obtain ⟨tx, -, hc⟩ := List.mem_flatMap.mp hc
    exact (of_decide_eq_true (List.mem_filter.mp hc).2).le
  · obtain ⟨tx, -, hc⟩ := List.mem_flatMap.mp hc
    exact (of_decide_eq_true (List.mem_filter.mp hc).2).le
  · obtain ⟨transfer, -, rfl⟩ := List.mem_map.mp hc
    positivity
  · obtain ⟨info, -, hc⟩ := List.mem_flatMap.mp hc
    obtain ⟨l, -, rfl⟩ := List.mem_map.mp hc
    unfold TronWeb.credit
    positivity
  · obtain ⟨o, -, rfl⟩ := List.mem_map.mp hc
    positivity
  · cases hc

/-- An account that the message names is an account of the transaction. -/
theorem mem_gains_all {tx : SolTx} {c : Credit} {r : String} (hc : c ∈ tx.gains tx.accountKeys)
    (hr : c.recipient = some r) (hne : r ≠ "") :
    c ∈ tx.gains (tx.accountKeys ++ tx.loadedAddresses) := by
  obtain ⟨i, hi, rfl⟩ := mem_gains hc
  refine List.mem_map.mpr ⟨i, List.mem_range.mpr hi, ?_⟩
  cases hkey : tx.accountKeys[i]? with
  | none =>
    rw [hkey] at hr
    exact absurd (Option.some.inj hr).symm hne
  | some key =>
    rw [List.getElem?_append_left (List.getElem?_eq_some_iff.mp hkey).1, hkey]

theorem mem_credits_sol {tx : SolTx} {coin : Coin} {c : Credit} {r : String}
    (htx : nodes.sol.tx = some tx) (hc : c ∈ solGains tx coin) (hpos : 0 < c.amount)
    (hr : c.recipient = some r) (hne : r ≠ "") : c ∈ credits web nodes .sol coin := by
  cases coin with
  | native =>
    simp only [credits, htx, Option.toList_some, List.flatMap_singleton]
    exact List.mem_filter.mpr ⟨mem_gains_all hc hr hne, decide_eq_true hpos⟩
  | token t =>
    simp only [credits, htx, Option.toList_some, List.flatMap_singleton]
    exact List.mem_filter.mpr ⟨hc, decide_eq_true hpos⟩

theorem total_kaspa (dest : String) :
    total (credits web nodes .kaspa .native) dest = nodes.kaspa.paid dest := by
  simp only [total, credits, KaspaNode.paid, List.filter_map, List.map_map]
  congr 2
  · simp only [Function.comp_def, Option.some.injEq]

theorem left_le_paid (node : KaspaNode) (dest : String) : node.left dest ≤ node.paid dest := by
  have hsub : (node.unspent dest).Sublist (node.outputs.filter fun o => o.address = dest) := by
    unfold KaspaNode.unspent
    split
    · refine List.monotone_filter_right _ ?_
      intro o ho
      exact (Bool.and_eq_true_iff.mp ho).1
    · exact List.nil_sublist _
  refine (hsub.map _).sum_le_sum ?_
  intro a ha
  obtain ⟨o, -, rfl⟩ := List.mem_map.mp ha
  positivity

/-- **The credit that decides is part of what the recipient receives.** -/
theorem shown_le_total {coin : Coin} {c : Credit} {r : String}
    (h : Shown web nodes chain coin c) (hcoin : chain = .kaspa → coin = .native)
    (hr : c.recipient = some r) (hne : chain = .sol → r ≠ "") :
    c.amount ≤ total (credits web nodes chain coin) r := by
  cases chain with
  | evm n => exact le_total (credits_nonneg _ _) (List.mem_of_head? h.2) hr
  | sol =>
    obtain ⟨-, hpos, tx, htx, hmax⟩ := h
    exact le_total (credits_nonneg _ _) (mem_credits_sol htx hmax.mem hpos hr (hne rfl)) hr
  | tron => exact le_total (credits_nonneg _ _) (List.mem_of_head? h.2.1) hr
  | kaspa =>
    obtain rfl := hcoin rfl
    obtain ⟨dest, hdest, hshown⟩ := h
    obtain rfl := Option.some.inj (hdest.symm.trans hr)
    rw [total_kaspa]
    rcases hshown with ⟨-, hamount⟩ | ⟨-, -, hamount⟩
    · exact hamount.le
    · exact hamount.le.trans (left_le_paid _ _)
  | other name => exact h.elim

theorem fits_recipient {c : Credit} {dest : String} (h : Fits chain p c)
    (hdest : p.recipient = some dest) :
    c.recipient = some (normal chain dest) ∧ p.Enough c.amount := by
  obtain ⟨henough, r, hr, hmatch⟩ := h
  rw [hdest] at hmatch
  exact ⟨hmatch ▸ hr, henough⟩

theorem fits_of_recipient {c : Credit} {dest : String} (hdest : p.recipient = some dest)
    (hr : c.recipient = some (normal chain dest)) (henough : p.Enough c.amount) :
    Fits chain p c := by
  refine ⟨henough, _, hr, ?_⟩
  rw [hdest]

theorem native_of_kaspa {asset : String} {coin : Coin} (h : coinOf chain asset = some coin)
    (hchain : chain = .kaspa) : coin = .native := by
  subst hchain
  exact (checkedCoin_of_coinOf h).symm

/-- **When the verifier is right**: what it confirms is the payment, and the payment is what it
confirms, exactly where the transaction is a plain one. -/
theorem verified_iff (web : TronWeb) (nodes : Nodes) (chain : Chain) (p : Params) :
    (Confirmed (verifyCrossChainTx web nodes chain p) ↔ Paid web nodes chain p) ↔
      Plain web nodes chain p := by
  rw [confirmed_iff]
  constructor
  · intro h
    refine ⟨?_, ?_, ?_, ?_⟩
    · intro hasset c hshown hfits
      obtain ⟨-, coin, dest, hcoin, -⟩ := h.mp ⟨c, hshown, hfits⟩
      rw [hasset] at hcoin
      cases hcoin
    · intro hnone c hshown hfits
      obtain ⟨-, coin, dest, -, hdest, -⟩ := h.mp ⟨c, hshown, hfits⟩
      rw [hnone] at hdest
      cases hdest
    · intro c hshown hfits
      exact (h.mp ⟨c, hshown, hfits⟩).1
    · intro coin dest hcoin hdest hsettled henough
      obtain ⟨c, hshown, hfits⟩ := h.mpr ⟨hsettled, coin, dest, hcoin, hdest, henough⟩
      rw [checkedCoin_of_coinOf hcoin] at hshown
      exact ⟨c, hshown, fits_recipient hfits hdest⟩
  · intro h
    constructor
    · rintro ⟨c, hshown, hfits⟩
      obtain ⟨coin, hcoin⟩ := Option.ne_none_iff_exists'.mp fun hnone =>
        h.asset hnone c hshown hfits
      obtain ⟨dest, hdest⟩ := Option.ne_none_iff_exists'.mp fun hnone =>
        h.recipient hnone c hshown hfits
      obtain ⟨hr, henough⟩ := fits_recipient hfits hdest
      refine ⟨h.settled c hshown hfits, coin, dest, hcoin, hdest, ?_⟩
      rw [checkedCoin_of_coinOf hcoin] at hshown
      refine henough.mono (shown_le_total hshown (native_of_kaspa hcoin) hr ?_)
      rintro rfl
      exact Params.recipient_ne hdest
    · rintro ⟨hsettled, coin, dest, hcoin, hdest, henough⟩
      obtain ⟨c, hshown, hr, henough⟩ := h.whole coin dest hcoin hdest hsettled henough
      rw [← checkedCoin_of_coinOf hcoin] at hshown
      exact ⟨c, hshown, fits_of_recipient hdest hr henough⟩

end Verified

/-! ### Two transactions -/

def sampleWeb : TronWeb := ⟨id, id⟩

def sampleNodes (tx : SolTx) : Nodes where
  evm _ := ⟨none, none, 0⟩
  sol := ⟨some tx, 1100⟩
  tron := ⟨none, none, 0⟩
  kaspa := ⟨"", [], false, none, [], List.forall_mem_nil _⟩

def usdtOnSolana : Token := ⟨"Es9vMFrzaCERmJfrF4H2FYD4KCoNkY11McCe8BenwNYB", 6⟩

def sampleBalance (account : Nat) (owner : String) (amount : ℚ) : TokenBalance :=
  ⟨account, usdtOnSolana.address, some owner, amount⟩

/-- A hundred USDT to `a`, and then more of them to `b`. -/
def largerTx : SolTx where
  slot := 1000
  err := none
  accountKeys := ["f", "x", "y"]
  loadedAddresses := []
  preBalances := [10 ^ 9, 0, 0]
  postBalances := [10 ^ 9, 0, 0]
  preTokenBalances := []
  postTokenBalances := [sampleBalance 1 "a" 100, sampleBalance 2 "b" 101]

/-- A hundred SOL to `a`. -/
def coinTx : SolTx where
  slot := 1000
  err := none
  accountKeys := ["f", "a"]
  loadedAddresses := []
  preBalances := [100 * 10 ^ 9, 0]
  postBalances := [0, 100 * 10 ^ 9]
  preTokenBalances := []
  postTokenBalances := []

def sampleParams (asset : String) : Params := ⟨100, some "a", none, some asset⟩

theorem confirmed_of_any {v : Option Verification} (h : v.any Verification.confirmed = true) :
    Confirmed v := by
  cases v with
  | none => cases h
  | some r => exact ⟨r, rfl, h⟩

/-- **The payment is refused beside a larger one, and SOL is accepted for DAI**, which Solana does
not have in the table. -/
theorem refused_and_accepted :
    (Paid sampleWeb (sampleNodes largerTx) .sol (sampleParams "usdt") ∧
      ¬ Confirmed (verifyCrossChainTx sampleWeb (sampleNodes largerTx) .sol
        (sampleParams "usdt"))) ∧
    (Confirmed (verifyCrossChainTx sampleWeb (sampleNodes coinTx) .sol (sampleParams "dai")) ∧
      ¬ Paid sampleWeb (sampleNodes coinTx) .sol (sampleParams "dai")) := by
  refine ⟨⟨⟨⟨_, rfl, rfl, by decide⟩, .token usdtOnSolana, "a", rfl, rfl, by decide +kernel⟩, ?_⟩,
    ⟨confirmed_of_any (by decide +kernel), ?_⟩⟩
  · rintro ⟨r, hr, hconfirmed⟩
    have hany : (verifyCrossChainTx sampleWeb (sampleNodes largerTx) .sol
        (sampleParams "usdt")).any Verification.confirmed = false := by decide +kernel
    rw [hr, Option.any_some, hconfirmed] at hany
    cases hany
  · rintro ⟨-, coin, dest, hcoin, -⟩
    cases (show coinOf .sol (sampleParams "dai").asset = none from rfl).symm.trans hcoin

end KANet.Trade.CrossChain
