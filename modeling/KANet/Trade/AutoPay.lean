import KANet.Lib.Runs
import KANet.Trade.CrossChainVerify
import KANet.Trade.ExchangeRun
import Mathlib.Data.List.Perm.Basic

/-!
# Payments the node makes by itself

`trade-protocol-filter.js`: when an accept is heard and the taker is an agent of the
node, the node pays for it without asking.

* `payer` — `handleExchangeAccept`: whether a match is paid by this node.
* `_autoPayExchange`, `_autoSettleAsset` — what is paid, and to whom.
* `State.step` — the exchange, with the payments that are due and those that wait
  for an answer.  An accept that came before its offer is paid for as well.
* `own_accepts_run` — a node that hears only accepts that it sent itself, for the
  whole amount, to the address of the maker.

The agents and their wallets do not change.  A transfer counts once it is asked for,
whatever the answer.
-/

namespace KANet.Trade.Exchange

open KANet.Lib

/-! ### The offer that an accept takes -/

/-- `processAccept` goes through with it. -/
def Accept.fits (msg : Accept) (now : Nat) (offer : Offer) : Bool :=
  msg.offer_id ≠ "" && offer.protocol_status = .opened &&
    !(msg.taker ≠ "" && msg.taker = offer.maker) && !offer.expired now &&
      msg.amountFits offer && msg.priceFits offer

def taken (now : Nat) (db : Db) (msg : Accept) : Option Offer :=
  (db.offer msg.offer_id).filter fun o => msg.fits now o

/-- The offer as it is with what the accept says. -/
def Accept.recorded (msg : Accept) (o : Offer) : Offer := if msg.named then msg.record o else o

def Accept.take (msg : Accept) (now : Nat) (o : Offer) : Offer :=
  ((msg.recorded o).move now .matched (some msg.taker)).move now (verificationState o) none

section

variable {now : Nat} {db : Db} {msg : Accept} {o : Offer}

theorem Accept.recorded_status (msg : Accept) (o : Offer) :
    (msg.recorded o).protocol_status = o.protocol_status := by
  unfold Accept.recorded
  split <;> rfl

theorem Accept.record_id (msg : Accept) (o : Offer) : (msg.record o).id = o.id := rfl

theorem taken_spec (h : taken now db msg = some o) :
    db.offer msg.offer_id = some o ∧ msg.fits now o = true :=
  Option.filter_eq_some_iff.mp h

theorem Accept.fits_iff : msg.fits now o = true ↔
    msg.offer_id ≠ "" ∧ o.protocol_status = .opened ∧
      ¬ (msg.taker ≠ "" ∧ msg.taker = o.maker) ∧ o.expired now = false ∧
        msg.amountFits o = true ∧ msg.priceFits o = true := by
  simp only [Accept.fits, Bool.and_eq_true, Bool.not_eq_true', decide_eq_true_eq, and_assoc,
    Bool.and_eq_false_iff, decide_eq_false_iff_not, not_and_or]

theorem Accept.opened_of_fits (h : msg.fits now o = true) : o.protocol_status = .opened :=
  (Accept.fits_iff.mp h).2.1

/-- An accept that fits is matched and goes on to its verification. -/
theorem processAccept_of_taken (h : taken now db msg = some o) (stops : Bool) :
    processAccept now db msg stops =
      if stops then matchOffer now db msg o
      else routeToVerification now (matchOffer now db msg o) o.id := by
  obtain ⟨hget, hfits⟩ := taken_spec h
  obtain ⟨hid, hopen, hself, hexp, hamount, hprice⟩ := Accept.fits_iff.mp hfits
  unfold processAccept
  simp only [hid, if_false, hget, hopen, ne_eq, not_true_eq_false, hexp, hamount, hprice,
    Bool.not_true, Bool.false_eq_true]
  rw [if_neg hself]

theorem offer_matchOffer (hget : db.offer o.id = some o) (hopen : o.protocol_status = .opened) :
    (matchOffer now db msg o).offer o.id =
      some ((msg.recorded o).move now .matched (some msg.taker)) := by
  have hrec : (if msg.named then db.update o.id msg.record msg.record_id else db).offer o.id =
      some (msg.recorded o) := by
    unfold Accept.recorded
    split
    · rw [Db.offer_update, if_pos rfl, hget]
      rfl
    · exact hget
  have hmoves : Moves (if msg.named then db.update o.id msg.record msg.record_id else db) o.id
      .matched := by
    refine ⟨_, hrec, ?_⟩
    rw [Accept.recorded_status, hopen]
    decide
  unfold matchOffer
  rw [offer_transition_of hmoves, if_pos rfl, hrec]
  rfl

theorem verificationState_recorded (msg : Accept) (o : Offer) (taker : Option String) :
    verificationState ((msg.recorded o).move now .matched taker) = verificationState o := by
  unfold Accept.recorded
  split <;> rfl

theorem verificationState_cases (o : Offer) : verificationState o = .awaiting_manual_confirm ∨
    verificationState o = .awaiting_oracle ∨ verificationState o = .verifying := by
  unfold verificationState
  split
  · exact Or.inl rfl
  · split
    · exact Or.inr (Or.inl rfl)
    · exact Or.inr (Or.inr rfl)

theorem verificationState_valid (o : Offer) :
    verificationState o ∈ VALID_TRANSITIONS .matched := by
  obtain h | h | h := verificationState_cases o <;> rw [h] <;> decide

theorem verificationState_ne_opened (o : Offer) : verificationState o ≠ .opened := by
  obtain h | h | h := verificationState_cases o <;> rw [h] <;> decide

/-- **What an accept makes of its offer.** -/
theorem offer_processAccept (h : taken now db msg = some o) :
    (processAccept now db msg false).offer o.id = some (msg.take now o) := by
  obtain ⟨hget, hfits⟩ := taken_spec h
  have hopen := Accept.opened_of_fits hfits
  rw [← Db.offer_id hget] at hget
  have hmatched : (matchOffer now db msg o).offer o.id =
      some ((msg.recorded o).move now .matched (some msg.taker)) := offer_matchOffer hget hopen
  have hmoves : Moves (matchOffer now db msg o) o.id (verificationState o) :=
    ⟨_, hmatched, verificationState_valid o⟩
  rw [processAccept_of_taken h, if_neg Bool.false_ne_true]
  unfold routeToVerification
  rw [hmatched]
  simp only [Offer.move_status, ne_eq, not_true_eq_false, if_false, verificationState_recorded]
  rw [offer_transition_of hmoves, if_pos rfl, hmatched]
  rfl

/-- One that does not fit waits for its offer, or changes nothing, or the offer expires. -/
theorem processAccept_refused (h : taken now db msg = none) (stops : Bool) :
    (db.offer msg.offer_id = none ∧ processAccept now db msg stops = db.stash now msg) ∨
      processAccept now db msg stops = db ∨
      ∃ o, db.offer msg.offer_id = some o ∧ o.protocol_status = .opened ∧
        processAccept now db msg stops = transition now db o.id .expired none := by
  unfold processAccept
  split
  · exact Or.inr (Or.inl rfl)
  · next hid =>
    split
    · next hget => exact Or.inl ⟨hget, rfl⟩
    · next o hget =>
      have hfits : ¬ msg.fits now o = true := by
        rw [taken, hget] at h
        simpa using h
      split
      · exact Or.inr (Or.inl rfl)
      · next hopen =>
        split
        · exact Or.inr (Or.inl rfl)
        · next hself =>
          split
          · exact Or.inr (Or.inr ⟨o, hget, not_not.mp hopen, rfl⟩)
          · next hexp =>
            split
            · exact Or.inr (Or.inl rfl)
            · next hamount =>
              split
              · exact Or.inr (Or.inl rfl)
              · next hprice =>
                refine absurd (Accept.fits_iff.mpr ⟨hid, not_not.mp hopen, hself, ?_, ?_, ?_⟩) hfits
                · exact Bool.eq_false_iff.mpr hexp
                · simpa using hamount
                · simpa using hprice

/-- An accept that does not fit leaves its offer open only as it was. -/
theorem processAccept_of_not_taken (h : taken now db msg = none)
    (hget : db.offer msg.offer_id = some o) :
    (processAccept now db msg false).offer msg.offer_id = some o ∨
      (processAccept now db msg false).status msg.offer_id ≠ some .opened := by
  obtain ⟨hnone, -⟩ | heq | ⟨o', ho', hopen, heq⟩ := processAccept_refused h false
  · rw [hget] at hnone
    cases hnone
  · rw [heq]
    exact Or.inl hget
  · right
    have hid := Db.offer_id ho'
    have hmoves : Moves db o'.id .expired := by
      refine ⟨o', hid ▸ ho', ?_⟩
      rw [hopen]
      decide
    rw [heq, ← hid, status_transition_of hmoves]
    decide

end

end KANet.Trade.Exchange

namespace KANet.Trade.Exchange.AutoPay

open KANet.Lib

open CrossChain (lower)

/-! ### The agents of the node and the assets it sends -/

structure RelayNode where
  id : String
  address : String
  is_dex_broker : Bool

structure AgentWallet where
  relay_node_id : String
  chain : String
  privkey_encrypted : Option String
  is_default : Bool

structure Node where
  relay_nodes : List RelayNode
  agent_wallets : List AgentWallet

namespace Node

def relay (node : Node) (address : String) : Option RelayNode :=
  node.relay_nodes.find? fun r => r.address = address

/-- A broker only passes broadcasts on. -/
def agent (node : Node) (address : String) : Option RelayNode :=
  (node.relay address).filter fun r => !r.is_dex_broker

def owns (node : Node) (address : String) : Bool := (node.relay address).isSome

def privkey (node : Node) (relayId chain : String) : Option String :=
  (node.agent_wallets.find? fun w =>
    w.relay_node_id = relayId && w.chain = chain && w.is_default).bind fun w =>
      truthy w.privkey_encrypted

end Node

inductive Settler
  | kasia | evm

structure AssetMeta where
  symbol : String
  chain : String
  settler : Settler
  minQty : ℚ

def ASSETS : List AssetMeta :=
  ⟨"KAS", "kaspa", .kasia, 1⟩ ::
    [("USDT", "bnb"), ("USDC", "bnb"), ("USDT", "eth"), ("USDC", "eth"), ("USDT", "polygon"),
      ("USDC", "polygon"), ("USDT", "arbitrum"), ("USDC", "arbitrum"), ("USDT", "optimism"),
      ("USDC", "optimism"), ("USDT", "avalanche"), ("USDC", "avalanche"), ("USDC", "base")].map
      fun (symbol, chain) => ⟨symbol, chain, .evm, 1 / 10⟩

def upper (s : String) : String :=
  -- the one letter outside ASCII that an asset's name can come from
  String.ofList (s.toList.map fun c => if c = Char.ofNat 0x17f then 'S' else c.toUpper)

def chainKey (s : String) : String :=
  -- the Kelvin sign
  lower (String.ofList (s.toList.map fun c => if c = Char.ofNat 0x212a then 'k' else c))

def getAsset (symbol chain : String) : Option AssetMeta :=
  if symbol = "" then none
  else ASSETS.find? fun a => a.symbol = upper symbol && a.chain = chainKey chain

def isSupported (symbol chain : String) : Bool := (getAsset symbol chain).isSome

def ALL_SUPPORTED_CHAINS : List String := ["bnb", "eth", "sol", "tron"]

/-! ### Paying -/

/-- A transfer out of the wallet of an agent. -/
structure Payment where
  relay_node_id : String
  asset : String
  chain : String
  target : String
  amount : ℚ
  deriving DecidableEq

def _autoPayExchange (node : Node) (offer : Offer) (takerRelayNodeId : String) :
    Option Payment := do
  let chain ← truthy offer.taker_chain
  guard (chain ∈ ALL_SUPPORTED_CHAINS)
  let _ ← node.privkey takerRelayNodeId chain
  let receiveAddress ← truthy offer.taker_payment_address
  let amount ← offer.want_amount
  guard (0 < amount)
  return ⟨takerRelayNodeId, "USDT", chain, receiveAddress, amount⟩

def sendAsset (node : Node) (p : Payment) : Option Payment := do
  let info ← getAsset p.asset p.chain
  guard (info.minQty ≤ p.amount)
  guard (p.relay_node_id ≠ "")
  match info.settler with
  | .kasia => return p
  | .evm => (node.privkey p.relay_node_id p.chain).map fun _ => p

def _autoSettleAsset (node : Node) (offer : Offer) (takerRelayNodeId : String) :
    Option Payment := do
  let wantChain ← (truthy offer.want_chain).or
    (if upper offer.want_asset = "KAS" then some "kaspa" else none)
  guard (isSupported offer.want_asset wantChain)
  let amount ← offer.want_amount
  guard (0 < amount)
  let recipientAddress ← truthy ((truthy offer.verification_meta.expected_address).or offer.maker)
  sendAsset node ⟨takerRelayNodeId, offer.want_asset, wantChain, recipientAddress, amount⟩

/-- The agent that `handleExchangeAccept` pays for. -/
def payer (node : Node) (result : Offer) : Option RelayNode := do
  guard (result.protocol_status = .verifying)
  let taker ← truthy result.taker
  if result.verification = "cross_chain_tx" then do
    let _ ← truthy result.taker_chain
    node.agent taker
  else if result.verification = "kaspa_tx" then do
    let want_chain ← truthy result.want_chain
    guard (isSupported result.want_asset want_chain)
    node.agent taker
  else none

def payment (node : Node) (result : Offer) : Option Payment := do
  let localRelay ← payer node result
  if result.verification = "cross_chain_tx" then _autoPayExchange node result localRelay.id
  else _autoSettleAsset node result localRelay.id

/-! ### The node -/

structure Match where
  accept : Accept
  -- as it was
  offer : Offer
  -- as `processAccept` returned it
  result : Offer

structure Transfer extends Payment where
  -- the place of its match
  matched : Nat
  deriving DecidableEq

inductive Waiting
  -- `await transferUsdt(…)` or `await sendAsset(…)`
  | sending (offer : Offer) (chain : String)
  -- the broadcast of `kanet_exchange_paid_v1`
  | announcing (offer : Offer) (chain txHash : String)

/-- `accepted` and `transfers` only grow. -/
structure State where
  exchange : World
  accepted : List Match
  -- `setImmediate`
  scheduled : List Nat
  waiting : List Waiting
  transfers : List Transfer

inductive Event
  | exchange (now : Nat) (e : Exchange.Event)
  | pay (i : Nat)
  | reply (now i : Nat) (r : Reply)

def matchOf (now : Nat) (db : Db) (msg : Accept) : Option Match := do
  let offer ← taken now db msg
  let result ← (processAccept now db msg false).offer offer.id
  return ⟨msg, offer, result⟩

def replays (now : Nat) : Db → List PendingAccept → List Match
  | _, [] => []
  | db, p :: ps =>
    (matchOf now (db.forget p.msg.tx) p.msg).toList ++ replays now (replay now db p) ps

/-- The table with the offer, where `handleExchange` writes it. -/
def stored (db : Db) (msg : Publish) : Option (Table Offer.id) :=
  if msg.give_asset = "" ∨ msg.want_asset = "" then none
  else if db.exchange_offers.rows.any fun o =>
      o.broadcast_tx_id = msg.tx && o.message_index = msg.message_index then none
  else db.exchange_offers.insert msg.offer

/-- The accepts that are matched when a message is heard. -/
def matchesOf (now : Nat) (db : Db) : Exchange.Event → List Match
  | .accept msg _ => (matchOf now db msg).toList
  | .publish msg =>
    (stored db msg).elim [] fun offers =>
      replays now { db with exchange_offers := offers } (db.orphans msg.id)
  | _ => []

def restarts : Exchange.Event → Bool
  | .accept _ stops => stops
  | .paid _ stops => stops
  | .restart => true
  | _ => false

namespace State

def start (w : World) : State := ⟨w, [], [], [], []⟩

def enter (node : Node) (s : State) (m : Match) : State :=
  { s with
    accepted := s.accepted ++ [m]
    scheduled := s.scheduled ++ ((payer node m.result).map fun _ => s.accepted.length).toList }

def hear (node : Node) (s : State) (now : Nat) (e : Exchange.Event) : State :=
  if restarts e then
    { s with exchange := s.exchange.step node.owns (now, e), scheduled := [], waiting := [] }
  else
    (matchesOf now s.exchange.db e).foldl (enter node)
      { s with exchange := s.exchange.step node.owns (now, e) }

/-- The payment of a match that is due. -/
def due (node : Node) (s : State) (k : Nat) : Option (Offer × Payment) := do
  let m ← s.accepted[k]?
  let p ← payment node m.result
  return (m.result, p)

def pay (node : Node) (s : State) (i : Nat) : State :=
  match s.scheduled[i]? with
  | none => s
  | some k =>
    match s.due node k with
    | none => { s with scheduled := s.scheduled.eraseIdx i }
    | some (offer, p) =>
      { s with
        scheduled := s.scheduled.eraseIdx i
        waiting := s.waiting ++ [.sending offer p.chain]
        transfers := s.transfers ++ [{ toPayment := p, matched := k }] }

/-- What was paid is told to the exchange; when it cannot be announced, the offer stays where it
is. -/
def answer (node : Node) (s : State) (now : Nat) : Waiting → Reply → State
  | .sending offer chain, .txId tx =>
    { s with
      exchange :=
        s.exchange.withDb (s.exchange.db.update offer.id (World.storePayment tx) fun _ => rfl)
      waiting :=
        -- `_autoSettleAsset` does not get to it: it has no `sendCommandAsync` in scope
        if offer.verification = "cross_chain_tx" then s.waiting ++ [.announcing offer chain tx]
        else s.waiting }
  | .announcing offer chain tx, .txId _ =>
    { s with
      exchange := World.processPaymentSubmit now node.owns s.exchange offer.id tx (some chain) }
  | _, _ => s

def step (node : Node) (s : State) : Event → State
  | .exchange now e => s.hear node now e
  | .pay i => s.pay node i
  | .reply now i r =>
    (s.waiting[i]?).elim s fun w =>
      answer node { s with waiting := s.waiting.eraseIdx i } now w r.read

def run (node : Node) (s : State) (es : List Event) : State := es.foldl (step node) s

end State

/-! ### What the node should pay for -/

/-- Where the maker wants to be paid. -/
def announced (o : Offer) (selected_chain : Option String) : Option String :=
  if o.verification = "kaspa_tx" then
    truthy ((truthy o.verification_meta.expected_address).or o.maker)
  else
    ((selected_chain.bind fun chain =>
      (o.verification_meta.accepted_chains.find? fun c => lower c.chain = lower chain).bind
        fun c => truthy c.address).or (truthy o.verification_meta.maker_payment_address)).or
      (truthy o.verification_meta.expected_address)

def quantity (o : Offer) (msg : Accept) : Option ℚ := msg.amount.getD o.give_amount

/-- What is wanted for the quantity that was accepted. -/
def wanted (o : Offer) (msg : Accept) : Option ℚ := do
  let want ← o.want_amount
  let give ← o.give_amount
  let qty ← quantity o msg
  return want * qty / give

/-- **The node pays only for its own accepts.** -/
structure OwnAccepts (node : Node) (s : State) : Prop where
  /-- The accept came from an address of the node, and what it owes for it goes to the maker. -/
  owed : ∀ t ∈ s.transfers, ∃ m, s.accepted[t.matched]? = some m ∧ node.owns m.accept.sender ∧
    announced m.offer m.result.taker_chain = some t.target ∧
    wanted m.offer m.accept = some t.amount
  /-- A match is paid once. -/
  once : (s.transfers.map Transfer.matched).Nodup

/-- The accept is the node's own, for the whole amount, and names the address of the maker. -/
structure Proper (node : Node) (o : Offer) (msg : Accept) : Prop where
  own : node.owns msg.sender
  whole : quantity o msg = o.give_amount
  address : o.verification = "cross_chain_tx" →
    truthy (msg.recorded o).taker_payment_address = announced o (msg.recorded o).taker_chain

/-- What the node would pay for is proper. -/
def Payable (node : Node) (now : Nat) (o : Offer) (msg : Accept) : Prop :=
  payment node (msg.take now o) ≠ none → Proper node o msg

/-- Of the accepts that came before their offer the first that fits is matched. -/
def ProperAccepts (node : Node) (s : State) : Event → Prop
  | .exchange now (.accept msg false) =>
    ∀ o, taken now s.exchange.db msg = some o → Payable node now o msg
  | .exchange now (.publish pub) =>
    stored s.exchange.db pub ≠ none →
      ∀ p, ((s.exchange.db.orphans pub.id).find? fun p => p.msg.fits now pub.offer) = some p →
        Payable node now pub.offer p.msg
  | _ => True

def Step (node : Node) (s : State) (e : Event) (s' : State) : Prop :=
  ProperAccepts node s e ∧ s' = s.step node e

/-! ### One match -/

section Match

variable {node : Node} {now : Nat} {db : Db} {msg : Accept} {o : Offer}

theorem take_eq (now : Nat) (msg : Accept) (o : Offer) :
    msg.take now o =
      { msg.recorded o with
        protocol_status := verificationState o
        taker := some msg.taker
        matched_at := some now
        verifying_started_at := some now } := by
  unfold Accept.take
  generalize msg.recorded o = x
  obtain h | h | h := verificationState_cases o <;> rw [h] <;> rfl

/-- A match is of an accept that the offer took. -/
theorem matchOf_spec {m : Match} (h : matchOf now db msg = some m) :
    taken now db msg = some m.offer ∧ m.accept = msg ∧ m.result = msg.take now m.offer := by
  unfold matchOf at h
  obtain ⟨offer, htaken, h⟩ := Option.bind_eq_some_iff.mp h
  rw [offer_processAccept htaken] at h
  obtain rfl := Option.some.inj h
  exact ⟨htaken, rfl, rfl⟩

theorem matchOf_eq (h : taken now db msg = some o) :
    matchOf now db msg = some ⟨msg, o, msg.take now o⟩ := by
  unfold matchOf
  rw [h]
  show ((processAccept now db msg false).offer o.id).bind _ = _
  rw [offer_processAccept h]
  rfl

theorem matchOf_eq_none (h : taken now db msg = none) : matchOf now db msg = none := by
  unfold matchOf
  rw [h]
  rfl

theorem autoPay_spec {id : String} {p : Payment} (h : _autoPayExchange node o id = some p) :
    truthy o.taker_payment_address = some p.target ∧ o.want_amount = some p.amount := by
  unfold _autoPayExchange at h
  obtain ⟨chain, -, h⟩ := Option.bind_eq_some_iff.mp h
  obtain ⟨-, -, h⟩ := Option.bind_eq_some_iff.mp h
  obtain ⟨-, -, h⟩ := Option.bind_eq_some_iff.mp h
  obtain ⟨receiveAddress, haddr, h⟩ := Option.bind_eq_some_iff.mp h
  obtain ⟨amount, hamount, h⟩ := Option.bind_eq_some_iff.mp h
  obtain ⟨-, -, h⟩ := Option.bind_eq_some_iff.mp h
  obtain rfl := Option.some.inj h
  exact ⟨haddr, hamount⟩

theorem sendAsset_eq {p q : Payment} (h : sendAsset node p = some q) : q = p := by
  unfold sendAsset at h
  obtain ⟨info, -, h⟩ := Option.bind_eq_some_iff.mp h
  obtain ⟨-, -, h⟩ := Option.bind_eq_some_iff.mp h
  obtain ⟨-, -, h⟩ := Option.bind_eq_some_iff.mp h
  split at h
  · exact (Option.some.inj h).symm
  · obtain ⟨-, -, rfl⟩ := Option.map_eq_some_iff.mp h
    rfl

theorem autoSettle_spec {id : String} {p : Payment} (h : _autoSettleAsset node o id = some p) :
    truthy ((truthy o.verification_meta.expected_address).or o.maker) = some p.target ∧
      o.want_amount = some p.amount := by
  unfold _autoSettleAsset at h
  obtain ⟨wantChain, -, h⟩ := Option.bind_eq_some_iff.mp h
  obtain ⟨-, -, h⟩ := Option.bind_eq_some_iff.mp h
  obtain ⟨amount, hamount, h⟩ := Option.bind_eq_some_iff.mp h
  obtain ⟨-, -, h⟩ := Option.bind_eq_some_iff.mp h
  obtain ⟨recipientAddress, haddr, h⟩ := Option.bind_eq_some_iff.mp h
  obtain rfl := sendAsset_eq h
  exact ⟨haddr, hamount⟩

theorem payer_verification {r : RelayNode} (h : payer node o = some r)
    (hcross : o.verification ≠ "cross_chain_tx") : o.verification = "kaspa_tx" := by
  unfold payer at h
  obtain ⟨-, -, h⟩ := Option.bind_eq_some_iff.mp h
  obtain ⟨taker, -, h⟩ := Option.bind_eq_some_iff.mp h
  rw [if_neg hcross] at h
  split at h
  · next hkaspa => exact hkaspa
  · cases h

theorem recorded_fields (msg : Accept) (o : Offer) :
    (msg.recorded o).want_amount = o.want_amount ∧ (msg.recorded o).maker = o.maker ∧
      (msg.recorded o).verification = o.verification ∧
      (msg.recorded o).verification_meta.expected_address =
        o.verification_meta.expected_address := by
  unfold Accept.recorded
  split <;> exact ⟨rfl, rfl, rfl, rfl⟩

/-- **What is paid for a match**: the whole amount, to the address of the accept or of the maker. -/
theorem payment_spec {p : Payment} (h : payment node (msg.take now o) = some p) :
    o.want_amount = some p.amount ∧
      (o.verification = "cross_chain_tx" ∧
          truthy (msg.recorded o).taker_payment_address = some p.target ∨
        o.verification = "kaspa_tx" ∧
          truthy ((truthy o.verification_meta.expected_address).or o.maker) = some p.target) := by
  obtain ⟨hwant, hmaker, hver, hexpected⟩ := recorded_fields msg o
  unfold payment at h
  obtain ⟨r, hr, h⟩ := Option.bind_eq_some_iff.mp h
  rw [take_eq] at h hr
  split at h
  · next hcross =>
    obtain ⟨haddr, hamount⟩ := autoPay_spec h
    exact ⟨hwant.symm.trans hamount, Or.inl ⟨hver.symm.trans hcross, haddr⟩⟩
  · next hcross =>
    obtain ⟨haddr, hamount⟩ := autoSettle_spec h
    have hkaspa := payer_verification hr hcross
    refine ⟨hwant.symm.trans hamount, Or.inr ⟨hver.symm.trans hkaspa, ?_⟩⟩
    rw [← hmaker, ← hexpected]
    exact haddr

/-- A quantity that is accepted is not nothing. -/
theorem quantity_pos (h : msg.fits now o = true) : ∃ qty, quantity o msg = some qty ∧ 0 < qty := by
  have hamount := (Accept.fits_iff.mp h).2.2.2.2.1
  unfold Accept.amountFits at hamount
  unfold quantity
  cases hq : msg.amount.getD o.give_amount with
  | none =>
    rw [hq] at hamount
    cases hamount
  | some qty =>
    rw [hq] at hamount
    simp only [Bool.and_eq_true, decide_eq_true_eq] at hamount
    exact ⟨qty, rfl, hamount.1⟩

/-- The whole amount is what the whole quantity is wanted for. -/
theorem wanted_of_whole {amount : ℚ} (hwant : o.want_amount = some amount)
    (hfits : msg.fits now o = true) (hwhole : quantity o msg = o.give_amount) :
    wanted o msg = some amount := by
  obtain ⟨qty, hqty, hpos⟩ := quantity_pos hfits
  have hgive : o.give_amount = some qty := hwhole.symm.trans hqty
  unfold wanted
  simp only [hwant, hgive, hqty, Option.bind_eq_bind, Option.bind_some, pure]
  rw [mul_div_assoc, div_self hpos.ne', mul_one]

/-- **What a proper accept is paid.** -/
theorem owed_of_proper {p : Payment} (h : payment node (msg.take now o) = some p)
    (hfits : msg.fits now o = true) (hproper : Proper node o msg) :
    announced o (msg.take now o).taker_chain = some p.target ∧ wanted o msg = some p.amount := by
  obtain ⟨hwant, haddr⟩ := payment_spec h
  refine ⟨?_, wanted_of_whole hwant hfits hproper.whole⟩
  obtain ⟨hcross, haddr⟩ | ⟨hkaspa, haddr⟩ := haddr
  · rw [take_eq]
    exact (hproper.address hcross).symm.trans haddr
  · unfold announced
    rw [if_pos hkaspa]
    exact haddr

end Match

/-! ### What is matched when a message is heard -/

section Hear

variable {node : Node} {now : Nat} {db : Db} {id : OfferId} {o : Offer} {m : Match}

theorem taken_of_closed {msg : Accept} (hs : db.status msg.offer_id ≠ some .opened) :
    taken now db msg = none := by
  cases h : taken now db msg with
  | none => rfl
  | some o =>
    obtain ⟨hget, hfits⟩ := taken_spec h
    refine absurd ?_ hs
    unfold Db.status
    rw [hget, Option.map_some, Accept.opened_of_fits hfits]

theorem status_replay_of_closed {p : PendingAccept} (hp : p.msg.offer_id = id)
    (hs : db.status id ≠ some .opened) : (replay now db p).status id ≠ some .opened := by
  subst hp
  have hclosed : (db.forget p.msg.tx).status p.msg.offer_id ≠ some .opened := hs
  cases hget : (db.forget p.msg.tx).offer p.msg.offer_id with
  | none =>
    have hnone : (replay now db p).offer p.msg.offer_id = none := by
      unfold replay processAccept
      split
      · exact hget
      · rw [hget]
        exact hget
    unfold Db.status
    rw [hnone]
    exact nofun
  | some o =>
    have hnone : taken now (db.forget p.msg.tx) p.msg = none := taken_of_closed hclosed
    obtain hsame | hs := processAccept_of_not_taken hnone hget
    · unfold Db.status at hclosed ⊢
      rw [hget] at hclosed
      rw [replay, hsame]
      exact hclosed
    · exact hs

theorem replays_of_closed (ps : List PendingAccept) (hps : ∀ p ∈ ps, p.msg.offer_id = id)
    (hs : db.status id ≠ some .opened) : replays now db ps = [] := by
  induction ps generalizing db with
  | nil => rfl
  | cons p ps ih =>
    have hp := hps p List.mem_cons_self
    have hnone : taken now (db.forget p.msg.tx) p.msg = none := by
      apply taken_of_closed
      rw [hp]
      exact hs
    rw [replays, matchOf_eq_none hnone,
      ih (fun q hq => hps q (List.mem_cons_of_mem p hq)) (status_replay_of_closed hp hs)]
    rfl

/-- **Of the accepts that came before it an offer takes the first that fits.** -/
theorem mem_replays (ps : List PendingAccept) (hps : ∀ p ∈ ps, p.msg.offer_id = id)
    (hget : db.offer id = some o) (hm : m ∈ replays now db ps) :
    ∃ p, ps.find? (fun p => p.msg.fits now o) = some p ∧
      m = ⟨p.msg, o, p.msg.take now o⟩ ∧ p.msg.fits now o = true := by
  induction ps generalizing db with
  | nil => cases hm
  | cons p ps ih =>
    have hp := hps p List.mem_cons_self
    have hrest := fun q hq => hps q (List.mem_cons_of_mem p hq)
    have hget' : (db.forget p.msg.tx).offer p.msg.offer_id = some o := by
      rw [hp]
      exact hget
    rw [replays] at hm
    cases ht : taken now (db.forget p.msg.tx) p.msg with
    | some o' =>
      obtain ⟨hto, hfits⟩ := taken_spec ht
      rw [hget'] at hto
      obtain rfl := Option.some.inj hto
      have hclosed : (replay now db p).status id ≠ some .opened := by
        have hoff := offer_processAccept ht
        rw [Db.offer_id hget'] at hoff
        unfold Db.status
        rw [replay, ← hp, hoff, take_eq]
        exact fun h => verificationState_ne_opened o (Option.some.inj h)
      rw [matchOf_eq ht, replays_of_closed ps hrest hclosed] at hm
      obtain rfl := List.mem_singleton.mp hm
      exact ⟨p, by rw [List.find?_cons, hfits], rfl, hfits⟩
    | none =>
      have hfits : ¬ p.msg.fits now o = true := by
        rw [taken, hget'] at ht
        simpa using ht
      rw [matchOf_eq_none ht] at hm
      rw [List.find?_cons, Bool.eq_false_iff.mpr hfits]
      obtain hsame | hs := processAccept_of_not_taken ht hget'
      · rw [hp] at hsame
        exact ih hrest hsame hm
      · rw [hp] at hs
        have hnil : replays now (replay now db p) ps = [] := replays_of_closed ps hrest hs
        rw [hnil] at hm
        cases hm

theorem handleExchange_eq (now : Nat) (db : Db) (pub : Publish) :
    handleExchange now db pub = (stored db pub).elim db fun offers =>
      (db.orphans pub.id).foldl (replay now) { db with exchange_offers := offers } := by
  unfold handleExchange stored
  split
  · rfl
  · split
    · rfl
    · split
      · next h =>
        rw [h]
        rfl
      · next h =>
        rw [h]
        rfl

theorem offer_of_stored {pub : Publish} {offers : Table Offer.id}
    (h : stored db pub = some offers) : offers.get pub.id = some pub.offer := by
  unfold stored at h
  split at h
  · cases h
  · split at h
    · cases h
    · rw [Table.get_insert h]
      exact if_pos rfl

theorem orphans_offer_id {p : PendingAccept} (h : p ∈ db.orphans id) : p.msg.offer_id = id := by
  rw [Db.orphans, List.mem_insertionSort] at h
  simpa using (List.mem_filter.mp h).2

/-- A match of an accept that is payable. -/
def Good (node : Node) (m : Match) : Prop :=
  ∃ now, m.accept.fits now m.offer = true ∧ m.result = m.accept.take now m.offer ∧
    Payable node now m.offer m.accept

theorem good_of_heard {s : State} {e : Exchange.Event} (h : ProperAccepts node s (.exchange now e))
    (hr : restarts e = false) (hm : m ∈ matchesOf now s.exchange.db e) : Good node m := by
  cases e with
  | accept msg stops =>
    have hstops : stops = false := hr
    subst hstops
    obtain ⟨htaken, rfl, hresult⟩ := matchOf_spec (Option.mem_toList.mp hm)
    exact ⟨now, (taken_spec htaken).2, hresult, h m.offer htaken⟩
  | publish pub =>
    have hm' : m ∈ (stored s.exchange.db pub).elim [] fun offers =>
      replays now { s.exchange.db with exchange_offers := offers }
        (s.exchange.db.orphans pub.id) := hm
    cases hst : stored s.exchange.db pub with
    | none =>
      rw [hst] at hm'
      cases hm'
    | some offers =>
      rw [hst] at hm'
      have hget : Db.offer { s.exchange.db with exchange_offers := offers } pub.id =
          some pub.offer := offer_of_stored hst
      obtain ⟨p, hfind, rfl, hfits⟩ := mem_replays _ (fun p hp => orphans_offer_id hp) hget hm'
      exact ⟨now, hfits, rfl, h (by rw [hst]; exact nofun) p hfind⟩
  | _ => cases hm

end Hear

/-! ### Runs -/

/-- Each match is scheduled or paid at most once, and paid as its row says. -/
structure Inv (node : Node) (s : State) : Prop where
  good : ∀ m ∈ s.accepted, Good node m
  bound : ∀ k ∈ s.scheduled ++ s.transfers.map Transfer.matched, k < s.accepted.length
  nodup : (s.scheduled ++ s.transfers.map Transfer.matched).Nodup
  paid : ∀ t ∈ s.transfers, ∃ m, s.accepted[t.matched]? = some m ∧
    payment node m.result = some t.toPayment

namespace Inv

variable {node : Node} {s : State}

theorem start (w : World) : Inv node (State.start w) where
  good := fun _ h => absurd h List.not_mem_nil
  bound := fun _ h => absurd h List.not_mem_nil
  nodup := List.nodup_nil
  paid := fun _ h => absurd h List.not_mem_nil

/-- The exchange moves on and payments may be forgotten. -/
theorem forget (h : Inv node s) {w : World} {scheduled : List Nat} {waiting : List Waiting}
    (hsub : scheduled.Sublist s.scheduled) :
    Inv node ⟨w, s.accepted, scheduled, waiting, s.transfers⟩ where
  good := h.good
  bound := fun k hk => h.bound k ((hsub.append_right _).subset hk)
  nodup := h.nodup.sublist (hsub.append_right _)
  paid := h.paid

theorem enter (h : Inv node s) {m : Match} (hm : Good node m) : Inv node (s.enter node m) := by
  have hlen : (s.enter node m).accepted.length = s.accepted.length + 1 := List.length_append
  have hnew : ∀ k ∈ ((payer node m.result).map fun _ => s.accepted.length).toList,
      k = s.accepted.length := by
    intro k hk
    obtain ⟨_, -, rfl⟩ := Option.map_eq_some_iff.mp (Option.mem_toList.mp hk)
    rfl
  refine ⟨?_, ?_, ?_, ?_⟩
  · intro m' hm'
    rcases List.mem_append.mp hm' with hold | hlast
    · exact h.good m' hold
    · rw [List.mem_singleton.mp hlast]
      exact hm
  · intro k hk
    rw [hlen]
    rcases List.mem_append.mp hk with hk | hk
    · rcases List.mem_append.mp hk with hold | hlast
      · exact (h.bound k (List.mem_append_left _ hold)).trans (Nat.lt_succ_self _)
      · rw [hnew k hlast]
        exact Nat.lt_succ_self _
    · exact (h.bound k (List.mem_append_right _ hk)).trans (Nat.lt_succ_self _)
  · have hfresh : s.accepted.length ∉ s.scheduled ++ s.transfers.map Transfer.matched :=
      fun hk => lt_irrefl _ (h.bound _ hk)
    show ((s.scheduled ++ _) ++ s.transfers.map Transfer.matched).Nodup
    cases payer node m.result with
    | none => simpa using h.nodup
    | some r =>
      have hperm : (s.scheduled ++ [s.accepted.length] ++ s.transfers.map Transfer.matched).Perm
          (s.accepted.length :: (s.scheduled ++ s.transfers.map Transfer.matched)) := by
        rw [List.append_assoc, List.singleton_append]
        exact List.perm_middle
      exact hperm.nodup_iff.mpr (List.nodup_cons.mpr ⟨hfresh, h.nodup⟩)
  · intro t ht
    obtain ⟨m', hget, hpaid⟩ := h.paid t ht
    exact ⟨m', (List.getElem?_append_left (List.getElem?_eq_some_iff.mp hget).1).trans hget, hpaid⟩

theorem enter_all (ms : List Match) (h : Inv node s) (hms : ∀ m ∈ ms, Good node m) :
    Inv node (ms.foldl (State.enter node) s) := by
  induction ms generalizing s with
  | nil => exact h
  | cons m ms ih =>
    exact ih (h.enter (hms m List.mem_cons_self)) fun m' hm' => hms m' (List.mem_cons_of_mem m hm')

theorem hear (h : Inv node s) {now : Nat} {e : Exchange.Event}
    (he : ProperAccepts node s (.exchange now e)) : Inv node (s.hear node now e) := by
  unfold State.hear
  split
  · exact h.forget (List.nil_sublist _)
  · next hr =>
    refine (h.forget (List.Sublist.refl _)).enter_all _ fun m hm => ?_
    exact good_of_heard he (Bool.eq_false_iff.mpr hr) hm

theorem due_spec {k : Nat} {offer : Offer} {p : Payment} (h : s.due node k = some (offer, p)) :
    ∃ m, s.accepted[k]? = some m ∧ payment node m.result = some p := by
  unfold State.due at h
  obtain ⟨m, hm, h⟩ := Option.bind_eq_some_iff.mp h
  obtain ⟨q, hq, h⟩ := Option.bind_eq_some_iff.mp h
  obtain ⟨-, rfl⟩ := Prod.mk.inj (Option.some.inj h)
  exact ⟨m, hm, hq⟩

theorem pay (h : Inv node s) (i : Nat) : Inv node (s.pay node i) := by
  unfold State.pay
  split
  · exact h
  · next k hk =>
    split
    · exact h.forget (List.eraseIdx_sublist _ _)
    · next offer p hdue =>
      obtain ⟨m, hm, hp⟩ := due_spec hdue
      obtain ⟨hi, rfl⟩ := List.getElem?_eq_some_iff.mp hk
      have hperm : (s.scheduled.eraseIdx i ++
          (s.transfers ++ [(⟨p, s.scheduled[i]⟩ : Transfer)]).map Transfer.matched).Perm
            (s.scheduled ++ s.transfers.map Transfer.matched) := by
        rw [List.map_append, List.map_singleton, ← List.append_assoc]
        refine (List.perm_append_singleton _ _).trans ?_
        rw [← List.cons_append]
        exact (List.getElem_cons_eraseIdx_perm hi).append_right _
      refine ⟨h.good, fun k hk => h.bound k (hperm.subset hk), hperm.nodup_iff.mpr h.nodup, ?_⟩
      intro t ht
      rcases List.mem_append.mp ht with hold | hnew
      · exact h.paid t hold
      · rw [List.mem_singleton.mp hnew]
        exact ⟨m, hm, hp⟩

theorem answer (h : Inv node s) (now : Nat) (w : Waiting) (r : Reply) :
    Inv node (s.answer node now w r) := by
  unfold State.answer
  split
  · exact h.forget (List.Sublist.refl _)
  · exact h.forget (List.Sublist.refl _)
  · exact h

theorem step (h : Inv node s) {e : Event} (he : ProperAccepts node s e) :
    Inv node (s.step node e) := by
  cases e with
  | exchange now e => exact h.hear he
  | pay i => exact h.pay i
  | reply now i r =>
    show Inv node ((s.waiting[i]?).elim s fun w =>
      State.answer node { s with waiting := s.waiting.eraseIdx i } now w r.read)
    cases s.waiting[i]? with
    | none => exact h
    | some w => exact Inv.answer (h.forget (List.Sublist.refl _)) now w r.read

theorem ownAccepts (h : Inv node s) : OwnAccepts node s where
  owed := by
    intro t ht
    obtain ⟨m, hm, hp⟩ := h.paid t ht
    obtain ⟨now, hfits, hresult, hpayable⟩ := h.good m (List.mem_of_getElem? hm)
    rw [hresult] at hp
    have hproper := hpayable (by rw [hp]; exact Option.some_ne_none _)
    obtain ⟨haddr, hamount⟩ := owed_of_proper hp hfits hproper
    refine ⟨m, hm, hproper.own, ?_, hamount⟩
    rw [hresult]
    exact haddr
  once := h.nodup.of_append_right

end Inv

/-- **A node that hears proper accepts only pays for its own**, once and to the maker, whatever is
published, paid and answered, and in whatever order. -/
theorem own_accepts_run (node : Node) {w : World} {es : List Event} {s : State}
    (h : Run (Step node) (State.start w) es s) : OwnAccepts node s := by
  have hinv : Inv node s := by
    refine h.invariant (fun s e s' hs hstep => ?_) (Inv.start w)
    obtain ⟨hproper, rfl⟩ := hstep
    exact hs.step hproper
  exact hinv.ownAccepts

section Sample

private def agents : Node where
  relay_nodes := [⟨"agent", "kaspa:agent", false⟩]
  agent_wallets := [⟨"agent", "bnb", some "key", true⟩]

/-- 100 of something for 1000 KAS. -/
private def dear : Publish where
  id := "dear"
  sender := "kaspa:maker"
  tx := "t0"
  message_index := 0
  give_asset := "USDT"
  give_amount := some 100
  give_chain := some "bnb"
  want_asset := "KAS"
  want_amount := some 1000
  want_chain := some "kaspa"
  expires_at := none
  verification := some "kaspa_tx"
  verification_meta := { expected_address := some "kaspa:maker" }

private def acceptOf (sender : String) : Accept where
  offer_id := "dear"
  sender := sender
  tx := "t1"
  receive_address := none
  selected_chain := none
  evm_recv_address := none
  amount := none
  price := none

private def runOf (pub : Publish) (msg : Accept) : State :=
  (State.start World.empty).run agents
    [.exchange 0 (.publish pub), .exchange 1 (.accept msg false), .pay 0, .reply 2 0 (.txId "t2")]

/-- The agent takes the offer itself. -/
private def fair : State := runOf dear (acceptOf "kaspa:agent")

private theorem run_of_fair : Run (Step agents) (State.start World.empty)
    [.exchange 0 (.publish dear), .exchange 1 (.accept (acceptOf "kaspa:agent") false), .pay 0,
      .reply 2 0 (.txId "t2")] fair := by
  refine .cons ⟨fun _ _ h => (nomatch h), rfl⟩ ?_
  refine .cons ⟨fun o ho _ => ?_, rfl⟩ ?_
  · have htaken : taken 1 (((State.start World.empty).step agents
        (.exchange 0 (.publish dear))).exchange.db) (acceptOf "kaspa:agent") = some dear.offer := by
      decide +kernel
    rw [htaken] at ho
    obtain rfl := Option.some.inj ho
    have hver : dear.offer.verification ≠ "cross_chain_tx" := by decide
    exact ⟨by decide, rfl, fun h => absurd h hver⟩
  · exact .cons ⟨trivial, rfl⟩ (.cons ⟨trivial, rfl⟩ (.nil _))

theorem own_accepts_fair :
    fair.transfers = [⟨⟨"agent", "KAS", "kaspa", "kaspa:maker", 1000⟩, 0⟩] ∧
      OwnAccepts agents fair :=
  ⟨by decide +kernel, own_accepts_run agents run_of_fair⟩

/-- A stranger takes the offer in the name of the agent. -/
private def stranger : State :=
  runOf dear { acceptOf "kaspa:maker" with receive_address := some "kaspa:agent" }

/-- The agent takes a hundredth. -/
private def partly : State := runOf dear { acceptOf "kaspa:agent" with amount := some (some 1) }

/-- The maker wants to be paid elsewhere. -/
private def astray : State :=
  runOf { dear with
      give_asset := "KAS", want_asset := "USDT", verification := some "cross_chain_tx"
      verification_meta := { accepted_chains := [⟨"bnb", some "0xmaker"⟩] } }
    { acceptOf "kaspa:agent" with
      receive_address := some "kaspa:agent", selected_chain := some "bnb" }

/-- The agent pays for the accept of a stranger, in full for a part, and to itself. -/
theorem stranger_spends :
    stranger.transfers = [⟨⟨"agent", "KAS", "kaspa", "kaspa:maker", 1000⟩, 0⟩] ∧
      stranger.accepted.map (fun m => m.accept.sender) = ["kaspa:maker"] ∧
      ¬ agents.owns "kaspa:maker" ∧
      partly.transfers = [⟨⟨"agent", "KAS", "kaspa", "kaspa:maker", 1000⟩, 0⟩] ∧
      partly.accepted.map (fun m => wanted m.offer m.accept) = [some 10] ∧
      astray.transfers = [⟨⟨"agent", "USDT", "bnb", "kaspa:agent", 1000⟩, 0⟩] ∧
      astray.accepted.map (fun m => announced m.offer m.result.taker_chain) = [some "0xmaker"] ∧
      ¬ OwnAccepts agents stranger := by
  have hsent : stranger.accepted.map (fun m => m.accept.sender) = ["kaspa:maker"] := by
    decide +kernel
  have htransfers : stranger.transfers =
      [⟨⟨"agent", "KAS", "kaspa", "kaspa:maker", 1000⟩, 0⟩] := by
    decide +kernel
  have hstranger : ¬ agents.owns "kaspa:maker" := by decide
  refine ⟨htransfers, hsent, hstranger, by decide +kernel, by decide +kernel, by decide +kernel,
    by decide +kernel, fun h => ?_⟩
  obtain ⟨m, hm, hown, -⟩ := h.owed _ (by rw [htransfers]; exact List.mem_singleton_self _)
  have hsender : m.accept.sender ∈ ["kaspa:maker"] := by
    rw [← hsent]
    exact List.mem_map_of_mem (List.mem_of_getElem? hm)
  rw [List.mem_singleton.mp hsender] at hown
  exact hstranger hown

end Sample

end KANet.Trade.Exchange.AutoPay
