import KANet.Broker.OrderState
import KANet.Trade.ExchangeMachine

/-!
# Refunding the deposits of a broker

Five drivers refund what a user has deposited: the user's cancellation, the scan of expired offers,
the scan of offers that nobody takes, and the reconciler, all through `advanceToRefunded` of
`broker-state-authority.js`.  It reads the order and its offer, asks the log whether the amount was
sent already, marks the order as being refunded, sends, and records.

* `findPriorRefundTxs`, `isOfferAlreadyRefunded` — `broker-refund-dedup.js`.
* `handleCancelAndRefund`, `scanExpiredBrokerOffers`, `scanUntakenOffersFallback`,
  `checkStuckRefunding`, `checkRetryableExpiredFailedRefund`, `checkStuckNoOfferRefund` — what each
  driver finds to do; it does so one after the other, in any order here.
* `advanceToRefunded`, `claim`, `rollback`, `confirm` — a refund from one wait to the next.
* `step` — everything that may happen between two waits.

Which deposit an offer sells and what becomes of the deposits, no column says; `Offer.deposit` and
`Node.moves` do.  The messages to the users and the alerts are left out.  Amounts are exact where
the service uses doubles, and the members of the payloads are columns.
-/

namespace KANet.Broker.Refunds

open KANet.Lib

open OrderState (State textLe isRealHash)

open Trade.Exchange (Status VALID_TRANSITIONS)

/-! ### Rows -/

structure Order where
  id : String
  user_kasia_address : String
  exchange_offer_id : Option String
  qty : String
  -- `parseFloat(qty)`
  qtyValue : Option ℚ
  created_at : String
  updated_at : String
  state : State
  refund_tx_hash : Option String
  error_reason : Option String

structure Metadata where
  user_kasia_address : Option String
  net_kas : Option ℚ
  intent_qty : Option ℚ
  mid_price : Option ℚ

/-- A row of `exchange_offers`, with the order whose deposit it sells (an id of its own if none). -/
structure Offer where
  id : String
  maker : String
  give_asset : String
  give_amount : Option ℚ
  taker : Option String
  protocol_status : Status
  expires_at : Option String
  broadcast_at : Option String
  created_at : Option String
  broadcast_tx_id : Option String
  metadata : Metadata
  deposit : String

inductive EventType
  | payment | broker_kas_refunded | broker_fallback_claim | broker_fallback_cancelled
  | broker_fallback_cancel_failed | broker_fallback_pending | broker_fallback_fill
  deriving DecidableEq, Repr

/-- A row of `chain_events`. -/
structure ChainEvent where
  txid : String
  event_type : EventType
  from_address : Option String
  to_address : Option String
  offer_id : Option String
  observed_at : String

def ChainEvent.key (e : ChainEvent) : String × EventType := (e.txid, e.event_type)

structure TxLog where
  tx_id : String
  to_address : Option String
  amount : ℚ
  block_time : Int

structure Db where
  retail_dex_orders : Table Order.id
  exchange_offers : Table Offer.id
  chain_events : Table ChainEvent.key
  kaspa_tx_log : List TxLog

def Db.order (db : Db) (id : String) : Option Order := db.retail_dex_orders.get id

def Db.offer (db : Db) (id : String) : Option Offer := db.exchange_offers.get id

def Db.updateOrder (db : Db) (p : Order → Bool) (f : Order → Order) (hf : ∀ o, (f o).id = o.id) :
    Db :=
  { db with retail_dex_orders := db.retail_dex_orders.updateWhere p f hf }

def Db.updateOffer (db : Db) (p : Offer → Bool) (f : Offer → Offer) (hf : ∀ o, (f o).id = o.id) :
    Db :=
  { db with exchange_offers := db.exchange_offers.updateWhere p f hf }

/-- What `transition` of the exchange makes of the status of an offer. -/
def Db.transition (db : Db) (id : String) (s : Status) : Db :=
  db.updateOffer (fun f => f.id = id && s ∈ VALID_TRANSITIONS f.protocol_status)
    (fun f => { f with protocol_status := s }) fun _ => rfl

/-- `recordChainEvent`: nothing, where the row is there already or the trigger refuses the hash. -/
def Db.record (db : Db) (e : ChainEvent) : Db :=
  if isRealHash e.txid then
    { db with chain_events := (db.chain_events.insert e).getD db.chain_events }
  else db

/-- The address of the broker, and what `new Date` makes of a text, in seconds; nothing where that
is no date. -/
structure Env where
  address : String
  epoch : String → Option Int

/-- An empty text counts as none. -/
def truthy (s : Option String) : Option String := s.filter (· ≠ "")

/-! ### `broker-refund-dedup.js` -/

/-- The start of the window; without one, all of the log. -/
def since (env : Env) (start : Option String) : Option Int :=
  match truthy start with
  | none => some 0
  | some s => env.epoch s

/-- A transfer to the user of about the amount, after the start of the window. -/
def TxLog.resembles (user : String) (amount : ℚ) (start : Int) (t : TxLog) : Bool :=
  t.to_address = some user && amount - 1 / 100 ≤ t.amount && t.amount ≤ amount + 1 / 100 &&
    start < t.block_time

def findPriorRefundTxs (env : Env) (log : List TxLog) (user : String) (amount : ℚ)
    (start : Option String) : List TxLog :=
  if user = "" then []
  else
    (((since env start).map fun t => log.filter (TxLog.resembles user amount t)).getD
      []).mergeSort fun t u => t.block_time ≤ u.block_time

/-- `parseFloat(meta.net_kas || offer.give_amount || 0)` -/
def Offer.refundAmount (f : Offer) : ℚ :=
  ((f.metadata.net_kas.filter (· ≠ 0)).or f.give_amount).getD 0

/-- A refund that is recorded for the offer, and in the log. -/
def refundRecorded (db : Db) (id : String) : Option ChainEvent :=
  db.chain_events.rows.find? fun e => e.event_type = .broker_kas_refunded && e.offer_id = some id &&
    db.kaspa_tx_log.any (·.tx_id = e.txid)

/-- The first transfer that is found, if any is. -/
def isOfferAlreadyRefunded (env : Env) (db : Db) (f : Offer) : Option String :=
  (truthy f.metadata.user_kasia_address).bind fun user =>
    match refundRecorded db f.id with
    | some e => some e.txid
    | none =>
      if f.refundAmount = 0 then none
      else
        (findPriorRefundTxs env db.kaspa_tx_log user f.refundAmount
          ((truthy f.broadcast_at).or f.created_at)).head?.map TxLog.tx_id

/-! ### What the drivers find -/

/-- The clock, in the formats that SQLite compares. -/
structure Clock where
  now : String
  minutesAgo5 : String
  hoursAgo3 : String
  hoursAgo24 : String
  daysAgo14 : String
  julianNow : ℚ
  julianday : String → Option ℚ

def textLt (a b : String) : Bool := !textLe b a

/-- Something that a driver has found and not yet done. -/
inductive Work
  -- `handleCancelAndRefund`: before and after the call to cancel the offer
  | cancel (peer : String) (f : Offer)
  | cancelled (peer : String) (f : Offer)
  -- an order to be refunded
  | refund (orderId : String)
  | expired (f : Offer)
  -- the fallback, before and after the call to cancel the offer
  | untaken (f : Offer)
  | sell (f : Offer)

def LOCKABLE : List State := [.awaiting_payment, .paid, .expired]

/-- The offers that a cancellation looks at. -/
def cancellable (env : Env) (clock : Clock) (db : Db) (peer : String) : List Offer :=
  db.exchange_offers.rows.filter fun f =>
    f.maker = env.address && f.protocol_status ∈ [.opened, .expired, .timed_out] &&
      f.taker.isNone && f.broadcast_at.any (textLt clock.hoursAgo3) &&
        f.metadata.user_kasia_address = some peer

def findRefundableOffers (env : Env) (clock : Clock) (db : Db) (peer : String) : List Offer :=
  (cancellable env clock db peer).filter fun f => (isOfferAlreadyRefunded env db f).isNone

def findRefundableDrafts (clock : Clock) (db : Db) (peer : String) : List Order :=
  db.retail_dex_orders.rows.filter fun o =>
    o.user_kasia_address = peer && o.state ∈ [.aligning, .awaiting_payment] &&
      o.exchange_offer_id.isNone && textLt clock.hoursAgo24 o.created_at &&
        !like "test-%".toList o.id.toList

def handleCancelAndRefund (env : Env) (clock : Clock) (db : Db) (peer : String) : List Work :=
  match findRefundableOffers env clock db peer with
  | [] => (findRefundableDrafts clock db peer).map fun o => .refund o.id
  | fs => fs.map (.cancel peer)

/-- `ORDER BY broadcast_at DESC`, NULL last. -/
def newestFirst (fs : List Offer) : List Offer :=
  fs.mergeSort fun f g => g.broadcast_at.all fun b => f.broadcast_at.any fun a => textLe b a

def scanExpiredBrokerOffers (env : Env) (clock : Clock) (db : Db) : List Work :=
  ((newestFirst (db.exchange_offers.rows.filter fun f =>
    f.maker = env.address && f.give_asset = "KAS" && f.taker.isNone &&
      (f.protocol_status ∈ [.expired, .cancelled, .timed_out] ||
        f.protocol_status = .opened &&
          (f.expires_at.bind clock.julianday).any (· < clock.julianNow)) &&
      (refundRecorded db f.id).isNone &&
      !db.chain_events.rows.any (fun e => e.event_type = .broker_fallback_claim &&
        e.offer_id = some f.id) &&
      f.metadata.user_kasia_address.isSome)).take 10).map .expired

def FALLBACK_AGE_MIN : ℚ := 30

def scanUntakenOffersFallback (env : Env) (clock : Clock) (db : Db) : List Work :=
  ((newestFirst (db.exchange_offers.rows.filter fun f =>
    f.maker = env.address && f.give_asset = "KAS" && f.taker.isNone &&
      f.protocol_status = .opened &&
      (f.broadcast_at.bind clock.julianday).any (· < clock.julianNow - FALLBACK_AGE_MIN / 1440) &&
      f.metadata.user_kasia_address.isSome &&
      !db.chain_events.rows.any (fun e => e.offer_id = some f.id &&
        e.event_type ∈ [.broker_fallback_fill, .broker_fallback_cancelled,
          .broker_fallback_cancel_failed, .broker_fallback_pending]))).take 5).map .untaken

/-- The first of the orders that an unordered query gives up to its limit. -/
def checkStuckRefunding (clock : Clock) (db : Db) : List Work :=
  ((db.retail_dex_orders.rows.filter fun o => o.state = .refunding && o.refund_tx_hash.isNone &&
    textLt o.updated_at clock.minutesAgo5).take 50).map fun o => .refund o.id

def errorLike (pattern : String) (o : Order) : Bool :=
  o.error_reason.any fun e => like (containing pattern.toList) e.toList

def checkRetryableExpiredFailedRefund (clock : Clock) (db : Db) : List Work :=
  ((db.retail_dex_orders.rows.filter fun o => o.state = .expired && o.refund_tx_hash.isNone &&
    errorLike "refund_send_failed" o && textLt o.updated_at clock.minutesAgo5).take 20).map
      fun o => .refund o.id

/-- A payment of the user to the broker of about the quantity, after the order. -/
def paidIn (env : Env) (db : Db) (o : Order) : Bool :=
  db.chain_events.rows.any fun e => e.from_address = some o.user_kasia_address &&
    e.to_address = some env.address && e.event_type = .payment &&
      textLe o.created_at e.observed_at &&
        db.kaspa_tx_log.any fun t => t.tx_id = e.txid &&
          o.qtyValue.getD 0 - 1 / 2 ≤ t.amount && t.amount ≤ o.qtyValue.getD 0 + 1 / 2

def checkStuckNoOfferRefund (env : Env) (clock : Clock) (db : Db) : List Work :=
  (((db.retail_dex_orders.rows.filter fun o =>
    o.state = .expired && o.refund_tx_hash.isNone && o.exchange_offer_id.isNone &&
      textLt clock.daysAgo14 o.created_at && !errorLike "invalid_addr" o &&
        paidIn env db o).mergeSort fun o p => textLe o.updated_at p.updated_at).take 5).map
          fun o => .refund o.id

/-! ### Which order -/

/-- `ORDER BY created_at DESC LIMIT 1` -/
def latest (os : List Order) : Option Order :=
  (os.mergeSort fun o p => textLe p.created_at o.created_at).head?

def near (x : ℚ) (o : Order) : Bool :=
  x - 1 / 2 ≤ o.qtyValue.getD 0 && o.qtyValue.getD 0 ≤ x + 1 / 2

/-- `handleCancelAndRefund`: the text of the quantity is that of a number. -/
def cancelOrder (numberText : ℚ → String) (FEE_KAS : ℚ) (db : Db) (peer : String) (f : Offer) :
    Option Order :=
  let intentQty :=
    ((f.metadata.intent_qty.filter (· ≠ 0)).or (f.give_amount.map (· + FEE_KAS))).map numberText
  latest (db.retail_dex_orders.rows.filter fun o => o.user_kasia_address = peer &&
    (o.exchange_offer_id = some f.id ||
      o.exchange_offer_id.isNone && intentQty.getD "NaN" = o.qty && o.state ∈ LOCKABLE))

/-- `_scanExpiredBrokerOffers`: an order that can be refunded goes before one that cannot. -/
def expiredOrder (db : Db) (user : String) (f : Offer) : Option Order :=
  let os := db.retail_dex_orders.rows.filter fun o => o.user_kasia_address = user &&
    (o.exchange_offer_id = some f.id ||
      o.exchange_offer_id.isNone &&
        ((f.metadata.intent_qty.filter (· ≠ 0)).or f.give_amount).any (near · o) &&
          o.state ∈ LOCKABLE ++ [.aligning, .confirming])
  (latest (os.filter (·.state ∈ LOCKABLE))).or (latest (os.filter (·.state ∉ LOCKABLE)))

/-- The fallback, when the exchange will never take the order. -/
def permanentOrder (db : Db) (user : String) (giveAmount : ℚ) : Option Order :=
  latest (db.retail_dex_orders.rows.filter fun o => o.user_kasia_address = user &&
    o.state = .awaiting_payment && near giveAmount o)

/-! ### `advanceToRefunded` -/

/-- A refund under way: what it has read of the order and of its offer, and whether it has marked
the order. -/
structure Job where
  order : Order
  offer : Option Offer
  locked : Bool

/-- A taker has come, or the offer is past refunding. -/
def Offer.notRefundable (f : Offer) : Bool :=
  (truthy f.taker).isSome ||
    f.protocol_status ∈ [.matched, .verifying, .delivering, .completed, .refunded, .cancelled]

/-- `meta.user_kasia_address || order.user_kasia_address`, the latter without an offer. -/
def Job.user (j : Job) : String :=
  (j.offer.bind fun f => truthy f.metadata.user_kasia_address).getD j.order.user_kasia_address

def Job.refundAmount (j : Job) : ℚ :=
  j.offer.elim (j.order.qtyValue.getD 0) Offer.refundAmount

def Job.valid (j : Job) : Bool := j.user ≠ "" && 0 < j.refundAmount

/-- What is read before the first wait; nothing, where it returns at once. -/
def advanceToRefunded (db : Db) (orderId : String) : Option Job :=
  (db.order orderId).bind fun order =>
    if (truthy order.refund_tx_hash).isSome then none
    else
      match truthy order.exchange_offer_id with
      | none => (some ⟨order, none, false⟩).filter Job.valid
      | some id => (db.offer id).bind fun f =>
        if f.notRefundable then none else some ⟨order, some f, false⟩

/-- The transfer that it takes for the refund.  The columns it reads of an order without an offer
do not include `created_at`. -/
def Job.priorTx (env : Env) (db : Db) (j : Job) : Option String :=
  match j.offer with
  | some f => isOfferAlreadyRefunded env db f
  | none =>
    (findPriorRefundTxs env db.kaspa_tx_log j.user j.refundAmount none).head?.map TxLog.tx_id

/-- The unique index on `refund_tx_hash`. -/
def hashTaken (db : Db) (orderId tx : String) : Bool :=
  db.retail_dex_orders.rows.any fun o => o.id ≠ orderId && o.refund_tx_hash = some tx

def refundedEvent (tx : String) (offerId : Option String) (now : String) : ChainEvent :=
  ⟨tx, .broker_kas_refunded, none, none, offerId, now⟩

def setRefunded (db : Db) (orderId tx now : String) : Db :=
  db.updateOrder (fun o => o.id = orderId)
    (fun o => { o with state := .refunded, refund_tx_hash := some tx, updated_at := now })
    fun _ => rfl

/-- The order, its offer and the event in one transaction; nothing, where that is rolled back. -/
def confirmRefundedState (db : Db) (j : Job) (tx now : String) : Option Db :=
  if hashTaken db j.order.id tx || !isRealHash tx then none
  else
    let db := setRefunded db j.order.id tx now
    (j.offer.elim (some db) fun f => (db.offer f.id).map fun _ => db.transition f.id .refunded).bind
      fun db => (db.chain_events.insert (refundedEvent tx (j.offer.map Offer.id) now)).map
        fun events => { db with chain_events := events }

def confirm (db : Db) (j : Job) (tx now : String) : Db :=
  (confirmRefundedState db j tx now).getD db

/-- The order can be marked. -/
def Job.lockable (j : Job) (o : Order) : Bool :=
  o.id = j.order.id && o.state ∈ LOCKABLE && o.refund_tx_hash.isNone &&
    (j.offer.isSome || o.exchange_offer_id.isNone)

/-- It marks the order, after all of this. -/
def Job.locks (env : Env) (db : Db) (j : Job) : Bool :=
  j.valid && (j.priorTx env db).isNone && (db.order j.order.id).any j.lockable

def lock (db : Db) (j : Job) (now : String) : Db :=
  db.updateOrder j.lockable (fun o => { o with state := .refunding, updated_at := now })
    fun _ => rfl

/-- From the second wait to the third: the transfer that is found is recorded, or the order is
marked. -/
def claim (env : Env) (db : Db) (j : Job) (now : String) : Db :=
  if !j.valid then db
  else
    match j.priorTx env db with
    | some tx => confirm db j tx now
    | none => lock db j now

/-- What is written when the queue says that nothing was sent. -/
def rollback (db : Db) (j : Job) (error now : String) : Db :=
  db.updateOrder (fun o => o.id = j.order.id && o.state = .refunding)
    (fun o => { o with state := .expired, error_reason := some error, updated_at := now })
    fun _ => rfl

/-! ### What becomes of the deposits -/

inductive Use
  | refund (tx : String)
  | sale
  | delivery
  deriving DecidableEq, Repr

/-- The deposit of an order is used. -/
structure Move where
  deposit : String
  use : Use
  deriving DecidableEq, Repr

/-! ### Steps -/

structure Node where
  db : Db
  work : List Work
  jobs : Nat → Option Job
  -- the orders a refund of which was handed to the queue, and those of them whose transfer has
  -- neither arrived nor been given up
  submitted : List String
  outstanding : List String
  moves : List Move

/-- The call to cancel: whether it arrives, and the transaction it answers with in time. -/
structure Answer where
  arrives : Bool
  cancel_tx : Option String

/-- What the exchange says, and whether it has taken the order. -/
structure Sale where
  ok : Bool
  permanent : Bool
  placed : Bool

inductive Event
  -- the intake
  | order (o : Order)
  | offer (f : Offer)
  | link (orderId offerId : String)
  -- the drivers look for something to do
  | handleCancelAndRefund (clock : Clock) (peer : String)
  | scanExpiredBrokerOffers (clock : Clock)
  | scanUntakenOffersFallback (clock : Clock)
  | checkStuckRefunding (clock : Clock)
  | checkRetryableExpiredFailedRefund (clock : Clock)
  | checkStuckNoOfferRefund (clock : Clock)
  -- one of them goes on with the work at a place of the list, and a refund gets a number
  | call (i : Nat) (answer : Answer) (now : String)
  | place (i k : Nat) (sale : Sale) (cancel_tx now : String)
  | refund (i k : Nat)
  -- or leaves it: an error, or an offer that has failed too often
  | leave (i : Nat)
  -- a refund goes on
  | claim (k : Nat) (now : String)
  | resolved (k : Nat) (tx now : String)
  | rejected (k : Nat) (error now : String)
  -- a transfer of the queue arrives, and the log hears of one
  | land (orderId tx : String)
  | log (t : TxLog)
  -- the exchange
  | accept (offerId taker : String)
  | deliver (offerId : String)
  | move (offerId : String) (s : Status)
  | crash

/-- What the environment of the service gives besides the clock. -/
structure Service extends Env where
  numberText : ℚ → String
  FEE_KAS : ℚ

/-- A refund is begun under a number that is free. -/
def Node.start (n : Node) (k : Nat) (orderId : Option String) : Node :=
  match n.jobs k, orderId.bind (advanceToRefunded n.db) with
  | none, some j => { n with jobs := Function.update n.jobs k (some j) }
  | _, _ => n

def Node.done (n : Node) (i : Nat) : Node := { n with work := n.work.eraseIdx i }

def Node.next (n : Node) (i : Nat) (w : Work) : Node :=
  { n with work := n.work.eraseIdx i ++ [w] }

/-- `processCancel`: only what is open is cancelled. -/
def cancels (s : Service) (db : Db) (answer : Answer) (f : Offer) : Bool :=
  answer.arrives && (db.offer f.id).any fun g => g.protocol_status = .opened && g.maker = s.address

def cancelDb (s : Service) (db : Db) (answer : Answer) (f : Offer) : Db :=
  if cancels s db answer f then db.transition f.id .cancelled else db

def cancelFailed (db : Db) (f : Offer) (now : String) : Db :=
  (truthy f.broadcast_tx_id).elim db fun tx =>
    db.record ⟨tx, .broker_fallback_cancel_failed, none, none, some f.id, now⟩

def callStep (s : Service) (n : Node) (i : Nat) (answer : Answer) (now : String) : Work → Node
  | .cancel peer f => { n with db := cancelDb s n.db answer f }.next i (.cancelled peer f)
  | .untaken f =>
    if (truthy f.metadata.user_kasia_address).isNone || f.give_amount.getD 0 = 0 ||
        f.metadata.mid_price.getD 0 = 0 then n.done i
    else if cancels s n.db answer f && (truthy answer.cancel_tx).isSome then
      { n with db := cancelDb s n.db answer f }.next i (.sell f)
    else { n with db := cancelFailed (cancelDb s n.db answer f) f now }.done i
  | _ => n

/-- The order that a driver refunds. -/
def chosen (s : Service) (db : Db) : Work → Option String
  | .cancelled peer f =>
    if (db.offer f.id).any (fun g => (truthy g.taker).isSome ||
        g.protocol_status ∈ [.matched, .verifying, .delivering]) || f.give_asset ≠ "KAS" then none
    else (cancelOrder s.numberText s.FEE_KAS db peer f).map Order.id
  | .refund orderId => some orderId
  | .expired f => (truthy f.metadata.user_kasia_address).bind fun user =>
    (expiredOrder db user f).map Order.id
  | .sell f => (truthy f.metadata.user_kasia_address).bind fun user =>
    (permanentOrder db user (f.give_amount.getD 0)).map Order.id
  | _ => none

/-- The order is placed or not, and nothing or a refund follows.  The offer is cancelled by now, and
what else is recorded of it no query reads. -/
def placeStep (s : Service) (n : Node) (i k : Nat) (sale : Sale) (cancel_tx now : String) :
    Work → Node
  | .sell f =>
    let moves := if sale.placed then n.moves ++ [⟨f.deposit, .sale⟩] else n.moves
    if sale.ok then
      { n with
        db := n.db.record ⟨cancel_tx, .broker_fallback_claim, none, none, some f.id, now⟩
        moves }.done i
    else if sale.permanent then ({ n with moves }.done i).start k (chosen s n.db (.sell f))
    else { n with moves }.done i
  | _ => n

/-- A refund begins; an open offer that has expired is marked before. -/
def refundStep (s : Service) (n : Node) (i k : Nat) : Work → Node
  | .cancelled peer f => (n.done i).start k (chosen s n.db (.cancelled peer f))
  | .refund orderId => (n.done i).start k (some orderId)
  | .expired f =>
    if f.protocol_status = .opened ∧ (truthy f.metadata.user_kasia_address).isSome then
      ({ n with db := n.db.transition f.id .timed_out }.done i).start k (chosen s n.db (.expired f))
    else (n.done i).start k (chosen s n.db (.expired f))
  | _ => n

def Node.update (n : Node) (k : Nat) (db : Db) (j : Option Job) : Node :=
  { n with db, jobs := Function.update n.jobs k j }

def claimStep (s : Service) (n : Node) (k : Nat) (now : String) (j : Job) : Node :=
  if j.locked then n
  else if j.locks s.toEnv n.db then
    { n.update k (claim s.toEnv n.db j now) (some { j with locked := true }) with
      submitted := n.submitted ++ [j.order.id]
      outstanding := n.outstanding ++ [j.order.id] }
  else n.update k (claim s.toEnv n.db j now) none

def step (s : Service) (n : Node) : Event → Node
  | .order o =>
    { n with db := { n.db with
      retail_dex_orders := (n.db.retail_dex_orders.insert o).getD n.db.retail_dex_orders } }
  | .offer f =>
    { n with db := { n.db with
      exchange_offers := (n.db.exchange_offers.insert f).getD n.db.exchange_offers } }
  | .link orderId offerId =>
    { n with
      db := n.db.updateOrder (fun o => o.id = orderId)
        (fun o => { o with exchange_offer_id := some offerId }) fun _ => rfl }
  | .handleCancelAndRefund clock peer =>
    { n with work := n.work ++ handleCancelAndRefund s.toEnv clock n.db peer }
  | .scanExpiredBrokerOffers clock =>
    { n with work := n.work ++ scanExpiredBrokerOffers s.toEnv clock n.db }
  | .scanUntakenOffersFallback clock =>
    { n with work := n.work ++ scanUntakenOffersFallback s.toEnv clock n.db }
  | .checkStuckRefunding clock => { n with work := n.work ++ checkStuckRefunding clock n.db }
  | .checkRetryableExpiredFailedRefund clock =>
    { n with work := n.work ++ checkRetryableExpiredFailedRefund clock n.db }
  | .checkStuckNoOfferRefund clock =>
    { n with work := n.work ++ checkStuckNoOfferRefund s.toEnv clock n.db }
  | .call i answer now => n.work[i]?.elim n (callStep s n i answer now)
  | .place i k sale cancel_tx now => n.work[i]?.elim n (placeStep s n i k sale cancel_tx now)
  | .refund i k => n.work[i]?.elim n (refundStep s n i k)
  | .leave i => n.done i
  | .claim k now => (n.jobs k).elim n (claimStep s n k now)
  | .resolved k tx now =>
    ((n.jobs k).filter Job.locked).elim n fun j => n.update k (confirm n.db j tx now) none
  | .rejected k error now =>
    ((n.jobs k).filter Job.locked).elim n fun j =>
      { n.update k (rollback n.db j error now) none with
        outstanding := n.outstanding.erase j.order.id }
  | .land orderId tx =>
    if orderId ∈ n.submitted then
      { n with
        outstanding := n.outstanding.erase orderId
        moves := n.moves ++ [⟨orderId, .refund tx⟩] }
    else n
  | .log t => { n with db := { n.db with kaspa_tx_log := n.db.kaspa_tx_log ++ [t] } }
  | .accept offerId taker =>
    { n with
      db := n.db.updateOffer
        (fun f => f.id = offerId && f.protocol_status = .opened && f.taker.isNone)
        (fun f => { f with protocol_status := .matched, taker := some taker }) fun _ => rfl }
  | .deliver offerId =>
    match (n.db.offer offerId).filter fun f =>
      (truthy f.taker).isSome && f.protocol_status = .delivering with
    | some f =>
      { n with
        db := n.db.transition offerId .completed
        moves := n.moves ++ [⟨f.deposit, .delivery⟩] }
    | none => n
  | .move offerId st =>
    if st = .completed then n else { n with db := n.db.transition offerId st }
  | .crash => { n with work := [], jobs := fun _ => none }

def run (s : Service) (n : Node) (es : List Event) : Node := es.foldl (step s) n

end KANet.Broker.Refunds
