import KANet.Trade.ExchangeMachine

/-!
# Payments, deliveries and timeouts

The part of `exchange-machine.js` that waits: a payment is verified, the offer is
delivered, the delivery is announced, and the timeouts are broadcast before they
take effect.

* `Task` — a call that is waiting, with what it goes on with: one constructor for
  each `await`.
* `World` — the database, the tasks, the transfers asked of the relays and the
  payments that were verified.
* `World.step` — a message, a call, an answer to a task, or a restart, which loses
  the tasks.  The relays answer in their own time: `broadcast` is a transfer
  reaching the chain, `resume` the answer reaching the task, and neither waits for
  the other.
-/

namespace KANet.Trade.Exchange

open KANet.Lib

def MAX_ATTEMPTS : Nat := 3

def MAX_DELIVERY_ATTEMPTS : Nat := 3

/-- The two loops of `timeoutVerifying` that broadcast. -/
inductive Sweep
  | verifying | verified
  deriving DecidableEq, Repr

inductive Task
  -- `setTimeout(() => _verifyAndComplete(…))`
  | retry (offer_id : OfferId) (payment_tx payment_chain : String) (attempt : Nat)
  -- `await verifyCrossChainTx(…)`, with the row as it was read before
  | verifying (offer : Offer) (payment_tx payment_chain : String) (attempt : Nat)
  -- `await sendCommandAsync(…, { type: 'transfer' })` or `await sendAsset(…)`
  | transferring (deliveringOffer : Offer) (deliveryTarget : String) (attempt request : Nat)
  -- `DELIVERY_RETRY_MS`
  | pausing (deliveringOffer : Offer) (deliveryTarget : String) (attempt : Nat)
  -- the broadcast of `kanet_exchange_delivered_v1`
  | announcing (deliveringOffer : Offer) (deliveryTxId : String) (attempt : Nat)
  | sweeping (sweep : Sweep) (ids : List OfferId)
  -- the broadcast of `kanet_exchange_timeout_v1`
  | emitting (sweep : Sweep) (id : OfferId) (ids : List OfferId) (attempt : Nat)
  | reopening (ids : List OfferId)
  | emittingReopen (id : OfferId) (ids : List OfferId) (attempt : Nat)

/-- A transfer asked of a relay: what it broadcast, and whether the machine was told that it
failed. -/
structure Request where
  offer_id : OfferId
  asset : String
  target : String
  amount : Option ℚ
  tx : Option String
  failed : Bool
  deriving DecidableEq

structure Verified where
  offer_id : OfferId
  payment_tx : String
  deriving DecidableEq, Repr

/-- `requests` and `verified` only grow: no call reads them. -/
structure World where
  db : Db
  tasks : List Task
  requests : List Request
  verified : List Verified

inductive Reply
  | verification (confirmed : Bool) (error : String)
  | txId (tx : String)
  | noTx
  | threw
  | go

/-- An empty id is none. -/
def Reply.read : Reply → Reply
  | .txId tx => if tx = "" then .noTx else .txId tx
  | reply => reply

structure Paid where
  offer_id : OfferId
  sender : String
  payment_tx : String
  payment_chain : Option String

inductive Event
  | publish (msg : Publish)
  | accept (msg : Accept) (stops : Bool)
  | confirm (msg : Confirm)
  | cancel (offer_id : OfferId) (sender : String)
  | paid (msg : Paid) (stops : Bool)
  | delivered (offer_id : OfferId) (sender delivery_tx : String)
  | timeout (offer_id : OfferId) (sender : String)
  | dispute (msg : Dispute)
  | resolve (msg : Resolve)
  | submitPayment (offer_id : OfferId) (payment_tx : String) (payment_chain : Option String)
  | raiseDispute (offer_id : OfferId) (disputer : String) (reason : Option String)
  | refund (offer_id : OfferId)
  | expireStale
  | cleanupStaleOrphanAccepts
  | timeoutVerifying
  | checkMatchedTimeout
  | broadcast (request : Nat) (tx : String)
  | resume (task : Nat) (reply : Reply)
  | restart

/-! ### Delivery -/

def hasPrefix (p s : String) : Bool := p.toList.isPrefixOf s.toList

/-- Where the delivery goes: an address of the right kind, in this order. -/
def Offer.deliveryTarget (o : Offer) : Option String :=
  if o.give_asset = "KAS" then
    (o.verification_meta.receive_address.filter (hasPrefix "kaspa:")).or o.taker
  else
    ((o.verification_meta.evm_recv_address.filter (hasPrefix "0x")).or
      (o.taker_payment_address.filter (hasPrefix "0x"))).or
        ((truthy o.verification_meta.receive_address).filter fun a => !hasPrefix "kaspa:" a)

def Offer.request (o : Offer) (deliveryTarget : String) : Request where
  offer_id := o.id
  asset := o.give_asset
  target := deliveryTarget
  amount := o.give_amount
  tx := none
  failed := false

namespace World

def empty : World := ⟨Db.empty, [], [], []⟩

def await (w : World) (t : Task) : World := { w with tasks := w.tasks ++ [t] }

def withDb (w : World) (db : Db) : World := { w with db := db }

def requestTransfer (w : World) (deliveringOffer : Offer) (deliveryTarget : String)
    (attempt : Nat) : World :=
  { w with
    requests := w.requests ++ [deliveringOffer.request deliveryTarget]
    tasks := w.tasks ++ [.transferring deliveringOffer deliveryTarget attempt w.requests.length] }

/-- The offer as `transition` returned it, moved or not. -/
def beginDelivery (relay : String → Bool) (w : World) (offer_id : OfferId) : World :=
  match w.db.offer offer_id with
  | none => w
  | some deliveringOffer =>
    if deliveringOffer.give_asset ≠ "" ∧ (truthy deliveringOffer.taker).isSome ∧
        relay deliveringOffer.maker then
      match deliveringOffer.deliveryTarget with
      | none => w
      | some deliveryTarget => w.requestTransfer deliveringOffer deliveryTarget 1
    else w

def reportFailed (w : World) (request : Nat) : World :=
  { w with requests := w.requests.modify request fun r => { r with failed := true } }

/-- Three failures: back to `verified`. -/
def nextAttempt (now : Nat) (w : World) (deliveringOffer : Offer) (deliveryTarget : String)
    (attempt : Nat) (pauses : Bool) : World :=
  if MAX_DELIVERY_ATTEMPTS ≤ attempt then
    w.withDb (transition now w.db deliveringOffer.id .verified none)
  else if pauses then w.await (.pausing deliveringOffer deliveryTarget attempt)
  else w.requestTransfer deliveringOffer deliveryTarget (attempt + 1)

def Delivered (delivery_tx : String) (o : Offer) : Offer := { o with delivery_tx := some delivery_tx }

def spendLocks (now : Nat) (db : Db) (offerId : OfferId) : Db :=
  db.settle (spendFunds db.fund_locks now offerId)

/-- The locks are spent by the transition and once more after it. -/
def complete (now : Nat) (db : Db) (offerId : OfferId) (delivery_tx : String) : Db :=
  spendLocks now
    (transition now (db.update offerId (Delivered delivery_tx) (fun _ => rfl)) offerId
      .completed none) offerId

/-- What was paid is what the maker wants: nothing is left to deliver. -/
def completeUndelivered (now : Nat) (db : Db) (offerId : OfferId) (payment_tx : String) : Db :=
  spendLocks now
    (transition now
      (transition now (db.update offerId (Delivered payment_tx) (fun _ => rfl)) offerId
        .delivering none) offerId .completed none) offerId

/-! ### Verification -/

def recordVerified (m : VerificationMeta) (payment_tx : String) (o : Offer) : Offer :=
  { o with verification_meta := { m with verified_tx := some payment_tx } }

/-- The metadata is written back as it was read before the verification. -/
def record (w : World) (offer : Offer) (payment_tx : String) : World :=
  { w with
    db := w.db.update offer.id (recordVerified offer.verification_meta payment_tx) (fun _ => rfl)
    verified := w.verified ++ [{ offer_id := offer.id, payment_tx := payment_tx }] }

/-- `vr.confirmed`; whether the transition to `delivering` was taken is not looked at. -/
def confirmed (now : Nat) (relay : String → Bool) (w : World) (offer : Offer)
    (payment_tx payment_chain : String) : World :=
  if offer.give_asset ≠ "KAS" ∧ payment_chain = "kaspa" then
    (w.record offer payment_tx).withDb
      (completeUndelivered now (w.record offer payment_tx).db offer.id payment_tx)
  else
    beginDelivery relay
      ((w.record offer payment_tx).withDb
        (transition now (w.record offer payment_tx).db offer.id .delivering none)) offer.id

def _verifyAndComplete (now : Nat) (relay : String → Bool) (w : World) (offer_id : OfferId)
    (payment_tx payment_chain : String) (attempt : Nat) : World :=
  match w.db.offer offer_id with
  | none => w
  | some offer =>
    if offer.protocol_status ≠ .verifying then w
    -- a transaction on Kaspa is taken as it is
    else if payment_chain = "kaspa" then confirmed now relay w offer payment_tx payment_chain
    else w.await (.verifying offer payment_tx payment_chain attempt)

def autoDispute (m : VerificationMeta) (error : String) (o : Offer) : Offer :=
  { o with
    verification_meta :=
      { m with
        dispute_reason :=
          some ("Auto-dispute: verification failed 3 times. Last error: " ++ error)
        dispute_by := some "system" } }

def unconfirmed (now : Nat) (w : World) (offer : Offer) (payment_tx payment_chain : String)
    (attempt : Nat) (error : String) : World :=
  if attempt < MAX_ATTEMPTS then w.await (.retry offer.id payment_tx payment_chain (attempt + 1))
  else
    w.withDb (transition now
      (w.db.update offer.id (autoDispute offer.verification_meta error) (fun _ => rfl)) offer.id
      .disputed none)

def submit (payment_tx chain : String) (o : Offer) : Offer :=
  { o with
    payment_tx := some payment_tx
    verification_meta :=
      { o.verification_meta with payment_tx := some payment_tx, payment_chain := some chain } }

/-- Another offer holds this id. -/
def usedBy (db : Db) (payment_tx : String) (offerId : OfferId) : Bool :=
  db.exchange_offers.rows.any fun o => o.payment_tx = some payment_tx && o.id ≠ offerId

def processPaymentSubmit (now : Nat) (relay : String → Bool) (w : World) (offer_id : OfferId)
    (payment_tx : String) (payment_chain : Option String) : World :=
  match w.db.offer offer_id with
  | none => w
  | some offer =>
    if offer.protocol_status ≠ .verifying then w
    else if payment_tx = "" then w
    else
      match (truthy offer.taker_chain).or (truthy payment_chain) with
      | none => w
      | some verifyChain =>
        if usedBy w.db payment_tx offer_id then w
        else
          _verifyAndComplete now relay
            (w.withDb (w.db.update offer_id (submit payment_tx verifyChain) (fun _ => rfl)))
            offer_id payment_tx verifyChain 1

def storePayment (payment_tx : String) (o : Offer) : Offer := { o with payment_tx := some payment_tx }

def storeChain (payment_chain : Option String) (o : Offer) : Offer :=
  { o with taker_chain := (truthy o.taker_chain).or ((truthy payment_chain).or o.taker_chain) }

def toVerifying (now : Nat) (db : Db) (offer : Offer) : Db :=
  if offer.protocol_status = .matched then transition now db offer.id .verifying none else db

/-- `stops`: the process stops with the id stored and the offer not moved. -/
def handleExchangePaid (now : Nat) (relay : String → Bool) (w : World) (msg : Paid) (stops : Bool) :
    World :=
  if msg.offer_id = "" ∨ msg.payment_tx = "" then w
  else
    match w.db.offer msg.offer_id with
    | none => w
    | some offer =>
      if (truthy offer.payment_tx).isSome then w
      else if usedBy w.db msg.payment_tx msg.offer_id then w
      else if offer.protocol_status ∉ [Status.matched, .verifying] then w
      else if stops then
        w.withDb (w.db.update offer.id (storePayment msg.payment_tx) (fun _ => rfl))
      else
        processPaymentSubmit now relay
          (w.withDb (toVerifying now
            ((w.db.update offer.id (storePayment msg.payment_tx) (fun _ => rfl)).update offer.id
              (storeChain msg.payment_chain) (fun _ => rfl)) offer))
          offer.id msg.payment_tx ((truthy offer.taker_chain).or msg.payment_chain)

/-! ### Timeouts -/

def since (started : Option Nat) (seconds now : Nat) : Bool :=
  match started with
  | none => false
  | some t => decide (t + seconds < now)

def Stuck (now : Nat) (o : Offer) : Bool :=
  (o.protocol_status = .verifying || o.protocol_status = .awaiting_manual_confirm ||
    o.protocol_status = .awaiting_oracle) && since o.verifying_started_at 1800 now

def StuckDelivering (now : Nat) (o : Offer) : Bool :=
  o.protocol_status = .delivering && since o.delivering_at 3600 now

def StuckVerified (now : Nat) (o : Offer) : Bool :=
  o.protocol_status = .verified && since o.delivering_at 7200 now

def StaleMatch (now : Nat) (o : Offer) : Bool :=
  o.protocol_status = .matched && since o.matched_at 1800 now

def idsWhere (db : Db) (p : Offer → Bool) : List OfferId :=
  (db.exchange_offers.rows.filter p).map Offer.id

def revertDelivering (now : Nat) (db : Db) : Db :=
  (idsWhere db (StuckDelivering now)).foldl (fun db id => transition now db id .verified none) db

def timeOut (now : Nat) (w : World) (sweep : Sweep) (id : OfferId) (ids : List OfferId) : World :=
  (w.withDb (transition now w.db id .timed_out none)).await (.sweeping sweep ids)

/-- `_emitTimeoutAndTransition` up to its first broadcast; after the last offer of a loop, what
comes after the loop. -/
def sweepOn (now : Nat) (relay : String → Bool) (w : World) : Sweep → List OfferId → World
  | .verifying, [] =>
    (w.withDb (revertDelivering now w.db)).await
      (.sweeping .verified (idsWhere (revertDelivering now w.db) (StuckVerified now)))
  | .verified, [] => w
  | sweep, id :: ids =>
    match w.db.offer id with
    | none => w.await (.sweeping sweep ids)
    | some offer =>
      if relay offer.maker then w.await (.emitting sweep id ids 1)
      else timeOut now w sweep id ids

/-- `UPDATE … WHERE id = ? AND protocol_status = 'matched'`; the locks are released in any case. -/
def reopenIfMatched (now : Nat) (db : Db) (id : OfferId) : Db :=
  if db.status id = some .matched then reopenOffer now db id
  else db.settle (releaseFunds db.fund_locks now id)

def reopenMatched (now : Nat) (w : World) (id : OfferId) (ids : List OfferId) : World :=
  (w.withDb (reopenIfMatched now w.db id)).await (.reopening ids)

def reopenOn (now : Nat) (relay : String → Bool) (w : World) : List OfferId → World
  | [] => w
  | id :: ids =>
    match w.db.offer id with
    | none => w.await (.reopening ids)
    | some offer =>
      if relay offer.maker then w.await (.emittingReopen id ids 1) else reopenMatched now w id ids

/-! ### Steps -/

/-- A task goes on with an answer; one that is not for it leaves it waiting. -/
def answer (now : Nat) (relay : String → Bool) (w : World) : Task → Reply → World
  | .retry offer_id payment_tx payment_chain attempt, .go =>
    _verifyAndComplete now relay w offer_id payment_tx payment_chain attempt
  | .verifying offer payment_tx payment_chain _, .verification true _ =>
    confirmed now relay w offer payment_tx payment_chain
  | .verifying offer payment_tx payment_chain attempt, .verification false error =>
    unconfirmed now w offer payment_tx payment_chain attempt error
  | .verifying .., .threw => w
  | .transferring deliveringOffer _ _ _, .txId tx => w.await (.announcing deliveringOffer tx 1)
  | .transferring deliveringOffer deliveryTarget attempt request, .noTx =>
    nextAttempt now (w.reportFailed request) deliveringOffer deliveryTarget attempt false
  | .transferring deliveringOffer deliveryTarget attempt request, .threw =>
    nextAttempt now (w.reportFailed request) deliveringOffer deliveryTarget attempt true
  | .pausing deliveringOffer deliveryTarget attempt, .go =>
    w.requestTransfer deliveringOffer deliveryTarget (attempt + 1)
  | .announcing deliveringOffer deliveryTxId _, .txId _ =>
    w.withDb (complete now w.db deliveringOffer.id deliveryTxId)
  | .announcing deliveringOffer deliveryTxId attempt, .noTx =>
    if attempt < 5 then w.await (.announcing deliveringOffer deliveryTxId (attempt + 1)) else w
  | .announcing deliveringOffer deliveryTxId attempt, .threw =>
    if attempt < 5 then w.await (.announcing deliveringOffer deliveryTxId (attempt + 1)) else w
  | .sweeping sweep ids, .go => sweepOn now relay w sweep ids
  | .emitting sweep id ids _, .txId _ => timeOut now w sweep id ids
  | .emitting sweep id ids attempt, .noTx =>
    if attempt < 3 then w.await (.emitting sweep id ids (attempt + 1))
    else w.await (.sweeping sweep ids)
  | .emitting sweep id ids attempt, .threw =>
    if attempt < 3 then w.await (.emitting sweep id ids (attempt + 1))
    else w.await (.sweeping sweep ids)
  | .reopening ids, .go => reopenOn now relay w ids
  | .emittingReopen id ids _, .txId _ => reopenMatched now w id ids
  | .emittingReopen id ids attempt, .noTx =>
    if attempt < 3 then w.await (.emittingReopen id ids (attempt + 1)) else w.await (.reopening ids)
  | .emittingReopen id ids attempt, .threw =>
    if attempt < 3 then w.await (.emittingReopen id ids (attempt + 1)) else w.await (.reopening ids)
  | task, _ => w.await task

def restart (w : World) : World := { w with tasks := [] }

def stopIf (stops : Bool) (w : World) : World := if stops then w.restart else w

def step (relay : String → Bool) (w : World) : Nat × Event → World
  | (now, .publish msg) => w.withDb (handleExchange now w.db msg)
  | (now, .accept msg stops) => stopIf stops (w.withDb (processAccept now w.db msg stops))
  | (now, .confirm msg) => w.withDb (processManualConfirm now w.db msg)
  | (now, .cancel offer_id sender) => w.withDb (processCancel now w.db offer_id sender)
  | (now, .paid msg stops) => stopIf stops (handleExchangePaid now relay w msg stops)
  | (now, .delivered offer_id _ delivery_tx) =>
    w.withDb (handleExchangeDelivered now w.db offer_id delivery_tx)
  | (now, .timeout offer_id _) => w.withDb (handleExchangeTimeout now w.db offer_id)
  | (now, .dispute msg) => w.withDb (handleExchangeDispute now w.db msg)
  | (now, .resolve msg) => w.withDb (handleExchangeResolve now w.db msg)
  | (now, .submitPayment offer_id payment_tx payment_chain) =>
    processPaymentSubmit now relay w offer_id payment_tx payment_chain
  | (now, .raiseDispute offer_id disputer reason) =>
    w.withDb (processDispute now w.db offer_id disputer reason)
  | (now, .refund offer_id) => w.withDb (transition now w.db offer_id .refunded none)
  | (now, .expireStale) => w.withDb (Exchange.expireStale now w.db)
  | (now, .cleanupStaleOrphanAccepts) =>
    w.withDb (Exchange.cleanupStaleOrphanAccepts now w.db)
  | (now, .timeoutVerifying) => w.await (.sweeping .verifying (idsWhere w.db (Stuck now)))
  | (now, .checkMatchedTimeout) => w.await (.reopening (idsWhere w.db (StaleMatch now)))
  | (_, .broadcast request tx) =>
    { w with requests := w.requests.modify request fun r => { r with tx := r.tx.or (some tx) } }
  | (now, .resume task reply) =>
    match w.tasks[task]? with
    | none => w
    | some t => answer now relay { w with tasks := w.tasks.eraseIdx task } t reply.read
  | (_, .restart) => w.restart

def run (relay : String → Bool) (w : World) (es : List (Nat × Event)) : World :=
  es.foldl (step relay) w

end World

end KANet.Trade.Exchange
