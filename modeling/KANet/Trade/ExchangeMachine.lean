import KANet.Trade.OrderMachine
import Mathlib.Data.List.Sort
import Mathlib.Algebra.Order.Group.Unbundled.Abs

/-!
# The offer state machine

`exchange-machine.js`: the rows of `exchange_offers` and the calls that move them
without waiting for anything.

* `transition` — the one way a status changes by the table `VALID_TRANSITIONS`;
  what is not allowed is logged and changes nothing.
* `processAccept`, `processManualConfirm`, `processCancel`, `processDispute`,
  `expireStale` — a handler may be cut short between two of its writes, which
  `stops` says.
* `handleExchange` — `trade-protocol-filter.js`: an offer is indexed and the
  accepts that came before it are replayed.

What is recorded for the audit, the messages to the users, the hedges and the
columns that none of these calls reads are left out.  Amounts are exact where the
service uses doubles; the clock counts seconds.
-/

namespace KANet.Trade.Exchange

open KANet.Lib

abbrev OfferId := String

inductive Status
  | opened | matched | verifying | delivering | verified
  | awaiting_manual_confirm | awaiting_oracle
  | pending_taker | handshake_done | open_awaiting_taker_stake | collecting_sigs
  | completed | disputed | timed_out | failed | cancelled | expired | refunded
  deriving DecidableEq, Repr

def VALID_TRANSITIONS : Status → List Status
  | .opened => [.matched, .cancelled, .expired, .refunded, .timed_out]
  | .matched => [.verifying, .awaiting_manual_confirm, .awaiting_oracle, .refunded]
  | .verifying => [.delivering, .collecting_sigs, .disputed, .timed_out, .refunded]
  -- back to `verified` when the delivery fails
  | .delivering => [.completed, .verified, .disputed, .refunded]
  | .verified => [.delivering, .disputed, .timed_out, .refunded]
  | .awaiting_manual_confirm => [.completed, .disputed, .timed_out, .refunded]
  | .awaiting_oracle => [.completed, .failed, .timed_out, .refunded]
  | .pending_taker => [.handshake_done, .cancelled, .expired]
  | .handshake_done => [.open_awaiting_taker_stake, .cancelled, .expired]
  | .open_awaiting_taker_stake => [.matched, .refunded, .expired, .timed_out]
  | .collecting_sigs => [.completed, .verifying, .refunded, .timed_out]
  | .completed => []
  | .disputed => []
  | .timed_out => []
  | .failed => []
  | .cancelled => []
  | .expired => []
  | .refunded => []

def TERMINAL : List Status :=
  [.completed, .disputed, .timed_out, .failed, .cancelled, .expired, .refunded]

theorem valid_of_terminal {s : Status} (h : s ∈ TERMINAL) : VALID_TRANSITIONS s = [] := by
  revert s
  decide

/-! ### The tables -/

structure AcceptedChain where
  chain : String
  address : Option String
  deriving DecidableEq, Repr

/-- `verification_meta`, with the keys that some call reads or writes. -/
structure VerificationMeta where
  accepted_chains : List AcceptedChain := []
  maker_payment_address : Option String := none
  expected_address : Option String := none
  payment_asset : Option String := none
  receive_chain : Option String := none
  receive_address : Option String := none
  evm_recv_address : Option String := none
  payment_tx : Option String := none
  payment_chain : Option String := none
  verified_tx : Option String := none
  dispute_reason : Option String := none
  dispute_by : Option String := none
  resolve_outcome : Option String := none
  resolved_by : Option String := none
  resolve_tx : Option String := none
  deriving DecidableEq, Repr

structure Offer where
  id : OfferId
  broadcast_tx_id : String
  message_index : Nat
  give_asset : String
  -- what `parseFloat` makes of the column, nothing for a NaN
  give_amount : Option ℚ
  give_chain : Option String
  want_asset : String
  want_amount : Option ℚ
  want_chain : Option String := none
  maker : String
  expires_at : Option Nat
  verification : String
  verification_meta : VerificationMeta
  protocol_status : Status
  price_tolerance : Option ℚ
  taker : Option String
  taker_chain : Option String
  taker_payment_address : Option String
  payment_tx : Option String
  delivery_tx : Option String
  matched_at : Option Nat
  verifying_started_at : Option Nat
  delivering_at : Option Nat
  maker_confirmed_at : Option Nat
  taker_confirmed_at : Option Nat
  deriving DecidableEq

structure Accept where
  offer_id : OfferId
  sender : String
  tx : String
  receive_address : Option String
  selected_chain : Option String
  evm_recv_address : Option String
  -- present, and then what `parseFloat` makes of it
  amount : Option (Option ℚ)
  price : Option (Option ℚ)

/-- A row of `pending_exchange_accepts`: an accept that came before its offer. -/
structure PendingAccept where
  msg : Accept
  received_at : Nat

structure Db where
  exchange_offers : Table Offer.id
  fund_locks : FundLocks
  pending_exchange_accepts : List PendingAccept

def Db.empty : Db := ⟨Table.empty _, Table.empty _, []⟩

def Db.offer (db : Db) (id : OfferId) : Option Offer := db.exchange_offers.get id

def Db.status (db : Db) (id : OfferId) : Option Status := (db.offer id).map Offer.protocol_status

/-- `UPDATE exchange_offers SET f WHERE id = ?` -/
def Db.update (db : Db) (id : OfferId) (f : Offer → Offer) (hf : ∀ o, (f o).id = o.id) : Db :=
  { db with exchange_offers := db.exchange_offers.updateWhere (fun o => o.id = id) f hf }

def Db.settle (db : Db) (locks : FundLocks) : Db := { db with fund_locks := locks }

@[simp] theorem Db.offer_settle (db : Db) (locks : FundLocks) (x : OfferId) :
    (db.settle locks).offer x = db.offer x := rfl

@[simp] theorem Db.status_settle (db : Db) (locks : FundLocks) (x : OfferId) :
    (db.settle locks).status x = db.status x := rfl

theorem Db.offer_id {db : Db} {id : OfferId} {o : Offer} (h : db.offer id = some o) : o.id = id :=
  Table.key_of_get h

theorem Db.offer_update (db : Db) (id x : OfferId) {f : Offer → Offer} (hf : ∀ o, (f o).id = o.id) :
    (db.update id f hf).offer x = if x = id then (db.offer x).map f else db.offer x := by
  show (db.exchange_offers.updateWhere _ f hf).get x = _
  rw [Table.get_updateWhere]
  show (db.offer x).map _ = _
  cases h : db.offer x with
  | none => simp
  | some o =>
    by_cases hx : x = id
    · simp [Db.offer_id h, hx]
    · simp [Db.offer_id h, hx]

theorem Db.status_update_ne {db : Db} {id x : OfferId} (hx : x ≠ id) {f : Offer → Offer}
    (hf : ∀ o, (f o).id = o.id) : (db.update id f hf).status x = db.status x := by
  unfold Db.status
  rw [offer_update, if_neg hx]

/-- An update that leaves the status alone. -/
theorem Db.status_update (db : Db) (id x : OfferId) {f : Offer → Offer}
    (hf : ∀ o, (f o).id = o.id) (hs : ∀ o, (f o).protocol_status = o.protocol_status) :
    (db.update id f hf).status x = db.status x := by
  unfold Db.status
  rw [offer_update]
  split
  · rw [Option.map_map]
    congr 1
    funext o
    exact hs o
  · rfl

/-! ### Transitions -/

/-- The times that some call reads. -/
def Offer.stamp (o : Offer) (now : Nat) : Status → Offer
  | .matched => { o with matched_at := some now }
  | .verifying => { o with verifying_started_at := some now }
  | .awaiting_manual_confirm => { o with verifying_started_at := some now }
  | .awaiting_oracle => { o with verifying_started_at := some now }
  | .delivering => { o with delivering_at := some now }
  | _ => o

def Offer.move (o : Offer) (now : Nat) (newStatus : Status) (taker : Option String) : Offer :=
  { o.stamp now newStatus with protocol_status := newStatus, taker := taker.or o.taker }

@[simp] theorem Offer.stamp_id (o : Offer) (now : Nat) (s : Status) : (o.stamp now s).id = o.id := by
  cases s <;> rfl

@[simp] theorem Offer.move_id (o : Offer) (now : Nat) (s : Status) (taker : Option String) :
    (o.move now s taker).id = o.id := Offer.stamp_id o now s

@[simp] theorem Offer.move_status (o : Offer) (now : Nat) (s : Status) (taker : Option String) :
    (o.move now s taker).protocol_status = s := rfl

def settleStep (locks : FundLocks) (now : Nat) (offerId : OfferId) (newStatus : Status) :
    FundLocks :=
  if newStatus ∉ TERMINAL then locks
  else if newStatus = .completed then spendFunds locks now offerId
  else releaseFunds locks now offerId

/-- An unknown offer throws before anything is written. -/
def transition (now : Nat) (db : Db) (offerId : OfferId) (newStatus : Status)
    (taker : Option String) : Db :=
  match db.offer offerId with
  | none => db
  | some offer =>
    if offer.protocol_status ∈ TERMINAL then db
    else if newStatus ∉ VALID_TRANSITIONS offer.protocol_status then db
    else
      (db.update offerId (fun o => o.move now newStatus taker)
        (fun o => o.move_id now newStatus taker)).settle
          (settleStep db.fund_locks now offerId newStatus)

/-- `transition` takes this move. -/
def Moves (db : Db) (id : OfferId) (s : Status) : Prop :=
  ∃ o, db.offer id = some o ∧ s ∈ VALID_TRANSITIONS o.protocol_status

section

variable {now : Nat} {db : Db} {id : OfferId} {s : Status} {taker : Option String}

/-- **A transition either moves its offer or changes nothing.** -/
theorem transition_cases (now : Nat) (db : Db) (id : OfferId) (s : Status) (taker : Option String) :
    (Moves db id s ∧ transition now db id s taker =
      (db.update id (fun o => o.move now s taker) (fun o => o.move_id now s taker)).settle
        (settleStep db.fund_locks now id s)) ∨
    (¬ Moves db id s ∧ transition now db id s taker = db) := by
  unfold transition
  split
  · next h =>
    refine Or.inr ⟨?_, rfl⟩
    intro hm
    obtain ⟨o, ho, -⟩ := hm
    rw [h] at ho
    cases ho
  · next offer h =>
    have hmoves : Moves db id s ↔ s ∈ VALID_TRANSITIONS offer.protocol_status := by
      refine ⟨?_, fun hs => ⟨offer, h, hs⟩⟩
      intro hm
      obtain ⟨o, ho, hs⟩ := hm
      rw [h] at ho
      obtain rfl := Option.some.inj ho
      exact hs
    split
    · next hterm =>
      refine Or.inr ⟨?_, rfl⟩
      rw [hmoves, valid_of_terminal hterm]
      exact List.not_mem_nil
    · split
      · next hs => exact Or.inr ⟨hmoves.not.mpr hs, rfl⟩
      · next hs => exact Or.inl ⟨hmoves.mpr (not_not.mp hs), rfl⟩

theorem offer_transition_of (h : Moves db id s) (x : OfferId) :
    (transition now db id s taker).offer x =
      if x = id then (db.offer x).map fun o => o.move now s taker else db.offer x := by
  obtain ⟨-, he⟩ | ⟨hn, -⟩ := transition_cases now db id s taker
  · rw [he, Db.offer_settle, Db.offer_update]
  · exact absurd h hn

theorem transition_of_not (h : ¬ Moves db id s) : transition now db id s taker = db := by
  obtain ⟨hm, -⟩ | ⟨-, he⟩ := transition_cases now db id s taker
  · exact absurd hm h
  · exact he

theorem offer_transition_ne {x : OfferId} (hx : x ≠ id) :
    (transition now db id s taker).offer x = db.offer x := by
  by_cases h : Moves db id s
  · rw [offer_transition_of h, if_neg hx]
  · rw [transition_of_not h]

theorem status_transition_of (h : Moves db id s) :
    (transition now db id s taker).status id = some s := by
  have hm := h
  obtain ⟨o, ho, -⟩ := hm
  unfold Db.status
  rw [offer_transition_of h, if_pos rfl, ho]
  rfl

theorem status_transition_ne {x : OfferId} (hx : x ≠ id) :
    (transition now db id s taker).status x = db.status x := by
  unfold Db.status
  rw [offer_transition_ne hx]

end

/-! ### Accepting -/

/-- `msg.receive_address || msg._from`: a broker takes an offer for its user. -/
def Accept.taker (msg : Accept) : String := (truthy msg.receive_address).getD msg.sender

def Offer.expired (o : Offer) (now : Nat) : Bool :=
  match o.expires_at with
  | none => false
  | some expires_at => decide (expires_at < now)

/-- At most the whole amount that is given, and more than nothing. -/
def Accept.amountFits (msg : Accept) (offer : Offer) : Bool :=
  match msg.amount.getD offer.give_amount with
  | none => false
  | some requestedAmount =>
    decide (0 < requestedAmount) &&
      match offer.give_amount with
      | none => true
      | some give_amount => decide (requestedAmount ≤ give_amount + 1 / 10 ^ 9)

def Offer.tolerance (o : Offer) : ℚ := o.price_tolerance.getD (1 / 100)

/-- A price that is named may be off by the tolerance. -/
def Accept.priceFits (msg : Accept) (offer : Offer) : Bool :=
  match msg.price, offer.give_amount, offer.want_amount with
  | some (some requestedPrice), some give_amount, some want_amount =>
    !(decide (0 < give_amount) && decide (0 < want_amount / give_amount) &&
      decide (offer.tolerance + 1 / 10 ^ 9 <
        |requestedPrice - want_amount / give_amount| / (want_amount / give_amount)))
  | _, _, _ => true

/-- What the accept says about where to pay and where to deliver; a key that it leaves out keeps
the value it has. -/
def Accept.merge (msg : Accept) (m : VerificationMeta) : VerificationMeta :=
  { m with
    receive_chain := (truthy msg.selected_chain).or m.receive_chain
    receive_address := (truthy msg.receive_address).or m.receive_address
    evm_recv_address := (truthy msg.evm_recv_address).or m.evm_recv_address }

def Accept.record (msg : Accept) (o : Offer) : Offer :=
  { o with
    taker_chain := truthy msg.selected_chain
    taker_payment_address := truthy msg.receive_address
    verification_meta := msg.merge o.verification_meta }

def Accept.named (msg : Accept) : Bool :=
  (truthy msg.selected_chain).isSome || (truthy msg.receive_address).isSome ||
    (truthy msg.evm_recv_address).isSome

/-- `INSERT OR REPLACE` -/
def Db.stash (db : Db) (now : Nat) (msg : Accept) : Db :=
  { db with
    pending_exchange_accepts :=
      (db.pending_exchange_accepts.filter fun p => p.msg.tx ≠ msg.tx) ++ [⟨msg, now⟩] }

def verificationState (o : Offer) : Status :=
  if o.verification = "" ∨ o.verification = "manual" then .awaiting_manual_confirm
  else if o.verification = "oracle" then .awaiting_oracle
  else .verifying

def routeToVerification (now : Nat) (db : Db) (offerId : OfferId) : Db :=
  match db.offer offerId with
  | none => db
  | some offer =>
    if offer.protocol_status ≠ .matched then db
    else transition now db offerId (verificationState offer) none

def matchOffer (now : Nat) (db : Db) (msg : Accept) (offer : Offer) : Db :=
  transition now (if msg.named then db.update offer.id msg.record (fun _ => rfl) else db) offer.id
    .matched (some msg.taker)

/-- `stops`: the process stops before the offer is routed. -/
def processAccept (now : Nat) (db : Db) (msg : Accept) (stops : Bool) : Db :=
  if msg.offer_id = "" then db
  else
    match db.offer msg.offer_id with
    | none => db.stash now msg
    | some offer =>
      if offer.protocol_status ≠ .opened then db
      else if msg.taker ≠ "" ∧ msg.taker = offer.maker then db
      else if offer.expired now then transition now db offer.id .expired none
      else if !msg.amountFits offer then db
      else if !msg.priceFits offer then db
      else if stops then matchOffer now db msg offer
      else routeToVerification now (matchOffer now db msg offer) offer.id

/-! ### The other calls -/

structure Confirm where
  offer_id : OfferId
  sender : String
  role : String
  confirmer_address : String

def Confirm.isMaker (msg : Confirm) (o : Offer) : Bool :=
  msg.role = "maker" && msg.confirmer_address = o.maker

def Confirm.isTaker (msg : Confirm) (o : Offer) : Bool :=
  msg.role = "taker" && some msg.confirmer_address = o.taker

def Confirm.mark (msg : Confirm) (now : Nat) (o : Offer) : Offer :=
  { o with
    maker_confirmed_at :=
      if msg.isMaker o then o.maker_confirmed_at.or (some now) else o.maker_confirmed_at
    taker_confirmed_at :=
      if msg.isTaker o then o.taker_confirmed_at.or (some now) else o.taker_confirmed_at }

def processManualConfirm (now : Nat) (db : Db) (msg : Confirm) : Db :=
  if msg.offer_id = "" ∨ msg.role = "" then db
  else
    match db.offer msg.offer_id with
    | none => db
    | some offer =>
      if offer.protocol_status ≠ .awaiting_manual_confirm then db
      else if !msg.isMaker offer && !msg.isTaker offer then db
      else if (msg.mark now offer).maker_confirmed_at.isSome &&
          (msg.mark now offer).taker_confirmed_at.isSome then
        transition now (db.update offer.id (msg.mark now) (fun _ => rfl)) offer.id .completed none
      else db.update offer.id (msg.mark now) (fun _ => rfl)

def processCancel (now : Nat) (db : Db) (offerId : OfferId) (sender : String) : Db :=
  if offerId = "" then db
  else
    match db.offer offerId with
    | none => db
    | some offer =>
      if offer.protocol_status ≠ .opened then db
      else if offer.maker ≠ sender then db
      else transition now db offer.id .cancelled none

def Offer.isParty (o : Offer) (address : Option String) : Bool :=
  address = some o.maker || (address.isSome && address = o.taker)

def Offer.dispute (disputer : Option String) (reason : String) (o : Offer) : Offer :=
  { o with
    verification_meta :=
      { o.verification_meta with dispute_reason := some reason, dispute_by := disputer } }

def processDispute (now : Nat) (db : Db) (offerId : OfferId) (disputer : String)
    (reason : Option String) : Db :=
  match db.offer offerId with
  | none => db
  | some offer =>
    if !offer.isParty (some disputer) then db
    else if offer.protocol_status ∉ [Status.verifying, .awaiting_manual_confirm, .matched] then db
    else
      transition now
        (db.update offer.id
          (Offer.dispute (some disputer) ((truthy reason).getD "No reason provided"))
          (fun _ => rfl)) offer.id .disputed none

/-- Each offer that is open past its time expires. -/
def expireStale (now : Nat) (db : Db) : Db :=
  (db.exchange_offers.rows.filter fun o => o.protocol_status = .opened && o.expired now).foldl
    (fun db o => transition now db o.id .expired none) db

def cleanupStaleOrphanAccepts (now : Nat) (db : Db) : Db :=
  { db with
    pending_exchange_accepts :=
      db.pending_exchange_accepts.filter fun p => now ≤ p.received_at + 3600 }

/-! ### Publishing -/

structure Publish where
  -- the id it carries or the one that is drawn for it
  id : OfferId
  sender : String
  tx : String
  message_index : Nat
  give_asset : String
  give_amount : Option ℚ
  give_chain : Option String
  want_asset : String
  want_amount : Option ℚ
  want_chain : Option String := none
  expires_at : Option Nat
  verification : Option String
  verification_meta : VerificationMeta

def Publish.offer (msg : Publish) : Offer where
  id := msg.id
  broadcast_tx_id := msg.tx
  message_index := msg.message_index
  give_asset := msg.give_asset
  give_amount := msg.give_amount
  give_chain := truthy msg.give_chain
  want_asset := msg.want_asset
  want_amount := msg.want_amount
  want_chain := truthy msg.want_chain
  maker := msg.sender
  expires_at := msg.expires_at
  verification := (truthy msg.verification).getD "manual"
  verification_meta := msg.verification_meta
  protocol_status := .opened
  price_tolerance := none
  taker := none
  taker_chain := none
  taker_payment_address := none
  payment_tx := none
  delivery_tx := none
  matched_at := none
  verifying_started_at := none
  delivering_at := none
  maker_confirmed_at := none
  taker_confirmed_at := none

def Db.forget (db : Db) (tx : String) : Db :=
  { db with pending_exchange_accepts := db.pending_exchange_accepts.filter fun p => p.msg.tx ≠ tx }

def PendingAccept.Earlier (p p' : PendingAccept) : Prop := p.received_at ≤ p'.received_at

instance : DecidableRel PendingAccept.Earlier :=
  fun p p' => inferInstanceAs (Decidable (p.received_at ≤ p'.received_at))

/-- The accepts that came before the offer, oldest first. -/
def Db.orphans (db : Db) (offerId : OfferId) : List PendingAccept :=
  (db.pending_exchange_accepts.filter fun p => p.msg.offer_id = offerId).insertionSort
    PendingAccept.Earlier

def replay (now : Nat) (db : Db) (p : PendingAccept) : Db :=
  processAccept now (db.forget p.msg.tx) p.msg false

/-- An id that is taken throws. -/
def handleExchange (now : Nat) (db : Db) (msg : Publish) : Db :=
  if msg.give_asset = "" ∨ msg.want_asset = "" then db
  else if db.exchange_offers.rows.any fun o =>
      o.broadcast_tx_id = msg.tx && o.message_index = msg.message_index then db
  else
    match db.exchange_offers.insert msg.offer with
    | none => db
    | some offers => (db.orphans msg.id).foldl (replay now) { db with exchange_offers := offers }

/-! ### Deliveries, timeouts and disputes heard from the chain -/

def Offer.deliver (delivery_tx : String) (o : Offer) : Offer :=
  { o with delivery_tx := some delivery_tx, protocol_status := .completed }

/-- Does not go through `transition`: the node may be anywhere between matched and delivering. -/
def handleExchangeDelivered (now : Nat) (db : Db) (offerId : OfferId) (delivery_tx : String) : Db :=
  if offerId = "" ∨ delivery_tx = "" then db
  else
    match db.offer offerId with
    | none => db
    | some offer =>
      if offer.protocol_status ∈ [Status.matched, .verifying, .delivering] then
        (db.update offerId (Offer.deliver delivery_tx) (fun _ => rfl)).settle
          (spendFunds db.fund_locks now offerId)
      else db

/-- What a match has left in the columns of the offer is cleared, its `verification_meta` stays. -/
def Offer.reopen (o : Offer) : Offer :=
  { o with
    protocol_status := .opened
    taker := none
    taker_chain := none
    taker_payment_address := none
    payment_tx := none
    matched_at := none }

def reopenOffer (now : Nat) (db : Db) (offerId : OfferId) : Db :=
  (db.update offerId Offer.reopen (fun _ => rfl)).settle (releaseFunds db.fund_locks now offerId)

def handleExchangeTimeout (now : Nat) (db : Db) (offerId : OfferId) : Db :=
  if offerId = "" then db
  else
    match db.offer offerId with
    | none => db
    | some offer => if offer.protocol_status ≠ .matched then db else reopenOffer now db offerId

structure Dispute where
  offer_id : OfferId
  sender : String
  disputer : Option String
  reason : Option String

def TERMINAL_AFTER_DISPUTE : List Status := [.completed, .cancelled, .timed_out, .failed, .expired]

def handleExchangeDispute (now : Nat) (db : Db) (msg : Dispute) : Db :=
  if msg.offer_id = "" then db
  else
    match db.offer msg.offer_id with
    | none => db
    | some offer =>
      if offer.protocol_status = .disputed then db
      else if offer.protocol_status ∈ TERMINAL_AFTER_DISPUTE then db
      else if !offer.isParty msg.disputer then db
      else
        transition now
          (db.update offer.id
            (Offer.dispute msg.disputer ((truthy msg.reason).getD "no_reason_given"))
            (fun _ => rfl)) offer.id .disputed none

inductive Outcome
  | maker_wins | taker_wins
  deriving DecidableEq, Repr

def Outcome.text : Outcome → String
  | .maker_wins => "maker_wins"
  | .taker_wins => "taker_wins"

structure Resolve where
  offer_id : OfferId
  sender : String
  tx : String
  outcome : String
  resolver : String

/-- A party can only concede. -/
def Offer.concede (o : Offer) (resolver : String) : Option Outcome :=
  if resolver = "" then none
  else if resolver = o.maker then some .taker_wins
  else if some resolver = o.taker then some .maker_wins
  else none

def Outcome.status : Outcome → Status
  | .maker_wins => .completed
  | .taker_wins => .cancelled

def Offer.resolve (resolver tx : String) (outcome : Outcome) (o : Offer) : Offer :=
  { o with
    protocol_status := outcome.status
    verification_meta :=
      { o.verification_meta with
        resolve_outcome := some outcome.text
        resolved_by := some resolver
        resolve_tx := some tx } }

def resolveLocks (locks : FundLocks) (now : Nat) (offerId : OfferId) : Outcome → FundLocks
  | .maker_wins => spendFunds locks now offerId
  | .taker_wins => releaseFunds locks now offerId

/-- Does not go through `transition`, to which a disputed offer is final. -/
def handleExchangeResolve (now : Nat) (db : Db) (msg : Resolve) : Db :=
  if msg.offer_id = "" then db
  else
    match db.offer msg.offer_id with
    | none => db
    | some offer =>
      if offer.protocol_status ≠ .disputed then db
      else
        match offer.concede msg.resolver with
        | none => db
        | some outcome =>
          if msg.outcome ≠ outcome.text then db
          else
            (db.update msg.offer_id (Offer.resolve msg.resolver msg.tx outcome)
              (fun _ => rfl)).settle (resolveLocks db.fund_locks now msg.offer_id outcome)

end KANet.Trade.Exchange
