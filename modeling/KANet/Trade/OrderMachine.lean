import KANet.Trade.FundLock

/-!
# The order state machine

`order-machine.js`: the rows of `mm_orders` and the calls that move them.

* `transitionTx` — one `_transitionTx`: check the move, update the row, settle the
  locks, record the transaction, then sync the counterparty, which transitions it
  in turn.  The recursion is on fuel; `transition` gives it one unit for each order
  and one more, and `transition_isSome` (in `Sync`) says that this is enough.
* `createOrder`, `linkOrders`, `expireTimedOut` — the other calls.

The clock is read once for each call.
-/

namespace KANet.Trade

open KANet.Lib

inductive Status
  | published | accepted | paying | paid | verified | delivering
  | completed | cancelled | expired | disputed | escalated | resolved
  deriving DecidableEq, Repr

def Status.text : Status → String
  | published => "published"
  | accepted => "accepted"
  | paying => "paying"
  | paid => "paid"
  | verified => "verified"
  | delivering => "delivering"
  | completed => "completed"
  | cancelled => "cancelled"
  | expired => "expired"
  | disputed => "disputed"
  | escalated => "escalated"
  | resolved => "resolved"

def VALID_TRANSITIONS : Status → List Status
  | .published => [.accepted, .cancelled, .expired]
  | .accepted => [.paying, .published, .cancelled, .expired]
  | .paying => [.paid, .accepted, .cancelled, .expired]
  -- once paid, only a dispute leads out
  | .paid => [.verified, .disputed]
  | .verified => [.delivering, .disputed]
  | .delivering => [.completed, .verified, .disputed]
  | .completed => []
  | .cancelled => []
  | .expired => []
  | .disputed => [.resolved, .cancelled, .completed, .escalated]
  | .escalated => [.resolved, .cancelled]
  | .resolved => []

def TERMINAL_STATES : List Status := [.completed, .cancelled, .expired, .resolved, .escalated]

def POST_PAYMENT_STATUSES : List Status := [.paid, .verified, .delivering]

inductive TimestampField
  | accepted_at | paid_at | verified_at | delivered_at | completed_at
  deriving DecidableEq, Repr

def TIMESTAMP_FIELDS : Status → Option TimestampField
  | .published => none
  | .accepted => some .accepted_at
  | .paying => some .paid_at
  | .paid => some .paid_at
  | .verified => some .verified_at
  | .delivering => some .delivered_at
  | .completed => some .completed_at
  | .cancelled => some .completed_at
  | .expired => some .completed_at
  | .resolved => some .completed_at
  | .disputed => some .completed_at
  | .escalated => some .completed_at

/-! ### The tables -/

structure Order where
  id : OrderId
  agent_address : String
  side : String
  peer_address : Option String
  counterparty_order_id : Option OrderId
  status : Status
  timeout_minutes : Int
  created_at : Nat
  accepted_at : Option Nat
  paid_at : Option Nat
  verified_at : Option Nat
  delivered_at : Option Nat
  completed_at : Option Nat
  payment_txhash : Option String
  kas_txhash : Option String
  cancel_reason : Option String

def Order.stamp (o : Order) (now : Nat) : TimestampField → Order
  | .accepted_at => { o with accepted_at := some now }
  | .paid_at => { o with paid_at := some now }
  | .verified_at => { o with verified_at := some now }
  | .delivered_at => { o with delivered_at := some now }
  | .completed_at => { o with completed_at := some now }

structure ChainEvent where
  txid : String
  eventType : String
  fromAddress : String
  toAddress : Option String
  orderId : OrderId
  side : String
  status : Status

/-- `UNIQUE(txid, event_type)` -/
def ChainEvent.key (ev : ChainEvent) : String × String := (ev.txid, ev.eventType)

structure Db where
  mm_orders : Table Order.id
  fund_locks : FundLocks
  chain_events : Table ChainEvent.key

def Db.empty : Db := ⟨Table.empty _, Table.empty _, Table.empty _⟩

def Db.order (db : Db) (id : OrderId) : Option Order := db.mm_orders.get id

/-- A string that JavaScript takes for true. -/
def truthy (s : Option String) : Option String := s.filter fun s => s ≠ ""

def recordChainEvent (db : Db) (ev : ChainEvent) : Db :=
  match db.chain_events.insert ev with
  | some evs => { db with chain_events := evs }
  -- INSERT OR IGNORE
  | none => db

/-! ### One transition -/

structure Opts where
  txHash : Option String := none
  reason : Option String := none
  force : Bool := false

/-- The `SET` clause of a transition. -/
def Order.set (o : Order) (newStatus : Status) (opts : Opts) (now : Nat) : Order :=
  let o := { o with status := newStatus }
  let o :=
    match TIMESTAMP_FIELDS newStatus with
    | some tsField => o.stamp now tsField
    | none => o
  let o :=
    if newStatus = .published then
      { o with accepted_at := none, peer_address := none, counterparty_order_id := none }
    else o
  let o :=
    match truthy opts.txHash with
    | some txHash =>
      if newStatus = .paid ∨ newStatus = .paying then { o with payment_txhash := some txHash }
      else if newStatus = .delivering ∨ newStatus = .completed then
        { o with kas_txhash := some txHash }
      else o
    | none => o
  match truthy opts.reason with
  | some reason =>
    if newStatus = .cancelled ∨ newStatus = .expired ∨ newStatus = .disputed then
      { o with cancel_reason := some reason }
    else o
  | none => o

@[simp] theorem Order.stamp_id (o : Order) (now : Nat) (f : TimestampField) :
    (o.stamp now f).id = o.id := by
  cases f <;> rfl

@[simp] theorem Order.stamp_status (o : Order) (now : Nat) (f : TimestampField) :
    (o.stamp now f).status = o.status := by
  cases f <;> rfl

@[simp] theorem Order.stamp_counterparty (o : Order) (now : Nat) (f : TimestampField) :
    (o.stamp now f).counterparty_order_id = o.counterparty_order_id := by
  cases f <;> rfl

@[simp] theorem Order.set_id (o : Order) (newStatus : Status) (opts : Opts) (now : Nat) :
    (o.set newStatus opts now).id = o.id := by
  unfold Order.set
  dsimp only
  repeat' split
  all_goals simp

@[simp] theorem Order.set_status (o : Order) (newStatus : Status) (opts : Opts) (now : Nat) :
    (o.set newStatus opts now).status = newStatus := by
  unfold Order.set
  dsimp only
  repeat' split
  all_goals simp

/-- Only an order that goes back to `published` loses its counterparty. -/
theorem Order.set_counterparty (o : Order) {newStatus : Status} (opts : Opts) (now : Nat)
    (h : newStatus ≠ .published) :
    (o.set newStatus opts now).counterparty_order_id = o.counterparty_order_id := by
  unfold Order.set
  dsimp only
  rw [if_neg h]
  repeat' split
  all_goals simp

def fundLockStep (locks : FundLocks) (now : Nat) (orderId : OrderId) (newStatus : Status) :
    FundLocks :=
  if newStatus = .completed ∨ newStatus = .resolved then spendFunds locks now orderId
  else if newStatus = .cancelled ∨ newStatus = .expired ∨ newStatus = .published then
    releaseFunds locks now orderId
  else locks

def chainEventStep (db : Db) (order : Order) (newStatus : Status) (txHash : Option String) : Db :=
  match truthy txHash with
  | some txid =>
    recordChainEvent db
      { txid := txid
        eventType :=
          if newStatus = .paying ∨ newStatus = .paid then "payment" else "kas_delivery"
        fromAddress := order.agent_address
        toAddress := order.peer_address
        orderId := order.id
        side := order.side
        status := newStatus }
  | none => db

/-- What a counterparty is told of a move, and where it goes itself. -/
def syncMap : Status → Option Status
  | .paid => some .paid
  | .verified => some .verified
  | .completed => some .completed
  | .cancelled => some .cancelled
  | .expired => some .expired
  | .disputed => some .disputed
  | _ => none

/-- `id.slice(0, 8)` -/
def short (id : OrderId) : String := String.ofList (id.toList.take 8)

abbrev TransitionResult := Except String (Option Order)

/-- `_syncCounterparty`, for an order read before it moved; `transition` is the call it makes. -/
def syncCounterparty (transition : Db → OrderId → Status → Opts → Option (Db × TransitionResult))
    (db : Db) (order : Order) (newStatus : Status) (txHash : Option String) : Option Db :=
  match truthy order.counterparty_order_id with
  | none => some db
  | some counterId =>
    match db.order counterId with
    | none => some db
    | some counter =>
      if counter.status ∈ TERMINAL_STATES then some db
      else
        match syncMap newStatus with
        | none => some db
        | some counterNewStatus =>
          if counter.status ≠ counterNewStatus then
            (transition db counter.id counterNewStatus
              { txHash := txHash, reason := some ("Synced from counterparty " ++ short order.id)
                force := true }).map Prod.fst
          else some db

/-- The writes of a transition, for the row it read. -/
def moveOrder (now : Nat) (db : Db) (order : Order) (newStatus : Status) (opts : Opts) : Db :=
  let db₁ : Db :=
    { db with
      mm_orders := db.mm_orders.updateWhere
        (fun o => o.id = order.id && o.status = order.status)
        (fun o => o.set newStatus opts now) fun o => o.set_id newStatus opts now
      fund_locks := fundLockStep db.fund_locks now order.id newStatus }
  chainEventStep db₁ order newStatus opts.txHash

/-- `_transitionTx`; `none` when the fuel is used up. -/
def transitionTx (now : Nat) :
    Nat → Db → OrderId → Status → Opts → Option (Db × TransitionResult)
  | 0, _, _, _, _ => none
  | fuel + 1, db, orderId, newStatus, opts =>
    match db.order orderId with
    | none => some (db, .error "Order not found")
    | some order =>
      if !opts.force && newStatus ∉ VALID_TRANSITIONS order.status then
        some (db, .error ("Cannot transition from \"" ++ order.status.text ++ "\" to \"" ++
          newStatus.text ++ "\""))
      -- the optimistic lock
      else if db.mm_orders.count (fun o => o.id = orderId && o.status = order.status) = 0 then
        some (db, .error ("Optimistic lock failed: order " ++ short orderId ++
          " status changed concurrently"))
      else
        (syncCounterparty (transitionTx now fuel) (moveOrder now db order newStatus opts) order
          newStatus opts.txHash).map fun db' => (db', .ok (db'.order orderId))

def transition (now : Nat) (db : Db) (orderId : OrderId) (newStatus : Status) (opts : Opts) :
    Option (Db × TransitionResult) :=
  transitionTx now (db.mm_orders.rows.length + 1) db orderId newStatus opts

/-! ### The other calls -/

structure NewOrder where
  id : OrderId
  agentAddress : String
  side : String
  peerAddress : Option String := none
  counterpartyOrderId : Option OrderId := none
  timeoutMinutes : Int := 30

def createOrder (now : Nat) (db : Db) (o : NewOrder) : Except String Db :=
  match db.mm_orders.insert
    { id := o.id, agent_address := o.agentAddress, side := o.side
      peer_address := o.peerAddress, counterparty_order_id := o.counterpartyOrderId
      status := .published, timeout_minutes := o.timeoutMinutes, created_at := now
      accepted_at := none, paid_at := none, verified_at := none, delivered_at := none
      completed_at := none, payment_txhash := none, kas_txhash := none
      cancel_reason := none } with
  | some orders => .ok { db with mm_orders := orders }
  | none => .error "UNIQUE constraint failed: mm_orders.id"

def setCounterparty (orders : Table Order.id) (orderId counterId : OrderId) : Table Order.id :=
  orders.updateWhere (fun o => o.id = orderId)
    (fun o => { o with counterparty_order_id := some counterId }) fun _ => rfl

def linkOrders (db : Db) (orderId1 orderId2 : OrderId) : Db :=
  { db with
    mm_orders := setCounterparty (setCounterparty db.mm_orders orderId1 orderId2)
      orderId2 orderId1 }

/-- The rows the sweep reads before it starts. -/
def timeoutCandidates (db : Db) : List Order :=
  db.mm_orders.rows.filter fun o =>
    o.status ∉ [Status.completed, .cancelled, .expired, .resolved, .disputed] &&
      0 < o.timeout_minutes

def Order.timedOut (o : Order) (now : Nat) : Bool :=
  let startTime := o.accepted_at.getD o.created_at
  o.timeout_minutes * 60000 ≤ (now : Int) - startTime

def Order.timeoutReason (o : Order) : String :=
  "Timeout after " ++ toString o.timeout_minutes ++ " minutes"

/-- Where a timeout sends an order, and the reason it gives. -/
def Order.timeoutMove (o : Order) : Status × Opts :=
  if o.status ∈ POST_PAYMENT_STATUSES then
    (.disputed, { reason := some (o.timeoutReason ++ " (post-payment protection)") })
  else (.expired, { reason := some o.timeoutReason })

/-- One turn of the sweep; it counts the moves that went through. -/
def expireOne (now : Nat) : Db × Nat → Order → Option (Db × Nat)
  | (db, moved), o =>
    if o.timedOut now then
      match transition now db o.id o.timeoutMove.1 o.timeoutMove.2 with
      | none => none
      | some (db', .ok _) => some (db', moved + 1)
      | some (db', .error _) => some (db', moved)
    else some (db, moved)

def expireTimedOut (now : Nat) (db : Db) : Option (Db × Nat) :=
  (timeoutCandidates db).foldlM (expireOne now) (db, 0)

end KANet.Trade
