import KANet.Trade.Counterparty

/-!
# The messages of the order protocol

`trade-protocol-filter.js`: what a node does with the order messages it finds on the chain.  The
handlers check little of what the sender may do; they call the order machine, and `handleAccept`
goes through a transition, an insertion and a link one after the other.  What a handler has done
when it throws stays done.  The entries that the handlers themselves add to `chain_events` are left
out: nothing reads them here.

* `handle` — one message, and of `handleTimeout` the move back to `published`; the accepts it
  tries afterwards are handled like any other (`receive_eq`).
* `Lawful` — each call takes full effect or none, terminal orders stay as they are, and paid ones
  do not go back on the market.
* `orders_lawful` — a run is lawful in which no timeout moves a terminal, paid or linked order, no
  accept names a counter order that is there, and no publisher cancels an escalated order.
* `timeout_revives` — a timeout message for an order that is completed.
-/

namespace KANet.Trade.Messages

open KANet.Lib

/-! ### Transitions under the unique index -/

/-- What the unique index on `payment_txhash` is over. -/
def paymentTxs (db : Db) : List String := db.mm_orders.rows.filterMap Order.payment_txhash

/-- `transition`: when the index refuses a write, the whole transaction is rolled back and throws. -/
def callTransition (now : Nat) (db : Db) (orderId : OrderId) (newStatus : Status) (opts : Opts) :
    Except String (Db × TransitionResult) :=
  match transition now db orderId newStatus opts with
  | some (db', r) =>
    if (paymentTxs db').Nodup then .ok (db', r)
    else .error "UNIQUE constraint failed: mm_orders.payment_txhash"
  -- does not happen, by `transition_isSome`
  | none => .error ""

/-! ### The messages -/

/-- An order message, with the fields that the orders and their locks depend on. -/
inductive OrderMessage
  | order (side : String) (id : OrderId)
  | accept (ref : OrderId) (counter_id : Option OrderId)
  | paid (id : OrderId) (tx : String)
  | delivered (id : OrderId) (tx : String)
  | cancel (id : OrderId) (reason : Option String)
  | timeout (id : OrderId) (reason who : Option String)
  -- a type that no handler takes
  | unhandled (t : String)

/-- A row of `broadcast_messages`; the content is parsed. -/
structure Broadcast where
  tx_hash : String
  sender_address : String
  channel_name : String
  content : OrderMessage

/-- The database after a handler, and what it threw. -/
structure Handled where
  db : Db
  thrown : Option String

def done (db : Db) : Handled := ⟨db, none⟩

/-- A handler that ends with a transition. -/
def lastTransition (now : Nat) (db : Db) (orderId : OrderId) (newStatus : Status) (opts : Opts) :
    Handled :=
  match callTransition now db orderId newStatus opts with
  | .ok (db', _) => done db'
  | .error e => ⟨db, some e⟩

def handleOrder (now : Nat) (db : Db) (sender side : String) (orderId : OrderId) : Handled :=
  if orderId = "" then done db
  else
    match createOrder now db { id := orderId, agentAddress := sender, side := side } with
    | .ok db' => done db'
    -- the row is there already
    | .error _ => done db

def setPeer (db : Db) (orderId : OrderId) (peer : String) : Db :=
  { db with
    mm_orders := db.mm_orders.updateWhere (fun o => o.id = orderId)
      (fun o => { o with peer_address := some peer }) fun _ => rfl }

/-- What `quickStart` throws without an agent. -/
def noAgent : String := "type, source, agentAddress are required"

/-- The end of `handleAccept`: the counter order is accepted too. -/
def acceptCounter (now : Nat) (db : Db) (row : Broadcast) (counterId : OrderId) : Handled :=
  match callTransition now db counterId .accepted
      { txHash := some row.tx_hash, force := true } with
  | .error e => ⟨db, some e⟩
  | .ok (db', _) => ⟨db', if row.sender_address = "" then some noAgent else none⟩

/-- The middle of `handleAccept`, for the order it read before its transition. -/
def createCounter (now : Nat) (db : Db) (row : Broadcast) (order : Order)
    (counter_id : Option OrderId) : Handled :=
  if order.agent_address = "" then ⟨db, some noAgent⟩
  else
    match truthy counter_id with
    | none => done db
    | some counterId =>
      match createOrder now db
        { id := counterId, agentAddress := row.sender_address
          side := if order.side = "sell" then "buy" else "sell"
          peerAddress := some order.agent_address, counterpartyOrderId := some order.id } with
      | .error e => ⟨db, some e⟩
      | .ok db' => acceptCounter now (linkOrders db' order.id counterId) row counterId

section Handlers

-- `checkLimits` for a sender and an order, with what it reads of the database
variable (checkLimits : Db → String → Order → Bool)

def handleAccept (now : Nat) (db : Db) (row : Broadcast) (ref : OrderId)
    (counter_id : Option OrderId) : Handled :=
  if ref = "" then done db
  else
    match db.order ref with
    | none => done db
    | some order =>
      if order.status ≠ .published then done db
      else if !checkLimits db row.sender_address order then done db
      else
        match callTransition now db ref .accepted { txHash := some row.tx_hash } with
        | .error e => ⟨db, some e⟩
        | .ok (db', .error _) => done db'
        | .ok (db', .ok _) =>
          createCounter now (setPeer db' ref row.sender_address) row order counter_id

def handlePaid (now : Nat) (db : Db) (orderId : OrderId) (tx : String) : Handled :=
  if orderId = "" || tx = "" then done db
  else
    match db.order orderId with
    | none => done db
    | some order =>
      if order.status ∈ [Status.paid, .verified, .delivering, .completed] then done db
      else lastTransition now db orderId .paid { txHash := some tx }

def handleDelivered (now : Nat) (db : Db) (orderId : OrderId) (tx : String) : Handled :=
  if orderId = "" || tx = "" then done db
  else
    match db.order orderId with
    | none => done db
    | some order =>
      if order.status = .completed then done db
      else lastTransition now db orderId .completed { txHash := some tx }

def handleCancel (now : Nat) (db : Db) (sender : String) (orderId : OrderId)
    (reason : Option String) : Handled :=
  if orderId = "" then done db
  else
    match db.order orderId with
    | none => done db
    | some order =>
      if order.agent_address ≠ sender then done db
      else
        lastTransition now db orderId .cancelled
          { reason := some ((truthy reason).getD "Cancelled via protocol broadcast") }

/-- A field in a template string. -/
def shown (s : Option String) : String := s.getD "undefined"

/-- `handleTimeout` up to `tryNextAccept` -/
def revertTimeout (now : Nat) (db : Db) (orderId : OrderId) (reason who : Option String) :
    Handled :=
  if orderId = "" then done db
  else
    match db.order orderId with
    | none => done db
    | some _ =>
      lastTransition now db orderId .published
        { reason := some ("Timeout: " ++ shown reason ++ " (" ++ shown who ++ ")"), force := true }

def handle (now : Nat) (db : Db) (row : Broadcast) : Handled :=
  match row.content with
  | .order side id => handleOrder now db row.sender_address side id
  | .accept ref counter_id => handleAccept checkLimits now db row ref counter_id
  | .paid id tx => handlePaid now db id tx
  | .delivered id tx => handleDelivered now db id tx
  | .cancel id reason => handleCancel now db row.sender_address id reason
  | .timeout id reason who => revertTimeout now db id reason who
  | .unhandled _ => done db

/-! ### The next candidate -/

def isAccepted (db : Db) (orderId : OrderId) : Bool :=
  (db.order orderId).any fun o => o.status = .accepted

/-- The loop of `tryNextAccept`. -/
def tryAccepts (now : Nat) (orderId : OrderId) : List Broadcast → Db → Handled
  | [], db => done db
  | row :: rows, db =>
    match handle checkLimits now db row with
    | ⟨db', some e⟩ => ⟨db', some e⟩
    | ⟨db', none⟩ => if isAccepted db' orderId then done db' else tryAccepts now orderId rows db'

def acceptsIn (broadcasts : List Broadcast) (channel : String) : List Broadcast :=
  broadcasts.filter fun b =>
    b.channel_name = channel && (match b.content with | .accept _ _ => true | _ => false)

/-- `who` of the timeouts in a channel -/
def timedOutIn (broadcasts : List Broadcast) (channel : String) : List String :=
  (broadcasts.filter fun b => b.channel_name = channel).filterMap fun b =>
    match b.content with
    | .timeout _ _ who => truthy who
    | _ => none

/-- The rows that `tryNextAccept` goes through. -/
def candidates (broadcasts : List Broadcast) (orderId : OrderId) : List Broadcast :=
  (acceptsIn broadcasts orderId).filter fun b =>
    b.sender_address ∉ timedOutIn broadcasts orderId

def tryNextAccept (now : Nat) (db : Db) (broadcasts : List Broadcast) (orderId : OrderId) :
    Handled :=
  match db.order orderId with
  | none => done db
  | some order =>
    if order.status ≠ .published then done db
    else tryAccepts checkLimits now orderId (candidates broadcasts orderId) db

def handleTimeout (now : Nat) (db : Db) (broadcasts : List Broadcast) (orderId : OrderId)
    (reason who : Option String) : Handled :=
  if orderId = "" then done db
  else
    match revertTimeout now db orderId reason who with
    | ⟨db', some e⟩ => ⟨db', some e⟩
    | ⟨db', none⟩ => tryNextAccept checkLimits now db' broadcasts orderId

/-- A node: its orders, and the broadcasts it has stored. -/
structure Node where
  db : Db
  broadcast_messages : List Broadcast

/-- `onBroadcastWritten`, for a row that has just been inserted; what a handler throws is logged. -/
def onBroadcastWritten (now : Nat) (n : Node) (row : Broadcast) : Node :=
  let broadcasts := n.broadcast_messages ++ [row]
  match row.content with
  | .timeout id reason who => ⟨(handleTimeout checkLimits now n.db broadcasts id reason who).db, broadcasts⟩
  | _ => ⟨(handle checkLimits now n.db row).db, broadcasts⟩

def receive (n : Node) (ms : List (Nat × Broadcast)) : Node :=
  ms.foldl (fun n m => onBroadcastWritten checkLimits m.1 n m.2) n

/-! ### Calls -/

/-- The rows that the loop of `tryNextAccept` handles before it stops. -/
def tried (now : Nat) (orderId : OrderId) : List Broadcast → Db → List Broadcast
  | [], _ => []
  | row :: rows, db =>
    row :: match handle checkLimits now db row with
      | ⟨_, some _⟩ => []
      | ⟨db', none⟩ => if isAccepted db' orderId then [] else tried now orderId rows db'

/-- The calls of `handle` that a broadcast leads to: one for itself, and after a timeout one for
each candidate. -/
def callsOf (now : Nat) (n : Node) (row : Broadcast) : List Broadcast :=
  row :: match row.content with
    | .timeout id _ _ =>
      if id = "" then []
      else
        match handle checkLimits now n.db row with
        | ⟨_, some _⟩ => []
        | ⟨db', none⟩ =>
          if (db'.order id).any fun o => o.status = .published then
            tried checkLimits now id (candidates (n.broadcast_messages ++ [row]) id) db'
          else []
    | _ => []

def calls (n : Node) : List (Nat × Broadcast) → List (Nat × Broadcast)
  | [] => []
  | m :: ms => (callsOf checkLimits m.1 n m.2).map (fun row => (m.1, row)) ++
      calls (onBroadcastWritten checkLimits m.1 n m.2) ms

/-- The database after some calls. -/
def play (db : Db) (cs : List (Nat × Broadcast)) : Db :=
  cs.foldl (fun db c => (handle checkLimits c.1 db c.2).db) db

theorem play_append (db : Db) (as bs : List (Nat × Broadcast)) :
    play checkLimits db (as ++ bs) = play checkLimits (play checkLimits db as) bs :=
  List.foldl_append

theorem play_tried (now : Nat) (orderId : OrderId) (rows : List Broadcast) (db : Db) :
    (tryAccepts checkLimits now orderId rows db).db =
      play checkLimits db ((tried checkLimits now orderId rows db).map fun row => (now, row)) := by
  induction rows generalizing db with
  | nil => rfl
  | cons row rows ih =>
    rw [tryAccepts, tried, List.map_cons, play, List.foldl_cons, ← play]
    cases hrow : handle checkLimits now db row with
    | mk db' thrown =>
      cases thrown with
      | some e => rfl
      | none =>
        dsimp only
        split
        · rfl
        · exact ih db'

theorem handle_timeout {now : Nat} {db : Db} {row : Broadcast} {id : OrderId}
    {reason who : Option String} (h : row.content = .timeout id reason who) :
    handle checkLimits now db row = revertTimeout now db id reason who := by
  rw [handle, h]

theorem play_callsOf (now : Nat) (n : Node) (row : Broadcast) :
    (onBroadcastWritten checkLimits now n row).db =
      play checkLimits n.db ((callsOf checkLimits now n row).map fun row => (now, row)) := by
  rw [callsOf, List.map_cons, play, List.foldl_cons, ← play]
  cases hc : row.content with
  | timeout id reason who =>
    rw [onBroadcastWritten, hc, handle_timeout checkLimits hc]
    dsimp only
    rw [handleTimeout]
    split
    · next hid =>
      rw [revertTimeout, if_pos hid]
      rfl
    · cases hrev : revertTimeout now n.db id reason who with
      | mk db' thrown =>
        cases thrown with
        | some e => rfl
        | none =>
          dsimp only
          rw [tryNextAccept]
          cases ho : db'.order id with
          | none => rfl
          | some order =>
            dsimp only [Option.any_some]
            by_cases hs : order.status = .published
            · simp only [hs, ne_eq, not_true_eq_false, if_false, decide_true, if_true]
              exact play_tried checkLimits now id _ db'
            · simp only [hs, ne_eq, not_false_eq_true, if_true, decide_false]
              rfl
  | _ => rw [onBroadcastWritten, hc]; rfl

/-- **What a node has received it has called.** -/
theorem receive_eq (n : Node) (ms : List (Nat × Broadcast)) :
    (receive checkLimits n ms).db = play checkLimits n.db (calls checkLimits n ms) := by
  induction ms generalizing n with
  | nil => rfl
  | cons m ms ih =>
    rw [receive, List.foldl_cons, ← receive, ih, calls, play_append, play_callsOf]

end Handlers

/-! ### Full effects -/

def Unchanged (db db' : Db) : Prop :=
  (∀ x, db'.order x = db.order x) ∧ ∀ k, db'.fund_locks.get k = db.fund_locks.get k

theorem Unchanged.refl (db : Db) : Unchanged db db := ⟨fun _ => rfl, fun _ => rfl⟩

structure Created (db : Db) (id : OrderId) (db' : Db) : Prop where
  created : db.order id = none ∧ ∃ o, db'.order id = some o ∧ o.status = .published
  kept : ∀ x, x ≠ id → db'.order x = db.order x
  locked : ∀ k, db'.fund_locks.get k = db.fund_locks.get k

/-- The order is taken; a counter order is there for the first time, is accepted with it, and the
two name each other. -/
structure Accepted (db : Db) (sender : String) (ref : OrderId) (counter_id : Option OrderId)
    (db' : Db) : Prop where
  published : ∃ o, db.order ref = some o ∧ o.status = .published
  taken : ∃ o', db'.order ref = some o' ∧ o'.status = .accepted ∧ o'.peer_address = some sender ∧
    ∀ c, truthy counter_id = some c → o'.counterparty_order_id = some c
  counter : ∀ c, truthy counter_id = some c → db.order c = none ∧
    ∃ c', db'.order c = some c' ∧ c'.status = .accepted ∧ c'.counterparty_order_id = some ref
  kept : ∀ x, x ≠ ref → truthy counter_id ≠ some x → db'.order x = db.order x
  locked : ∀ k, db'.fund_locks.get k = db.fund_locks.get k

/-- A transition that the table allows, with its counterparty and the locks. -/
def Moves (now : Nat) (db : Db) (id : OrderId) (s : Status) (db' : Db) : Prop :=
  Allowed db id s false ∧ Synced now db s id db'

/-- The order is back on the market, its locks are released, and it is linked to no order from
either side. -/
structure Reverted (now : Nat) (db : Db) (id : OrderId) (db' : Db) : Prop where
  moved : Synced now db .published id db'
  unlinked : ∀ b, Names db id b → ¬ Names db' id b ∧ ¬ Names db' b id

def FullEffect (now : Nat) (db : Db) (row : Broadcast) (db' : Db) : Prop :=
  match row.content with
  | .order _ id => Created db id db'
  | .accept ref counter_id => Accepted db row.sender_address ref counter_id db'
  | .paid id _ => Moves now db id .paid db'
  | .delivered id _ => Moves now db id .completed db'
  | .cancel id _ => Moves now db id .cancelled db'
  | .timeout id _ _ => Reverted now db id db'
  | .unhandled _ => False

/-! ### What transitions do under the index -/

variable {now : Nat} {db db' : Db} {id : OrderId} {s : Status} {opts : Opts}

theorem callTransition_eq_ok {r : TransitionResult}
    (h : callTransition now db id s opts = .ok (db', r)) :
    transition now db id s opts = some (db', r) ∧ (paymentTxs db').Nodup := by
  unfold callTransition at h
  split at h
  · next htr =>
    split at h
    · next hnodup =>
      cases h
      exact ⟨htr, hnodup⟩
    · cases h
  · cases h

theorem callTransition_cases {r : TransitionResult}
    (h : callTransition now db id s opts = .ok (db', r)) :
    (db' = db ∧ ∃ err, r = .error err) ∨
      (Allowed db id s opts.force ∧ Synced now db s id db' ∧ r = .ok (db'.order id)) := by
  rcases transition_cases (callTransition_eq_ok h).1 with ⟨-, hdb, hr⟩ | hgo
  · exact Or.inl ⟨hdb, hr⟩
  · exact Or.inr hgo

theorem lastTransition_cases (now : Nat) (db : Db) (id : OrderId) (s : Status) (opts : Opts) :
    (lastTransition now db id s opts).db = db ∨
      (Allowed db id s opts.force ∧ Synced now db s id (lastTransition now db id s opts).db) := by
  rw [lastTransition]
  split
  · next db' r h =>
    rcases callTransition_cases h with ⟨rfl, -⟩ | ⟨ha, hsync, -⟩
    · exact Or.inl rfl
    · exact Or.inr ⟨ha, hsync⟩
  · exact Or.inl rfl

/-- A move that is passed on to nobody is the one write. -/
theorem callTransition_alone {r : Option Order} (hs : syncMap s = none)
    (h : callTransition now db id s opts = .ok (db', .ok r)) :
    ∃ order, db.order id = some order ∧ db' = moveOrder now db order s opts := by
  rcases transitionTx_cases (callTransition_eq_ok h).1 with ⟨-, -, err, herr⟩ | ⟨order, ho, -, -, hsync⟩
  · cases herr
  · refine ⟨order, ho, ?_⟩
    have hlink : syncMap s = some s →
        (order.set s opts now).counterparty_order_id = order.counterparty_order_id := by
      rw [hs]
      intro hsome
      cases hsome
    rcases syncCounterparty_cases (moveOrder_self ho) hlink hsync with ⟨hdb, -⟩ | ⟨b, hb, -⟩
    · exact hdb
    · have := hb.1
      rw [hs] at this
      cases this

/-! ### The other writes -/

theorem order_setPeer_ne {x : OrderId} {peer : String} (hx : x ≠ id) :
    (setPeer db id peer).order x = db.order x := by
  rw [Db.order, setPeer, Table.get_updateWhere, Db.order]
  cases h : db.mm_orders.get x with
  | none => rfl
  | some o =>
    have hox : o.id = x := Table.key_of_get h
    simp [hox, hx]

theorem order_setPeer {o : Order} {peer : String} (h : db.order id = some o) :
    (setPeer db id peer).order id = some { o with peer_address := some peer } := by
  have hid : o.id = id := Table.key_of_get h
  rw [Db.order] at h
  rw [Db.order, setPeer, Table.get_updateWhere, h]
  simp [hid]

theorem createOrder_ok {new : NewOrder} (h : createOrder now db new = .ok db') :
    db.order new.id = none ∧
      (∃ o, db'.order new.id = some o ∧ o.id = new.id ∧ o.status = .published) ∧
      (∀ x, x ≠ new.id → db'.order x = db.order x) ∧ db'.fund_locks = db.fund_locks ∧
      paymentTxs db' = paymentTxs db := by
  unfold createOrder at h
  split at h
  · next orders hins =>
    cases h
    refine ⟨Table.free_of_insert hins,
      ⟨_, (Table.get_insert hins _).trans (if_pos rfl), rfl, rfl⟩, ?_, rfl, ?_⟩
    · intro x hx
      exact (Table.get_insert hins x).trans (if_neg (Ne.symm hx))
    · rw [paymentTxs, Table.rows_of_insert hins, List.filterMap_append, List.filterMap_cons_none rfl,
        List.filterMap_nil, List.append_nil, paymentTxs]
  · cases h

theorem createOrder_error {new : NewOrder} {e : String} (h : createOrder now db new = .error e) :
    db.order new.id ≠ none := by
  unfold createOrder at h
  split at h
  · cases h
  · next hins => exact Option.isSome_iff_ne_none.mp (Table.insert_eq_none.mp hins)

theorem order_linkOrders {a b : OrderId} (hab : a ≠ b) (x : OrderId) :
    (linkOrders db a b).order x = (db.order x).map fun o =>
      if x = a then { o with counterparty_order_id := some b }
      else if x = b then { o with counterparty_order_id := some a } else o := by
  rw [Db.order, linkOrders, setCounterparty, Table.get_updateWhere, setCounterparty,
    Table.get_updateWhere, Db.order]
  cases h : db.mm_orders.get x with
  | none => rfl
  | some o =>
    have hox : o.id = x := Table.key_of_get h
    by_cases hxa : x = a
    · have hxb : x ≠ b := hxa ▸ hab
      simp [hox, hxa, hab]
    · by_cases hxb : x = b
      · simp [hox, hxb, Ne.symm hab]
      · simp [hox, hxa, hxb]

theorem paymentTxs_updateWhere (t : Table Order.id) {p : Order → Bool} {f : Order → Order}
    (h : ∀ o, (f o).id = o.id) (hf : ∀ o, (f o).payment_txhash = o.payment_txhash) :
    (t.updateWhere p f h).rows.filterMap Order.payment_txhash =
      t.rows.filterMap Order.payment_txhash := by
  rw [Table.updateWhere, List.filterMap_map]
  congr 1
  funext o
  by_cases hp : p o
  · simp [hp, hf]
  · simp [hp]

theorem paymentTxs_setPeer (db : Db) (id : OrderId) (peer : String) :
    paymentTxs (setPeer db id peer) = paymentTxs db := by
  exact paymentTxs_updateWhere db.mm_orders (by exact fun _ => rfl) (by exact fun _ => rfl)

theorem paymentTxs_setCounterparty (t : Table Order.id) (a b : OrderId) :
    (setCounterparty t a b).rows.filterMap Order.payment_txhash =
      t.rows.filterMap Order.payment_txhash := by
  exact paymentTxs_updateWhere t (by exact fun _ => rfl) (by exact fun _ => rfl)

theorem paymentTxs_linkOrders (db : Db) (a b : OrderId) :
    paymentTxs (linkOrders db a b) = paymentTxs db := by
  rw [paymentTxs, linkOrders, paymentTxs_setCounterparty, paymentTxs_setCounterparty, paymentTxs]

theorem payment_set_accepted (o : Order) (opts : Opts) (now : Nat) :
    (o.set .accepted opts now).payment_txhash = o.payment_txhash := by
  unfold Order.set
  dsimp only [TIMESTAMP_FIELDS, Order.stamp]
  repeat' split
  all_goals simp_all

theorem paymentTxs_moveOrder_accepted (now : Nat) (db : Db) (order : Order) (opts : Opts) :
    paymentTxs (moveOrder now db order .accepted opts) = paymentTxs db := by
  rw [paymentTxs, moveOrder, chainEventStep_orders,
    paymentTxs_updateWhere _ _ fun o => payment_set_accepted o opts now, paymentTxs]

/-! ### An accept -/

@[simp] theorem fundLockStep_accepted (locks : FundLocks) (now : Nat) (id : OrderId) :
    fundLockStep locks now id .accepted = locks := rfl

/-- A forced move to `accepted` of an order that is there goes through. -/
theorem callTransition_accepted {order : Order} (hn : (paymentTxs db).Nodup)
    (ho : db.order id = some order) (hf : opts.force = true) :
    ∃ r, callTransition now db id .accepted opts =
      .ok (moveOrder now db order .accepted opts, .ok r) := by
  obtain ⟨⟨db', r⟩, htr⟩ := Option.isSome_iff_exists.mp
    (transition_isSome now db id .accepted opts)
  rcases transitionTx_cases htr with ⟨hno, -⟩ | ⟨order', ho', -, rfl, hsync⟩
  · exact absurd ⟨order, ho, Or.inl hf⟩ hno
  · rw [ho] at ho'
    obtain rfl := Option.some.inj ho'
    have hlink : syncMap .accepted = some .accepted →
        (order.set .accepted opts now).counterparty_order_id = order.counterparty_order_id := by
      intro h
      cases h
    rcases syncCounterparty_cases (moveOrder_self ho) hlink hsync with ⟨rfl, -⟩ | ⟨b, hb, -⟩
    · refine ⟨(moveOrder now db order .accepted opts).order id, ?_⟩
      rw [callTransition, htr]
      dsimp only
      rw [if_pos (by rw [paymentTxs_moveOrder_accepted]; exact hn)]
    · cases hb.1

/-- The database after the first two writes of `handleAccept`. -/
structure Taken (db : Db) (sender : String) (order : Order) (db₂ : Db) : Prop where
  taken : ∃ o, db₂.order order.id = some o ∧ o.status = .accepted ∧ o.peer_address = some sender
  kept : ∀ x, x ≠ order.id → db₂.order x = db.order x
  locked : db₂.fund_locks = db.fund_locks
  nodup : (paymentTxs db₂).Nodup

theorem taken_of_moveOrder {order : Order} {sender : String} (ho : db.order order.id = some order)
    (hn : (paymentTxs (moveOrder now db order .accepted opts)).Nodup) :
    Taken db sender order (setPeer (moveOrder now db order .accepted opts) order.id sender) where
  taken := ⟨_, order_setPeer (moveOrder_self ho), order.set_status .accepted opts now, rfl⟩
  kept x hx := (order_setPeer_ne hx).trans (moveOrder_ne ho hx)
  locked := by rw [setPeer, moveOrder_locks, fundLockStep_accepted]
  nodup := by
    rw [paymentTxs_setPeer]
    exact hn

theorem createCounter_accepted {row : Broadcast} {order : Order} {counter_id : Option OrderId}
    {db₂ : Db} (ho : db.order order.id = some order) (hs : order.status = .published)
    (h : Taken db row.sender_address order db₂)
    (hc : ∀ c, truthy counter_id = some c → db.order c = none ∧ order.agent_address ≠ "") :
    Accepted db row.sender_address order.id counter_id
      (createCounter now db₂ row order counter_id).db := by
  obtain ⟨o₂, ho₂, hs₂, hp₂⟩ := h.taken
  cases hl : truthy counter_id with
  | none =>
    have hdb : (createCounter now db₂ row order counter_id).db = db₂ := by
      unfold createCounter
      rw [hl]
      split <;> rfl
    rw [hdb]
    refine ⟨⟨order, ho, hs⟩, ⟨o₂, ho₂, hs₂, hp₂, ?_⟩, ?_, fun x hx _ => h.kept x hx, ?_⟩
    · intro c hc'
      rw [hl] at hc'
      cases hc'
    · intro c hc'
      rw [hl] at hc'
      cases hc'
    · intro k
      rw [h.locked]
  | some c =>
    obtain ⟨hfree, hagent⟩ := hc c hl
    have hne : order.id ≠ c := by
      intro heq
      rw [heq, hfree] at ho
      cases ho
    have hfree₂ : db₂.order c = none := (h.kept c (Ne.symm hne)).trans hfree
    rw [createCounter, if_neg hagent, hl]
    dsimp only
    split
    · next herr => exact absurd hfree₂ (createOrder_error herr)
    · next db₃ hcreate =>
      obtain ⟨-, ⟨oc, hoc, -, -⟩, hkept₃, hlocks₃, hpay₃⟩ := createOrder_ok hcreate
      have hlink := @order_linkOrders db₃ order.id c hne
      have hn : (paymentTxs (linkOrders db₃ order.id c)).Nodup := by
        rw [paymentTxs_linkOrders, hpay₃]
        exact h.nodup
      have hcounter : (linkOrders db₃ order.id c).order c =
          some { oc with counterparty_order_id := some order.id } := by
        rw [hlink, hoc, Option.map_some, if_neg (Ne.symm hne), if_pos rfl]
      obtain ⟨r, hcall⟩ := @callTransition_accepted now _ c
        { txHash := some row.tx_hash, force := true } _ hn hcounter rfl
      rw [acceptCounter, hcall]
      dsimp only
      have hkept : ∀ x, x ≠ c → (moveOrder now (linkOrders db₃ order.id c)
          { oc with counterparty_order_id := some order.id } .accepted
          { txHash := some row.tx_hash, force := true }).order x =
          (db₂.order x).map fun o =>
            if x = order.id then { o with counterparty_order_id := some c } else o := by
        intro x hx
        rw [moveOrder_ne hcounter hx, hlink, hkept₃ x hx]
        simp only [hx, if_false]
      refine ⟨⟨order, ho, hs⟩, ?_, ?_, ?_, ?_⟩
      · refine ⟨{ o₂ with counterparty_order_id := some c }, ?_, hs₂, hp₂, ?_⟩
        · rw [hkept order.id hne, ho₂, Option.map_some, if_pos rfl]
        · intro c' hc'
          rw [hl] at hc'
          exact hc'
      · intro c' hc'
        rw [hl] at hc'
        obtain rfl := Option.some.inj hc'
        refine ⟨hfree, _, moveOrder_self hcounter, Order.set_status _ _ _ _, ?_⟩
        exact Order.set_counterparty _ _ _ (by decide)
      · intro x hx hxc
        have hxc' : x ≠ c := by
          intro heq
          rw [hl, heq] at hxc
          exact hxc rfl
        rw [hkept x hxc', h.kept x hx]
        simp only [hx, if_false, Option.map_id']
      · intro k
        rw [moveOrder_locks, fundLockStep_accepted, linkOrders, hlocks₃, h.locked]

/-! ### The condition on a call -/

/-- The payment of the order is on record. -/
def PaymentRecorded (o : Order) : Prop :=
  (truthy o.payment_txhash).isSome ∨ o.status ∈ POST_PAYMENT_STATUSES

/-- No accept that gets through its checks names a counter order that is there, or comes for an
order without an agent; no publisher cancels an escalated order; no timeout is for an order that is
terminal, or paid and off the market, or the other side of an order that names it. -/
def Clean (checkLimits : Db → String → Order → Bool) (db : Db) (row : Broadcast) : Prop :=
  match row.content with
  | .accept ref counter_id => ∀ o c, db.order ref = some o → o.status = .published →
      checkLimits db row.sender_address o = true → truthy counter_id = some c →
      db.order c = none ∧ o.agent_address ≠ ""
  | .cancel id _ => ∀ o, db.order id = some o → o.agent_address = row.sender_address →
      o.status ≠ .escalated
  | .timeout id _ _ => ∀ o, db.order id = some o → o.status ∉ TERMINAL_STATES ∧
      (PaymentRecorded o → o.status = .published) ∧ ∀ b, b ≠ id → ¬ MutuallyLinked db id b
  | _ => True

/-! ### Whole calls -/

section Whole

variable {checkLimits : Db → String → Order → Bool} {row : Broadcast}

theorem handleAccept_whole {ref : OrderId} {counter_id : Option OrderId}
    (hclean : ∀ o c, db.order ref = some o → o.status = .published →
      checkLimits db row.sender_address o = true → truthy counter_id = some c →
      db.order c = none ∧ o.agent_address ≠ "") :
    (handleAccept checkLimits now db row ref counter_id).db = db ∨
      Accepted db row.sender_address ref counter_id
        (handleAccept checkLimits now db row ref counter_id).db := by
  rw [handleAccept]
  split
  · exact Or.inl rfl
  split
  · exact Or.inl rfl
  next order ho =>
  have hid : order.id = ref := Table.key_of_get ho
  split
  · exact Or.inl rfl
  next hstatus =>
  split
  · exact Or.inl rfl
  next hlimits =>
  have hs : order.status = .published := by simpa using hstatus
  split
  · exact Or.inl rfl
  · next db' err hcall =>
    rcases callTransition_cases hcall with ⟨rfl, -⟩ | ⟨-, -, hr⟩
    · exact Or.inl rfl
    · cases hr
  · next db' r hcall =>
    obtain ⟨order', ho', rfl⟩ := callTransition_alone rfl hcall
    rw [ho] at ho'
    obtain rfl := Option.some.inj ho'
    subst hid
    refine Or.inr (createCounter_accepted ho hs
      (taken_of_moveOrder ho (callTransition_eq_ok hcall).2) ?_)
    intro c hc
    exact hclean order c ho hs (by simpa using hlimits) hc

theorem handleOrder_whole {sender side : String} :
    (handleOrder now db sender side id).db = db ∨
      Created db id (handleOrder now db sender side id).db := by
  rw [handleOrder]
  split
  · exact Or.inl rfl
  split
  · next db' hcreate =>
    obtain ⟨hfree, ⟨o, ho, -, hs⟩, hkept, hlocks, -⟩ := createOrder_ok hcreate
    refine Or.inr ⟨⟨hfree, o, ho, hs⟩, hkept, ?_⟩
    intro k
    rw [done, hlocks]
  · exact Or.inl rfl

theorem moves_of_lastTransition (now : Nat) (db : Db) (id : OrderId) (s : Status)
    (txHash reason : Option String) :
    (lastTransition now db id s { txHash := txHash, reason := reason }).db = db ∨
      Moves now db id s (lastTransition now db id s { txHash := txHash, reason := reason }).db :=
  lastTransition_cases now db id s _

theorem handlePaid_whole {tx : String} :
    (handlePaid now db id tx).db = db ∨ Moves now db id .paid (handlePaid now db id tx).db := by
  rw [handlePaid]
  split
  · exact Or.inl rfl
  split
  · exact Or.inl rfl
  split
  · exact Or.inl rfl
  · exact moves_of_lastTransition now db id .paid (some tx) none

theorem handleDelivered_whole {tx : String} :
    (handleDelivered now db id tx).db = db ∨
      Moves now db id .completed (handleDelivered now db id tx).db := by
  rw [handleDelivered]
  split
  · exact Or.inl rfl
  split
  · exact Or.inl rfl
  split
  · exact Or.inl rfl
  · exact moves_of_lastTransition now db id .completed (some tx) none

/-- A cancel that does something comes from the publisher. -/
theorem handleCancel_whole {sender : String} {reason : Option String} :
    (handleCancel now db sender id reason).db = db ∨
      ((∃ o, db.order id = some o ∧ o.agent_address = sender) ∧
        Moves now db id .cancelled (handleCancel now db sender id reason).db) := by
  rw [handleCancel]
  split
  · exact Or.inl rfl
  split
  · exact Or.inl rfl
  next order ho =>
  split
  · exact Or.inl rfl
  next hsender =>
  refine (moves_of_lastTransition now db id .cancelled none _).imp_right ?_
  intro h
  exact ⟨⟨order, ho, by simpa using hsender⟩, h⟩

theorem not_names_of_published {o' : Order} {b : OrderId}
    (h : db.order id = some o') (hl : o'.counterparty_order_id = none) : ¬ Names db id b := by
  intro hn
  obtain ⟨o, ho, hb⟩ := hn
  rw [h] at ho
  obtain rfl := Option.some.inj ho
  rw [hl] at hb
  cases hb

theorem counterparty_set_published (o : Order) (opts : Opts) (now : Nat) :
    (o.set .published opts now).counterparty_order_id = none := by
  unfold Order.set
  dsimp only [TIMESTAMP_FIELDS]
  repeat' split
  all_goals simp_all

theorem reverted_of_moveOrder {order : Order} (ho : db.order id = some order)
    (hsync : Synced now db .published id (moveOrder now db order .published opts))
    (hlink : ∀ b, b ≠ id → ¬ MutuallyLinked db id b) :
    Reverted now db id (moveOrder now db order .published opts) := by
  have hnot : ∀ b, ¬ Names (moveOrder now db order .published opts) id b := fun b =>
    not_names_of_published (moveOrder_self ho) (counterparty_set_published order opts now)
  refine ⟨hsync, ?_⟩
  intro b hb
  refine ⟨hnot b, ?_⟩
  intro hback
  by_cases hbid : b = id
  · subst hbid
    exact hnot b hback
  · obtain ⟨c, hc, hcl⟩ := hback
    exact hlink b hbid ⟨hb, c, (moveOrder_ne ho hbid).symm.trans hc, hcl⟩

theorem revertTimeout_whole {reason who : Option String}
    (hlink : ∀ o, db.order id = some o → ∀ b, b ≠ id → ¬ MutuallyLinked db id b) :
    (revertTimeout now db id reason who).db = db ∨
      Reverted now db id (revertTimeout now db id reason who).db := by
  rw [revertTimeout]
  split
  · exact Or.inl rfl
  split
  · exact Or.inl rfl
  next o ho =>
  rw [lastTransition]
  split
  · next db' r hcall =>
    rcases callTransition_cases hcall with ⟨rfl, -⟩ | ⟨-, hsync, rfl⟩
    · exact Or.inl rfl
    · obtain ⟨order, ho', rfl⟩ := callTransition_alone rfl hcall
      exact Or.inr (reverted_of_moveOrder ho' hsync (hlink o ho))
  · exact Or.inl rfl

/-- **A call that meets the condition takes full effect or none.** -/
theorem handle_whole (now : Nat) (hclean : Clean checkLimits db row) :
    (handle checkLimits now db row).db = db ∨
      FullEffect now db row (handle checkLimits now db row).db := by
  unfold Clean at hclean
  unfold handle FullEffect
  cases hc : row.content with
  | order side id => exact handleOrder_whole
  | accept ref counter_id =>
    rw [hc] at hclean
    exact handleAccept_whole hclean
  | paid id tx => exact handlePaid_whole
  | delivered id tx => exact handleDelivered_whole
  | cancel id reason => exact handleCancel_whole.imp_right And.right
  | timeout id reason who =>
    rw [hc] at hclean
    exact revertTimeout_whole fun o ho => (hclean o ho).2.2
  | unhandled t => exact Or.inl rfl

/-! ### Orders that are not to move back -/

/-- Off the market for good: paid and not published, or terminal. -/
def Committed (o : Order) : Prop :=
  o.status ≠ .published ∧ (PaymentRecorded o ∨ o.status ∈ TERMINAL_STATES)

theorem Committed.of_terminal {o : Order} (h : o.status ∈ TERMINAL_STATES) : Committed o := by
  refine ⟨?_, Or.inr h⟩
  intro hs
  rw [hs] at h
  revert h
  decide

/-- The status of a terminal order stays, and what is committed stays committed. -/
structure Stays (db db' : Db) : Prop where
  terminal : ∀ x o, db.order x = some o → o.status ∈ TERMINAL_STATES →
    ∃ o', db'.order x = some o' ∧ o'.status = o.status
  committed : ∀ x o, db.order x = some o → Committed o →
    ∃ o', db'.order x = some o' ∧ Committed o'

theorem Stays.refl (db : Db) : Stays db db :=
  ⟨fun _ o ho _ => ⟨o, ho, rfl⟩, fun _ o ho hc => ⟨o, ho, hc⟩⟩

/-- Nothing happens to committed orders. -/
theorem Stays.of_kept (h : ∀ x o, db.order x = some o → Committed o → db'.order x = db.order x) :
    Stays db db' where
  terminal x o ho ht := ⟨o, (h x o ho (.of_terminal ht)).trans ho, rfl⟩
  committed x o ho hc := ⟨o, (h x o ho hc).trans ho, hc⟩

theorem Created.stays (h : Created db id db') : Stays db db' := by
  refine .of_kept fun x o ho _ => h.kept x ?_
  intro hx
  rw [hx, h.created.1] at ho
  cases ho

theorem Accepted.stays {sender : String} {ref : OrderId} {counter_id : Option OrderId}
    (h : Accepted db sender ref counter_id db') : Stays db db' := by
  refine .of_kept fun x o ho hc => h.kept x ?_ ?_
  · intro hx
    obtain ⟨o₀, ho₀, hs⟩ := h.published
    rw [hx, ho₀] at ho
    obtain rfl := Option.some.inj ho
    exact hc.1 hs
  · intro hx
    rw [(h.counter x hx).1] at ho
    cases ho

theorem Reverted.stays (h : Reverted now db id db')
    (hclean : ∀ o, db.order id = some o → o.status ∉ TERMINAL_STATES ∧
      (PaymentRecorded o → o.status = .published)) : Stays db db' := by
  refine .of_kept fun x o ho hc => h.moved.kept x ?_
  rw [reaches_of_not_synced rfl]
  intro hx
  subst hx
  obtain ⟨hterm, hpaid⟩ := hclean o ho
  exact hc.1 (hpaid (hc.2.resolve_right hterm))

/-- A move that the table allows leaves terminal orders alone, but for an escalated one. -/
theorem Moves.stays (h : Moves now db id s db') (hs : s ∈ [Status.paid, .completed, .cancelled])
    (hesc : s = .cancelled → ∀ o, db.order id = some o → o.status ≠ .escalated) :
    Stays db db' := by
  obtain ⟨⟨order, horder, hallowed⟩, hsync⟩ := h
  have htable : s ∈ VALID_TRANSITIONS order.status := by simpa using hallowed
  have hnot : order.status ∉ TERMINAL_STATES := by
    have hesc' : s = .cancelled → order.status ≠ .escalated := fun h => hesc h order horder
    revert hs htable hesc'
    cases order.status <;> cases s <;> decide
  -- the sync passes terminal orders by, and the one it starts from is not terminal
  have hkeep : ∀ x o, db.order x = some o → o.status ∈ TERMINAL_STATES →
      ¬ Reaches db s id x := by
    intro x o ho ht hr
    rcases Relation.ReflTransGen.cases_tail hr with rfl | ⟨y, -, -, -, c, -, -, hc, hterm, -⟩
    · rw [horder] at ho
      obtain rfl := Option.some.inj ho
      exact hnot ht
    · rw [ho] at hc
      obtain rfl := Option.some.inj hc
      exact hterm ht
  refine ⟨?_, ?_⟩
  · intro x o ho ht
    exact ⟨o, (hsync.kept x (hkeep x o ho ht)).trans ho, rfl⟩
  · intro x o ho hc
    by_cases hr : Reaches db s id x
    · obtain ⟨o', ho', hs'⟩ := hsync.moved x hr
      refine ⟨o', ho', ?_⟩
      unfold Committed PaymentRecorded
      rw [hs']
      revert hs
      cases s <;> simp [POST_PAYMENT_STATUSES, TERMINAL_STATES]
    · exact ⟨o, (hsync.kept x hr).trans ho, hc⟩

theorem handle_stays (now : Nat) (hclean : Clean checkLimits db row) :
    Stays db (handle checkLimits now db row).db := by
  have hrefl : ∀ d, d = db → Stays db d := fun d hd => hd ▸ Stays.refl db
  unfold Clean at hclean
  unfold handle
  cases hc : row.content with
  | order side id => exact handleOrder_whole.elim (hrefl _) Created.stays
  | accept ref counter_id =>
    rw [hc] at hclean
    exact (handleAccept_whole hclean).elim (hrefl _) Accepted.stays
  | paid id tx =>
    refine handlePaid_whole.elim (hrefl _) fun h => h.stays (by decide) ?_
    intro hs
    cases hs
  | delivered id tx =>
    refine handleDelivered_whole.elim (hrefl _) fun h => h.stays (by decide) ?_
    intro hs
    cases hs
  | cancel id reason =>
    rw [hc] at hclean
    refine handleCancel_whole.elim (hrefl _) fun h => h.2.stays (by decide) ?_
    intro _ o ho
    obtain ⟨o', ho', hsender⟩ := h.1
    rw [ho] at ho'
    obtain rfl := Option.some.inj ho'
    exact hclean o ho hsender
  | timeout id reason who =>
    rw [hc] at hclean
    refine (revertTimeout_whole fun o ho => (hclean o ho).2.2).elim (hrefl _) fun h => h.stays ?_
    intro o ho
    exact ⟨(hclean o ho).1, (hclean o ho).2.1⟩
  | unhandled t => exact Stays.refl db

end Whole

/-! ### Runs -/

/-- Every call takes full effect or leaves the orders and locks as they were; at every point of the
run, a terminal order keeps its status from there on, and an order whose payment is on record and
that is off the market is never published again. -/
structure Lawful (checkLimits : Db → String → Order → Bool) (db : Db)
    (cs : List (Nat × Broadcast)) : Prop where
  whole : ∀ before c after, cs = before ++ c :: after →
    Unchanged (play checkLimits db before) (play checkLimits db (before ++ [c])) ∨
      FullEffect c.1 (play checkLimits db before) c.2 (play checkLimits db (before ++ [c]))
  terminal : ∀ before mid after, cs = before ++ mid ++ after → ∀ x o,
    (play checkLimits db before).order x = some o → o.status ∈ TERMINAL_STATES →
      ∃ o', (play checkLimits db (before ++ mid)).order x = some o' ∧ o'.status = o.status
  paid : ∀ before mid after, cs = before ++ mid ++ after → ∀ x o,
    (play checkLimits db before).order x = some o → PaymentRecorded o → o.status ≠ .published →
      ∃ o', (play checkLimits db (before ++ mid)).order x = some o' ∧ o'.status ≠ .published

def CleanRun (checkLimits : Db → String → Order → Bool) : Db → List (Nat × Broadcast) → Prop
  | _, [] => True
  | db, c :: cs =>
    Clean checkLimits db c.2 ∧ CleanRun checkLimits (handle checkLimits c.1 db c.2).db cs

section Runs

variable {checkLimits : Db → String → Order → Bool}

theorem cleanRun_append {db : Db} {as bs : List (Nat × Broadcast)} :
    CleanRun checkLimits db (as ++ bs) ↔
      CleanRun checkLimits db as ∧ CleanRun checkLimits (play checkLimits db as) bs := by
  induction as generalizing db with
  | nil => exact (and_iff_right trivial).symm
  | cons c as ih => exact (and_congr_right fun _ => ih).trans and_assoc.symm

theorem Stays.trans {db'' : Db} (h : Stays db db') (h' : Stays db' db'') : Stays db db'' where
  terminal x o ho ht := by
    obtain ⟨o', ho', hs⟩ := h.terminal x o ho ht
    obtain ⟨o'', ho'', hs'⟩ := h'.terminal x o' ho' (hs ▸ ht)
    exact ⟨o'', ho'', hs'.trans hs⟩
  committed x o ho hc := by
    obtain ⟨o', ho', hc'⟩ := h.committed x o ho hc
    exact h'.committed x o' ho' hc'

theorem play_stays {db : Db} {cs : List (Nat × Broadcast)} (h : CleanRun checkLimits db cs) :
    Stays db (play checkLimits db cs) := by
  induction cs generalizing db with
  | nil => exact Stays.refl db
  | cons c cs ih => exact (handle_stays c.1 h.1).trans (ih h.2)

/-- **When the order messages are lawful.**  What a node does with the messages it receives are the
calls they lead to, and a run whose calls all meet the condition is lawful. -/
theorem orders_lawful (checkLimits : Db → String → Order → Bool) (n : Node)
    (ms : List (Nat × Broadcast)) (h : CleanRun checkLimits n.db (calls checkLimits n ms)) :
    (receive checkLimits n ms).db = play checkLimits n.db (calls checkLimits n ms) ∧
      Lawful checkLimits n.db (calls checkLimits n ms) := by
  refine ⟨receive_eq checkLimits n ms, ?_, ?_, ?_⟩
  · intro before c after hcs
    rw [hcs, cleanRun_append] at h
    rw [play_append]
    rcases handle_whole c.1 h.2.1 with hsame | hfull
    · have hplay : play checkLimits (play checkLimits n.db before) [c] =
          play checkLimits n.db before := hsame
      rw [hplay]
      exact Or.inl (Unchanged.refl _)
    · exact Or.inr hfull
  · intro before mid after hcs x o ho ht
    rw [hcs, cleanRun_append, cleanRun_append] at h
    rw [play_append]
    exact (play_stays h.1.2).terminal x o ho ht
  · intro before mid after hcs x o ho hp hs
    rw [hcs, cleanRun_append, cleanRun_append] at h
    rw [play_append]
    obtain ⟨o', ho', hc⟩ := (play_stays h.1.2).committed x o ho ⟨hs, Or.inl hp⟩
    exact ⟨o', ho', hc.1⟩

end Runs

/-! ### A sale -/

def saleOrder (status : Status) : Order where
  id := "A"
  agent_address := "maker"
  side := "sell"
  peer_address := none
  counterparty_order_id := none
  status := status
  timeout_minutes := 30
  created_at := 0
  accepted_at := none
  paid_at := none
  verified_at := none
  delivered_at := none
  completed_at := none
  payment_txhash := none
  kas_txhash := none
  cancel_reason := none

def saleNode (status : Status) : Node where
  db := ⟨⟨[saleOrder status], List.nodup_singleton _⟩, Table.empty _, Table.empty _⟩
  broadcast_messages := []

/-- Every trade is within the limits. -/
def noLimits : Db → String → Order → Bool := fun _ _ _ => true

def acceptRow : Broadcast := ⟨"t1", "taker", "A", .accept "A" (some "B")⟩

def timeoutRow : Broadcast := ⟨"t2", "maker", "A", .timeout "A" (some "payment") (some "taker")⟩

/-- The order is accepted with a counter order, and the buyer says that it is paid. -/
def saleMessages : List (Nat × Broadcast) :=
  [(1, acceptRow), (2, ⟨"t3", "taker", "A", .paid "B" "p1"⟩)]

theorem orders_lawful_sale :
    Lawful noLimits (saleNode .published).db (calls noLimits (saleNode .published) saleMessages) := by
  have hclean : CleanRun noLimits (saleNode .published).db
      (calls noLimits (saleNode .published) saleMessages) := by
    refine ⟨?_, trivial, trivial⟩
    intro o c ho _ _ hc
    obtain rfl := Option.some.inj ho
    obtain rfl := Option.some.inj hc
    exact ⟨rfl, by decide⟩
  exact (orders_lawful noLimits (saleNode .published) saleMessages hclean).2

/-- A timeout message puts a completed order back on the market. -/
theorem timeout_revives :
    ¬ ∀ checkLimits n ms, Lawful checkLimits n.db (calls checkLimits n ms) := by
  intro h
  have hstatus : ((play noLimits (saleNode .completed).db
      (calls noLimits (saleNode .completed) [(1, timeoutRow)])).order "A").map Order.status =
      some .published := by decide
  obtain ⟨o', ho', hs⟩ := (h noLimits (saleNode .completed) [(1, timeoutRow)]).terminal [] _ []
    (List.append_nil _).symm "A" (saleOrder .completed) rfl (by decide)
  have hcompleted := (congrArg (Option.map Order.status) ho').symm.trans hstatus
  rw [Option.map_some, hs] at hcompleted
  cases hcompleted

end KANet.Trade.Messages
