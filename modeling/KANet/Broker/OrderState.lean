import KANet.Lib.Like
import KANet.Lib.Table
import Mathlib.Algebra.BigOperators.Group.List.Basic
import Mathlib.Algebra.Field.Rat

/-!
# The state of a broker's order

`broker-state-machine.js`, and the one place of `broker-state-authority.js` that changes the state
of an order around it.

* `transition` — the move from a state to another, with the hash it needs for that.  The row is
  changed before the audit row is written, and nothing takes the change back.
* `checkBrokerEscrow`, `reconcileStaleOrders` — what the log of transactions says about orders that
  have waited too long.
* `resetConvoState` — all orders of a user at once.
* `evidence_run` — runs in which orders end only with evidence of the money.

Whatever else is written to the log, to the markers and to the events of the chain is any row.
Amounts are exact where the service uses doubles; times are the texts that SQLite compares.
-/

namespace KANet.Broker.OrderState

open KANet.Lib

/-! ### Orders -/

/-- What the schema allows; the machine knows seven of them. -/
inductive State
  | aligning | confirming | awaiting_payment | paid | executing
  | completed | refunding | refunded | failed | expired
  deriving DecidableEq, Repr

def TERMINAL_STATES : List State := [.completed, .refunded, .failed, .expired]

def ALLOWED_TRANSITIONS : State → Option (List State)
  | .aligning => some [.awaiting_payment, .expired, .failed]
  | .awaiting_payment => some [.paid, .refunded, .failed, .expired]
  | .paid => some [.completed, .failed]
  | .completed => some []
  | .refunded => some []
  | .failed => some []
  | .expired => some []
  | _ => none

def Allowed (s t : State) : Prop := ∃ l, ALLOWED_TRANSITIONS s = some l ∧ t ∈ l

inductive Required
  | paymentTxHash | refundTxHash | refundTxHash_or_no_escrow | refundTxHash_or_aligning
  | deliveryTxHash

def TX_REQUIRED : State → Option Required
  | .paid => some .paymentTxHash
  | .refunded => some .refundTxHash
  | .failed => some .refundTxHash_or_no_escrow
  | .expired => some .refundTxHash_or_aligning
  | .completed => some .deliveryTxHash
  | _ => none

structure Order where
  id : String
  user_kasia_address : String
  -- what `parseFloat` makes of it
  qty : Option ℚ
  created_at : String
  state : State
  pay_tx_hash : Option String
  refund_tx_hash : Option String
  deliver_tx_hash : Option String
  deriving DecidableEq

structure Audit where
  order_id : String
  from_state : State
  to_state : State
  reason : Option String
  triggered_by : Option String
  no_escrow : Bool
  deriving DecidableEq, Repr

/-- A row of `chain_events`; what others write there has a payload of its own. -/
structure ChainEvent where
  txid : String
  event_type : String
  payload : Option Audit
  deriving DecidableEq

def ChainEvent.key (e : ChainEvent) : String × String := (e.txid, e.event_type)

/-- A row of `broker_workflow_markers`, under an id that nothing else has. -/
structure Marker where
  event_type : String
  src_event_id : Option String
  payload : Option Audit
  deriving DecidableEq

structure TxLog where
  tx_id : String
  from_address : Option String
  to_address : Option String
  amount : ℚ
  observed_at : String
  -- the order that the transfer was made for, which no column says
  deposit : Option String
  deriving DecidableEq

structure Db where
  retail_dex_orders : Table Order.id
  chain_events : Table ChainEvent.key
  broker_workflow_markers : List Marker
  kaspa_tx_log : List TxLog

def Db.order (db : Db) (id : String) : Option Order := db.retail_dex_orders.get id

/-! ### Transitions -/

/-- An empty string is none. -/
def truthy (s : Option String) : Option String := s.filter (· ≠ "")

structure Opts where
  paymentTxHash : Option String := none
  refundTxHash : Option String := none
  deliveryTxHash : Option String := none
  reason : Option String := none
  no_escrow : Bool := false
  triggeredBy : Option String := none

structure Call where
  orderId : String
  expectedFromState : State
  toState : State
  opts : Opts

inductive Outcome
  | ok | mismatch | threw
  deriving DecidableEq, Repr

def Required.met (c : Call) : Required → Bool
  | .paymentTxHash => (truthy c.opts.paymentTxHash).isSome
  | .refundTxHash => (truthy c.opts.refundTxHash).isSome
  | .refundTxHash_or_no_escrow => (truthy c.opts.refundTxHash).isSome || c.opts.no_escrow
  | .refundTxHash_or_aligning =>
    c.expectedFromState ≠ .awaiting_payment || (truthy c.opts.refundTxHash).isSome
  | .deliveryTxHash => (truthy c.opts.deliveryTxHash).isSome

/-- A transition of the table, with the hash it needs; an unknown state throws like one that is not
in the table. -/
def Call.legal (c : Call) : Bool :=
  (ALLOWED_TRANSITIONS c.expectedFromState).any (c.toState ∈ ·) &&
    (TX_REQUIRED c.toState).all (Required.met c)

def Call.apply (c : Call) (o : Order) : Order :=
  { o with
    state := c.toState
    pay_tx_hash := (truthy c.opts.paymentTxHash).or o.pay_tx_hash
    refund_tx_hash := (truthy c.opts.refundTxHash).or o.refund_tx_hash
    deliver_tx_hash := (truthy c.opts.deliveryTxHash).or o.deliver_tx_hash }

def Db.update (db : Db) (p : Order → Bool) (f : Order → Order) (hf : ∀ o, (f o).id = o.id) : Db :=
  { db with retail_dex_orders := db.retail_dex_orders.updateWhere p f hf }

/-- The unique index on `refund_tx_hash`. -/
def refundTaken (db : Db) (c : Call) : Bool :=
  (truthy c.opts.refundTxHash).any fun h =>
    db.retail_dex_orders.rows.any fun o => o.id ≠ c.orderId && o.refund_tx_hash = some h

def Call.txHash (c : Call) : Option String :=
  (truthy c.opts.refundTxHash).or ((truthy c.opts.paymentTxHash).or (truthy c.opts.deliveryTxHash))

def isRealHash (h : String) : Bool :=
  h.length = 64 && h.toList.all fun c =>
    c.isDigit || ('a' ≤ c && c ≤ 'f') || ('A' ≤ c && c ≤ 'F')

def State.text : State → String
  | .aligning => "aligning"
  | .confirming => "confirming"
  | .awaiting_payment => "awaiting_payment"
  | .paid => "paid"
  | .executing => "executing"
  | .completed => "completed"
  | .refunding => "refunding"
  | .refunded => "refunded"
  | .failed => "failed"
  | .expired => "expired"

def Call.auditPayload (c : Call) : Audit where
  order_id := c.orderId
  from_state := c.expectedFromState
  to_state := c.toState
  reason := truthy c.opts.reason
  triggered_by := truthy c.opts.triggeredBy
  no_escrow := c.opts.no_escrow

def Call.marker (c : Call) : Marker :=
  ⟨"state_" ++ c.toState.text, some c.orderId, some c.auditPayload⟩

def Call.event (c : Call) (txHash : String) : ChainEvent :=
  ⟨txHash, "broker_state_" ++ c.toState.text, some c.auditPayload⟩

/-- Nothing, where the hash has an event of this kind already. -/
def writeAudit (db : Db) (c : Call) : Option Db :=
  match c.txHash.filter isRealHash with
  | some txHash =>
    (db.chain_events.insert (c.event txHash)).map fun events => { db with chain_events := events }
  | none => some { db with broker_workflow_markers := db.broker_workflow_markers ++ [c.marker] }

def Db.cas (db : Db) (c : Call) : Db :=
  db.update (fun o => o.id = c.orderId && o.state = c.expectedFromState) c.apply fun _ => rfl

def transition (db : Db) (c : Call) : Db × Outcome :=
  if !c.legal then (db, .threw)
  else
    match (db.order c.orderId).filter (·.state = c.expectedFromState) with
    | none => (db, .mismatch)
    | some _ =>
      if refundTaken db c then (db, .threw)
      else
        match writeAudit (db.cas c) c with
        -- the row has been changed
        | none => (db.cas c, .threw)
        | some db' => (db', .ok)

/-! ### The reconciler -/

/-- The clock, as SQLite reads it. -/
structure Clock where
  now : String
  julianNow : ℚ
  julianday : String → Option ℚ
  -- an hour after the process began, in the format of JavaScript
  graceCutoff : String

/-- SQLite compares texts by their characters. -/
def textLe (a b : String) : Bool := !decide (b.toList < a.toList)

def TRADER_B_KAS_ADDR : String :=
  "kaspa:qrxw764gez624hfkfvpmzfx8a4mg2vze5n6vsgu8fymewrkuphy65lxur9c5l"

def TxLog.inbound (qty : ℚ) (orderCreatedAt : String) (t : TxLog) : Bool :=
  t.to_address = some TRADER_B_KAS_ADDR && textLe orderCreatedAt t.observed_at &&
    qty - 1 / 2 ≤ t.amount && t.amount ≤ qty + 1 / 2

def TxLog.outbound (peerAddr orderCreatedAt : String) (t : TxLog) : Bool :=
  t.from_address = some TRADER_B_KAS_ADDR && t.to_address = some peerAddr &&
    textLe orderCreatedAt t.observed_at

def total (l : List TxLog) : ℚ := (l.map TxLog.amount).sum

/-- A quantity that is no number is bound as NULL, and finds nothing. -/
def checkBrokerEscrow (log : List TxLog) (peerAddr : String) (qty : Option ℚ)
    (orderCreatedAt : String) : Bool :=
  qty.any fun qty =>
    total (log.filter (TxLog.inbound qty orderCreatedAt)) ≠ 0 &&
      qty - 1 / 2 ≤ total (log.filter (TxLog.inbound qty orderCreatedAt)) -
        total (log.filter (TxLog.outbound peerAddr orderCreatedAt))

/-- `id NOT IN (SELECT src_event_id … LIKE '%paid%')`: a NULL among them excludes every id. -/
def unmarked (db : Db) (id : String) : Bool :=
  db.broker_workflow_markers.all fun m =>
    !like (containing "paid".toList) m.event_type.toList || m.src_event_id.any (· ≠ id)

def staleOrders (clock : Clock) (db : Db) : List Order :=
  (db.retail_dex_orders.rows.filter fun o =>
    o.state = .awaiting_payment &&
      (clock.julianday o.created_at).any (fun t => 30 / 1440 < clock.julianNow - t) &&
        unmarked db o.id &&
          (!textLe clock.now clock.graceCutoff || textLe clock.graceCutoff o.created_at)).take 10

def forceFail (o : Order) : Call where
  orderId := o.id
  expectedFromState := .awaiting_payment
  toState := .failed
  opts :=
    { no_escrow := true
      reason := some "reconcile_no_escrow"
      triggeredBy := some "reconcileStaleOrders" }

def escrowed (db : Db) (o : Order) : Bool :=
  checkBrokerEscrow db.kaspa_tx_log o.user_kasia_address o.qty o.created_at

/-- The calls it makes, one after the other, each with what it finds. -/
def reconcileCalls : Db → List Order → List (Db × Call)
  | _, [] => []
  | db, o :: os =>
    if escrowed db o then reconcileCalls db os
    else (db, forceFail o) :: reconcileCalls (transition db (forceFail o)).1 os

def reconcile (db : Db) (os : List Order) : Db :=
  os.foldl (fun db o => if escrowed db o then db else (transition db (forceFail o)).1) db

def reconcileStaleOrders (clock : Clock) (db : Db) : Db := reconcile db (staleOrders clock db)

/-! ### Resetting a conversation -/

def resetTarget (reason : String) : State := if reason = "completed" then .completed else .failed

def RESET_STATES : List State :=
  [.aligning, .confirming, .awaiting_payment, .paid, .executing, .refunding]

def resets (peer : String) (o : Order) : Bool :=
  o.user_kasia_address = peer && o.state ∈ RESET_STATES

/-- All at once, and without an audit row. -/
def resetConvoState (db : Db) (peer reason : String) : Db :=
  db.update (resets peer) (fun o => { o with state := resetTarget reason }) fun _ => rfl

/-! ### Runs -/

inductive Event
  | call (c : Call)
  | reconcile (clock : Clock)
  | reset (peer reason : String)
  -- what others write
  | order (o : Order)
  | log (t : TxLog)
  | marker (m : Marker)
  | chainEvent (e : ChainEvent)

def step (db : Db) : Event → Db
  | .call c => (transition db c).1
  | .reconcile clock => reconcileStaleOrders clock db
  | .reset peer reason => resetConvoState db peer reason
  | .order o =>
    { db with retail_dex_orders := (db.retail_dex_orders.insert o).getD db.retail_dex_orders }
  | .log t =>
    if db.kaspa_tx_log.any (·.tx_id = t.tx_id) then db
    else { db with kaspa_tx_log := db.kaspa_tx_log ++ [t] }
  | .marker m => { db with broker_workflow_markers := db.broker_workflow_markers ++ [m] }
  | .chainEvent e => { db with chain_events := (db.chain_events.insert e).getD db.chain_events }

def run (db : Db) (es : List Event) : Db := es.foldl step db

/-- The calls of `transition` that are made, each with what it finds. -/
def calls (db : Db) : Event → List (Db × Call)
  | .call c => [(db, c)]
  | .reconcile clock => reconcileCalls db (staleOrders clock db)
  | _ => []

/-! ### Evidence -/

/-- The log holds a transfer to the broker that the user made for this order. -/
def Deposited (db : Db) (id : String) : Prop :=
  ∃ t ∈ db.kaspa_tx_log, t.to_address = some TRADER_B_KAS_ADDR ∧ t.deposit = some id

/-- A delivery or a refund is recorded. -/
def Order.Evidenced (o : Order) : Prop := o.deliver_tx_hash ≠ none ∨ o.refund_tx_hash ≠ none

def EverPaid (db : Db) (es : List Event) (id : String) : Prop :=
  ∃ pre, pre <+: es ∧ ∃ o, (run db pre).order id = some o ∧ o.state = .paid

/-- The one audit row of a call. -/
def Audited (db : Db) (c : Call) (db' : Db) : Prop :=
  (db'.broker_workflow_markers = db.broker_workflow_markers ++ [c.marker] ∧
      db'.chain_events = db.chain_events) ∨
    (db'.broker_workflow_markers = db.broker_workflow_markers ∧
      ∃ txHash, db'.chain_events.rows = db.chain_events.rows ++ [c.event txHash])

/-- A call that is accepted is audited, one that is not changes nothing. -/
def Accounted (db : Db) (c : Call) : Prop :=
  if (transition db c).2 = .ok then Audited db c (transition db c).1 else (transition db c).1 = db

/-- **Orders end only with evidence of the money**, in the step from `db` to `db'`. -/
structure Lawful (db : Db) (e : Event) (db' : Db) : Prop where
  /-- The states of an order form a path of the table. -/
  path : ∀ id o, db.order id = some o → ∃ o', db'.order id = some o' ∧
    (o'.state = o.state ∨ Allowed o.state o'.state)
  final : ∀ id o, db.order id = some o → o.state ∈ TERMINAL_STATES → ∃ o', db'.order id = some o' ∧
    o'.state = o.state
  accounted : ∀ p ∈ calls db e, Accounted p.1 p.2

structure Evidence (start : Db) (es : List Event) : Prop where
  lawful : ∀ pre e post, es = pre ++ e :: post →
    Lawful (run start pre) e (run start (pre ++ [e]))
  /-- An order that was ever paid, or whose deposit is in the log, ends with a transaction. -/
  ends : ∀ pre e post, es = pre ++ e :: post → ∀ id o o', (run start pre).order id = some o →
    (run start (pre ++ [e])).order id = some o' → o.state ∉ TERMINAL_STATES →
    o'.state ∈ TERMINAL_STATES → EverPaid start pre id ∨ Deposited (run start pre) id → o'.Evidenced

/-! ### The condition -/

/-- There is money for the order. -/
def Holds (db : Db) (o : Order) : Prop := o.state = .paid ∨ Deposited db o.id

/-- The audit row of the call finds its place. -/
def Call.Fresh (db : Db) (c : Call) : Prop :=
  ∀ h, c.txHash.filter isRealHash = some h → db.chain_events.get (c.event h).key = none

/-- The step is one the machine is right to take: a call has a fresh hash, and where an order that
there is money for would end by it, the transaction is recorded. -/
def Backed (db : Db) : Event → Prop
  | .call c => c.legal → ∀ o, db.order c.orderId = some o → o.state = c.expectedFromState →
    c.Fresh db ∧ (c.toState ∈ TERMINAL_STATES → Holds db o → (c.apply o).Evidenced)
  | .reconcile clock => ∀ o ∈ staleOrders clock db, escrowed db o = false → Holds db o → o.Evidenced
  | .reset peer reason => ∀ o ∈ db.retail_dex_orders.rows, resets peer o →
    Allowed o.state (resetTarget reason) ∧ (Holds db o → o.Evidenced)
  | _ => True

def BackedRun (start : Db) (es : List Event) : Prop :=
  ∀ pre e post, es = pre ++ e :: post → Backed (run start pre) e

/-! ### One call -/

section Call

variable {db db' : Db} {c : Call} {id : String} {o o' : Order}

theorem order_mem (h : db.order id = some o) : o ∈ db.retail_dex_orders.rows := Table.mem_of_get h

theorem order_id (h : db.order id = some o) : o.id = id := Table.key_of_get h

theorem order_of_mem (h : o ∈ db.retail_dex_orders.rows) : db.order o.id = some o :=
  Table.get_of_mem h

theorem order_update (db : Db) (p : Order → Bool) (f : Order → Order) (hf : ∀ o, (f o).id = o.id)
    (id : String) :
    (db.update p f hf).order id = (db.order id).map fun o => if p o then f o else o :=
  Table.get_updateWhere _ _ _ hf _

theorem writeAudit_orders (h : writeAudit db c = some db') :
    db'.retail_dex_orders = db.retail_dex_orders ∧ db'.kaspa_tx_log = db.kaspa_tx_log := by
  unfold writeAudit at h
  split at h
  · obtain ⟨events, -, rfl⟩ := Option.map_eq_some_iff.mp h
    exact ⟨rfl, rfl⟩
  · obtain rfl := Option.some.inj h
    exact ⟨rfl, rfl⟩

theorem writeAudit_audited (h : writeAudit db c = some db') : Audited db c db' := by
  unfold writeAudit at h
  split at h
  · next txHash _ =>
    obtain ⟨events, hevents, rfl⟩ := Option.map_eq_some_iff.mp h
    exact Or.inr ⟨rfl, txHash, Table.rows_of_insert hevents⟩
  · obtain rfl := Option.some.inj h
    exact Or.inl ⟨rfl, rfl⟩

/-- **What a call can do**: nothing, or change its order, and then the audit row may find its place
or not. -/
theorem transition_cases (db : Db) (c : Call) :
    ((transition db c).1 = db ∧ (transition db c).2 ≠ .ok) ∨
      c.legal = true ∧ (∃ o, db.order c.orderId = some o ∧ o.state = c.expectedFromState) ∧
        ((writeAudit (db.cas c) c = none ∧ transition db c = (db.cas c, .threw)) ∨
          ∃ db', writeAudit (db.cas c) c = some db' ∧ transition db c = (db', .ok)) := by
  unfold transition
  split
  · exact Or.inl ⟨rfl, nofun⟩
  · next hlegal =>
    split
    · exact Or.inl ⟨rfl, nofun⟩
    · next o ho =>
      obtain ⟨ho, hstate⟩ := Option.filter_eq_some_iff.mp ho
      split
      · exact Or.inl ⟨rfl, nofun⟩
      · right
        refine ⟨by simpa using hlegal, ⟨o, ho, of_decide_eq_true hstate⟩, ?_⟩
        split
        · next haudit => exact Or.inl ⟨haudit, rfl⟩
        · next db' haudit => exact Or.inr ⟨db', haudit, rfl⟩

theorem log_transition (db : Db) (c : Call) :
    (transition db c).1.kaspa_tx_log = db.kaspa_tx_log := by
  obtain ⟨h, -⟩ | ⟨-, -, ⟨-, h⟩ | ⟨db', haudit, h⟩⟩ := transition_cases db c
  · rw [h]
  · rw [h]
    rfl
  · rw [h]
    exact (writeAudit_orders haudit).2

theorem order_cas (db : Db) (c : Call) (id : String) :
    (db.cas c).order id = (db.order id).map fun o =>
      if o.id = c.orderId && o.state = c.expectedFromState then c.apply o else o :=
  order_update _ _ _ _ _

/-- An order is left alone, or moved by a legal call. -/
theorem order_transition (h : db.order id = some o) :
    (transition db c).1.order id = some o ∨
      (c.legal = true ∧ id = c.orderId ∧ o.state = c.expectedFromState ∧
        (transition db c).1.order id = some (c.apply o)) := by
  have hcas : (db.cas c).order id = some o ∨ (id = c.orderId ∧ o.state = c.expectedFromState ∧
      (db.cas c).order id = some (c.apply o)) := by
    rw [order_cas, h, Option.map_some]
    split
    · next hp =>
      simp only [Bool.and_eq_true, decide_eq_true_eq] at hp
      exact Or.inr ⟨(order_id h).symm.trans hp.1, hp.2, rfl⟩
    · exact Or.inl rfl
  obtain ⟨hsame, -⟩ | ⟨hlegal, -, hmoved⟩ := transition_cases db c
  · rw [hsame]
    exact Or.inl h
  · have horder : (transition db c).1.order id = (db.cas c).order id := by
      obtain ⟨-, h⟩ | ⟨db', haudit, h⟩ := hmoved
      · rw [h]
      · rw [h]
        show db'.retail_dex_orders.get id = (db.cas c).retail_dex_orders.get id
        rw [(writeAudit_orders haudit).1]
    rw [horder]
    obtain hcas | ⟨hid, hstate, hcas⟩ := hcas
    · exact Or.inl hcas
    · exact Or.inr ⟨hlegal, hid, hstate, hcas⟩

theorem allowed_of_legal (h : c.legal = true) : Allowed c.expectedFromState c.toState := by
  unfold Call.legal at h
  obtain ⟨h, -⟩ := Bool.and_eq_true_iff.mp h
  cases hl : ALLOWED_TRANSITIONS c.expectedFromState with
  | none =>
    rw [hl] at h
    cases h
  | some l =>
    rw [hl] at h
    exact ⟨l, hl, of_decide_eq_true h⟩

/-- A fresh hash finds its place among the events. -/
theorem writeAudit_of_fresh (h : c.Fresh db) : ∃ db', writeAudit db c = some db' := by
  unfold writeAudit
  split
  · next txHash htx =>
    cases hins : db.chain_events.insert (c.event txHash) with
    | none =>
      have hnone := h txHash htx
      have htaken := Table.insert_eq_none.mp hins
      rw [hnone] at htaken
      cases htaken
    | some events => exact ⟨_, rfl⟩
  · exact ⟨_, rfl⟩

theorem Audited.of_cas (h : Audited (db.cas c) c db') : Audited db c db' := h

/-- **A call with a fresh hash is accounted for.** -/
theorem accounted_of_fresh (h : c.legal = true → ∀ o, db.order c.orderId = some o →
    o.state = c.expectedFromState → c.Fresh db) : Accounted db c := by
  unfold Accounted
  obtain ⟨hsame, hne⟩ | ⟨hlegal, ⟨o, ho, hstate⟩, ⟨hnone, -⟩ | ⟨db', haudit, hok⟩⟩ :=
    transition_cases db c
  · rw [if_neg hne]
    exact hsame
  · obtain ⟨db', hsome⟩ := writeAudit_of_fresh (show c.Fresh (db.cas c) from h hlegal o ho hstate)
    rw [hnone] at hsome
    cases hsome
  · rw [hok, if_pos rfl]
    exact (writeAudit_audited haudit).of_cas

end Call

/-! ### One step -/

section Step

variable {db : Db} {id : String} {o : Order}

theorem escrowed_congr {db' : Db} (h : db'.kaspa_tx_log = db.kaspa_tx_log) (x : Order) :
    escrowed db' x = escrowed db x := by
  unfold escrowed
  rw [h]

theorem fresh_forceFail (db : Db) (o : Order) : (forceFail o).Fresh db := nofun

/-- The reconciler fails orders that wait for their payment, and no others. -/
theorem order_reconcile (os : List Order) (h : db.order id = some o) :
    (reconcile db os).order id = some o ∨ (o.state = .awaiting_payment ∧
      (∃ x ∈ os, x.id = id ∧ escrowed db x = false) ∧ ∃ o', (reconcile db os).order id = some o' ∧
        o'.state = .failed ∧ o'.deliver_tx_hash = o.deliver_tx_hash ∧
          o'.refund_tx_hash = o.refund_tx_hash) := by
  induction os generalizing db o with
  | nil => exact Or.inl h
  | cons x os ih =>
    show (reconcile (if escrowed db x then db else (transition db (forceFail x)).1) os).order id =
      some o ∨ _ ∧ _ ∧ ∃ o', (reconcile (if escrowed db x then db
        else (transition db (forceFail x)).1) os).order id = some o' ∧ _
    by_cases hx : escrowed db x = true
    · rw [if_pos hx]
      obtain hsame | ⟨hstate, ⟨y, hy, hyid, hye⟩, hfail⟩ := ih h
      · exact Or.inl hsame
      · exact Or.inr ⟨hstate, ⟨y, List.mem_cons_of_mem x hy, hyid, hye⟩, hfail⟩
    · rw [if_neg hx]
      obtain hsame | ⟨-, hid, hstate, hmoved⟩ := order_transition (c := forceFail x) h
      · obtain hsame' | ⟨hstate, ⟨y, hy, hyid, hye⟩, hfail⟩ := ih hsame
        · exact Or.inl hsame'
        · rw [escrowed_congr (log_transition db _)] at hye
          exact Or.inr ⟨hstate, ⟨y, List.mem_cons_of_mem x hy, hyid, hye⟩, hfail⟩
      · obtain hsame' | ⟨hstate', -⟩ := ih hmoved
        · exact Or.inr ⟨hstate, ⟨x, List.mem_cons_self, hid.symm, Bool.eq_false_iff.mpr hx⟩, _,
            hsame', rfl, rfl, rfl⟩
        · cases hstate'

theorem accounted_reconcile (os : List Order) : ∀ p ∈ reconcileCalls db os, Accounted p.1 p.2 := by
  induction os generalizing db with
  | nil =>
    intro p hp
    cases hp
  | cons x os ih =>
    intro p hp
    rw [reconcileCalls] at hp
    split at hp
    · exact ih p hp
    · rcases List.mem_cons.mp hp with rfl | hp
      · exact accounted_of_fresh fun _ _ _ _ => fresh_forceFail db x
      · exact ih p hp

theorem order_reset (h : db.order id = some o) (peer reason : String) :
    (resetConvoState db peer reason).order id =
      some (if resets peer o then { o with state := resetTarget reason } else o) := by
  unfold resetConvoState
  rw [order_update, h]
  rfl

/-- **Where an order can go in one step**, and with what. -/
theorem order_step {e : Event} (hb : Backed db e) (h : db.order id = some o) :
    ∃ o', (step db e).order id = some o' ∧ (o' = o ∨ Allowed o.state o'.state ∧
      (o'.state ∈ TERMINAL_STATES → Holds db o → o'.Evidenced)) := by
  cases e with
  | call c =>
    obtain hsame | ⟨hlegal, rfl, hstate, hmoved⟩ := order_transition (c := c) h
    · exact ⟨o, hsame, Or.inl rfl⟩
    · refine ⟨c.apply o, hmoved, Or.inr ⟨?_, (hb hlegal o h hstate).2⟩⟩
      rw [hstate]
      exact allowed_of_legal hlegal
  | reconcile clock =>
    obtain hsame | ⟨hstate, ⟨x, hx, hxid, hxe⟩, o', ho', hfailed, hdeliver, hrefund⟩ :=
      order_reconcile (staleOrders clock db) h
    · exact ⟨o, hsame, Or.inl rfl⟩
    · refine ⟨o', ho', Or.inr ⟨?_, fun _ hholds => ?_⟩⟩
      · rw [hstate, hfailed]
        exact ⟨_, rfl, by decide⟩
      · have hrow := List.mem_filter.mp (List.mem_of_mem_take hx)
        have hxo : x = o := by
          have hget := order_of_mem hrow.1
          rw [hxid, h] at hget
          exact (Option.some.inj hget).symm
        subst hxo
        have hev := hb x hx hxe hholds
        unfold Order.Evidenced at hev ⊢
        rw [hdeliver, hrefund]
        exact hev
  | reset peer reason =>
    refine ⟨_, order_reset h peer reason, ?_⟩
    split
    · next hr =>
      obtain ⟨hallowed, hev⟩ := hb o (order_mem h) hr
      exact Or.inr ⟨hallowed, fun _ hholds => hev hholds⟩
    · exact Or.inl rfl
  | order new =>
    refine ⟨o, ?_, Or.inl rfl⟩
    show ((db.retail_dex_orders.insert new).getD db.retail_dex_orders).get id = some o
    cases hins : db.retail_dex_orders.insert new with
    | none => exact h
    | some t => exact Table.get_of_insert hins h
  | log t =>
    refine ⟨o, ?_, Or.inl rfl⟩
    simp only [step]
    split
    · exact h
    · exact h
  | marker m => exact ⟨o, h, Or.inl rfl⟩
  | chainEvent e => exact ⟨o, h, Or.inl rfl⟩

theorem not_allowed_of_terminal {s t : State} (hs : s ∈ TERMINAL_STATES) : ¬ Allowed s t := by
  have hnil : ∀ s ∈ TERMINAL_STATES, ALLOWED_TRANSITIONS s = some [] := by decide
  rintro ⟨l, hl, ht⟩
  rw [hnil s hs] at hl
  obtain rfl := Option.some.inj hl
  cases ht

theorem lawful_step {e : Event} (hb : Backed db e) : Lawful db e (step db e) where
  path id o h := by
    obtain ⟨o', ho', rfl | ⟨hallowed, -⟩⟩ := order_step hb h
    · exact ⟨o', ho', Or.inl rfl⟩
    · exact ⟨o', ho', Or.inr hallowed⟩
  final id o h hterm := by
    obtain ⟨o', ho', rfl | ⟨hallowed, -⟩⟩ := order_step hb h
    · exact ⟨o', ho', rfl⟩
    · exact absurd hallowed (not_allowed_of_terminal hterm)
  accounted := by
    intro p hp
    cases e with
    | call c =>
      obtain rfl := List.mem_singleton.mp hp
      exact accounted_of_fresh fun hlegal o ho hstate => (hb hlegal o ho hstate).1
    | reconcile clock => exact accounted_reconcile _ p hp
    | _ => cases hp

end Step

/-! ### Runs -/

theorem run_append (db : Db) (es fs : List Event) : run db (es ++ fs) = run (run db es) fs :=
  List.foldl_append

/-- A paid order stays paid until it ends. -/
theorem paid_or_ended {db : Db} {es : List Event} {id : String} {o : Order}
    (hb : BackedRun db es) (h : db.order id = some o) (hpaid : o.state = .paid) :
    ∃ o', (run db es).order id = some o' ∧ (o'.state = .paid ∨ o'.state ∈ TERMINAL_STATES) := by
  induction es using List.reverseRecOn with
  | nil => exact ⟨o, h, Or.inl hpaid⟩
  | append_singleton es e ih =>
    have hbes : BackedRun db es := by
      intro pre e' post he
      exact hb pre e' (post ++ [e]) (by rw [he, List.append_assoc]; rfl)
    obtain ⟨o₁, ho₁, hstate⟩ := ih hbes
    obtain ⟨o', ho', hcases⟩ := order_step (hb es e [] rfl) ho₁
    refine ⟨o', ?_, ?_⟩
    · rw [run_append]
      exact ho'
    · obtain rfl | ⟨hallowed, -⟩ := hcases
      · exact hstate
      · obtain hpaid | hterm := hstate
        · rw [hpaid] at hallowed
          obtain ⟨l, hl, hmem⟩ := hallowed
          obtain rfl := Option.some.inj hl
          revert hmem
          cases o'.state <;> decide
        · exact absurd hallowed (not_allowed_of_terminal hterm)

/-- **Orders end only with evidence of the money**, in every run whose steps are backed. -/
theorem evidence_run (start : Db) (es : List Event) (hb : BackedRun start es) :
    Evidence start es where
  lawful pre e post he := by
    rw [run_append]
    exact lawful_step (hb pre e post he)
  ends := by
    intro pre e post he id o o' ho ho' hactive hended hmoney
    obtain ⟨o'', hstep, hcases⟩ := order_step (hb pre e post he) ho
    rw [run_append] at ho'
    obtain rfl := Option.some.inj (hstep.symm.trans ho')
    obtain rfl | ⟨-, hev⟩ := hcases
    · exact absurd hended hactive
    · refine hev hended ?_
      obtain ⟨q, ⟨r, rfl⟩, p, hp, hpaid⟩ | hdep := hmoney
      · have hbr : BackedRun (run start q) r := by
          intro pre' e' post' hr
          rw [← run_append]
          refine hb (q ++ pre') e' (post' ++ e :: post) ?_
          rw [he, hr]
          simp
        obtain ⟨p', hp', hstate⟩ := paid_or_ended hbr hp hpaid
        rw [← run_append, ho] at hp'
        obtain rfl := Option.some.inj hp'
        exact Or.inl (hstate.resolve_right hactive)
      · right
        rw [order_id ho]
        exact hdep

theorem backedRun_nil (db : Db) : BackedRun db [] := by
  intro pre e post he
  have hlen := congrArg List.length he
  simp at hlen

theorem BackedRun.cons {db : Db} {e : Event} {es : List Event} (h : Backed db e)
    (hb : BackedRun (step db e) es) : BackedRun db (e :: es) := by
  intro pre e' post he
  cases pre with
  | nil =>
    obtain ⟨rfl, rfl⟩ := List.cons.inj he
    exact h
  | cons x pre =>
    obtain ⟨rfl, rfl⟩ := List.cons.inj he
    exact hb pre e' post rfl

section Sample

private def hashOf (c : Char) : String := String.ofList (List.replicate 64 c)

private def sampleOrder (id : String) : Order where
  id := id
  user_kasia_address := "kaspa:user"
  qty := some 57
  created_at := "2026-05-01 10:00:00"
  state := .awaiting_payment
  pay_tx_hash := none
  refund_tx_hash := none
  deliver_tx_hash := none

private theorem nodup_sample : ([sampleOrder "o", sampleOrder "p"].map Order.id).Nodup := by
  decide

private def sampleDb : Db where
  retail_dex_orders := ⟨[sampleOrder "o", sampleOrder "p"], nodup_sample⟩
  chain_events := Table.empty ChainEvent.key
  broker_workflow_markers := []
  kaspa_tx_log := []

private def payCall (id : String) : Call :=
  ⟨id, .awaiting_payment, .paid, { paymentTxHash := some (hashOf 'a') }⟩

private def deliverCall : Call :=
  ⟨"o", .paid, .completed, { deliveryTxHash := some (hashOf 'b') }⟩

private def dropCall : Call := ⟨"o", .paid, .failed, { no_escrow := true }⟩

theorem evidence_run_delivered :
    ((run sampleDb [.call (payCall "o"), .call deliverCall]).order "o").map Order.state =
        some .completed ∧
      Evidence sampleDb [.call (payCall "o"), .call deliverCall] := by
  refine ⟨by decide +kernel, evidence_run _ _ ?_⟩
  refine .cons (fun _ o _ _ => ⟨fun h _ => rfl, fun hterm => absurd hterm (by decide)⟩) ?_
  refine .cons (fun _ o _ _ => ⟨fun h hh => ?_, fun _ _ => Or.inl (Option.some_ne_none _)⟩)
    (backedRun_nil _)
  have hhash : deliverCall.txHash.filter isRealHash = some (hashOf 'b') := by decide +kernel
  obtain rfl := Option.some.inj (hhash.symm.trans hh)
  decide +kernel

/-- The user pays 58 for 57. -/
private def deposit : TxLog :=
  ⟨hashOf 'c', none, some TRADER_B_KAS_ADDR, 58, "2026-05-01 10:05:00", some "o"⟩

private def sampleClock : Clock where
  now := "2026-05-02 00:00:00"
  julianNow := 1
  julianday _ := some 0
  graceCutoff := "2026-05-01T00:00:00.000Z"

/-- What the order has become. -/
private def endOf (es : List Event) : Option (State × Option String × Option String) :=
  ((run sampleDb es).order "o").map fun o => (o.state, o.refund_tx_hash, o.deliver_tx_hash)

private theorem not_evidence {e₀ e : Event} (hstart : (endOf [e₀]).any fun o =>
      o.1 ∉ TERMINAL_STATES) (hend : endOf [e₀, e] = some (.failed, none, none))
    (hmoney : EverPaid sampleDb [e₀] "o" ∨ Deposited (run sampleDb [e₀]) "o") :
    ¬ Evidence sampleDb [e₀, e] := by
  intro h
  obtain ⟨o', ho', hend⟩ := Option.map_eq_some_iff.mp hend
  unfold endOf at hstart
  cases ho : (run sampleDb [e₀]).order "o" with
  | none =>
    rw [ho] at hstart
    cases hstart
  | some o =>
    rw [ho] at hstart
    obtain ⟨hstate, hrest⟩ := Prod.mk.inj hend
    obtain ⟨hrefund, hdeliver⟩ := Prod.mk.inj hrest
    have hev := h.ends [e₀] e [] rfl "o" o o' ho ho' (by simpa using hstart)
      (by rw [hstate]; decide) hmoney
    obtain hev | hev := hev
    · exact hev hdeliver
    · exact hev hrefund

private theorem paid_sample : EverPaid sampleDb [.call (payCall "o")] "o" :=
  ⟨[.call (payCall "o")], List.prefix_refl _, (payCall "o").apply (sampleOrder "o"),
    by decide +kernel, rfl⟩

/-- An order that was paid fails by a call that says there was nothing to refund, and by a reset of
the conversation; one whose deposit is in the log fails by the reconciler; and a hash that is used
twice changes an order in a call that throws. -/
theorem ended_without_evidence :
    ¬ Evidence sampleDb [.call (payCall "o"), .call dropCall] ∧
      ¬ Evidence sampleDb [.call (payCall "o"), .reset "kaspa:user" "user_restart"] ∧
      ¬ Evidence sampleDb [.log deposit, .reconcile sampleClock] ∧
      ((transition (run sampleDb [.call (payCall "o")]) (payCall "p")).2 = .threw ∧
        ((transition (run sampleDb [.call (payCall "o")]) (payCall "p")).1.order "p").map
          Order.state = some .paid) := by
  refine ⟨not_evidence (by decide +kernel) (by decide +kernel) (Or.inl paid_sample),
    not_evidence (by decide +kernel) (by decide +kernel) (Or.inl paid_sample),
    not_evidence (by decide +kernel) (by decide +kernel) (Or.inr ?_),
    by decide +kernel, by decide +kernel⟩
  exact ⟨deposit, List.mem_singleton_self _, rfl, rfl⟩

end Sample

end KANet.Broker.OrderState
