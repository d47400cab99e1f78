import KANet.Lib.Along
import Mathlib.Data.Rat.Defs
import Mathlib.Algebra.Order.Ring.Rat
import Mathlib.Algebra.Order.AbsoluteValue.Basic

/-!
# Which payment is for which purchase

A buyer has picked offers, and pays for each in a stable coin on another chain.  The broker looks at
what its wallet has received, and takes a transfer of about the amount of a pick for its payment; a
second watcher does so for the orders in which the broker itself is the maker.

* `verifyPaymentForPeer`, `scanned` — the picks of a buyer, before and after the scan.
* `paidMessage` — what the node makes of a message that names a transaction.
* `tick`, `turn`, `settled` — the watcher of the orders, one order after the other.
* `step` — those, and what buyers and chains do, in any order.

A purchase has a number, by which the node does not know it; the log of what was taken for what, and
the list of what has been asked for, are kept beside the node.  Amounts are exact.
-/

namespace KANet.Broker.Payments

/-! ### Purchases -/

/-- A transfer of the stable coin. -/
structure Transfer where
  tx_hash : String
  chain : String
  recipient : String
  amount : ℚ
  block : ℕ
  time : ℕ
  deriving DecidableEq

structure Pick where
  id : String
  take_usdt : ℚ
  maker_addr : String
  paid_tx : Option String
  deriving DecidableEq

/-- What a buyer has accepted. -/
structure Accept where
  serial : ℕ
  picks : List Pick
  pay_chain : String
  expires_at : ℕ
  deriving DecidableEq

/-- A row of `retail_dex_orders` that waits for the picks of a purchase. -/
structure PickRow where
  user_kasia_address : String
  picks_json : Option Accept
  awaiting : Bool
  created_at : ℕ

/-- A row of `retail_dex_orders` in which the broker is the maker. -/
structure Order where
  id : String
  qty : ℚ
  price : ℚ
  pay_address : String
  awaiting : Bool
  expires_at : ℕ
  created_at : ℕ

/-- What a transfer may be for: a pick of a purchase, or an order. -/
inductive Ref
  | pick (serial i : ℕ)
  | order (id : String)
  deriving DecidableEq

/-- What is to be paid, where, and since when. -/
structure Asked where
  ref : Ref
  chain : String
  address : String
  since : ℕ
  deriving DecidableEq

/-- A purchase, as its buyer knows it. -/
structure Purchase where
  serial : ℕ
  peer : String
  picks : List Pick
  pay_chain : String
  expires_at : ℕ
  deriving DecidableEq

/-! ### The node -/

/-- A call of `verifyPaymentForPeer` that waits for its scan: what it looks for, and where. -/
structure Verify where
  peer : String
  waiting : Bool
  accept : Option ℕ
  chain : String
  wallet : String
  /-- The buyer's purchases that were open when it began. -/
  live : List Purchase
  deriving DecidableEq

structure Marker where
  id : List Char
  src_event_id : String

/-- A tick of the watcher: the orders that are left, what the scan has shown, and the order that is
being published. -/
structure Tick where
  orders : List Order
  events : List Transfer
  current : Option (Order × Transfer)

structure State where
  now : ℕ
  head : String → ℕ
  chain : List Transfer
  accepts : List Accept
  pendingAccepts : List (String × ℕ)
  rows : List PickRow
  orders : List Order
  verifies : List Verify
  ticks : List Tick
  markers : List Marker
  taken : List (String × Ref)
  asked : List Asked
  purchases : List Purchase
  cancelled : List ℕ

def init : State := ⟨0, fun _ => 0, [], [], [], [], [], [], [], [], [], [], [], []⟩

/-- The wallets of the broker, by chain. -/
abbrev Wallets := String → Option String

/-! ### Scans -/

/-- What `scanRecentTransfers` can read. -/
def scannable : List String := ["bnb", "eth", "polygon"]

def EVM_RPC : List String := ["bnb", "eth", "polygon", "arbitrum", "optimism", "avalanche", "base"]

def SCAN_SPAN_BLOCKS : ℕ := 1500

def recent (s : State) (t : Transfer) : Bool := s.head t.chain ≤ t.block + SCAN_SPAN_BLOCKS

def scanRecentTransfers (s : State) (chain recipient : String) : List Transfer :=
  s.chain.filter fun t => t.chain = chain ∧ t.recipient = recipient ∧ recent s t

/-- Within one per cent; of nothing, nothing is. -/
def near (expected : ℚ) (t : Transfer) : Bool :=
  expected ≠ 0 ∧ |t.amount - expected| / expected ≤ 1 / 100

/-! ### The map of purchases -/

def PENDING_ACCEPT_TTL : ℕ := 30 * 60

def TWO_HOURS : ℕ := 2 * 60 * 60

def State.pending (s : State) (peer : String) : Option ℕ := s.pendingAccepts.lookup peer

def State.forget (s : State) (peer : String) : State :=
  { s with pendingAccepts := s.pendingAccepts.filter fun e => e.1 ≠ peer }

/-- A purchase is put into the map. -/
def State.remember (s : State) (peer : String) (a : Accept) : State :=
  { s with
    accepts := s.accepts ++ [a]
    pendingAccepts := (peer, s.accepts.length) ::
      s.pendingAccepts.filter fun e => e.1 ≠ peer }

/-- The newest row that has the picks of a purchase, within two hours. -/
def storedPicks (s : State) (peer : String) : Option Accept :=
  (((s.rows.filter fun r => r.user_kasia_address = peer ∧ r.awaiting ∧ r.picks_json.isSome ∧
    s.now < r.created_at + TWO_HOURS).mergeSort
      fun r r' => decide (r'.created_at ≤ r.created_at)).head?).bind PickRow.picks_json

def Purchase.asks (p : Purchase) (since : ℕ) : List Asked :=
  p.picks.mapIdx fun i pick => ⟨.pick p.serial i, p.pay_chain, pick.maker_addr, since⟩

/-- A purchase is accepted. -/
def accepted (s : State) (peer : String) (picks : List Pick) (pay_chain : String) : State :=
  let unpaid := picks.map fun p => { p with paid_tx := none }
  let a : Accept := ⟨s.purchases.length, unpaid, pay_chain, s.now + PENDING_ACCEPT_TTL⟩
  let p : Purchase := ⟨a.serial, peer, unpaid, pay_chain, a.expires_at⟩
  { s.remember peer a with
    purchases := s.purchases ++ [p]
    asked := s.asked ++ p.asks s.now }

/-- `YES` to a quote. -/
def confirmQuote (s : State) (peer : String) (picks : List Pick) (pay_chain : String) : State :=
  accepted s peer picks pay_chain

/-- The end of `finalizeBuy`, which also writes the picks into the rows that wait for them. -/
def finalizeBuy (s : State) (peer : String) (picks : List Pick) (pay_chain : String) : State :=
  if ((s.pending peer).bind fun i => s.accepts[i]?).any fun a => s.now < a.expires_at then s
  else
    let s' := accepted s peer picks pay_chain
    { s' with rows := s'.rows.map fun r =>
        if r.user_kasia_address = peer ∧ r.awaiting ∧ s.now < r.created_at + TWO_HOURS then
          { r with picks_json := s'.accepts.getLast? }
        else r }

/-- `NO`, which counts as long as nothing is paid. -/
def cancel (s : State) (peer : String) : State :=
  match (s.pending peer).bind fun i => s.accepts[i]? with
  | none => s
  | some a =>
    if a.expires_at ≤ s.now then s.forget peer
    else if a.picks.any fun p => p.paid_tx.isSome then s
    else { s.forget peer with cancelled := s.cancelled ++ [a.serial] }

/-! ### The payment of a pick -/

def Pick.paidBy (p : Pick) (tx : String) : Pick := { p with paid_tx := some tx }

/-- A pick is marked, and `paid_v1` sent. -/
def State.markPaid (s : State) (a : Accept) (obj i : ℕ) (tx : String) : State :=
  { s with
    accepts := s.accepts.modify obj fun a => { a with picks := a.picks.modify i (·.paidBy tx) }
    taken := s.taken ++ [(tx, .pick a.serial i)] }

/-- What a call restores from the rows. -/
def State.restored (s : State) (peer : String) : State :=
  if (s.pending peer).isSome then s
  else match storedPicks s peer with
    | none => s
    | some a => s.remember peer a

def openOf (s : State) (peer : String) : List Purchase :=
  s.purchases.filter fun p => p.peer = peer ∧ s.now < p.expires_at ∧ p.serial ∉ s.cancelled

/-- Up to the scan; a call that returns before it looks for nothing. -/
def verifyPaymentForPeer (w : Wallets) (s : State) (peer : String) (chain : Option String) :
    State :=
  let s' := s.restored peer
  let idle : Verify := ⟨peer, true, none, "", "", openOf s peer⟩
  match s'.pending peer with
  | none => { s' with verifies := s'.verifies ++ [idle] }
  | some i => match s'.accepts[i]? with
    | none => { s' with verifies := s'.verifies ++ [idle] }
    | some a =>
      if a.expires_at ≤ s.now then
        { s'.forget peer with verifies := s'.verifies ++ [idle] }
      else
        let payChain := chain.getD a.pay_chain
        if payChain ∈ EVM_RPC then
          match w payChain with
          | none => { s' with verifies := s'.verifies ++ [idle] }
          | some wallet =>
            { s' with verifies :=
                s'.verifies ++ [⟨peer, true, some i, payChain, wallet, openOf s peer⟩] }
        else { s' with verifies := s'.verifies ++ [idle] }

/-- The unpaid picks, each with the first transfer of about its amount. -/
def matched (a : Accept) (events : List Transfer) : List (ℕ × Transfer) :=
  a.picks.zipIdx.filterMap fun x => if x.1.paid_tx.isSome then none
    else (events.find? (near x.1.take_usdt)).map fun t => (x.2, t)

def State.markAll (s : State) (a : Accept) (obj : ℕ) (ms : List (ℕ × Transfer)) : State :=
  ms.foldl (fun s m => s.markPaid a obj m.1 m.2.tx_hash) s

/-- The purchase leaves the map when all of it is paid. -/
def State.settle (s : State) (peer : String) (obj : ℕ) : State :=
  if (s.accepts[obj]?).all fun a => a.picks.all fun p => p.paid_tx.isSome then s.forget peer else s

/-- The scan has come back. -/
def scanned (s : State) (v : Verify) : State :=
  match v.accept.bind fun i => (s.accepts[i]?).map fun a => (i, a) with
  | none => s
  | some (obj, a) =>
    if v.chain ∈ scannable then
      let ms := matched a (scanRecentTransfers s v.chain v.wallet)
      if ms = [] then s else (s.markAll a obj ms).settle v.peer obj
    else s

/-- A message that names a transaction pays for the first unpaid pick. -/
def paidMessage (s : State) (peer tx : String) : State :=
  match (s.pending peer).bind fun i => (s.accepts[i]?).map fun a => (i, a) with
  | none => s
  | some (obj, a) =>
    if a.expires_at ≤ s.now then s.forget peer
    else match a.picks.findIdx? fun p => p.paid_tx.isNone with
      | none => s
      | some i => (s.markPaid a obj i tx).settle peer obj

/-! ### The payment of an order -/

def Order.expectedUsdt (o : Order) : ℚ := o.qty * o.price * 1015 / 1000

def DAY : ℕ := 24 * 60 * 60

/-- The ten newest orders.  The texts of two times of one day are in either order, by their formats,
the one that has not passed. -/
def pendingOrders (s : State) (wallet : String) : List Order :=
  ((s.orders.filter fun o => o.awaiting ∧ o.pay_address = wallet ∧
    s.now / DAY ≤ o.expires_at / DAY ∧ s.now < o.created_at + TWO_HOURS).mergeSort
      fun o o' => decide (o'.created_at ≤ o.created_at)).take 10

/-- A tick reads the orders and scans. -/
def tick (w : Wallets) (s : State) : State :=
  match w "bnb" with
  | none => s
  | some wallet =>
    { s with ticks := s.ticks ++
        [⟨pendingOrders s wallet, scanRecentTransfers s "bnb" wallet, none⟩] }

def State.setTick (s : State) (k : ℕ) (t : Tick) : State := { s with ticks := s.ticks.set k t }

/-- The next order of a tick: passed over, without a match or with a marker for it; or published. -/
def turn (s : State) (k : ℕ) : State :=
  match s.ticks[k]? with
  | none => s
  | some t => match t.orders, t.current with
    | o :: rest, none =>
      match t.events.find? (near o.expectedUsdt) with
      | none => s.setTick k { t with orders := rest }
      | some tx =>
        if s.markers.any fun m => m.src_event_id = tx.tx_hash then
          s.setTick k { t with orders := rest }
        else
          { s.setTick k { t with orders := rest, current := some (o, tx) } with
            taken := s.taken ++ [(tx.tx_hash, .order o.id)] }
    | _, _ => s

def markerId (tx_hash : String) : List Char := "buy_intake_".toList ++ tx_hash.toList.take 16

/-- `_publishBrokerBuyOffer` returns, and the marker is put; or it throws, and so does an id that is
taken. -/
def settled (s : State) (k : ℕ) (ok : Bool) : State :=
  match s.ticks[k]? with
  | none => s
  | some t => match t.current with
    | none => s
    | some (_, tx) =>
      let s' := s.setTick k { t with current := none }
      if ok ∧ ∀ m ∈ s.markers, m.id ≠ markerId tx.tx_hash then
        { s' with markers := s.markers ++ [⟨markerId tx.tx_hash, tx.tx_hash⟩] }
      else s'

/-! ### Steps -/

inductive Event
  /-- A row that waits for picks; it waits no longer. -/
  | draft (peer : String)
  | advance (i : ℕ)
  | confirm (peer : String) (picks : List Pick) (pay_chain : String)
  | finalize (peer : String) (picks : List Pick) (pay_chain : String)
  | cancel (peer : String)
  /-- An order with the broker as the maker; it waits no longer. -/
  | propose (id : String) (qty price : ℚ) (expires_at : ℕ)
  | close (id : String)
  | transfer (tx_hash chain recipient : String) (amount : ℚ)
  | wait (seconds : ℕ)
  | block (chain : String)
  | verify (peer : String) (chain : Option String)
  | scanned (j : ℕ) (ok : Bool)
  | paid (peer tx : String)
  | tick (ok : Bool)
  | turn (k : ℕ)
  | settled (k : ℕ) (ok : Bool)
  | restart

def proposed (w : Wallets) (s : State) (id : String) (qty price : ℚ) (expires_at : ℕ) : State :=
  match w "bnb" with
  | none => s
  | some wallet =>
    if s.orders.any fun o => o.id = id then s
    else
      { s with
        orders := s.orders ++ [⟨id, qty, price, wallet, true, expires_at, s.now⟩]
        asked := s.asked ++ [⟨.order id, "bnb", wallet, s.now⟩] }

def step (w : Wallets) (s : State) : Event → State
  | .draft peer => { s with rows := s.rows ++ [⟨peer, none, true, s.now⟩] }
  | .advance i => { s with rows := s.rows.modify i fun r => { r with awaiting := false } }
  | .confirm peer picks pay_chain => confirmQuote s peer picks pay_chain
  | .finalize peer picks pay_chain => finalizeBuy s peer picks pay_chain
  | .cancel peer => cancel s peer
  | .propose id qty price expires_at => proposed w s id qty price expires_at
  | .close id => { s with orders := s.orders.map fun o =>
      if o.id = id then { o with awaiting := false } else o }
  | .transfer tx_hash chain recipient amount => { s with chain := s.chain ++
      [⟨tx_hash, chain, recipient, amount, s.head chain, s.now⟩] }
  | .wait seconds => { s with now := s.now + seconds }
  | .block chain => { s with head := fun c => if c = chain then s.head c + 1 else s.head c }
  | .verify peer chain => verifyPaymentForPeer w s peer chain
  | .scanned j ok => match s.verifies[j]? with
    | none => s
    | some v =>
      let s' := { s with verifies := s.verifies.set j { v with waiting := false } }
      if v.waiting ∧ ok then Payments.scanned s' v else s'
  | .paid peer tx => paidMessage s peer tx
  | .tick ok => if ok then Payments.tick w s else s
  | .turn k => Payments.turn s k
  | .settled k ok => Payments.settled s k ok
  | .restart => { s with accepts := [], pendingAccepts := [], verifies := [], ticks := [] }

def run (w : Wallets) (es : List Event) : State := es.foldl (step w) init

end KANet.Broker.Payments
