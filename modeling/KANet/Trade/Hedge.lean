import KANet.Lib.Along
import KANet.Lib.Json
import Mathlib.Algebra.Order.Floor.Defs
import Mathlib.Algebra.Order.Floor.Ring
import Mathlib.Data.Rat.Floor

/-!
# The hedge of a completed offer

When an offer has completed, the node trades the KAS back at an exchange and credits the user with
what the exchange paid.

* `Call` — one run of `_executeHedge`, and how far it has come.
* `executeHedge`, `quoted`, `replied`, `booked`, `timedOut` — what it does between two waits.
* `step` — those, in any order, beside the exchange, which takes an order before its reply arrives.

Prices and quantities are exact; the texts of the log and of the messages are left out.
-/

namespace KANet.Trade.Hedge

open KANet.Lib

/-! ### The accounts -/

inductive Side
  | BUY
  | SELL
  deriving DecidableEq

/-- A row of `exchange_accounts`; whether `decrypt` opens its credentials. -/
structure Account where
  exchange : String
  is_default : Bool
  decrypts : Bool

def EXCHANGE_REGISTRY : List String :=
  ["mexc", "gateio", "kucoin", "bybit", "bitget", "htx", "kraken"]

def HEDGE_CEX_MAP : List (String × String) :=
  [("gate", "gateio"), ("gateio", "gateio"), ("mexc", "mexc"), ("bybit", "bybit"),
    ("kucoin", "kucoin"), ("bitget", "bitget"), ("htx", "htx"), ("huobi", "htx"),
    ("binance", "binance"), ("kraken", "kraken")]

def normalized (cex : String) : String :=
  (HEDGE_CEX_MAP.lookup cex.toLower).getD cex.toLower

/-- The account by its exchange if one is preferred, else the default, else the first. -/
def bestAccount (preferredCex : Option String) (accounts : List Account) : Option Account :=
  ((preferredCex.filter (· ≠ "")).bind fun cex =>
      accounts.find? fun a => a.exchange = normalized cex).or
    ((accounts.find? fun a => a.is_default).or accounts.head?)

def Account.usable (a : Account) : Bool := decide (a.exchange ∈ EXCHANGE_REGISTRY) && a.decrypts

/-! ### The tables -/

inductive EventType
  | hedge_skipped
  | hedge_placed
  | hedge_completed
  | hedge_pending_fill
  | hedge_failed
  deriving DecidableEq

/-- A row of `chain_events`; all its types here are `LIKE 'hedge%'`. -/
structure ChainEvent where
  txid : String
  event_type : EventType
  deriving DecidableEq

/-- A row of `user_ledger`, in USDT. -/
structure LedgerRow where
  id : String
  user_kasia_address : String
  balance_change : ℚ
  balance_after : ℚ
  reason : String
  ref_order_id : String

/-- What the exchange did for an order that it filled. -/
structure Fill where
  executedQty : ℚ
  executionPrice : ℚ

/-- A row of the ledger, and the fill that it books. -/
structure Credit where
  row : LedgerRow
  fill : Fill

/-- An order that the exchange took. -/
structure Order where
  offerId : String
  exchange : String
  side : Side
  qty : ℚ
  price : ℚ

inductive Phase
  /-- Waits for `_fetchHedgePrice`. -/
  | quoting
  /-- Waits for `placeOrder`; whether the exchange has taken the order. -/
  | ordering (price : ℚ) (taken : Bool)
  /-- Polls `getCexOrder`. -/
  | polling (price : ℚ) (orderId : String)
  | done
  deriving DecidableEq

/-- A call of `_executeHedge` that got past its checks. -/
structure Call where
  offerId : String
  side : Side
  qty : ℚ
  exchange : String
  userKasia : Option String
  phase : Phase

structure State where
  now : ℕ
  hedgeFailures : List ℕ
  chain_events : List ChainEvent
  credits : List Credit
  calls : List Call
  orders : List Order

def init : State := ⟨0, [], [], [], [], []⟩

def State.ledger (s : State) : List LedgerRow := s.credits.map Credit.row

/-- What a row of `exchange_offers` says in its metadata, by the offer's id: `{}` when `none`.  The
gate reads them from a column `meta`; the migrations name the column `metadata`. -/
structure Config where
  metaColumn : Bool
  offers : String → Option (Option Json)
  named : offers "" = none

/-! ### Checks -/

/-- A member of the metadata; of `null` it throws, which ends the call as well. -/
def metaField (row : Option Json) (key : String) : Option Json := row.bind fun v => v.get key

def hedgeEnabled (row : Option Json) : Bool :=
  match metaField row "hedge_enabled" with
  | some (.bool b) => b
  | _ => false

/-- The user to credit, if the offer names one. -/
def userKasia (row : Option Json) : Option String :=
  match metaField row "user_kasia_address" with
  | some (.str a) => if "kaspa:".toList.isPrefixOf a.toList then some a else none
  | _ => none

def HEDGE_CIRCUIT_WINDOW_MS : ℕ := 60 * 60 * 1000

def HEDGE_CIRCUIT_THRESHOLD : ℕ := 3

/-- The failures of the last hour. -/
def State.recent (s : State) : List ℕ :=
  s.hedgeFailures.filter fun t => s.now < t + HEDGE_CIRCUIT_WINDOW_MS

def isHedgeCircuitOpen (s : State) : Bool := HEDGE_CIRCUIT_THRESHOLD ≤ s.recent.length

/-- The guard against a double hedge. -/
def existingHedge (s : State) (offerId : String) : Bool :=
  s.chain_events.any fun e => e.txid = offerId

/-! ### Records -/

/-- `INSERT OR IGNORE`, unique by transaction and type. -/
def insertOrIgnore (rows : List ChainEvent) (e : ChainEvent) : List ChainEvent :=
  if e.txid = "" ∨ e ∈ rows then rows else rows ++ [e]

def recordChainEvent (s : State) (txid : String) (event_type : EventType) : State :=
  { s with chain_events := insertOrIgnore s.chain_events ⟨txid, event_type⟩ }

/-- `Number.prototype.toFixed(4)`: the nearest, and of two the larger in size. -/
def toFixed4 (x : ℚ) : ℚ :=
  if x < 0 then -(⌊-x * 10000 + 1 / 2⌋ / 10000 : ℚ) else (⌊x * 10000 + 1 / 2⌋ / 10000 : ℚ)

/-- `SUM(balance_change)` of a user. -/
def balance (ledger : List LedgerRow) (user : String) : ℚ :=
  ((ledger.filter fun r => r.user_kasia_address = user).map LedgerRow.balance_change).sum

def State.fail (s : State) : State := { s with hedgeFailures := s.hedgeFailures ++ [s.now] }

/-- The call goes on to its next wait. -/
def State.go (s : State) (i : ℕ) (a : Call) (p : Phase) : State :=
  { s with calls := s.calls.set i { a with phase := p } }

/-! ### Between two waits -/

/-- The checks, up to the price. -/
def executeHedge (c : Config) (s : State) (offerId : String) (side : Side) (qty : ℚ)
    (preferredCex : Option String) (accounts : List Account) : State :=
  if c.metaColumn then
    match c.offers offerId with
    | none => s
    | some row =>
      if hedgeEnabled row then
        if existingHedge s offerId then s
        else if isHedgeCircuitOpen s then
          recordChainEvent { s with hedgeFailures := s.recent } offerId .hedge_skipped
        else
          match bestAccount preferredCex accounts with
          | none => { s with hedgeFailures := s.recent }
          | some account =>
            if account.usable then
              { s with
                hedgeFailures := s.recent
                calls := s.calls ++
                  [⟨offerId, side, qty, account.exchange, userKasia row, .quoting⟩] }
            else { s with hedgeFailures := s.recent }
      else s
  else s -- The query names a column that is not there, and throws.

/-- The limit of the order, from the best ask and bid. -/
def fetchHedgePrice (side : Side) (ticker : Option (ℚ × ℚ)) : Option ℚ :=
  ticker.map fun t => match side with
    | .BUY => t.1 * 1002 / 1000
    | .SELL => t.2 * 998 / 1000

/-- The price has come, or not; zero counts as none. -/
def quoted (s : State) (i : ℕ) (a : Call) (ticker : Option (ℚ × ℚ)) : State :=
  match fetchHedgePrice a.side ticker with
  | none => (s.go i a .done).fail
  | some price => if price = 0 then (s.go i a .done).fail else s.go i a (.ordering price false)

/-- The exchange takes the order. -/
def taken (s : State) (i : ℕ) (a : Call) (price : ℚ) : State :=
  { s.go i a (.ordering price true) with
    orders := s.orders ++ [⟨a.offerId, a.exchange, a.side, a.qty, price⟩] }

/-- The reply of `placeOrder`: the order's id, or `ok: false`. -/
def replied (s : State) (i : ℕ) (a : Call) (price : ℚ) : Option String → State
  | some orderId =>
    recordChainEvent (s.go i a (if a.userKasia.isSome then .polling price orderId else .done))
      a.offerId .hedge_placed
  | none => recordChainEvent (s.go i a .done).fail a.offerId .hedge_failed

def ledgerId (s : State) (offerId : String) : String :=
  "ledger_hedge_" ++ String.ofList (offerId.toList.take 12) ++ "_" ++ toString s.now

/-- The row that books a fill. -/
def creditRow (s : State) (a : Call) (user : String) (price : ℚ) (orderId : String) (fill : Fill) :
    LedgerRow where
  id := ledgerId s a.offerId
  user_kasia_address := user
  balance_change := toFixed4 (fill.executedQty * price)
  balance_after := toFixed4 (balance s.ledger user + toFixed4 (fill.executedQty * price))
  reason := "hedge_filled:" ++ orderId
  ref_order_id := a.offerId

/-- A poll finds the order filled; a row whose id is there already throws. -/
def booked (s : State) (i : ℕ) (a : Call) (user : String) (price : ℚ) (orderId : String)
    (fill : Fill) : State :=
  let row := creditRow s a user price orderId fill
  if s.ledger.any fun r => r.id = row.id then s.go i a .done
  else recordChainEvent { s.go i a .done with credits := s.credits ++ [⟨row, fill⟩] } a.offerId
    .hedge_completed

/-- No poll has found the order filled in time. -/
def timedOut (s : State) (i : ℕ) (a : Call) : State :=
  recordChainEvent (s.go i a .done) a.offerId .hedge_pending_fill

/-- Call and polls end with the process, and the failures are forgotten. -/
def restarted (s : State) : State :=
  { s with hedgeFailures := [], calls := s.calls.map fun a => { a with phase := .done } }

/-! ### Steps -/

inductive Event
  /-- By the API, or by the machine once the delivery is verified. -/
  | call (offerId : String) (side : Side) (qty : ℚ) (preferredCex : Option String)
      (accounts : List Account)
  /-- By the machine that passes the offer's row for its id: the first query throws. -/
  | callRow
  | quote (i : ℕ) (ticker : Option (ℚ × ℚ))
  | take (i : ℕ)
  | reply (i : ℕ) (orderId : Option String)
  | fill (i : ℕ) (fill : Fill)
  | timeout (i : ℕ)
  /-- A poll throws. -/
  | pollError (i : ℕ)
  | wait (ms : ℕ)
  | restart

/-- What a call makes of an answer that it waits for; the exchange confirms what it has taken. -/
def answer (s : State) (i : ℕ) (a : Call) : Event → State
  | .quote _ ticker => match a.phase with
    | .quoting => quoted s i a ticker
    | _ => s
  | .take _ => match a.phase with
    | .ordering price false => taken s i a price
    | _ => s
  | .reply _ orderId => match a.phase with
    | .ordering price true => replied s i a price orderId
    | .ordering price false => if orderId.isNone then replied s i a price none else s
    | _ => s
  | .fill _ fill => match a.phase, a.userKasia with
    | .polling price orderId, some user => booked s i a user price orderId fill
    | _, _ => s
  | .timeout _ => match a.phase with
    | .polling _ _ => timedOut s i a
    | _ => s
  | .pollError _ => match a.phase with
    | .polling _ _ => s.go i a .done
    | _ => s
  | _ => s

/-- The call that an answer is for. -/
def Event.index : Event → Option ℕ
  | .quote i _ | .take i | .reply i _ | .fill i _ | .timeout i | .pollError i => some i
  | _ => none

def step (c : Config) (s : State) (e : Event) : State :=
  match e with
  | .call offerId side qty preferredCex accounts =>
    executeHedge c s offerId side qty preferredCex accounts
  | .wait ms => { s with now := s.now + ms }
  | .restart => restarted s
  | e => (e.index.bind fun i => (s.calls[i]?).map fun a => answer s i a e).getD s

def run (c : Config) (es : List Event) : State := es.foldl (step c) init

end KANet.Trade.Hedge
