import KANet.Lib.Along
import Mathlib.Algebra.Order.Ring.Nat
import Mathlib.Data.List.Sort
import Mathlib.Data.Nat.Sqrt

/-!
# The wallet of the relay

Payments, splits and consolidations take the wallet one after the other: each waits for a promise
lock, asks the node for the unspent outputs of its address, leaves out those that it has spent of
late, hands the rest to the generator of the wallet library and submits the transactions that come
out.  What a call has spent is marked for a minute when all of them have been submitted.

* `markUtxoSpent`, `filterPendingUtxos`, `sendKaspa` — `transaction.mjs`; the lock is `waiting`.
* `splitUtxosRelay`, `consolidateUtxosRelay` — `utxo-split.mjs`.
* `Event`, `step` — a call from one wait to the next, and what the node makes of a transaction.

The generator is a parameter.
-/

namespace KANet.Relay.Wallet

open KANet.Lib

/-! ### Outputs and transactions -/

structure Outpoint where
  transactionId : String
  index : Nat
deriving DecidableEq, Repr

/-- An unspent output, as the node lists it. -/
structure Entry where
  outpoint : Outpoint
  amount : Nat
  blockDaaScore : Option Nat
  isCoinbase : Bool
  address : Option String
deriving DecidableEq

/-- A transaction, and whether it makes the outputs that were asked for; the others of a chain only
gather what it takes. -/
structure Tx where
  id : String
  inputs : List Outpoint
  payment : Bool
deriving DecidableEq

/-- What the generator is given. -/
structure Settings where
  entries : List Entry
  outputs : List (String × Nat)
  priorityFee : Nat
  changeAddress : String
  payload : Option String

/-- The transactions that the generator makes, one after the other. -/
abbrev Generator := Settings → List Tx

inductive Request
  | sendKaspa (sender recipient : String) (amountSompi priorityFee : Nat) (payload : Option String)
  | splitUtxos (targetCount : Nat) (force : Bool)
  | consolidateUtxos (minFragments : Nat)

/-- The address of the relay, and the depths that consolidating asks for. -/
structure Config where
  address : String
  DEFRAG_MIN_DEPTH : Nat
  COINBASE_MIN_DEPTH : Nat

/-! ### `transaction.mjs` -/

def FEE_RESERVE_BASE : Nat := 300000

def STRUCTURE_FLOOR_FEE : Nat := 200000

def estimateFeeReserve (payload : Option String) : Nat :=
  match payload.filter (· ≠ "") with
  | none => FEE_RESERVE_BASE
  | some hex =>
    min (max ((hex.length + 1) / 2 * 1000 + STRUCTURE_FLOOR_FEE) FEE_RESERVE_BASE) 100000000

def KIP9_SAFE_CHANGE : Nat := 150000000

def balance (entries : List Entry) : Nat := (entries.map Entry.amount).sum

/-- The largest entry, less a reserve, to oneself; or the smallest that is safe alone, else all. -/
def selectEntries (sender recipient : String) (amountSompi priorityFee : Nat)
    (payload : Option String) (entries : List Entry) : Option (List Entry × Nat) :=
  if amountSompi = 0 ∧ recipient = sender then do
    let feeReserve := max (estimateFeeReserve payload) KIP9_SAFE_CHANGE
    let best ← (entries.insertionSort fun a b => b.amount ≤ a.amount).head?
    if best.amount < feeReserve * 2 then none else some ([best], best.amount - feeReserve)
  else if balance entries < amountSompi + FEE_RESERVE_BASE + priorityFee then none
  else
    let minSafeUtxo := amountSompi + amountSompi * 65 / 100 + FEE_RESERVE_BASE
    let sorted := entries.insertionSort fun a b => a.amount ≤ b.amount
    match sorted.find? (minSafeUtxo ≤ ·.amount) with
    | some safeEntry => some ([safeEntry], amountSompi)
    | none => some (sorted, amountSompi)

def effectivePriorityFee (sender recipient : String) (amountSompi priorityFee : Nat) : Nat :=
  if amountSompi = 0 ∧ recipient = sender then priorityFee else max priorityFee 3000000

/-! ### `utxo-split.mjs` -/

def MIN_BALANCE_FOR_SPLIT : Nat := 20000000

def MIN_OUTPUT_SOMPI : Nat := 50000000

def CHANGE_FLOOR : Nat := 500000000

def maxSafeOutputs (balanceSompi : Nat) : Nat :=
  max 1 (Nat.sqrt ((10 ^ 7 + balanceSompi) / 10 ^ 7) - 1)

def perOutput (totalBalance splitCount : Nat) : Nat :=
  (totalBalance - max 500000 (splitCount * 200000)) / splitCount

/-- The transactions for the largest number of outputs, at most so many, that are not too small. -/
def splitAttempt (c : Config) (gen : Generator) (entries : List Entry) :
    Nat → Option (Nat × List Tx)
  | 0 => none
  | 1 => none
  | n + 2 =>
    let po := perOutput (balance entries) (n + 2)
    if po < MIN_OUTPUT_SOMPI then splitAttempt c gen entries (n + 1)
    else some (n + 2, gen
      { entries, outputs := List.replicate (n + 1) (c.address, po), priorityFee := 500000
        changeAddress := c.address, payload := none })

/-- Deep enough to be gathered. -/
def mature (c : Config) (virtualDaaScore : Nat) (e : Entry) : Bool :=
  e.blockDaaScore.any fun bds =>
    bds + (if e.isCoinbase then c.COINBASE_MIN_DEPTH else c.DEFRAG_MIN_DEPTH) ≤ virtualDaaScore

def sweep (c : Config) (gen : Generator) (minFragments : Nat) (entries : List Entry) :
    Option (List Tx) :=
  let feeReserve := CHANGE_FLOOR + entries.length * 100000
  if entries.length < minFragments ∨ entries.any (fun e => e.address.any (· ≠ c.address)) ∨
      balance entries < MIN_BALANCE_FOR_SPLIT ∨ balance entries ≤ feeReserve then none
  else some (gen
    { entries, outputs := [(c.address, balance entries - feeReserve)], priorityFee := 500000
      changeAddress := c.address, payload := none })

/-! ### The state -/

/-- A call that is submitting: what it was built from and marks in the end, the number of outputs of
a split, what is still to be submitted, and whether something was. -/
structure Sending where
  entries : List Entry
  splitCount : Nat
  rest : List Tx
  sent : Bool

/-- The call that has the lock, under its number; it has asked for the outputs, or is submitting. -/
structure Current where
  call : Nat
  request : Request
  isRetry : Bool
  sending : Option Sending

inductive Outcome
  | accepted
  | refused
  -- accepted, but the reply is lost
  | lost
deriving DecidableEq, Repr

/-- A transaction that was handed to the node. -/
structure Submission where
  call : Nat
  entries : List Entry
  tx : Tx
  time : Nat
  outcome : Outcome

/-- A transaction that is refused spends nothing. -/
def Submission.taken (s : Submission) : Bool := s.outcome ≠ .refused

structure State where
  now : Nat
  calls : Nat
  waiting : List Request
  current : Option Current
  -- with the time until which they are left out
  pendingSpentUtxos : List (Outpoint × Nat)
  submitted : List Submission

def PENDING_UTXO_TTL_MS : Nat := 60000

def markUtxoSpent (now : Nat) (pending : List (Outpoint × Nat)) (e : Entry) :
    List (Outpoint × Nat) :=
  pending.filter (·.1 ≠ e.outpoint) ++ [(e.outpoint, now + PENDING_UTXO_TTL_MS)]

/-- What is not expired. -/
def unexpired (now : Nat) (pending : List (Outpoint × Nat)) : List (Outpoint × Nat) :=
  pending.filter (now ≤ ·.2)

def filterPendingUtxos (pending : List (Outpoint × Nat)) (entries : List Entry) : List Entry :=
  entries.filter fun e => !pending.any (·.1 = e.outpoint)

/-! ### Steps -/

structure Error where
  webSocket : Bool
  storageMass : Bool

/-- What the node says when it is asked. -/
structure Answer where
  isSynced : Bool
  entries : List Entry
  virtualDaaScore : Option Nat

inductive Event
  | call (request : Request)
  | tick (ms : Nat)
  -- the lock is free, and the next call gets it
  | acquire
  | answer (a : Answer)
  -- a request to the node fails, or the generator
  | fail (e : Error)
  | submit (outcome : Outcome) (e : Error)
  -- the generator is done
  | finish

/-- The entries that a call takes, the number of outputs of a split and the transactions. -/
def prepare (c : Config) (gen : Generator) (entries : List Entry) (a : Answer) :
    Request → Option (List Entry × Nat × List Tx)
  | .sendKaspa sender recipient amountSompi priorityFee payload =>
    if !a.isSynced || entries.isEmpty then none
    else (selectEntries sender recipient amountSompi priorityFee payload entries).map
      fun (selected, amount) => (selected, 0, gen
        { entries := selected, outputs := [(recipient, amount)]
          priorityFee := effectivePriorityFee sender recipient amountSompi priorityFee
          changeAddress := sender, payload })
  | .splitUtxos targetCount force =>
    if entries.isEmpty || !force && targetCount ≤ entries.length ||
        balance entries < MIN_BALANCE_FOR_SPLIT then none
    else (splitAttempt c gen entries (min targetCount (maxSafeOutputs (balance entries)))).map
      fun (n, txs) => (entries, n, txs)
  | .consolidateUtxos minFragments => a.virtualDaaScore.bind fun vdaa =>
    let old := entries.filter (mature c vdaa)
    if entries.isEmpty then none else (sweep c gen minFragments old).map fun txs => (old, 0, txs)

def State.release (r : State) : State := { r with current := none }

def State.mark (r : State) (entries : List Entry) : State :=
  { r with pendingSpentUtxos := entries.foldl (markUtxoSpent r.now) r.pendingSpentUtxos }

/-- A payment is tried again when the connection was lost before anything was sent; a split with
fewer outputs when it was too large. -/
def State.onError (c : Config) (gen : Generator) (r : State) (cur : Current) (e : Error) : State :=
  match cur.request, cur.sending with
  | .sendKaspa .., none =>
    if !cur.isRetry && e.webSocket then { r with current := some { cur with isRetry := true } }
    else r.release
  | .sendKaspa .., some s =>
    if !s.sent && !cur.isRetry && e.webSocket then
      { r with current := some { cur with isRetry := true, sending := none } }
    else r.release
  | .splitUtxos .., some s =>
    if e.storageMass then
      match splitAttempt c gen s.entries (s.splitCount - 1) with
      | some (n, txs) =>
        { r with current := some { cur with sending := some ⟨s.entries, n, txs, false⟩ } }
      | none => if s.sent then (r.mark s.entries).release else r.release
    else r.release
  | _, _ => r.release

def answerStep (c : Config) (gen : Generator) (r : State) (cur : Current) (a : Answer) : State :=
  let pending := unexpired r.now r.pendingSpentUtxos
  let r := { r with pendingSpentUtxos := pending }
  match prepare c gen (filterPendingUtxos pending a.entries) a cur.request with
  | none => r.release
  | some (entries, splitCount, txs) =>
    { r with current := some { cur with sending := some ⟨entries, splitCount, txs, false⟩ } }

def submitStep (c : Config) (gen : Generator) (r : State) (cur : Current) (s : Sending)
    (outcome : Outcome) (e : Error) : State :=
  match s.rest with
  | [] => r
  | tx :: rest =>
    let r : State :=
      { r with submitted := r.submitted ++ [⟨cur.call, s.entries, tx, r.now, outcome⟩] }
    if outcome = .accepted then
      { r with current := some { cur with sending := some { s with rest, sent := true } } }
    else r.onError c gen cur e

def finishStep (r : State) (s : Sending) : State :=
  if s.rest.isEmpty then if s.sent then (r.mark s.entries).release else r.release else r

def step (c : Config) (gen : Generator) (r : State) : Event → State
  | .call request => { r with waiting := r.waiting ++ [request] }
  | .tick ms => { r with now := r.now + ms }
  | .acquire =>
    match r.current, r.waiting with
    | none, request :: waiting =>
      { r with calls := r.calls + 1, waiting, current := some ⟨r.calls, request, false, none⟩ }
    | _, _ => r
  | .answer a =>
    (r.current.filter (·.sending.isNone)).elim r fun cur => answerStep c gen r cur a
  | .fail e => r.current.elim r fun cur => r.onError c gen cur e
  | .submit outcome e => r.current.elim r fun cur =>
    cur.sending.elim r fun s => submitStep c gen r cur s outcome e
  | .finish => r.current.elim r fun cur => cur.sending.elim r fun s => finishStep r s

def init : State := ⟨0, 0, [], none, [], []⟩

def run (c : Config) (gen : Generator) (es : List Event) : State := es.foldl (step c gen) init

end KANet.Relay.Wallet
