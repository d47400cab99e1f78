import KANet.Broadcast.SignRequests
import KANet.Lib.LastWrite
import KANet.Lib.Table
import KANet.Settle.CommitteeLists

/-!
# `oracle-pool-chain-scanner.mjs`: who is in the pool of oracles

An oracle enrols, and withdraws, by a broadcast that it has signed.  Each node keeps a row for every
oracle that it has heard of, and derives the pool from its rows and from what the chain has at the
addresses of the stakes; what it derives for a height it keeps.

* `handleOracleStakeEnroll`, `handleOracleStakeWithdraw` — what a broadcast does to the row.
* `scanAndDerivePool` — the pool at a height.
* `run` — broadcasts and scans, in any order.

The rows also keep what the last scan has found, and `chain_events` has a copy of each broadcast;
nothing here reads either.  The signature scheme and the address of a stake are parameters.
-/

namespace KANet.Settle.OraclePool

open KANet.Lib KANet.Script KANet.Payout KANet.Covenant KANet.Settle
open KANet.Broadcast.Markets (hasAll)
open KANet.Predict.Oracles (coerceMember parseInt textOf)

/-! ### Rows -/

inductive Source
  | manual
  | chain_envelope
  deriving DecidableEq

/-- A row of `oracle_stake_enrollments`. -/
structure Enrollment where
  staker_pk_x : Bytes32
  lock_until_daa : ℤ
  p2sh_addr : String
  source : Source
  active : Bool

structure Utxo where
  amount : ℕ
  transactionId : String
  index : ℕ
  deriving DecidableEq

structure Leaf where
  pk_x : Bytes32
  stake_sompi : ℕ
  lock_until_daa : ℤ
  p2sh : String
  outpoint_txid : String
  outpoint_index : ℕ
  deriving DecidableEq

/-- A row of `oracle_pool_chain_view`. -/
structure PoolView where
  snapshot_daa : ℤ
  leaves : List Leaf
  merkle_root : Bytes32

structure Node where
  enrollments : Table Enrollment.staker_pk_x
  views : List PoolView

/-- What comes from outside: the signatures that are good, the addresses of stakes, the settings. -/
structure Env where
  verifyMessage : List Char → Option Json → Bytes32 → Bool
  computeStakeP2SH_v1 : Bytes32 → ℤ → String → Option String
  FINALITY_N : ℕ
  strictChainSource : Bool

/-! ### Broadcasts -/

/-- What is signed: the message without its signature and what the node has added to it. -/
def unsigned : Json → Json
  | .obj ms => .obj (ms.filter fun m => m.1 ∉ ["signature", "_tx", "_from", "_channel", "_at"])
  | v => v

/-- `String(msg.staker_pk_x).toLowerCase()`, where it has 64 digits. -/
def stakerPkX (msg : Json) : Option Bytes32 :=
  let pk := (coerceMember (msg.get "staker_pk_x")).map Char.toLower
  if Broadcast.SignRequests.hexKey pk then readKey (String.ofList pk) else none

def signedBy (env : Env) (msg : Json) (pk : Bytes32) : Bool :=
  env.verifyMessage (Json.text (unsigned msg)) (msg.get "signature") pk

/-- What an oracle asks for. -/
inductive Ask
  | enroll (pk : Bytes32) (lockUntilDaa : ℤ) (p2shAddr : String)
  | withdraw (pk : Bytes32)
  deriving DecidableEq

def Ask.pk : Ask → Bytes32
  | .enroll pk _ _ => pk
  | .withdraw pk => pk

def network (p2sh_addr : String) : String :=
  if "kaspatest:".toList.isPrefixOf p2sh_addr.toList then "testnet-12" else "mainnet"

/-- The checks of an enrolment. -/
def acceptEnroll (env : Env) (msg : Json) : Option Ask := do
  require (hasAll ["staker_pk_x", "lock_until_daa", "p2sh_addr", "signature"] msg)
  let pk ← stakerPkX msg
  let lock ← parseInt (coerceMember (msg.get "lock_until_daa"))
  require (0 < lock)
  let p2sh_addr ← textOf (msg.get "p2sh_addr")
  require (env.computeStakeP2SH_v1 pk lock (network p2sh_addr) = some p2sh_addr)
  require (signedBy env msg pk)
  some (.enroll pk lock p2sh_addr)

/-- The checks of a withdrawal. -/
def acceptWithdraw (env : Env) (msg : Json) : Option Ask := do
  require ((msg.get "staker_pk_x").isSome ∧ (msg.get "signature").isSome)
  let pk ← stakerPkX msg
  require (signedBy env msg pk)
  some (.withdraw pk)

/-- Which handler has the message, by its type. -/
def accept (env : Env) (msg : Json) : Option Ask :=
  match msg.get "t" with
  | some (.str "oracle_stake_enroll_v1") => acceptEnroll env msg
  | some (.str "oracle_stake_withdraw_v1") => acceptWithdraw env msg
  | _ => none

/-- The row is updated, or inserted. -/
def handleOracleStakeEnroll (t : Table Enrollment.staker_pk_x) (pk : Bytes32) (lockUntilDaa : ℤ)
    (p2shAddr : String) : Table Enrollment.staker_pk_x :=
  (t.insert ⟨pk, lockUntilDaa, p2shAddr, .chain_envelope, true⟩).getD
    (t.updateWhere (fun r => r.staker_pk_x = pk)
      (fun r => { r with
        lock_until_daa := lockUntilDaa
        p2sh_addr := p2shAddr
        source := .chain_envelope
        active := true }) fun _ => rfl)

def handleOracleStakeWithdraw (t : Table Enrollment.staker_pk_x) (pk : Bytes32) :
    Table Enrollment.staker_pk_x :=
  t.updateWhere (fun r => r.staker_pk_x = pk) (fun r => { r with active := false }) fun _ => rfl

def apply (t : Table Enrollment.staker_pk_x) : Ask → Table Enrollment.staker_pk_x
  | .enroll pk lock p2sh => handleOracleStakeEnroll t pk lock p2sh
  | .withdraw pk => handleOracleStakeWithdraw t pk

/-! ### The pool at a height -/

def ORACLE_STAKE_MIN_SOMPI : ℕ := 100000000

/-- The rows that are asked about. -/
def Enrollment.pooled (env : Env) (r : Enrollment) : Bool :=
  r.active && (!env.strictChainSource || decide (r.source = .chain_envelope))

/-- What a row comes to: the first of the outputs at its address counts.  A query that fails counts
as no output. -/
def leafOf (snapshotDaa : ℤ) (rpc : String → Option (List Utxo)) (r : Enrollment) :
    Option Leaf := do
  require (snapshotDaa < r.lock_until_daa)
  let entries ← rpc r.p2sh_addr
  let utxo ← entries.head?
  require (ORACLE_STAKE_MIN_SOMPI ≤ utxo.amount)
  some ⟨r.staker_pk_x, utxo.amount, r.lock_until_daa, r.p2sh_addr, utxo.transactionId, utxo.index⟩

def validLeaves (env : Env) (snapshotDaa : ℤ) (rpc : String → Option (List Utxo))
    (rows : List Enrollment) : List Leaf :=
  ((rows.filter fun r => r.pooled env).filterMap (leafOf snapshotDaa rpc)).mergeSort
    fun a b => keyLe a.pk_x b.pk_x

/-- Of no leaves, or too many, there is no tree. -/
def derive (e : Engine) (env : Env) (n : Node) (snapshotDaa : ℤ)
    (rpc : String → Option (List Utxo)) : Option PoolView :=
  let valid := validLeaves env snapshotDaa rpc n.enrollments.rows
  (buildPoolMerkleTree e (valid.map Leaf.pk_x)).map fun tree =>
    ⟨snapshotDaa, valid, tree.root e⟩

def view (n : Node) (snapshotDaa : ℤ) : Option PoolView :=
  n.views.find? fun v => v.snapshot_daa = snapshotDaa

/-- A view that is there is returned as it is. -/
def scanAndDerivePool (e : Engine) (env : Env) (n : Node) (currentDaa : ℤ)
    (rpc : String → Option (List Utxo)) : Node :=
  let snapshotDaa := currentDaa - env.FINALITY_N
  if snapshotDaa ≤ 0 then n
  else if (view n snapshotDaa).isSome then n
  else match derive e env n snapshotDaa rpc with
    | none => n
    | some v => { n with views := n.views ++ [v] }

/-! ### Steps -/

inductive Event
  | deliver (msg : Json)
  | scan (currentDaa : ℤ) (rpc : String → Option (List Utxo))

def step (e : Engine) (env : Env) (n : Node) : Event → Node
  | .deliver msg => match accept env msg with
    | none => n
    | some ask => { n with enrollments := apply n.enrollments ask }
  | .scan currentDaa rpc => scanAndDerivePool e env n currentDaa rpc

/-- A node that has heard of nothing yet; it may have rows of its own. -/
structure Local where
  rows : Table Enrollment.staker_pk_x
  manual : ∀ r ∈ rows.rows, r.source = .manual

def run (e : Engine) (env : Env) (l : Local) (es : List Event) : Node :=
  es.foldl (step e env) ⟨l.rows, []⟩

end KANet.Settle.OraclePool
